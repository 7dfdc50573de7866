import FractalD.Supervisor.Standdown

namespace FractalD.Supervisor.Demands

open FractalD.Core.Lifecycle FractalD.Core.Outcomes FractalD.Core.Record FractalD.Core.Restarts
open FractalD.Core.Spec
open FractalD.Machine.CString FractalD.Machine.Effect FractalD.Supervisor.Coherence
open FractalD.Supervisor.Execution FractalD.Supervisor.Frame FractalD.Supervisor.Launching
open FractalD.Supervisor.Service FractalD.Supervisor.ServicePoll FractalD.Supervisor.Standdown
open FractalD.Supervisor.StartFailure FractalD.Supervisor.System

variable {q : Mode} {c : Core}

theorem retries_congr {r r' : ServiceRecord} (hspec : r'.spec = r.spec)
    (hcount : r'.restartCount = r.restartCount) : retries r' = retries r := by
  simp only [retries, prevented, hspec, hcount]

/-- A failed start whose helpers are still to be killed. -/
structure Failed (q : Mode) (c : Core) : Prop where
  state : c.record.state = .failed
  idle : Idle q { c with startHelper := none, execConditionHelper := none }
  halted : q.halted → c.wantsRunning = false ∧ c.restartAfterStop = false

theorem Failed.sound (h : Failed q c) (hstart : c.startHelper = none)
    (hcondition : c.execConditionHelper = none) (hr : AfterStop c) : Sound q c := by
  have hidle : Idle q c := { h.idle with preparing := hstart, asking := hcondition }
  exact hidle.sound (by simp [h.state, ManagedService.isDown]) hr h.halted

theorem Failed.drops (h : Failed q c) (start condition : Option HelperProcess)
    (deadline : Option Instant) : Failed q { c with
      startHelper := start, execConditionHelper := condition, startDeadline := deadline } :=
  ⟨h.state, { h.idle with }, h.halted⟩

theorem fails_cases (h : Sound q.relaxed c) {r : ServiceRecord} {actions : List Action}
    (hspec : r.spec = c.record.spec) (hs : c.record.state = .starting ∨ c.record.state = .running)
    (hcount : r.restartCount = c.record.restartCount) (hf : Fails c.record r actions)
    (hretries : c.record.pid.isSome → q.paced → retries c.record → c.wantsRunning)
    (hhalted : q.halted → c.wantsRunning = false ∧ c.restartAfterStop = false) :
    Dying q { c with record := r } ∨ actions = [] ∧
      (c.record.state = .starting ∧ c.record.pid = none) ∧ Failed q { c with record := r } := by
  have hrestart : c.restartAt = none := by
    by_contra hne
    have hb := h.waiting (Option.isSome_iff_ne_none.mpr hne)
    rcases hs with hs | hs <;> simp [hs] at hb
  have hlisten : c.listeners = [] := by
    by_contra hne
    have ha := (h.listening hne).2
    rcases hs with hs | hs <;> simp [hs] at ha
  obtain ⟨pid, hp, hp', hs', -⟩ | ⟨hp, hp', hs', hactions⟩ := hf
  · have hne : c.record.pid ≠ none := by simp [hp]
    refine .inl ⟨?_, hs'⟩
    exact {
      spec := hspec.trans h.spec
      alive := fun _ => by simp [hs']
      process := fun _ => by simp [hp']
      gone := fun hn => by simp [hp'] at hn
      preparing := fun ha => absurd (h.preparing ha).2 hne
      asking := fun ha => absurd (h.asking ha).2.1 hne
      listening := fun ha => absurd hlisten ha
      waiting := fun ha => absurd ha (by simp [hrestart])
      released := fun ha => by simp [hs', Startable] at ha
      empty := h.empty
      wanted := fun hq ha => by
        obtain ha | ha := ha
        · simp [hs'] at ha
        · exact hretries (by simp [hp]) hq (retries_congr hspec hcount ▸ ha.2)
      scheduled := fun _ ha => by simp [hs'] at ha
      halted := fun hq => ⟨(hhalted hq).1, (hhalted hq).2, by simp [hs']⟩
      prompt := fun ha => by simp [hs'] at ha
      unhurried := h.unhurried }
  · have hstarting : c.record.state = .starting := by
      refine hs.resolve_right fun hrun => ?_
      have hsome := h.process (by simp [hrun])
      simp [hp] at hsome
    refine .inr ⟨hactions, ⟨hstarting, hp⟩, hs', ?_, hhalted⟩
    exact {
      spec := hspec.trans h.spec
      pid := hp'
      gone := h.gone hp
      preparing := rfl
      asking := rfl
      listening := hlisten
      waiting := hrestart
      empty := h.empty
      unhurried := h.unhurried }

section

variable {ω : Type} (os : Os ω) {e : ManagedService × ω → Prop}

/-- An event by which a service fails that is being started or runs. -/
def Failing (event : ServiceRecord → Event) : Prop :=
  ∀ {r r' : ServiceRecord} {actions : List Action}, r.transition (event r) = .ok (r', actions) →
    (r.state = .starting ∨ r.state = .running) ∧ r'.restartCount = r.restartCount ∧
      Fails r r' actions

theorem startTimedOut_failing : Failing fun r => .startTimedOut r.generation :=
  fun h => (startTimedOut_outcome h).imp_left .inl

theorem startFailed_failing : Failing fun r => .startFailed r.generation := startFailed_outcome

theorem runtimeTimedOut_failing : Failing fun r => .runtimeTimedOut r.generation :=
  fun h => (runtimeTimedOut_outcome h).imp_left .inr

/-- A service that may be given up by its job: nobody counts on its restart, and
nothing is held for a start that has launched nothing. -/
structure Expirable (q : Mode) (c : Core) : Prop where
  calm : q.paced → ¬ (failing c.record ∧ retries c.record)
  final : q.paced → c.record.state ∈ [ServiceState.starting, .running] → c.record.pid.isSome →
    ¬ retries c.record
  released : c.record.state = .starting → c.record.pid = none → AfterStop c

theorem failStarting_sound (describe : String) {event : ServiceRecord → Event}
    (hevent : Failing event) (now : Instant) :
    Leads (On ω fun c => (Quiet q c ∧ Expirable q c) ∧
        (∃ x, c.record.transition (event c.record) = .ok x))
      (failStarting os describe event now) (fun _ => On ω (Sound q)) (On ω (Sound q)) := by
  rintro ⟨m, w⟩ ⟨⟨hm, hx⟩, ⟨r, actions⟩, hr⟩
  have hframe : Insensitive os (On ω (Sound q)) := sound_loose.insensitive
  obtain ⟨hs, hcount, hf⟩ := hevent hr
  refine ends_bind (ends_transition_ok (q := fun _ => On ω (Sound q)) (p := fun a s =>
    Dying q (core s.1) ∨ a = [] ∧ Failed q (core s.1) ∧ AfterStop (core s.1)) hr ?_) ?_
  · obtain hd | ⟨rfl, ⟨hst, hp⟩, hd⟩ := fails_cases hm.toSound (transition_moved hr).spec hs hcount hf
      (fun hp hq hretries => absurd hretries (hx.final hq (List.mem_pair.mpr hs) hp))
      fun _ => ⟨hm.unwanted, hm.settled⟩
    · exact .inl hd
    · exact .inr ⟨rfl, hd, hx.released hst hp⟩
  · rintro actions ⟨m, w⟩ (hd | ⟨rfl, hd, hreleased⟩)
    · -- A service whose process has to exit is sound all along.
      refine ends_bind (applyActions_preserves hframe.deaf _ (m, w) hd.1) fun _ t ht => ?_
      refine ends_bind (p := fun _ => On ω (Sound q)) ht.undated fun _ t ht => ?_
      refine ends_bind (killStartHelper_preserves hframe t ht) fun _ t ht => ?_
      refine ends_bind (killExecConditionHelper_preserves hframe t ht) fun _ t ht => ?_
      refine ends_bind (killStartPostHelper_preserves hframe t ht) fun _ t ht => ?_
      exact armStopDeadline_preserves hframe now t ht
    · have hkill : Leads (On ω fun c => Failed q c ∧ AfterStop c) (do
          update ({ · with startDeadline := none })
          killStartHelper os
          killExecConditionHelper os) (fun _ => On ω (Sound q)) (On ω (Sound q)) := by
        refine leads_update_bind (j := fun c => Failed q c ∧ AfterStop c)
          (fun m hm => ⟨hm.1.drops m.startHelper m.execConditionHelper none, hm.2⟩) ?_
        apply leads_bind (leads_updates (killStartHelper_updates os) (q := fun c =>
          Failed q c ∧ AfterStop c ∧ c.startHelper = none) fun m hm =>
            ⟨hm.1.drops none m.execConditionHelper m.startDeadline, hm.2, rfl⟩)
        intro _
        exact leads_updates (killExecConditionHelper_updates os) fun m hm =>
          (hm.1.drops m.startHelper none m.startDeadline).sound hm.2.2 rfl hm.2.1
      have hrest : Leads (On ω (Sound q)) (do
          killStartPostHelper os
          armStopDeadline now) (fun _ => On ω (Sound q)) (On ω (Sound q)) :=
        leads_bind (killStartPostHelper_preserves hframe) fun _ =>
          armStopDeadline_preserves hframe now
      have hall := leads_bind hkill fun _ => hrest
      simp only [bind_assoc] at hall
      exact hall (m, w) ⟨hd, hreleased⟩

theorem quiet_sound (h : Sound q c) (hcalm : q.paced → ¬ (failing c.record ∧ retries c.record))
    (hs : c.record.state = .active ∨ c.record.state = .stopping) : Sound q { c with
      wantsRunning := false, restartAfterStop := false, restartAt := none,
      runtimeDeadline := none } := by
  have hstate : c.record.state ∉ [ServiceState.starting, .running, .backoff] := by
    rcases hs with hs | hs <;> simp [hs]
  exact { quiet_of_sound h with
    wanted := fun hq ha => (ha.elim hstate (hcalm hq)).elim
    scheduled := fun _ hb => absurd (hb ▸ hs) (by simp)
    halted := fun hq => ⟨rfl, rfl, (h.halted hq).2.2⟩ }

theorem markJobTimeout_sound (now : Instant) :
    Leads (On ω fun c => Sound q c ∧ Expirable q c) (markJobTimeout os now)
      (fun _ => On ω (Sound q)) (On ω (Sound q)) := by
  rintro ⟨m, w⟩ ⟨hs, hx⟩
  simp only [markJobTimeout, update_bind]
  refine ends_bind (ends_updates (killDbusProbe_updates os) (p := fun _ s =>
    (core s.1 = { core m with
      wantsRunning := false, restartAfterStop := false, restartAt := none,
      runtimeDeadline := none })) fun _ => rfl) ?_
  rintro _ ⟨m', w'⟩ hm
  have hrecord : m'.record = m.record := congrArg Core.record hm
  have hquiet : Quiet q (core m') ∧ Expirable q (core m') := by
    rw [hm]
    exact ⟨quiet_of_sound hs, hx.calm, hx.final, hx.released⟩
  simp only [service_bind]
  have hdown (hstate : Startable m'.record.state) : Ends (fun _ => On ω (Sound q))
      (fun _ => On ω (Sound q)) ((do
        let _ ← transition "cannot record job timeout for ".toList fun _ => .jobTimedOut
        update ({ · with startDeadline := none })
        cleanupDirectories os : Op ω Unit) (m', w')) := by
    obtain ⟨x, hr⟩ := jobTimedOut_accepted hstate
    obtain ⟨-, hs', hp⟩ := jobTimedOut_outcome hr
    have hidle := hquiet.1.toSound.idle hstate
    refine ends_bind (ends_transition_ok (p := fun _ s => core s.1 = { core m' with
      record := x.1 }) hr rfl) ?_
    rintro _ ⟨m₂, w₂⟩ h₂
    simp only [update_bind]
    apply ends_updates (cleanupDirectories_updates os)
    intro _
    have hgone : Idle q { core m' with
        record := x.1, startDeadline := none, directories := [], credentialDirectory := none,
        privateTmpPaths := none } := { hidle with
      spec := (transition_moved hr).spec.trans hquiet.1.spec
      pid := hp
      waiting := hquiet.1.unplanned }
    have hsound := hgone.sound (by simp [hs', ManagedService.isDown]) (fun _ _ => ⟨rfl, rfl⟩)
      fun _ => ⟨hquiet.1.unwanted, hquiet.1.settled⟩
    exact (congrArg (fun c : Core => Sound q { c with
      startDeadline := none, directories := [], credentialDirectory := none,
      privateTmpPaths := none }) h₂).mpr hsound
  have hkeep (hstate : m'.record.state = .active ∨ m'.record.state = .stopping) :
      Sound q (core m') := by
    rw [hrecord] at hstate
    rw [hm]
    exact quiet_sound hs hx.calm hstate
  cases hst : m'.record.state with
  | defined | exited | skipped | failed | backoff => exact hdown (by simp [hst, Startable])
  | starting =>
    exact failStarting_sound os _ startTimedOut_failing now (m', w')
      ⟨hquiet, startTimedOut_accepted hst⟩
  | running =>
    exact failStarting_sound os _ startFailed_failing now (m', w')
      ⟨hquiet, startFailed_accepted (.inr hst)⟩
  | active => exact hkeep (.inl hst)
  | stopping => exact hkeep (.inr hst)

theorem resetFailed_sound : Preserves (On ω (Sound q)) (resetFailed os) := by
  rintro ⟨m, w⟩ hm
  have hs : Sound q (core m) := hm
  simp only [resetFailed, service_bind]
  split
  next hfailed =>
    have hidle := hs.idle (by simp [core, hfailed, Startable])
    refine ends_bind (p := fun _ s => ∃ r : ServiceRecord, (r.spec = q.spec ∧ r.pid = none ∧
      r.state = .defined) ∧ core s.1 = { core m with record := r }) ?_ ?_
    · apply ends_transition
      · intro r actions hr
        obtain ⟨hr', hp⟩ := reset_outcome hr
        exact ⟨r, ⟨(transition_moved hr).spec.trans hs.spec, hp, hr'⟩, rfl⟩
      · exact hs
    · rintro _ ⟨m₁, w₁⟩ ⟨r, ⟨hspec, hp, hr⟩, h₁⟩
      simp only [resetTriggerState, update_bind]
      apply ends_updates (cleanupDirectories_updates os)
      intro _
      have hwaiting : m.restartAt = none := by
        by_contra hne
        have hb := hs.waiting (Option.isSome_iff_ne_none.mpr hne)
        simp [core, hfailed] at hb
      have hgone : Idle q { core m with
          record := r, runtimeDeadline := none, directories := [], credentialDirectory := none,
          privateTmpPaths := none } := { hidle with
        spec := hspec
        pid := hp
        gone := hidle.gone.untimed
        waiting := hwaiting }
      have hsound := hgone.sound (by simp [hr, ManagedService.isDown]) (fun _ _ => ⟨rfl, rfl⟩)
        fun hq => ⟨(hs.halted hq).1, (hs.halted hq).2.1⟩
      exact (congrArg (fun c : Core => Sound q { c with
        runtimeDeadline := none, directories := [], credentialDirectory := none,
        privateTmpPaths := none }) h₁).mpr hsound
  next => exact hm

/-- A mount or a device that goes away leaves nothing of its unit. -/
theorem markLost_sound (describe : String) :
    Leads (On ω fun c => Sound q c ∧ c.record.state = .active ∧ c.listeners = [])
      (markLost os describe) (fun _ => On ω (Sound q)) (On ω (Sound q)) := by
  rintro ⟨m, w⟩ ⟨hs, hstate, hlisten⟩
  have hactive : m.record.state = .active := hstate
  have hfree : ¬ q.halted := fun hq => (hs.halted hq).2.2 hactive
  obtain ⟨r, actions, hr, -⟩ := stop_ok m.record
  obtain ⟨hp, -, ⟨hst, -⟩ | ⟨-, hr', -⟩ | ⟨hst, -⟩⟩ := stopRequested_outcome hr
  · rcases hst with hst | hst <;> cases hst.symm.trans hactive
  · have hnone : m.record.pid = none := by
      by_contra hne
      have ha : m.record.state ∈ [ServiceState.starting, .running, .stopping] :=
        hs.alive (Option.isSome_iff_ne_none.mpr hne)
      simp [hactive] at ha
    have hn {state : ServiceState} (hst : (core m).record.state = state) (hne : state ≠ .active) :
        False := hne (hst.symm.trans hactive)
    have hidle : Idle q { core m with
        record := r, wantsRunning := false, directories := [], credentialDirectory := none,
        privateTmpPaths := none } := {
      spec := (transition_moved hr).spec.trans hs.spec
      pid := hp.trans hnone
      gone := hs.gone hnone
      preparing := by
        by_contra hne
        exact hn (hs.preparing (Option.isSome_iff_ne_none.mpr hne)).1 (by simp)
      asking := by
        by_contra hne
        exact hn (hs.asking (Option.isSome_iff_ne_none.mpr hne)).1 (by simp)
      listening := hlisten
      waiting := by
        by_contra hne
        exact hn (hs.waiting (Option.isSome_iff_ne_none.mpr hne)) (by simp)
      empty := hs.empty
      unhurried := hs.unhurried }
    simp only [markLost, update_bind]
    refine ends_bind (ends_transition_ok (p := fun _ s => core s.1 = { core m with
      record := r, wantsRunning := false }) hr rfl) ?_
    rintro _ ⟨m₁, w₁⟩ h₁
    apply ends_updates (cleanupDirectories_updates os)
    intro _
    have hsound := hidle.sound (by simp [hr', ManagedService.isDown]) (fun _ _ => ⟨rfl, rfl⟩)
      fun hq => absurd hq hfree
    exact (congrArg (fun c : Core => Sound q { c with
      directories := [], credentialDirectory := none, privateTmpPaths := none }) h₁).mpr hsound
  · simp [hactive] at hst

/-- A service that has no process takes the descriptors that it is given. -/
def Takes (c : Core) : Prop := c.child = none ∧ c.record.state ≠ .running

/-- One that promises to hold no descriptors is given none. -/
theorem setActivationFds_sound {fds : List Nat} {names : List Str} :
    Leads (On ω fun c => Sound q c ∧ (q.empty → Takes c → fds = [] ∧ names = []))
      (setActivationFds os fds names) (fun _ => On ω (Sound q)) e := by
  rintro ⟨m, w⟩ ⟨hm, hnone⟩
  simp only [setActivationFds, service_bind]
  split
  next htakes =>
    refine ends_bind (ends_updates (clearActivationFds_updates os) (p := fun _ => On ω fun c =>
      Sound q c ∧ c.activation = ([], [], [])) fun _ => ⟨sound_loose.activation hm, rfl⟩) ?_
    rintro _ ⟨m', w'⟩ ⟨hm', hempty⟩
    have howned : m'.activationOwnedFds = [] := congrArg (fun a => a.2.2) hempty
    have hgiven : q.empty → (names, fds, m'.activationOwnedFds) = ([], [], []) := by
      intro hq
      obtain ⟨rfl, rfl⟩ := hnone hq ⟨Option.isNone_iff_eq_none.mp htakes.1, htakes.2⟩
      rw [howned]
    exact { hm' with empty := hgiven }
  next => exact hm

theorem setActivationConnection_sound {fd : Nat} :
    Leads (On ω fun c => Sound q c ∧ (q.empty → ¬ Takes c)) (setActivationConnection os fd)
      (fun _ => On ω (Sound q)) e := by
  rintro ⟨m, w⟩ ⟨hm, hnone⟩
  simp only [setActivationConnection, service_bind]
  split
  next htakes =>
    have hfull : ¬ q.empty := fun hq =>
      hnone hq ⟨Option.isNone_iff_eq_none.mp htakes.1, htakes.2⟩
    refine ends_bind (ends_updates (clearActivationFds_updates os) (p := fun _ => On ω (Sound q))
      fun _ => sound_loose.activation hm) ?_
    rintro _ ⟨m', w'⟩ hm'
    have hsound : Sound q (core m') := hm'
    exact { hsound with empty := fun hq => absurd hq hfull }
  next => exact hm

end

section

variable {ω : Type} (os : Os ω) (hfree : ¬ q.halted) (hclock : q.clock = none) (now : Instant)

include hfree hclock

theorem start_unclocked :
    Leads (On ω (Sound q)) (start os now) (fun _ => On ω (Sound q)) (On ω (Sound q)) :=
  start_sound os hfree fun t ht => by simp [hclock] at ht

theorem restart_sound :
    Leads (On ω fun c => Sound q c ∧ Stoppable os q c) (restart os now)
      (fun _ => On ω (Sound q)) (On ω (Sound q)) := by
  rintro ⟨m, w⟩ ⟨hs, hc⟩
  have hstart := start_unclocked os hfree hclock now
  have hagain {c : Core} (h : Sound q c) (again : Bool) : Sound q { c with
      wantsRunning := true, restartAfterStop := again } :=
    h.again hfree fun _ t ht => by simp [hclock] at ht
  have hwants (hne : m.record.state ≠ .backoff) : Sound q { core m with
      wantsRunning := true, restartAt := none } := hagain (hs.unscheduled hne) m.restartAfterStop
  have hstop (signal : Int) {m : ManagedService} {w : ω} (h : Sound q (core m))
      (hc : Stoppable os q (core m)) : Ends (fun _ => On ω (Sound q)) (fun _ => On ω (Sound q))
        (stopWithSignal os now signal (m, w)) :=
    ends_mono (fun _ _ h => Sound.of_halt h) (fun _ _ h => Sound.of_halt h)
      (stopWithSignal_sound os now signal (m, w) ⟨h, hc⟩)
  simp only [restart, update_bind, service_bind]
  cases hst : m.record.state with
  | running | starting =>
    simp only [stopForRestart, bind_assoc, service_bind]
    refine ends_bind (hstop _ (hwants (by simp [hst])) ⟨hc.calm, hc.runs⟩) fun _ t ht => ?_
    simp only [update_bind, service_bind]
    split
    · simp only [update_bind]
      exact hstart _ (hagain ht false)
    · exact hagain ht true
  | stopping => exact hagain (hs.unscheduled (by simp [core, hst])) true
  | backoff =>
    obtain ⟨r, actions, hr, -⟩ := stop_ok m.record
    obtain ⟨hp, -, ⟨hup, -⟩ | ⟨-, hr', -⟩ | ⟨hdown, -⟩⟩ := stopRequested_outcome hr
    · simp [hst] at hup
    · have hstartable : Startable m.record.state := by simp [hst, Startable]
      have hidle := hs.idle hstartable
      have hexited : Idle q { core m with record := r, wantsRunning := true, restartAt := none } :=
        { hidle with
          spec := (transition_moved hr).spec.trans hs.spec
          pid := hp.trans hidle.pid }
      exact ends_bind (ends_transition_ok (p := fun _ => On ω (Sound q)) hr (hexited.sound
        (congrArg ManagedService.isDown hr') (hs.released hstartable) fun hq => absurd hq hfree))
        fun _ t ht => hstart t ht
    · simp [hst] at hdown
  | active =>
    simp only [Service.stop, bind_assoc, service_bind]
    exact ends_bind (hstop _ (hwants (by simp [hst])) ⟨hc.calm, hc.runs⟩) fun _ t ht => hstart t ht
  | defined | exited | skipped | failed => exact hstart _ (hwants (by simp [hst]))

end

end FractalD.Supervisor.Demands
