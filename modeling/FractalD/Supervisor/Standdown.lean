import FractalD.Supervisor.Launching

namespace FractalD.Supervisor.Standdown

open FractalD.Core.Outcomes FractalD.Core.Record FractalD.Core.Restarts FractalD.Core.Spec
open FractalD.Machine.CString FractalD.Machine.Effect FractalD.Supervisor.Coherence
open FractalD.Supervisor.Execution FractalD.Supervisor.Frame FractalD.Supervisor.Launching
open FractalD.Supervisor.Service FractalD.Supervisor.StartFailure FractalD.Supervisor.Stopping
open FractalD.Supervisor.System

/-- A service that is not wanted any more. -/
structure Quiet (q : Mode) (c : Core) : Prop extends Sound q.relaxed c where
  unwanted : c.wantsRunning = false
  settled : c.restartAfterStop = false
  unplanned : c.restartAt = none

/-- A service whose main process is to exit. -/
def Dying (q : Mode) (c : Core) : Prop := Sound q c ∧ c.record.state = .stopping

/-- A service whose stop has no process to wait for. -/
structure Halting (q : Mode) (holds : Prop) (c : Core) : Prop where
  spec : c.record.spec = q.spec
  pid : c.record.pid = none
  gone : Gone c
  unplanned : c.restartAt = none
  unwanted : c.wantsRunning = false
  settled : c.restartAfterStop = false
  state : c.record.state = .stopping ∨ ManagedService.isDown c.record.state
  preparing : c.startHelper.isSome → c.record.state = .stopping
  asking : c.execConditionHelper.isSome → c.record.state = .stopping
  listening : c.listeners ≠ [] → q.spec.serviceType = .socket
  released : c.record.state ∈ [ServiceState.defined, .skipped, .failed] → AfterStop c
  held : ¬ holds → Released c
  empty : q.empty → c.activation = ([], [], [])

/-- One whose processes have been killed. -/
structure Stopped (q : Mode) (holds : Prop) (c : Core) : Prop extends Idle q c where
  unwanted : c.wantsRunning = false
  settled : c.restartAfterStop = false
  state : ManagedService.isDown c.record.state
  released : c.record.state ≠ .exited → AfterStop c
  held : ¬ holds → Released c

variable {q : Mode} {c : Core} {holds : Prop}

theorem quiet_of_sound (h : Sound q c) : Quiet q { c with
    wantsRunning := false, restartAfterStop := false, restartAt := none, runtimeDeadline := none } where
  spec := h.spec
  alive := h.alive
  process := h.process
  gone hp := (h.gone hp).untimed
  preparing := h.preparing
  asking := h.asking
  listening := h.listening
  waiting := nofun
  released := h.released
  empty := h.empty
  wanted := nofun
  scheduled := nofun
  halted := nofun
  prompt := h.prompt
  unhurried _ _ := nofun
  unwanted := rfl
  settled := rfl
  unplanned := rfl

theorem dying_loose : Loose (Dying q) :=
  sound_loose.and (loose_of_congr fun hr _ _ _ h => hr ▸ h)

theorem halting_loose : Loose (Halting q holds) where
  startHelper h := { h with preparing := nofun }
  execConditionHelper h := { h with asking := nofun }
  listeners h := { h with listening := fun hl => absurd rfl hl }
  activation h := { h with empty := fun _ => rfl }

theorem Quiet.dying (h : Quiet q c) {r : ServiceRecord} (hspec : r.spec = q.spec)
    (hs : r.state = .stopping) (hp : r.pid = c.record.pid) (hpid : c.record.pid.isSome)
    (hcalm : q.paced → ¬ (failing r ∧ retries r)) : Dying q.halt { c with record := r } := by
  have hne : c.record.pid ≠ none := Option.isSome_iff_ne_none.mp hpid
  have hup := h.alive hpid
  refine ⟨?_, hs⟩
  exact {
    spec := hspec
    alive := fun _ => by simp [hs]
    process := fun _ => hp ▸ hpid
    gone := fun hn => absurd (hp.symm.trans hn) hne
    preparing := fun ha => absurd (h.preparing ha).2 hne
    asking := fun ha => absurd (h.asking ha).2.1 hne
    listening := fun ha => by simp [(h.listening ha).2] at hup
    waiting := fun ha => by simp [h.unplanned] at ha
    released := fun ha => by simp [hs, Startable] at ha
    empty := h.empty
    wanted := fun hq ha => by
      obtain ha | ha := ha
      · simp [hs] at ha
      · exact absurd ha (hcalm hq)
    scheduled := fun _ ha => by simp [hs] at ha
    halted := fun _ => ⟨h.unwanted, h.settled, by simp [hs]⟩
    prompt := fun ha => by simp [hs] at ha
    unhurried := h.unhurried }

theorem Quiet.halting (h : Quiet q c) {r : ServiceRecord} (hspec : r.spec = q.spec)
    (hs : r.state = .stopping ∨ ManagedService.isDown r.state) (hp : r.pid = none)
    (hpid : c.record.pid = none) (hstart : c.record.state = .starting → r.state = .stopping)
    (hreleased : r.state ∈ [ServiceState.defined, .skipped, .failed] → AfterStop c)
    (hheld : ¬ holds → Released c) : Halting q.halt holds { c with record := r } where
  spec := hspec
  pid := hp
  gone := h.gone hpid
  unplanned := h.unplanned
  unwanted := h.unwanted
  settled := h.settled
  state := hs
  preparing ha := hstart (h.preparing ha).1
  asking ha := hstart (h.asking ha).1
  listening ha := (h.listening ha).1
  released := hreleased
  held := hheld
  empty := h.empty

theorem Quiet.stops (h : Quiet q c) {r : ServiceRecord} {actions : List Action}
    (hr : c.record.transition .stopRequested = .ok (r, actions))
    (hcalm : q.paced → ¬ (failing c.record ∧ retries c.record)) (hheld : ¬ holds → Released c) :
    Dying q.halt { c with record := r } ∨
      actions = [] ∧ Halting q.halt holds { c with record := r } := by
  have hspec : r.spec = q.spec := (transition_moved hr).spec.trans h.spec
  obtain ⟨hp, hnil, hcase⟩ := stopRequested_outcome hr
  cases hpid : c.record.pid with
  | some pid =>
    have hsome : c.record.pid.isSome := by simp [hpid]
    have hup := h.alive hsome
    refine .inl ?_
    obtain ⟨-, hs, hf⟩ | ⟨hs | hs, -⟩ | ⟨hs, rfl, -⟩ := hcase
    · exact h.dying hspec hs hp hsome fun _ hfr => hf hfr.1
    · simp [hs] at hup
    · simp [hs] at hup
    · refine h.dying hspec ?_ rfl hsome hcalm
      simp only [List.mem_cons, List.not_mem_nil, or_false] at hs hup
      rcases hs with hs | hs | hs | hs | hs <;> simp [hs] at hup ⊢
  | none =>
    refine .inr ⟨hnil hpid, ?_⟩
    have hn : ∀ {state}, c.record.state = state → state ∈ [ServiceState.running, .stopping] →
        False := by
      intro state hs hm
      have hsome := h.process (hs ▸ hm)
      simp [hpid] at hsome
    obtain ⟨hs, hs', -⟩ | ⟨hs, hs', -⟩ | ⟨hs, rfl, -⟩ := hcase
    · exact h.halting hspec (.inl hs') (hp.trans hpid) hpid (fun _ => hs')
        (fun ha => by simp [hs'] at ha) hheld
    · refine h.halting hspec (.inr (by simp [hs', ManagedService.isDown])) (hp.trans hpid) hpid ?_
        (fun ha => by simp [hs'] at ha) hheld
      intro hst
      rcases hs with hs | hs <;> simp [hs] at hst
    · have hdown : ManagedService.isDown c.record.state := by
        simp only [List.mem_cons, List.not_mem_nil, or_false] at hs
        rcases hs with hs | hs | hs | hs | hs
        case inr.inr.inr.inr => exact (hn hs (by simp)).elim
        all_goals simp [hs, ManagedService.isDown]
      refine h.halting hspec (.inr hdown) hpid hpid ?_ ?_ hheld
      · intro hst
        simp [hst, ManagedService.isDown] at hdown
      · exact fun _ => h.released (startable_iff.mpr (.inl hdown))

theorem Stopped.sound (h : Stopped q holds c) (hr : AfterStop c) : Sound q c :=
  h.toIdle.sound h.state hr fun _ => ⟨h.unwanted, h.settled⟩

theorem Stopped.cleaned (h : Stopped q holds c) : Sound q { c with
    directories := [], credentialDirectory := none, privateTmpPaths := none } := by
  have hidle : Idle q { c with
    directories := [], credentialDirectory := none, privateTmpPaths := none } := { h.toIdle with }
  exact hidle.sound h.state (fun _ _ => ⟨rfl, rfl⟩) fun _ => ⟨h.unwanted, h.settled⟩

theorem Stopped.helped (h : Stopped q holds c) (hs : c.record.state = .exited)
    (active post : Option HelperProcess) :
    Stopped q holds { c with activeStopHelper := active, stopPostHelper := post } :=
  { h with released := fun hn => absurd hs hn }

def StopRuns {ω : Type} (os : Os ω) (spec : ServiceSpec) : Prop :=
  ∀ command ∈ spec.stop, ∀ resources w e,
    (os.spawnScript ⟨spec, [command], none, "stop".toList, resources⟩ w).1 ≠ .error e

theorem stopCompleted_ok {r : ServiceRecord} (hs : r.state = .stopping) (hp : r.pid = none) :
    ∃ x, r.transition .stopCompleted = .ok x := by
  refine ⟨({ r with
    state := .exited, restartCount := 0, startFailed := false, runtimeFailed := false }, []), ?_⟩
  simp [ServiceRecord.transition, ServiceRecord.stopCompleted, hs, hp]
  rfl

section

variable {ω : Type} (os : Os ω) {e : ManagedService × ω → Prop}

/-- What a service that is told to stop still has to do. -/
def Leaving (q : Mode) (holds : Prop) (c : Core) : Prop := Dying q c ∨ Halting q holds c

theorem askToStop_leads (signal : Int) :
    Leads (On ω fun c => Quiet q c ∧ (q.paced → ¬ (failing c.record ∧ retries c.record)) ∧
        (¬ holds → Released c))
      (askToStop os signal) (fun _ => On ω (Leaving q.halt holds)) (On ω (Sound q.halt)) := by
  have hask : Leads (On ω fun c => Quiet q c ∧
        (q.paced → ¬ (failing c.record ∧ retries c.record)) ∧ (¬ holds → Released c))
      (do applyActions os (← transition "cannot stop ".toList fun _ => .stopRequested))
      (fun _ => On ω (Leaving q.halt holds)) (On ω (Sound q.halt)) := by
    apply leads_bind (q := fun actions s => Dying q.halt (core s.1) ∨
      actions = [] ∧ Halting q.halt holds (core s.1))
    · rintro ⟨m, w⟩ ⟨hm, hcalm, hheld⟩
      obtain ⟨r, actions, hr, -⟩ := stop_ok m.record
      exact ends_transition_ok hr (hm.stops hr hcalm hheld)
    · rintro actions ⟨m, w⟩ (hm | ⟨rfl, hm⟩)
      · have hframe : Insensitive os (On ω (Dying q.halt)) := dying_loose.insensitive
        have hkeep := applyActions_preserves hframe.deaf actions
        exact ends_mono (fun _ _ h => .inl h) (fun _ _ h => h.1) (hkeep (m, w) hm)
      · exact .inr hm
  apply leads_service_bind
  intro _
  apply leads_service_bind
  intro _
  apply leads_ite
  · intro _
    exact leads_update_bind (fun _ h => h) hask
  · intro _
    exact hask

theorem stopListening_leads {spec : ServiceSpec} (hspec : spec.serviceType = q.spec.serviceType) :
    Leads (On ω (Leaving q holds)) (stopListening os spec)
      (fun _ => On ω fun c => Dying q c ∨ Halting q holds c ∧ c.listeners = []) e := by
  apply leads_ite
  · intro _
    apply leads_bind (leads_updates (closeListeners_updates os _)
      (q := fun c => Dying q c ∨ Halting q holds c ∧ c.listeners = []) ?_)
    · intro _
      apply leads_updates (clearActivationFds_updates os)
      rintro m (hm | ⟨hm, hl⟩)
      · exact .inl (dying_loose.activation hm)
      · exact .inr ⟨halting_loose.activation hm, hl⟩
    · rintro m (hm | hm)
      · exact .inl (dying_loose.listeners hm)
      · exact .inr ⟨halting_loose.listeners hm, rfl⟩
  · intro hsocket
    apply leads_pure
    rintro ⟨m, w⟩ (hm | hm)
    · exact .inl hm
    · refine .inr ⟨hm, ?_⟩
      by_contra hne
      exact hsocket (hspec.trans (hm.listening hne))

theorem Halting.stopped (h : Halting q holds c) (hl : c.listeners = [])
    (hs : c.record.state ≠ .stopping) : Stopped q holds c where
  spec := h.spec
  pid := h.pid
  gone := h.gone
  preparing := by
    by_contra hne
    exact hs (h.preparing (Option.isSome_iff_ne_none.mpr hne))
  asking := by
    by_contra hne
    exact hs (h.asking (Option.isSome_iff_ne_none.mpr hne))
  listening := hl
  waiting := h.unplanned
  empty := h.empty
  unhurried := fun _ _ ha => by simp [h.settled] at ha
  unwanted := h.unwanted
  settled := h.settled
  state := h.state.resolve_left hs
  released hne := by
    have hdown := h.state.resolve_left hs
    apply h.released
    cases hst : c.record.state <;> simp [hst, ManagedService.isDown] at hdown hne ⊢
  held := h.held

/-- A service that is told to stop, and has nothing left but its place in the record. -/
structure Bare (q : Mode) (holds : Prop) (c : Core) : Prop extends Halting q holds c where
  deaf : c.listeners = []
  told : c.record.state = .stopping
  asked : c.execConditionHelper = none
  prepared : c.startHelper = none

theorem Bare.completed (h : Bare q holds c) {r : ServiceRecord} (hspec : r.spec = q.spec)
    (hs : r.state = .exited) (hp : r.pid = none) : Stopped q holds { c with record := r } where
  spec := hspec
  pid := hp
  gone := h.gone
  preparing := h.prepared
  asking := h.asked
  listening := h.deaf
  waiting := h.unplanned
  empty := h.empty
  unhurried := fun _ _ ha => absurd ha (by simp [h.settled])
  unwanted := h.unwanted
  settled := h.settled
  state := congrArg ManagedService.isDown hs
  released := fun hne => absurd hs hne
  held := h.held

theorem completeStop_leads :
    Leads (On ω fun c => (Halting q holds c ∧ c.listeners = []) ∧ c.record.state = .stopping)
      (completeStop os) (fun _ => On ω (Stopped q holds)) e := by
  apply leads_bind (leads_updates (killExecConditionHelper_updates os) (q := fun c =>
    Halting q holds c ∧ c.listeners = [] ∧ c.record.state = .stopping ∧
      c.execConditionHelper = none) fun m hm =>
        ⟨halting_loose.execConditionHelper hm.1.1, hm.1.2, hm.2, rfl⟩)
  intro _
  apply leads_bind (leads_updates (killStartHelper_updates os) (q := Bare q holds) fun m hm =>
    ⟨halting_loose.startHelper hm.1, hm.2.1, hm.2.2.1, hm.2.2.2, rfl⟩)
  intro _
  apply leads_bind (leads_updates (killStartPostHelper_updates os) fun m hm => hm)
  intro _
  refine leads_update_bind (j := Bare q holds) (fun _ h => { h with }) ?_
  rintro ⟨m, w⟩ hm
  have hbare : Bare q holds (core m) := hm
  obtain ⟨x, hx⟩ := stopCompleted_ok hbare.told hbare.pid
  obtain ⟨-, -, hs, hp⟩ := stopCompleted_outcome hx
  exact ends_bind (ends_transition_ok (p := fun _ => On ω (Stopped q holds)) hx
    (hbare.completed ((transition_moved hx).spec.trans hbare.spec) hs hp)) fun _ _ h => h

theorem stopBare_leads :
    Leads (On ω fun c => Dying q c ∨ Halting q holds c ∧ c.listeners = []) (stopBare os)
      (fun _ => On ω fun c => Dying q c ∨ Stopped q holds c) e := by
  rintro ⟨m, w⟩ hm
  simp only [stopBare, service_bind]
  split
  next hbare =>
    have hhalting : Halting q holds (core m) ∧ m.listeners = [] := by
      obtain hm | hm := hm
      · have hsome := hm.1.process (by simp [hm.2])
        have hnone := Option.isNone_iff_eq_none.mp hbare.2
        simp [core, hnone] at hsome
      · exact hm
    exact ends_mono (fun _ _ h => .inr h) (fun _ _ h => h)
      (completeStop_leads os (m, w) ⟨hhalting, hbare.1⟩)
  next hbare =>
    obtain hm | ⟨hm, hl⟩ := hm
    · exact .inl hm
    · refine .inr (hm.stopped hl fun hs => hbare ⟨hs, ?_⟩)
      exact Option.isNone_iff_eq_none.mpr hm.pid

theorem spawnStopPost_leads {p : Core → Prop} (pid : Option Nat)
    (hp : ∀ c helper, p c → p { c with stopPostHelper := helper }) :
    Leads (On ω p) (spawnStopPost os pid) (fun _ => On ω p) e := by
  apply leads_service_bind
  intro s
  apply leads_ite
  · intro _
    exact leads_pure fun _ h => h
  · intro _
    apply leads_bind (leads_updates (killStopPostHelper_updates os) fun m hm => hp _ _ hm)
    intro _
    apply leads_bind (leads_aside _)
    intro r
    cases r with
    | ok helper => exact leads_update fun m w hm => hp _ _ hm
    | error e => exact leads_pure fun _ h => h

theorem stopActive_leads (now : Instant) (state : ServiceState)
    (hruns : state = .active → q.spec.stop.isSome → holds → StopRuns os q.spec) :
    Leads (On ω fun c => Dying q c ∨ Stopped q holds c) (stopActive os now state)
      (fun _ => On ω fun c => Dying q c ∨ Stopped q holds c) (On ω (Sound q)) := by
  rintro ⟨m, w⟩ hm
  simp only [stopActive, service_bind]
  split
  next hactive =>
    have hstopped : Stopped q holds (core m) := by
      obtain hm | hm := hm
      · cases hactive.2.symm.trans hm.2
      · exact hm
    have hspec : m.spec = q.spec := hstopped.spec
    split
    next hstop =>
      rw [hspec] at hstop
      obtain ⟨command, hcommand⟩ := Option.isSome_iff_exists.mp hstop
      simp only [spawnActiveStop, bind_assoc, service_bind, hspec, hcommand]
      refine ends_bind (p := fun _ => On ω fun c => Stopped q holds c ∧ c.record.state = .exited)
        ?_ fun helper t ht => ?_
      · simp only [required, call_bind]
        cases hr : (os.spawnScript (script m [command] none "stop".toList) w).1 with
        | ok helper => exact ⟨hstopped, hactive.2⟩
        | error err =>
          refine hstopped.sound fun _ _ => hstopped.held fun hholds => ?_
          refine hruns hactive.1 hstop hholds command hcommand m.resources w err ?_
          rw [← hspec]
          exact hr
      · exact .inr (ht.1.helped ht.2 (some helper) _)
    next =>
      have hpost := spawnStopPost_leads os (e := On ω (Sound q))
        (p := fun c => Stopped q holds c ∧ c.record.state = .exited) none fun c helper hc =>
          ⟨hc.1.helped hc.2 c.activeStopHelper helper, hc.2⟩
      exact ends_mono (fun _ _ h => .inr h.1) (fun _ _ h => h) (hpost (m, w) ⟨hstopped, hactive.2⟩)
  next => exact hm

theorem stopResources_leads :
    Leads (On ω fun c => Dying q c ∨ Stopped q holds c) (stopResources os)
      (fun _ => On ω (Sound q)) e := by
  rintro ⟨m, w⟩ hm
  simp only [stopResources, service_bind]
  split
  next hexited =>
    have hstopped : Stopped q holds (core m) := by
      obtain hm | hm := hm
      · cases hexited.symm.trans hm.2
      · exact hm
    simp only [resetTriggerState, update_bind]
    split
    next =>
      apply ends_updates (cleanupDirectories_updates os)
      intro _
      exact hstopped.cleaned
    next hhelpers =>
      refine hstopped.sound fun hactive hpost => absurd ?_ hhelpers
      exact ⟨Option.isNone_iff_eq_none.mpr hactive, Option.isNone_iff_eq_none.mpr hpost⟩
  next hexited =>
    obtain hm | hm := hm
    · exact hm.1
    · exact hm.sound (hm.released hexited)

theorem stopMain_sound (signal : Int) : Preserves (On ω (Sound q)) (stopMain os signal) := by
  have hframe : Insensitive os (On ω (Sound q)) := sound_loose.insensitive
  refine preserves_bind preserves_service fun s => ?_
  cases s.record.pid with
  | none => exact preserves_pure ()
  | some pid =>
    refine preserves_ite (fun _ => ?_) fun _ => preserves_pure ()
    exact preserves_tryCatch (spawnStopCommand_preserves hframe pid) fun _ =>
      preserves_bind preserves_service fun _ => sendSignal_preserves hframe.deaf pid _

/-- Whether a stop goes wrong: that of a failed process that was to be restarted
leaves the restart to nobody, and that of a unit without a process may fail to run
its command. -/
structure Stoppable (os : Os ω) (q : Mode) (c : Core) : Prop where
  calm : q.paced → ¬ (failing c.record ∧ retries c.record)
  runs : c.record.state = .active → q.spec.stop.isSome → Released c ∨ StopRuns os q.spec

theorem stopWithSignal_sound (now : Instant) (signal : Int) :
    Leads (On ω fun c => Sound q c ∧ Stoppable os q c) (stopWithSignal os now signal)
      (fun _ => On ω (Sound q.halt)) (On ω (Sound q.halt)) := by
  rintro ⟨m, w⟩ ⟨hs, hc⟩
  obtain ⟨holds, hheld, hruns⟩ : ∃ holds : Prop, (¬ holds → Released (core m)) ∧
      (m.record.state = .active → q.spec.stop.isSome → holds → StopRuns os q.spec) := by
    by_cases hr : Released (core m)
    · exact ⟨False, fun _ => hr, fun _ _ => False.elim⟩
    · exact ⟨True, fun hn => absurd trivial hn, fun ha hstop _ => (hc.runs ha hstop).resolve_left hr⟩
  have hspec : m.spec = q.spec := hs.spec
  rw [stopWithSignal_eq]
  simp only [update_bind]
  refine ends_bind (ends_updates (killDbusProbe_updates os) (p := fun _ s =>
    (core s.1 = { core m with
      wantsRunning := false, restartAfterStop := false, restartAt := none,
      runtimeDeadline := none })) fun _ => rfl) ?_
  rintro _ ⟨m', w'⟩ hm
  have hrecord : m'.record = m.record := congrArg Core.record hm
  have hpre : Quiet q (core m') ∧
      (q.paced → ¬ (failing (core m').record ∧ retries (core m').record)) ∧
        (¬ holds → Released (core m')) := by
    rw [hm]
    exact ⟨quiet_of_sound hs, hc.calm, hheld⟩
  simp only [service_bind]
  refine ends_bind (askToStop_leads os signal (m', w') hpre) fun _ t ht => ?_
  have htype : m'.spec.serviceType = q.halt.spec.serviceType := by
    rw [ManagedService.spec, hrecord]
    exact congrArg ServiceSpec.serviceType hspec
  refine ends_bind (stopListening_leads os htype t ht) fun _ t ht => ?_
  refine ends_bind (stopBare_leads os t ht) fun _ t ht => ?_
  rw [hrecord]
  refine ends_bind (stopActive_leads (q := q.halt) os now m.record.state hruns t ht) fun _ t ht => ?_
  refine ends_bind (stopResources_leads os t ht) fun _ t ht => ?_
  refine ends_bind (stopMain_sound os signal t ht) fun _ t ht => ?_
  exact ht

end

end FractalD.Supervisor.Standdown
