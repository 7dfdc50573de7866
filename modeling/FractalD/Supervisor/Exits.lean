import FractalD.Supervisor.Polling

namespace FractalD.Supervisor.Exits

open FractalD.Core.Lifecycle FractalD.Core.Outcomes FractalD.Core.Record FractalD.Core.Restarts
open FractalD.Core.Spec FractalD.Machine.CString FractalD.Machine.Effect
open FractalD.Supervisor.Coherence FractalD.Supervisor.Demands FractalD.Supervisor.Execution
open FractalD.Supervisor.Frame FractalD.Supervisor.Launching FractalD.Supervisor.Polling
open FractalD.Supervisor.Service FractalD.Supervisor.ServicePoll FractalD.Supervisor.Standdown
open FractalD.Supervisor.StartFailure FractalD.Supervisor.System

variable {q : Mode} {c : Core}

/-- A service whose main process is about to be taken off the record. -/
structure Forgotten (q : Mode) (c : Core) : Prop extends Sound q c where
  launched : c.record.pid.isSome
  nothing : Gone c
  undated : c.startDeadline = none

/-- A service whose main process has exited. -/
structure Over (q : Mode) (c : Core) : Prop extends Idle q c where
  state : c.record.state ∈ [ServiceState.active, .exited, .failed, .backoff]
  wanted : q.paced → c.record.state = .backoff → c.wantsRunning
  halted : q.halted → c.wantsRunning = false ∧ c.restartAfterStop = false ∧
    c.record.state ∈ [ServiceState.exited, .failed]
  undated : c.startDeadline = none

/-- Nothing is held for it but by the commands of its stop. -/
def Settles (c : Core) : Prop := c.record.state ≠ .active → AfterStop c

theorem Over.sound (h : Over q c) (hr : Settles c) (hb : c.record.state = .backoff → ¬ q.paced) :
    Sound q c where
  spec := h.spec
  alive hp := by simp [h.pid] at hp
  process hp := by
    have hs := h.state
    simp only [List.mem_cons, List.not_mem_nil, or_false] at hs hp
    rcases hs with hs | hs | hs | hs <;> simp [hs] at hp
  gone _ := h.gone
  preparing hp := by simp [h.preparing] at hp
  asking hp := by simp [h.asking] at hp
  listening hl := absurd h.listening hl
  waiting hw := by simp [h.waiting] at hw
  released hs := hr fun ha => by simp [ha, Startable] at hs
  empty := h.empty
  wanted hq hp := by
    have hs := h.state
    simp only [List.mem_cons, List.not_mem_nil, or_false] at hs
    rcases hs with hs | hs | hs | hs
    case inr.inr.inr => exact h.wanted hq hs
    all_goals simp [Persists, failing, hs] at hp
  scheduled hq hs := absurd hq (hb hs)
  halted hq := ⟨(h.halted hq).1, (h.halted hq).2.1, fun ha => by
    have hs := (h.halted hq).2.2
    simp [ha] at hs⟩
  prompt hs := by
    have hst := h.state
    simp [hs] at hst
  unhurried := h.unhurried

theorem Forgotten.exits (h : Forgotten q c) {r : ServiceRecord} {actions : List Action}
    {pid generation : Nat} {reason : ExitReason}
    (hr : c.record.transition (.exited pid generation reason) = .ok (r, actions)) :
    Over q { c with record := r } ∧ OnlySchedules actions := by
  obtain ⟨hp, honly, hcase⟩ := exited_outcome hr
  refine ⟨?_, honly⟩
  have hne : c.record.pid ≠ none := Option.isSome_iff_ne_none.mp h.launched
  have hup : c.record.state = .starting ∨ c.record.state = .running ∨ c.record.state = .stopping := by
    simpa using h.alive h.launched
  have hpersists : r.state = .backoff → Persists c.record := by
    intro hb
    obtain ⟨hs, -⟩ | hs | hs | ⟨-, hs | hs | hs⟩ := hcase
    · cases hb.symm.trans hs
    · cases hb.symm.trans hs
    · cases hb.symm.trans hs
    · exact .inl (by simp [hs])
    · exact .inl (by simp [hs])
    · exact .inr hs
  exact {
    spec := (transition_moved hr).spec.trans h.spec
    pid := hp
    gone := h.nothing
    preparing := by
      by_contra hn
      exact hne (h.preparing (Option.isSome_iff_ne_none.mpr hn)).2
    asking := by
      by_contra hn
      exact hne (h.asking (Option.isSome_iff_ne_none.mpr hn)).2.1
    listening := by
      by_contra hn
      have ha := (h.listening hn).2
      simp [ha] at hup
    waiting := by
      by_contra hn
      have ha := h.waiting (Option.isSome_iff_ne_none.mpr hn)
      simp [ha] at hup
    empty := h.empty
    unhurried := h.unhurried
    state := by
      obtain ⟨hs, -⟩ | hs | hs | ⟨hs, -⟩ := hcase <;> simp [hs]
    wanted := fun hq hb => h.wanted hq (hpersists hb)
    halted := fun hq => by
      obtain ⟨hw, ha, -⟩ := h.halted hq
      refine ⟨hw, ha, ?_⟩
      obtain ⟨hs, hn⟩ | hs | hs | ⟨hs, -⟩ := hcase
      · refine absurd hq (h.toSound.free ?_)
        rcases hup with hup | hup | hup
        · simp [hup]
        · simp [hup]
        · exact absurd hup hn
      · simp [hs]
      · simp [hs]
      · have hwants := h.wanted (q.paced_of_halted hq) (hpersists hs)
        rw [hw] at hwants
        cases hwants
    undated := h.undated }

section

variable {ω : Type} (os : Os ω)

theorem onlySchedules_updates {actions : List Action} (h : OnlySchedules actions) :
    Updates id (applyActions os actions) := by
  induction actions with
  | nil => exact updates_pure
  | cons a actions ih =>
    obtain ⟨generation, after, rfl⟩ := h a List.mem_cons_self
    exact updates_after updates_pure (ih fun b hb => h b (List.mem_cons_of_mem _ hb))

theorem forgetMain_leads {e : ManagedService × ω → Prop} :
    Leads (On ω (Launched q)) (forgetMain os) (fun _ => On ω (Forgotten q)) e := by
  apply leads_bind (leads_updates (killStopCommand_updates os) (q := Launched q) fun _ h => h)
  intro _
  apply leads_bind (leads_updates (killReloadCommand_updates os) (q := Launched q) fun _ h => h)
  intro _
  refine leads_update_bind (j := fun c => Launched q c ∧ c.child = none ∧ c.pidfd = none ∧
    c.processGroup = none ∧ c.forkingPending = false ∧ c.forkingParentExited = false ∧
      c.adoptedPid = none) (fun _ h => ⟨h.remembers rfl, rfl, rfl, rfl, rfl, rfl, rfl⟩) ?_
  apply leads_bind (leads_updates (killDbusProbe_updates os) fun _ h => h)
  intro _
  apply leads_service_bind
  intro s
  apply leads_bind (leads_updates (updates_optionForM (fun _ => updates_call _) _) fun _ h => h)
  intro _
  apply leads_bind (leads_updates (updates_optionForM (fun _ => updates_call _) _) fun _ h => h)
  intro _
  apply leads_update
  rintro m w ⟨hm, h₁, h₂, h₃, h₄, h₅, h₆⟩
  obtain ⟨hs, hp⟩ : Launched q (core { m with
      watchdogDeadline := none, runtimeDeadline := none, notifySocket := none,
      startDeadline := none }) := hm.remembers rfl
  exact { hs with
    launched := hp
    nothing := ⟨h₁, h₂, h₃, h₄, h₅, h₆, rfl, rfl, rfl⟩
    undated := rfl }

theorem limited_leads {p e : Core → Prop} {now : Instant}
    (h : Leads (On ω p) (enforceStartLimit os now) (fun _ => On ω p) (On ω e))
    {e' : ManagedService × ω → Prop} :
    Leads (On ω p) (tryCatch (do enforceStartLimit os now; pure false) fun _ => pure true)
      (fun limited => On ω fun c => if limited then e c else p c) e' := by
  apply leads_tryCatch (e := On ω e)
  · apply leads_bind h
    intro _
    exact leads_pure fun s hs => by simpa [On] using hs
  · intro err
    exact leads_pure fun s hs => by simpa [On] using hs

/-- A service that is started again once its process has exited. -/
def Returns (q : Mode) (c : Core) : Prop :=
  (Over q c ∧ Settles c) ∧ c.record.state ≠ .backoff ∧ ¬ q.halted ∧ c.wantsRunning

theorem enforceStartLimit_returns (now : Instant) :
    Leads (On ω (Returns q)) (enforceStartLimit os now) (fun _ => On ω (Returns q))
      (On ω (Sound q)) := by
  apply enforceStartLimit_leads
  · rintro c r actions ⟨⟨h, -⟩, -, hfree, -⟩ hr
    obtain ⟨hs, hp⟩ := startLimitHit_outcome hr
    have hidle : Idle q { c with
        record := r, wantsRunning := false, restartAt := none, directories := [],
        credentialDirectory := none, privateTmpPaths := none } := { h.toIdle with
      spec := (transition_moved hr).spec.trans h.spec
      pid := hp
      waiting := rfl }
    exact hidle.sound (congrArg ManagedService.isDown hs) (fun _ _ => ⟨rfl, rfl⟩) fun hq =>
      absurd hq hfree
  · rintro c ⟨⟨h, hr⟩, hb, -⟩ -
    exact h.sound hr fun hs => absurd hs hb

theorem restartAfterExit_sound (now : Instant) :
    Leads (On ω fun c => Over q c ∧ Settles c) (restartAfterExit os now)
      (fun _ => On ω (Sound q)) (On ω (Sound q)) := by
  rintro ⟨m, w⟩ hm
  obtain ⟨ho, hr⟩ : Over q (core m) ∧ Settles (core m) := hm
  simp only [restartAfterExit, service_bind]
  split
  next hback =>
    have hb : m.record.state = .backoff := hback.1
    have hwanted : Wanted q (core m) := { ho.toIdle with
      wanted := fun _ => hback.2
      free := fun hq => by
        have hs : m.record.state ∈ [ServiceState.exited, .failed] := (ho.halted hq).2.2
        simp [hb] at hs }
    exact hwanted.sound hb (hr (by simp [core, hb])) _
  next hback =>
    split
    next hagain =>
      have hfree : ¬ q.halted := by
        intro hq
        have hn : m.wantsRunning = false := (ho.halted hq).1
        simp [hn] at hagain
      have hb : m.record.state ≠ .backoff := fun hb => hback ⟨hb, hagain.2⟩
      have hreturns : Returns q (core { m with restartAfterStop := false }) :=
        ⟨⟨{ ho with
          unhurried := fun _ _ ha => by cases ha
          halted := fun hq => absurd hq hfree }, hr⟩, hb, hfree, hagain.2⟩
      simp only [update_bind]
      refine ends_bind (limited_leads os (enforceStartLimit_returns os now) _ hreturns) ?_
      rintro limited ⟨m', w'⟩ hlimited
      cases limited with
      | true => exact hlimited
      | false =>
        obtain ⟨⟨ho', hr'⟩, hb', -, hwants⟩ : Returns q (core m') := hlimited
        have hsound := ho'.sound hr' fun hs => absurd hs hb'
        refine ends_bind (p := fun actions s => actions = [] ∧ Sound q (core s.1) ∨
          ∃ generation, actions = [.spawn generation] ∧ Asks q (core s.1)) ?_ ?_
        · apply ends_transition
          · intro r actions hr
            have hspec : r.spec = q.spec := (transition_moved hr).spec.trans ho'.spec
            obtain ⟨-, rfl, rfl⟩ | ⟨-, hs, hp, rfl⟩ := startRequested_outcome hr
            · exact .inl ⟨rfl, hsound⟩
            · have htimely : Timely q (core m') := fun t _ => by rw [ho'.undated]; rfl
              refine .inr ⟨_, rfl, ?_, fun _ => htimely⟩
              exact { ho'.toIdle with
                spec := hspec
                pid := hp
                wanted := fun _ => hwants
                free := hfree
                state := hs
                prompt := Timely.prompt htimely }
          · exact hsound
        · rintro actions ⟨m₂, w₂⟩ (⟨rfl, hs⟩ | ⟨generation, rfl, hs⟩)
          · exact hs
          · exact applyStartActions_ends os generation now _ hs
    next hagain =>
      refine ho.sound hr fun hb hq => hback ⟨hb, ho.wanted hq hb⟩

theorem handleExit_sound (now : Instant) (exit : ExitKind) :
    Preserves (On ω (Sound q)) (handleExit os now exit) := by
  rintro ⟨m, w⟩ hm
  have hlast := restartAfterExit_sound (q := q) os now
  simp only [handleExit, service_bind]
  cases hp : m.record.pid with
  | none => exact hm
  | some pid =>
    refine ends_bind (forgetMain_leads os (m, w) ⟨hm, by simp [core, hp]⟩) fun _ t ht => ?_
    obtain ⟨m₁, w₁⟩ := t
    have hforgotten : Forgotten q (core m₁) := ht
    refine ends_bind (p := fun actions s => OnlySchedules actions ∧ Over q (core s.1)) ?_ ?_
    · apply ends_transition
      · intro r actions hr
        exact (hforgotten.exits hr).symm
      · exact hforgotten.toSound
    · rintro actions t ⟨honly, ht⟩
      refine ends_bind (leads_updates (onlySchedules_updates os honly) (q := Over q) (fun _ h => h) t
        ht) fun _ t ht => ?_
      obtain ⟨m₂, w₂⟩ := t
      simp only [service_bind]
      split
      next =>
        refine ends_bind (spawnStopPost_leads os (some pid) (p := Over q)
          (fun c helper h => { h with }) _ ht) fun _ t ht => ?_
        obtain ⟨m₃, w₃⟩ := t
        have hover : Over q (core m₃) := ht
        simp only [service_bind]
        split
        next =>
          exact ends_bind (ends_updates (cleanupDirectories_updates os) (p := fun _ => On ω fun c =>
            Over q c ∧ Settles c) fun _ => ⟨{ hover with }, fun _ _ _ => ⟨rfl, rfl⟩⟩)
            fun _ t ht => hlast t ht
        next hpost =>
          refine hlast _ ⟨hover, fun _ _ hnone => absurd ?_ hpost⟩
          exact Option.isNone_iff_eq_none.mpr hnone
      next hactive =>
        exact hlast _ ⟨ht, fun hne => absurd hne hactive⟩

theorem adopt_sound (now : Instant) (pid : Nat) (pidfd : Bool) :
    Preserves (On ω (Sound q)) (adopt os now pid pidfd) := by
  have hlast : Leads (On ω (Launched q)) (do
      update ({ · with
        pidfd := if pidfd then some pid else none, forkingPending := false,
        forkingParentExited := false, adoptedPid := some pid, startDeadline := none })
      armRuntimeLimit now
      spawnStartPost os pid) (fun _ => On ω (Sound q)) (On ω (Sound q)) := by
    refine leads_update_bind (j := Launched q) (fun _ h => h.remembers rfl) ?_
    apply leads_bind (armRuntimeLimit_launched now)
    intro _
    exact spawnStartPost_launched os pid
  rintro ⟨m, w⟩ hm
  refine ends_bind (p := fun _ => On ω (Launched q)) ?_ fun _ t ht => ?_
  · apply ends_transition
    · intro r actions hr
      obtain ⟨hs, rfl⟩ := adopted_outcome hr
      have hp : m.record.pid.isSome := hm.process (by simp [core, hs])
      have hne : m.record.pid ≠ none := Option.isSome_iff_ne_none.mp hp
      refine ⟨{ hm with
        alive := fun _ => hm.alive hp
        process := fun _ => rfl
        gone := fun h => (by cases h)
        preparing := fun ha => absurd (hm.preparing ha).2 hne
        asking := fun ha => absurd (hm.asking ha).2.1 hne
        prompt := fun _ h => (by cases h) }, rfl⟩
    · exact hm
  · obtain ⟨m₁, w₁⟩ := t
    simp only [service_bind]
    cases m₁.cgroupPath with
    | none => exact hlast _ ht
    | some path =>
      simp only [call_bind]
      cases (os.attachToCgroup path pid w₁).1 with
      | ok u => exact hlast _ ht
      | error err =>
        simp only
        split
        · exact ht.1
        · exact ht.1

theorem tryAdoptForking_sound (now : Instant) :
    Preserves (On ω (Sound q)) (tryAdoptForking os now) := by
  have habandon {m : ManagedService} (hm : Sound q (core m)) :
      Sound q { core m with forkingPending := false, forkingParentExited := false } :=
    { hm with gone := fun hp => (hm.gone hp).unforked }
  apply preserves_service_bind
  intro m w hm
  cases m.processGroup with
  | none => exact habandon hm
  | some parent =>
    simp only [look_bind]
    cases os.forkingProcessCandidate w m.spec parent with
    | none =>
      simp only
      split
      · exact handleExit_sound os now _ _ (habandon hm)
      · exact hm
    | some pid =>
      simp only
      split
      · exact hm
      · simp only [call_bind]
        cases (os.openPidFd pid w).1 with
        | opened => exact adopt_sound os now pid true _ hm
        | unavailable => exact adopt_sound os now pid false _ hm
        | failed err =>
          simp only
          split
          · exact hm
          · exact hm

theorem handleForkingParentExit_sound (now : Instant) (exit : ExitKind) :
    Leads (On ω fun c => Sound q c ∧ c.forkingPending) (handleForkingParentExit os now exit)
      (fun _ => On ω (Sound q)) (On ω (Sound q)) := by
  rintro ⟨m, w⟩ ⟨hs, hpending⟩
  simp only [handleForkingParentExit]
  split
  next =>
    simp only [update_bind]
    exact handleExit_sound os now exit _ { hs with gone := fun hp => (hs.gone hp).unforked }
  next =>
    have hp : (core m).record.pid.isSome := by
      by_contra hn
      have hn' : (core m).record.pid = none := by simpa using hn
      obtain ⟨-, -, -, hf, -⟩ := hs.gone hn'
      simp [hf] at hpending
    have hl : Launched q (core { m with child := none, pidfd := none, forkingParentExited := true }) :=
      Launched.remembers ⟨hs, hp⟩ rfl
    simp only [update_bind]
    exact tryAdoptForking_sound os now _ hl.1

theorem handleMainExit_sound (now : Instant) (exit : ExitKind) :
    Preserves (On ω (Sound q)) (handleMainExit os now exit) := by
  apply preserves_service_bind
  intro m w hm
  split
  next hpending => exact handleForkingParentExit_sound os now exit _ ⟨hm, hpending.1⟩
  next => exact handleExit_sound os now exit _ hm

theorem checkStopDeadline_sound (now : Instant) :
    Preserves (On ω (Sound q)) (checkStopDeadline os now) := by
  have hframe : Insensitive os (On ω (Sound q)) := sound_loose.insensitive
  apply preserves_service_bind
  intro m w hm
  split
  next hstop =>
    refine ends_bind (p := fun _ => On ω (Sound q)) ?_ fun actions t ht => ?_
    · apply ends_transition
      · intro r actions hr
        obtain ⟨-, hsame⟩ := stopTimedOut_outcome hr
        have hsome : m.record.pid.isSome := hm.process (by simp [core, hstop.1])
        rw [hsame hsome]
        exact hm
      · exact hm
    · refine ends_bind (applyActions_preserves hframe.deaf actions t ht) fun _ t ht => ?_
      refine ends_bind (killStartHelper_preserves hframe t ht) fun _ t ht => ?_
      refine ends_bind (killExecConditionHelper_preserves hframe t ht) fun _ t ht => ?_
      refine ends_bind (killStartPostHelper_preserves hframe t ht) fun _ t ht => ?_
      refine ends_bind (killDbusProbe_preserves hframe t ht) fun _ t ht => ?_
      refine ends_bind (killStopCommand_preserves hframe t ht) fun _ t ht => ?_
      exact ht
  next => exact hm

theorem checkStartDeadline_sound {now : Instant} (hclock : q.clock = some now) :
    Preserves (On ω (Sound q)) (checkStartDeadline os now) := by
  have hframe : Insensitive os (On ω (Sound q)) := sound_loose.insensitive
  have hrest : Preserves (On ω (Sound q)) (do
      killStartPostHelper os
      killDbusProbe os
      armStopDeadline now) :=
    preserves_bind (killStartPostHelper_preserves hframe) fun _ =>
      preserves_bind (killDbusProbe_preserves hframe) fun _ => armStopDeadline_preserves hframe now
  apply preserves_service_bind
  intro m w hm
  split
  next hlate =>
    refine ends_bind (p := fun actions s => Sound q (core s.1) ∨ actions = [] ∧
      Failed q (core s.1) ∧ Released (core s.1) ∧ s.1.execConditionHelper = none) ?_ ?_
    · apply ends_transition
      · intro r actions hr
        obtain hd | ⟨hnil, ⟨hs, hp⟩, hd⟩ := fails_sound hm startTimedOut_failing hr
        · exact .inl hd.1
        · have hprompt := hm.prompt hs hp now (by simp [hclock]) hlate.2
          exact .inr ⟨hnil, hd, hprompt⟩
      · exact hm
    · rintro actions ⟨m₁, w₁⟩ (hs | ⟨rfl, hd, hreleased, hcondition⟩)
      · refine ends_bind (applyActions_preserves hframe.deaf actions _ hs) fun _ t ht => ?_
        refine ends_bind (p := fun _ => On ω (Sound q)) ht.undated fun _ t ht => ?_
        refine ends_bind (killStartHelper_preserves hframe t ht) fun _ t ht => ?_
        exact hrest t ht
      · have hsound : Sound q (core { m₁ with startDeadline := none, startHelper := none }) :=
          (hd.drops none m₁.execConditionHelper none).sound rfl hcondition fun _ _ => hreleased
        have hkill : Leads (fun s : ManagedService × ω => s = (m₁, w₁)) (do
            update ({ · with startDeadline := none })
            killStartHelper os) (fun _ => On ω (Sound q)) (On ω (Sound q)) := by
          rintro _ rfl
          simp only [update_bind]
          exact ends_updates (killStartHelper_updates os) fun _ => hsound
        have hall := leads_bind hkill fun _ => hrest
        simp only [bind_assoc] at hall
        exact hall (m₁, w₁) rfl
  next => exact hm

/-- Once its time has come a service is started again without the checks of a start. -/
theorem checkRestart_sound (now : Instant) (hclock : q.clock = none) :
    Preserves (On ω (Sound q)) (checkRestart os now) := by
  have hprompt (c : Core) : Prompt q c := fun t ht => by simp [hclock] at ht
  have htimely (c : Core) : Timely q c := fun t ht => by simp [hclock] at ht
  apply preserves_service_bind
  intro m w hm
  split
  next hdue =>
    have hs : Sound q (core m) := hm
    have hback : m.record.state = .backoff := hdue.2.1
    have hstartable : Startable m.record.state := by simp [hback, Startable]
    have hready : Ready q (core { m with restartAt := none }) := { hs.idle hstartable with
      wanted := fun _ => hdue.1
      free := hs.free (by simp [core, hback])
      state := hstartable
      released := hs.released hstartable }
    simp only [update_bind]
    refine ends_bind (limited_leads os (enforceStartLimit_ready os .backoff now) _ ⟨hready, hback⟩) ?_
    rintro limited ⟨m', w'⟩ hlimited
    cases limited with
    | true => exact hlimited
    | false =>
      obtain ⟨hr', hb'⟩ : Ready q (core m') ∧ m'.record.state = .backoff := hlimited
      obtain ⟨⟨r, actions⟩, hr⟩ := restartDue_accepted hb'
      obtain ⟨-, hst, hpid, rfl⟩ := restartDue_outcome hr
      refine ends_bind (ends_transition_ok (p := fun actions s => ∃ generation,
        actions = [.spawn generation] ∧ Asks q (core s.1)) hr ?_) ?_
      · refine ⟨_, rfl, ?_, fun _ => htimely _⟩
        exact { hr'.toWanted with
          spec := (transition_moved hr).spec.trans hr'.spec
          pid := hpid.trans hr'.pid
          state := hst
          prompt := hprompt _ }
      · rintro _ t ⟨generation, rfl, ht⟩
        exact applyStartActions_ends os generation now t ht
  next => exact hm

theorem observeHelper_leads {p : Core → Prop} (label : String)
    (helper : ManagedService → Option HelperProcess) :
    Leads (On ω p) (observeHelper os label helper)
      (fun exit s => On ω p s ∧ (exit.isSome → (helper s.1).isSome)) (On ω p) := by
  rintro ⟨m, w⟩ hm
  simp only [observeHelper, service_bind]
  cases hh : helper m with
  | none => exact ⟨hm, nofun⟩
  | some h =>
    simp only [required, call_bind]
    cases (os.tryWait h.handle w).1 with
    | ok exit => exact ⟨hm, fun _ => by simp [hh]⟩
    | error err => exact hm

theorem onExit_leads {helper : ManagedService → Option HelperProcess}
    {handle : ExitKind → Op ω Unit}
    (h : ∀ exit, Leads (fun s => On ω (Sound q) s ∧ (helper s.1).isSome) (handle exit)
      (fun _ => On ω (Sound q)) (On ω (Sound q))) (exit : Option ExitKind) :
    Leads (fun s => On ω (Sound q) s ∧ (exit.isSome → (helper s.1).isSome)) (onExit exit handle)
      (fun _ => On ω (Sound q)) (On ω (Sound q)) := by
  cases exit with
  | none => exact leads_pure fun _ hs => hs.1
  | some exit => exact leads_pre (fun _ hs => ⟨hs.1, hs.2 rfl⟩) (h exit)

theorem onExit_sound {handle : ExitKind → Op ω Unit} (h : ∀ exit, Preserves (On ω (Sound q)) (handle exit))
    (exit : Option ExitKind) : Preserves (On ω (Sound q)) (onExit exit handle) :=
  preserves_optionForM h exit

theorem poll_polled {now : Instant} (hclock : q.clock = some now) {last : Op ω Unit}
    {p : Unit → ManagedService × ω → Prop} {e : ManagedService × ω → Prop}
    (he : ∀ s, On ω (Sound q) s → e s) (hlast : Leads (On ω (Sound q)) last p e) :
    Leads (On ω (Sound q)) (do
      observeNotify os now
      observeDbus os now
      checkOom os now
      checkWatchdog os now
      checkRuntimeLimit os now
      onExit (← observeHelper os "exec-condition" (·.execConditionHelper))
        (handleExecConditionExit os now)
      onExit (← observeHelper os "start-pre" (·.startHelper)) (handleStartHelperExit os now)
      onExit (← observeHelper os "start-post" (·.startPostHelper)) (handleStartPostExit os now)
      onExit (← observeHelper os "stop" (·.activeStopHelper)) (handleActiveStopExit os now)
      onExit (← observeHelper os "stop-post" (·.stopPostHelper)) (handleStopPostExit os now)
      onExit (← observeHelper os "reload command" (·.reloadCommand)) handleReloadExit
      onExit (← observeHelper os "stop command" (·.stopCommand)) (handleStopExit os)
      onExit (← observeExit os) (handleMainExit os now)
      let s ← service
      if s.forkingPending ∧ s.forkingParentExited then tryAdoptForking os now
      checkStopDeadline os now
      checkActiveStopDeadline os now
      checkStartDeadline os now
      last) p e := by
  have hframe : Insensitive os (On ω (Sound q)) := sound_loose.insensitive
  have hkeep {α : Type} {i : ManagedService × ω → Prop} {j : α → ManagedService × ω → Prop}
      {x : Op ω α} (h : Leads i x j (On ω (Sound q))) : Leads i x j e :=
    leads_mono (fun _ h => h) (fun _ _ h => h) he h
  have hobserve (label : String) (helper : ManagedService → Option HelperProcess) :
      Preserves (On ω (Sound q)) (observeHelper os label helper) :=
    observeHelper_preserves hframe label helper
  apply leads_bind (hkeep (observeNotify_sound os now))
  intro _
  apply leads_bind (hkeep (observeDbus_sound os now))
  intro _
  apply leads_bind (hkeep (checkOom_sound os now))
  intro _
  apply leads_bind (hkeep (checkWatchdog_sound os now))
  intro _
  apply leads_bind (hkeep (checkRuntimeLimit_sound os now))
  intro _
  apply leads_bind (hkeep (observeHelper_leads os "exec-condition" (·.execConditionHelper)))
  intro exit
  apply leads_bind (hkeep (onExit_leads (fun exit => handleExecConditionExit_sound os now exit) exit))
  intro _
  apply leads_bind (hkeep (observeHelper_leads os "start-pre" (·.startHelper)))
  intro exit
  apply leads_bind (hkeep (onExit_leads (fun exit => handleStartHelperExit_sound os now exit) exit))
  intro _
  apply leads_bind (hkeep (hobserve "start-post" (·.startPostHelper)))
  intro exit
  apply leads_bind (hkeep (onExit_sound (fun exit => handleStartPostExit_sound os now exit) exit))
  intro _
  apply leads_bind (hkeep (hobserve "stop" (·.activeStopHelper)))
  intro exit
  apply leads_bind (hkeep (onExit_sound (fun exit => handleActiveStopExit_sound os hclock exit) exit))
  intro _
  apply leads_bind (hkeep (hobserve "stop-post" (·.stopPostHelper)))
  intro exit
  apply leads_bind (hkeep (onExit_sound (fun exit => handleStopPostExit_sound os hclock exit) exit))
  intro _
  apply leads_bind (hkeep (hobserve "reload command" (·.reloadCommand)))
  intro exit
  apply leads_bind (hkeep (onExit_sound (fun exit => handleReloadExit_preserves hframe exit) exit))
  intro _
  apply leads_bind (hkeep (hobserve "stop command" (·.stopCommand)))
  intro exit
  apply leads_bind (hkeep (onExit_sound (fun exit => handleStopExit_preserves hframe exit) exit))
  intro _
  apply leads_bind (hkeep (observeExit_preserves hframe))
  intro exit
  apply leads_bind (hkeep (onExit_sound (fun exit => handleMainExit_sound os now exit) exit))
  intro _
  apply leads_service_bind
  intro s
  have hrest : Leads (On ω (Sound q)) (do
      checkStopDeadline os now
      checkActiveStopDeadline os now
      checkStartDeadline os now
      last) p e := by
    apply leads_bind (hkeep (checkStopDeadline_sound os now))
    intro _
    apply leads_bind (hkeep (checkActiveStopDeadline_sound os hclock))
    intro _
    apply leads_bind (hkeep (checkStartDeadline_sound os hclock))
    intro _
    exact hlast
  apply leads_ite
  · intro _
    exact leads_bind (hkeep (tryAdoptForking_sound os now)) fun _ => hrest
  · intro _
    exact hrest

end

/-- A service that may be polled: no start that is overdue before its main process holds
anything or asks whether it may run, and none that waits for a stop is overdue at once. -/
structure Pollable (q : Mode) (now : Instant) (c : Core) : Prop where
  prompt : c.record.state = .starting → c.record.pid = none → due now c.startDeadline →
    Released c ∧ c.execConditionHelper = none
  unhurried : c.restartAfterStop → q.spec.startTimeout ≠ 0

theorem poll_sound {ω : Type} (os : Os ω) (now : Instant) (hclock : q.clock = none) :
    Leads (On ω fun c => Sound q c ∧ Pollable q now c) (poll os now) (fun _ => On ω (Sound q))
      (On ω (Sound q)) := by
  have hless {c : Core} (h : Sound (q.polled now) c) : Sound q c :=
    h.mono rfl id id id fun t ht => by simp [hclock] at ht
  have hlast : Leads (On ω (Sound (q.polled now))) (checkRestart os now)
      (fun _ => On ω (Sound q)) (On ω (Sound q)) :=
    leads_pre (fun _ h => hless h) (checkRestart_sound os now hclock)
  have hall := poll_polled (q := q.polled now) os rfl (fun _ h => hless h) hlast
  rintro s ⟨hs, hp⟩
  apply hall
  exact { hs with
    prompt := fun hst hpid t ht hd => by
      obtain rfl := Option.mem_some_iff.mp ht
      exact hp.prompt hst hpid hd
    unhurried := fun _ _ ha => hp.unhurried ha }

end FractalD.Supervisor.Exits
