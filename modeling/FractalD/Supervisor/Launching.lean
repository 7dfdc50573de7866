import FractalD.Supervisor.Coherence

namespace FractalD.Supervisor.Launching

open FractalD.Core.Outcomes FractalD.Core.Record FractalD.Core.Restarts FractalD.Core.Spec
open FractalD.Machine.CString FractalD.Machine.Effect FractalD.Supervisor.Coherence
open FractalD.Supervisor.Execution FractalD.Supervisor.Frame FractalD.Supervisor.Service
open FractalD.Supervisor.StartFailure FractalD.Supervisor.System

section

variable {ω : Type} (os : Os ω) {q : Mode} {p : Core → Prop}

/-- The service after a failed launch, before its restart is scheduled. -/
def Refused (q : Mode) (actions : List Action) (c : Core) : Prop :=
  actions = [] ∧ Sound q c ∨
    ∃ generation after, actions = [.scheduleRestart generation after] ∧
      ∀ time, Sound q { c with restartAt := some time }

theorem markSpawnFailed_sound (generation : Nat) (now : Instant) :
    Leads (On ω (Opening q)) (markSpawnFailed os generation now) (fun _ => On ω (Sound q))
      (On ω (Sound q)) := by
  apply leads_bind (leads_updates (killExecConditionHelper_updates os) (q := Opening q)
    fun m hm => opening_loose.execConditionHelper hm)
  intro _
  apply leads_bind (leads_updates (clearActivationFds_updates os) (q := Opening q)
    fun m hm => opening_loose.activation hm)
  intro _
  apply leads_bind (leads_updates (cleanupDirectories_updates os)
    (q := fun c => Opening q c ∧ Released c) fun m hm => ⟨{ hm with }, rfl, rfl⟩)
  intro _
  apply leads_bind (q := fun actions s => Refused q actions (core s.1))
  · rintro ⟨m, w⟩ hm
    have hidle : Wanted q (core m) := hm.1.toWanted
    apply ends_transition
    · intro r actions hr
      have hspec : r.spec = q.spec := (transition_moved hr).spec.trans hidle.spec
      obtain ⟨-, hp, ⟨hs, rfl⟩ | ⟨hs, after, rfl⟩⟩ := spawnFailed_outcome hr
      · refine .inl ⟨rfl, Idle.sound ?_ (by simp [core, hs, ManagedService.isDown]) (fun _ _ => hm.2)
          fun hq => absurd hq hidle.free⟩
        exact { hidle.toIdle with spec := hspec, pid := hp.trans hidle.pid }
      · refine .inr ⟨_, after, rfl, Wanted.sound ?_ hs fun _ _ => hm.2⟩
        exact { hidle with spec := hspec, pid := hp.trans hidle.pid }
    · exact hm.1.sound fun _ _ _ => ⟨hm.2, hm.1.asking⟩
  · rintro actions ⟨m, w⟩ (⟨rfl, hm⟩ | ⟨_, after, rfl, hm⟩)
    · exact hm
    · exact hm _

theorem orSpawnFailed_leads {α : Type} {undo : Op ω Unit}
    (hu : Leads (On ω p) undo (fun _ => On ω (Opening q)) (On ω (Sound q))) (generation : Nat)
    (now : Instant) (describe : Str) (c : Call ω (Except Str α)) :
    Leads (On ω p) (orSpawnFailed os undo generation now describe c) (fun _ => On ω p)
      (On ω (Sound q)) := by
  apply leads_bind (leads_aside _)
  intro r
  cases r with
  | ok a => exact leads_pure fun _ h => h
  | error e =>
    apply leads_bind hu
    intro _
    apply leads_bind (markSpawnFailed_sound os generation now)
    intro _
    exact leads_throw fun _ h => h

end

/-- A step of a launch. -/
abbrev Goes {ω : Type} (q : Mode) {α : Type} (x : Op ω α) : Prop :=
  Leads (On ω (Begins q)) x (fun _ => On ω (Begins q)) (On ω (Sound q))

/-- The end of a launch. -/
abbrev Ended {ω : Type} (q : Mode) {α : Type} (x : Op ω α) : Prop :=
  Leads (On ω (Begins q)) x (fun _ => On ω (Sound q)) (On ω (Sound q))

section

variable {ω : Type} (os : Os ω) {q : Mode}

theorem undoLaunch_updates (notify cgroup : Option Str) : Updates id (undoLaunch os notify cgroup) :=
  updates_after (updates_optionForM (fun _ => updates_call _) _)
    (updates_optionForM (fun _ => updates_call _) _)

section

variable {undo : Op ω Unit} (hu : Updates id undo) (generation : Nat) (now : Instant)

include hu

theorem orSpawnFailed_goes {α : Type} (describe : Str) (c : Call ω (Except Str α)) :
    Goes q (orSpawnFailed os undo generation now describe c) :=
  orSpawnFailed_leads os (leads_updates hu fun _ hm => hm.toOpening) generation now describe c

theorem forwardJournal_goes (wanted : Bool) (label : String) (pid : Nat) :
    Goes q (forwardJournal os wanted label pid undo generation now) := by
  apply leads_service
  intro m w hm
  exact leads_ite (fun _ => orSpawnFailed_goes os hu generation now _ _)
    (fun _ => leads_pure fun _ h => h) (m, w) hm

theorem attachMain_goes (cgroup : Option Str) (pid : Nat) :
    Goes q (attachMain os cgroup pid undo generation now) := by
  cases cgroup with
  | none => exact leads_pure fun _ h => h
  | some path => exact orSpawnFailed_goes os hu generation now _ _

theorem openMainPidFd_goes (pid : Nat) :
    Goes q (openMainPidFd os pid undo generation now) := by
  apply leads_bind (leads_aside _)
  intro r
  cases r with
  | opened => exact leads_pure fun _ h => h
  | unavailable => exact leads_pure fun _ h => h
  | failed e => exact orSpawnFailed_goes os hu generation now _ _

theorem registerMain_leads (pid : Nat) (pidfd : Bool) :
    Leads (On ω (Begins q)) (registerMain os generation pid pidfd undo)
      (fun _ => On ω (Launched q)) (On ω (Sound q)) := by
  apply leads_service
  intro m w hm
  have hb : Begins q (core m) := hm
  cases hr : m.record.transition (.spawned pid generation) with
  | ok x =>
    obtain ⟨r, actions⟩ := x
    have hspec : r.spec = q.spec := (transition_moved hr).spec.trans hb.spec
    have hst : r.state = .starting ∨ r.state = .running := by
      obtain ⟨hs, rfl | rfl⟩ | ⟨hs, -⟩ := spawned_outcome hr
      · exact .inl hs
      · exact .inr rfl
      · cases hs.symm.trans hb.state
    have hpid : r.pid = some pid := by
      obtain ⟨-, rfl | rfl⟩ | ⟨-, rfl⟩ := spawned_outcome hr <;> rfl
    exact hb.toOpening.launched hspec hst (by simp [hpid])
  | error e =>
    have hlast : Leads (On ω (Begins q)) (do
        undo
        throw ("cannot register ".toList ++ printUnsigned pid) : Op ω Unit)
        (fun _ => On ω (Launched q)) (On ω (Sound q)) := by
      apply leads_bind (leads_updates hu (q := Begins q) fun _ h => h)
      intro _
      exact leads_throw fun _ h => h.sound
    suffices hrest : Leads (On ω (Begins q)) (do
        if pidfd then let _ ← call (os.pidfdSendSignal pid sigKill)
        else call (os.kill pid)
        undo
        throw ("cannot register ".toList ++ printUnsigned pid) : Op ω Unit)
        (fun _ => On ω (Launched q)) (On ω (Sound q)) from hrest (m, w) hb
    apply leads_ite
    · intro _
      exact leads_bind (leads_aside _) fun _ => hlast
    · intro _
      exact leads_bind (leads_aside _) fun _ => hlast

end

theorem launchMain_goes (spec : ServiceSpec) (notify cgroup : Option Str) (generation : Nat)
    (now : Instant) : Goes q (launchMain os spec notify cgroup generation now) := by
  have hu := undoLaunch_updates os notify cgroup
  apply leads_service_bind
  intro s
  apply leads_bind (orSpawnFailed_goes os hu generation now _ _)
  intro _
  apply leads_bind (orSpawnFailed_goes os hu generation now _ _)
  intro _
  apply leads_bind (orSpawnFailed_goes os hu generation now _ _)
  intro _
  apply leads_service_bind
  intro s
  refine leads_bind (q := fun _ => On ω (Begins q)) (fun _ hs => begins_loose.activation hs) ?_
  intro _
  apply leads_bind (orSpawnFailed_goes os hu generation now _ _)
  intro _ launch
  apply leads_bind (leads_aside _)
  intro spawned
  apply leads_bind (leads_updates (updates_forM (fun _ => updates_call _) _) fun _ h => h)
  intro _
  exact orSpawnFailed_goes os hu generation now _ _

theorem prepareReadiness_goes (spec : ServiceSpec) (generation : Nat) (now : Instant) :
    Goes q (prepareReadiness os spec generation now) := by
  apply leads_ite
  · intro _
    rw [map_eq_pure_bind]
    apply leads_bind (orSpawnFailed_goes os updates_pure generation now _ _)
    intro _
    exact leads_pure fun _ h => h
  · intro _
    exact leads_pure fun _ h => h

theorem rememberMain_leads (spec : ServiceSpec) (pid : Nat) (pidfd : Bool)
    (notify cgroup : Option Str) (oomEvents : Option Nat) (now : Instant) :
    Leads (On ω (Launched q)) (rememberMain spec pid pidfd notify cgroup oomEvents now)
      (fun _ => On ω (Launched q)) (On ω (Sound q)) := by
  apply leads_update
  intro m w hm
  have hl : Launched q (core m) := hm
  exact hl.remembers rfl

theorem spawnStartPost_sound (pid : Nat) : Preserves (On ω (Sound q)) (spawnStartPost os pid) :=
  spawnStartPost_preserves sound_loose.insensitive pid

theorem spawnMain_ends (generation : Nat) (now : Instant) :
    Ended q (spawnMain os generation now) := by
  apply leads_service_bind
  intro s
  apply leads_bind (orSpawnFailed_goes os updates_pure generation now _ _)
  intro _
  apply leads_bind (prepareReadiness_goes os _ generation now)
  intro notify
  apply leads_bind (orSpawnFailed_goes os (undoLaunch_updates os notify none) generation now _ _)
  intro cgroup
  apply leads_bind (launchMain_goes os _ notify cgroup generation now)
  rintro ⟨pid, -⟩
  have hu := updates_after (updates_call (os.kill pid)) (undoLaunch_updates os notify cgroup)
  apply leads_bind (forwardJournal_goes os hu generation now _ _ pid)
  intro _
  apply leads_bind (forwardJournal_goes os hu generation now _ _ pid)
  intro _
  apply leads_bind (attachMain_goes os hu generation now cgroup pid)
  intro _
  apply leads_look_bind
  intro oomEvents
  apply leads_bind (openMainPidFd_goes os hu generation now pid)
  intro pidfd
  apply leads_bind (registerMain_leads os (undoLaunch_updates os notify cgroup) generation pid pidfd)
  intro _
  apply leads_bind (rememberMain_leads _ pid pidfd notify cgroup oomEvents now)
  intro _
  apply leads_ite
  · intro _
    exact leads_pre (fun _ h => h.1) (spawnStartPost_sound os pid)
  · intro _
    exact leads_pure fun _ h => h.1

theorem spawnSocket_ends (generation : Nat) (now : Instant) :
    Leads (fun s => On ω (Begins q) s ∧ s.1.spec.serviceType = .socket)
      (spawnSocket os generation now) (fun _ => On ω (Sound q)) (On ω (Sound q)) := by
  rintro ⟨m, w⟩ ⟨hm, hsocket⟩
  have hb : Begins q (core m) := hm
  have htype : q.spec.serviceType = .socket := by
    rw [← hb.spec]
    exact hsocket
  simp only [spawnSocket, service_bind]
  refine ends_bind (orSpawnFailed_goes os updates_pure generation now _ _ (m, w) hb)
    fun listeners t ht => ?_
  obtain ⟨m', w'⟩ := t
  have hb' : Begins q (core m') := ht
  cases hr : m.record.transition (.activated generation) with
  | ok x =>
    obtain ⟨-, hs, hp⟩ := activated_outcome hr
    exact hb'.activates ((transition_moved hr).spec.trans hb.spec) hs hp fun _ => htype
  | error e =>
    have hu : Updates id (listeners.forM fun listener => call (os.closeListener listener true)) :=
      updates_forM (fun _ => updates_call _) _
    exact ends_bind (ends_updates hu (p := fun _ => On ω (Begins q)) fun _ => hb')
      fun _ _ h => h.sound

theorem spawnTrigger_ends (generation : Nat) (now : Instant) :
    Ended q (spawnTrigger os generation now) := by
  rintro ⟨m, w⟩ hm
  have hb : Begins q (core m) := hm
  refine ends_bind (p := fun _ s => Sound q { core s.1 with startDeadline := none }) ?_ ?_
  · apply ends_transition
    · intro r actions hr
      obtain ⟨-, hs, hp⟩ := activated_outcome hr
      exact hb.activates ((transition_moved hr).spec.trans hb.spec) hs hp
        fun hl => absurd hb.listening hl
    · exact hb.sound
  · intro _ t ht
    exact ht

/-- A launch that can still ask whether the service may run. -/
def Asks (q : Mode) (c : Core) : Prop := Begins q c ∧ (c.execConditionsDone = false → Timely q c)

theorem spawn_ends (generation : Nat) (now : Instant) :
    Leads (On ω (Asks q)) (spawn os generation now) (fun _ => On ω (Sound q)) (On ω (Sound q)) := by
  rintro ⟨m, w⟩ hm
  obtain ⟨hb, ht⟩ : Asks q (core m) := hm
  simp only [spawn, service_bind]
  split
  next hsocket => exact spawnSocket_ends os generation now (m, w) ⟨hb, hsocket⟩
  split
  next => exact spawnTrigger_ends os generation now (m, w) hb
  split
  next hasks =>
    have hdone : m.execConditionsDone = false := by simpa using hasks.2
    have hp : Begins q (core m) ∧ Timely q (core m) := ⟨hb, ht hdone⟩
    refine ends_bind (orSpawnFailed_leads os (p := fun c => Begins q c ∧ Timely q c) (leads_updates
      updates_pure fun _ h => h.1.toOpening) generation now _ _ (m, w) hp) fun helper t ht => ?_
    exact ht.1.asks ht.2 helper
  split
  next =>
    refine ends_bind (orSpawnFailed_goes os updates_pure generation now _ _ (m, w) hb)
      fun helper t ht => ?_
    exact Begins.prepares ht helper
  next => exact spawnMain_ends os generation now (m, w) hb

theorem applyStartActions_ends (generation : Nat) (now : Instant) :
    Leads (On ω (Asks q)) (applyStartActions os [.spawn generation] now)
      (fun _ => On ω (Sound q)) (On ω (Sound q)) := by
  apply leads_bind (spawn_ends os generation now)
  intro _
  exact leads_pure fun _ h => h

theorem enforceStartLimit_leads {p e : Core → Prop} (now : Instant)
    (hhit : ∀ c r actions, p c →
      c.record.transition (.startLimitHit c.record.generation) = .ok (r, actions) →
        e { c with
          record := r, wantsRunning := false, restartAt := none, directories := [],
          credentialDirectory := none, privateTmpPaths := none })
    (hrefused : ∀ c, p c →
      (∀ x, c.record.transition (.startLimitHit c.record.generation) ≠ .ok x) → e c) :
    Leads (On ω p) (enforceStartLimit os now) (fun _ => On ω p) (On ω e) := by
  rintro ⟨m, w⟩ hm
  have hp : p (core m) := hm
  simp only [enforceStartLimit, service_bind]
  split
  next => exact hp
  split
  next => exact hp
  simp only [update_bind]
  split
  next =>
    cases hr : m.record.transition (.startLimitHit m.record.generation) with
    | ok x =>
      refine ends_bind (ends_transition_ok (p := fun _ s => e { core s.1 with
        wantsRunning := false, restartAt := none, directories := [], credentialDirectory := none,
        privateTmpPaths := none }) hr ?_) fun _ t ht => ?_
      · exact hhit (core m) x.1 x.2 hp hr
      · simp only [resetTriggerState, update_bind]
        exact ends_bind (ends_updates (p := fun _ => On ω e) (cleanupDirectories_updates os)
          fun _ => ht) fun _ _ h => h
    | error err =>
      refine ends_bind (p := fun _ _ => False) ?_ fun _ _ h => h.elim
      apply ends_transition
      · intro r actions h
        cases h.symm.trans hr
      · exact hrefused (core m) hp fun x h => by cases h.symm.trans hr
  next => exact hp

theorem Ready.limited {c : Core} (h : Ready q c) {r : ServiceRecord} {actions : List Action}
    (hr : c.record.transition (.startLimitHit c.record.generation) = .ok (r, actions)) :
    Sound q { c with
      record := r, wantsRunning := false, restartAt := none, directories := [],
      credentialDirectory := none, privateTmpPaths := none } := by
  obtain ⟨hs, hp⟩ := startLimitHit_outcome hr
  have hidle : Idle q { c with
      record := r, wantsRunning := false, restartAt := none, directories := [],
      credentialDirectory := none, privateTmpPaths := none } := { h.toIdle with
    spec := (transition_moved hr).spec.trans h.spec
    pid := hp
    waiting := rfl }
  exact hidle.sound (congrArg ManagedService.isDown hs) (fun _ _ => ⟨rfl, rfl⟩) fun hq =>
    absurd hq h.free

theorem enforceStartLimit_ready (state : ServiceState) (now : Instant) :
    Leads (On ω fun c => Ready q c ∧ c.record.state = state) (enforceStartLimit os now)
      (fun _ => On ω fun c => Ready q c ∧ c.record.state = state) (On ω (Sound q)) := by
  apply enforceStartLimit_leads
  · intro c r actions h hr
    exact Ready.limited h.1 hr
  · intro c h hr
    obtain ⟨x, hx, -⟩ := startLimitHit_refused h.1.state
    exact absurd hx (hr x)

theorem prepare_leads (generation : Nat) (now : Instant) :
    Leads (On ω (Opening q)) (prepare os generation now) (fun _ => On ω (Opening q))
      (On ω (Sound q)) := by
  have hu : Leads (On ω (Opening q)) (cleanupDirectories os) (fun _ => On ω (Opening q))
      (On ω (Sound q)) :=
    leads_updates (cleanupDirectories_updates os) fun _ h => { h with }
  apply leads_service_bind
  intro s
  apply leads_bind (orSpawnFailed_leads os hu generation now _ _)
  intro credentials
  refine leads_update_bind (j := Opening q) (fun _ h => { h with }) ?_
  apply leads_bind (orSpawnFailed_leads os hu generation now _ _)
  intro directories
  refine leads_update_bind (j := Opening q) (fun _ h => { h with }) ?_
  apply leads_bind (orSpawnFailed_leads os hu generation now _ _)
  intro paths
  exact leads_update fun m w h => { h with }

end

theorem timeoutDeadline_later {now timeout : Nat} (h : timeout ≠ 0) :
    due now (timeoutDeadline now timeout) = false := by
  unfold timeoutDeadline
  split
  · rfl
  · unfold checkedAdd
    split
    · have hlater : ¬ now + timeout ≤ now := by omega
      simpa only [due, Option.any_some, decide_eq_false_iff_not] using hlater
    · rfl

section

variable {ω : Type} (os : Os ω) {q : Mode} (hfree : ¬ q.halted) {now : Instant}
variable (hclock : ∀ t ∈ q.clock, t = now ∧ q.spec.startTimeout ≠ 0)

include hclock

theorem startAfresh_sound :
    Leads (On ω (Ready q)) (startAfresh os now) (fun _ => On ω (Sound q)) (On ω (Sound q)) := by
  suffices hlimited : ∀ state, Leads (On ω fun c => Ready q c ∧ c.record.state = state)
      (startAfresh os now) (fun _ => On ω (Sound q)) (On ω (Sound q)) from
    fun s hs => hlimited s.1.record.state s ⟨hs, rfl⟩
  intro state
  apply leads_bind (enforceStartLimit_ready os state now)
  intro _
  apply leads_pre (p := On ω (Ready q)) fun _ h => h.1
  refine leads_update_bind (j := Ready q) (fun _ h => { h with gone := h.gone.untimed }) ?_
  apply leads_bind (q := fun actions s => ∃ generation, actions = [.spawn generation] ∧
    Opening q (core s.1) ∧ AfterStop (core s.1))
  · rintro ⟨m, w⟩ hm
    have hready : Ready q (core m) := hm
    obtain ⟨r, hr, hl⟩ := startRequested_launching hready.state
    apply ends_transition_ok hr
    refine ⟨_, rfl, ?_, hready.released⟩
    exact { hready.toWanted with
      spec := (transition_moved hr).spec.trans hready.spec, pid := hl.2.1, state := hl.1 }
  · rintro actions ⟨m, w⟩ ⟨generation, rfl, hm, hreleased⟩
    have hl : Launching m.record.generation m.record := ⟨hm.state, hm.pid, rfl⟩
    have hdown : ∀ {r : ServiceRecord} {event : Event} {actions : List Action},
        m.record.transition event = .ok (r, actions) → ManagedService.isDown r.state →
          r.pid = none → Sound q { core m with record := r, startDeadline := none } := by
      intro r event actions hr hs hp
      refine Idle.sound ?_ hs hreleased fun hq => absurd hq hm.free
      exact { hm.toIdle with spec := (transition_moved hr).spec.trans hm.spec, pid := hp }
    simp only [service_bind, look_bind]
    split
    next =>
      obtain ⟨x, hx⟩ := conditionSkipped_ok hl
      obtain ⟨-, hs, hp⟩ := conditionSkipped_outcome hx
      exact ends_bind (ends_transition_ok (p := fun _ s => Sound q { core s.1 with
        startDeadline := none }) hx (hdown hx (congrArg ManagedService.isDown hs) hp))
        fun _ _ h => h
    split
    next =>
      obtain ⟨x, hx⟩ := startFailed_ok hl
      obtain ⟨-, -, ⟨pid, hpid, -⟩ | ⟨-, hp, hs, -⟩⟩ := startFailed_outcome hx
      · cases hpid.symm.trans hm.pid
      · exact ends_bind (ends_transition_ok (p := fun _ s => Sound q { core s.1 with
          startDeadline := none }) hx (hdown hx (congrArg ManagedService.isDown hs) hp))
          fun _ _ h => h
    next =>
      refine ends_bind (p := fun _ => On ω (Opening q)) { hm with } fun _ t ht => ?_
      refine ends_bind (prepare_leads os _ now t ht) fun _ t ht => ?_
      refine ends_bind (p := fun _ => On ω (Asks q)) ?_
        fun _ t ht => applyStartActions_ends os _ now t ht
      have htimely : ∀ t ∈ q.clock, due t (timeoutDeadline now m.spec.startTimeout) = false := by
        intro t ht
        obtain ⟨rfl, hne⟩ := hclock t ht
        apply timeoutDeadline_later
        have hspec : m.spec = q.spec := hm.spec
        rw [hspec]
        exact hne
      exact ⟨{ ht with prompt := Timely.prompt htimely }, fun _ => htimely⟩

include hfree

theorem start_sound :
    Leads (On ω (Sound q)) (start os now) (fun _ => On ω (Sound q)) (On ω (Sound q)) := by
  rintro ⟨m, w⟩ hm
  have hs : Sound q (core m) := hm
  have hup (hne : m.record.state ≠ .backoff) : Sound q { core m with
      wantsRunning := true, restartAfterStop := false, restartAt := none } :=
    (hs.unscheduled hne).again hfree nofun
  have hwait (hne : m.record.state ≠ .backoff) : Sound q { core m with
      wantsRunning := true, restartAfterStop := true, restartAt := none } :=
    (hs.unscheduled hne).again hfree fun _ t ht => (hclock t ht).2
  have hafresh (hst : Startable m.record.state) (w : ω) :=
    startAfresh_sound os hclock ({ m with
      wantsRunning := true, restartAfterStop := false, restartAt := none }, w) (hs.ready hst hfree)
  simp only [start, update_bind, service_bind]
  cases hst : m.record.state with
  | running | starting | active => exact hup (by simp [hst])
  | stopping => exact hwait (by simp [hst])
  | exited =>
    simp only
    split
    next => exact hwait (by simp [hst])
    next => exact hafresh (by simp [hst, Startable]) w
  | defined | backoff | skipped | failed => exact hafresh (by simp [hst, Startable]) w

end

end FractalD.Supervisor.Launching
