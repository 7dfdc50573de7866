import FractalD.Core.Outcomes
import FractalD.Machine.Effect
import FractalD.Supervisor.Service

namespace FractalD.Supervisor.StartFailure

open FractalD.Core.Outcomes FractalD.Core.Record FractalD.Core.Spec FractalD.Machine.CString
open FractalD.Machine.Effect
open FractalD.Supervisor.Service FractalD.Supervisor.System

variable {ω : Type} (os : Os ω)

section

variable {α β : Type} (s : ManagedService × ω)

@[simp]
theorem service_bind (f : ManagedService → Op ω β) : (service >>= f) s = f s.1 s := rfl

@[simp]
theorem look_bind (g : ω → α) (f : α → Op ω β) : (look g >>= f) s = f (g s.2) s := rfl

@[simp]
theorem update_bind (g : ManagedService → ManagedService) (f : Unit → Op ω β) :
    (update g >>= f) s = f () (g s.1, s.2) := rfl

@[simp]
theorem update_apply (g : ManagedService → ManagedService) :
    (update g : Op ω Unit) s = .ok () (g s.1, s.2) := rfl

@[simp]
theorem call_bind (c : Call ω α) (f : α → Op ω β) :
    (call c >>= f) s = f (c s.2).1 (s.1, (c s.2).2) := rfl

@[simp]
theorem call_apply (c : Call ω α) : call c s = .ok (c s.2).1 (s.1, (c s.2).2) := rfl

@[simp]
theorem throw_apply (e : Str) : (throw e : Op ω α) s = .error e s := rfl

@[simp]
theorem pure_apply (a : α) : (pure a : Op ω α) s = .ok a s := rfl

end

/-- The operation leaves the record alone, and fails only if it may. -/
def Keeps {α : Type} (fails : Prop) (x : Op ω α) : Prop :=
  ∀ s, Ends (fun _ t => t.1.record = s.1.record) (fun _ t => fails ∧ t.1.record = s.1.record) (x s)

section

variable {os} {α β γ : Type} {fails : Prop}

theorem keeps_pure (a : α) : Keeps fails (pure a : Op ω α) := fun _ => rfl

theorem keeps_call (c : Call ω α) : Keeps fails (call c) := fun _ => rfl

theorem keeps_update {f : ManagedService → ManagedService} (hf : ∀ m, (f m).record = m.record) :
    Keeps fails (update f : Op ω Unit) := fun s => hf s.1

theorem keeps_service : Keeps fails (service : Op ω ManagedService) := fun _ => rfl

theorem keeps_throw (e : Str) : Keeps True (throw e : Op ω α) := fun _ => ⟨trivial, rfl⟩

theorem keeps_bind {x : Op ω α} {f : α → Op ω β} (hx : Keeps fails x)
    (hf : ∀ a, Keeps fails (f a)) : Keeps fails (x >>= f) := by
  intro s
  refine ends_bind (hx s) fun a t ht => ?_
  exact ends_mono (fun _ _ h => h.trans ht) (fun _ _ h => ⟨h.1, h.2.trans ht⟩) (hf a t)

theorem ends_after {x : Op ω α} {f : α → Op ω β} {s : ManagedService × ω}
    {p : β → ManagedService × ω → Prop} {q : Str → ManagedService × ω → Prop}
    (hx : Keeps False x) (hf : ∀ a t, t.1.record = s.1.record → Ends p q (f a t)) :
    Ends p q ((x >>= f) s) :=
  ends_bind (ends_mono (fun _ _ h => h) (fun _ _ h => h.1.elim) (hx s)) hf

theorem keeps_tryCatch {x : Op ω α} {h : Str → Op ω α} (hx : Keeps True x)
    (hh : ∀ e, Keeps fails (h e)) : Keeps fails (tryCatch x h) := by
  intro s
  change Ends _ _ (EStateM.tryCatch x h s)
  have hs := hx s
  cases hr : x s with
  | ok a t =>
    simp only [hr] at hs
    simp only [EStateM.tryCatch, hr]
    exact hs
  | error e t =>
    simp only [hr] at hs
    simp only [EStateM.tryCatch, hr]
    exact ends_mono (fun _ _ h => h.trans hs.2) (fun _ _ h => ⟨h.1, h.2.trans hs.2⟩) (hh e t)

theorem keeps_forM {g : γ → Op ω Unit} (hg : ∀ c, Keeps fails (g c)) (l : List γ) :
    Keeps fails (l.forM g) := by
  induction l with
  | nil => exact keeps_pure ()
  | cons c l ih => exact keeps_bind (hg c) fun _ => ih

theorem keeps_optionForM {g : γ → Op ω Unit} (hg : ∀ c, Keeps fails (g c)) (o : Option γ) :
    Keeps fails (o.forM g) := by
  cases o with
  | none => exact keeps_pure ()
  | some c => exact hg c

theorem keeps_ite {c : Prop} [Decidable c] {x y : Op ω α} (hx : Keeps fails x)
    (hy : Keeps fails y) : Keeps fails (if c then x else y) := by
  split
  · exact hx
  · exact hy

end

section

variable {fails : Prop}

theorem killExecConditionHelper_keeps : Keeps fails (killExecConditionHelper os) :=
  keeps_bind keeps_service fun _ =>
    keeps_bind (keeps_optionForM (fun _ => keeps_call _) _) fun _ => keeps_update fun _ => rfl

theorem clearActivationFds_keeps : Keeps fails (clearActivationFds os) :=
  keeps_bind keeps_service fun _ =>
    keeps_bind (keeps_forM (fun _ => keeps_call _) _) fun _ => keeps_update fun _ => rfl

theorem cleanupDirectories_keeps : Keeps fails (cleanupDirectories os) := by
  refine keeps_bind keeps_service fun s => ?_
  refine keeps_bind (keeps_forM (fun _ => keeps_call _) _) fun _ => ?_
  refine keeps_bind (keeps_optionForM (fun _ => keeps_call _) _) fun _ => ?_
  refine keeps_bind (keeps_optionForM (fun paths => ?_) _) fun _ => keeps_update fun _ => rfl
  exact keeps_bind (keeps_call _) fun _ => keeps_call _

theorem undoLaunch_keeps (notify cgroup : Option Str) :
    Keeps fails (undoLaunch os notify cgroup) :=
  keeps_bind (keeps_optionForM (fun _ => keeps_call _) _) fun _ =>
    keeps_optionForM (fun _ => keeps_call _) _

theorem signalPidFd_keeps (signal : Int) (first second : String) {otherwise : OsError → Op ω Unit}
    (h : ∀ e, Keeps True (otherwise e)) (e : OsError) :
    Keeps True (signalPidFd os signal first second otherwise e) := by
  refine keeps_bind keeps_service fun s => ?_
  split
  · exact h e
  · refine keeps_bind (keeps_call _) fun r => ?_
    split
    · exact keeps_pure ()
    · exact keeps_ite (keeps_pure ()) (keeps_throw _)

theorem sendProcessSignal_keeps (pid : Nat) (signal : Int) :
    Keeps True (sendProcessSignal os pid signal) := by
  refine keeps_bind (keeps_call _) fun r => ?_
  split
  · exact keeps_pure ()
  · refine keeps_ite (keeps_pure ()) (signalPidFd_keeps os signal _ _ (fun e => ?_) _)
    exact keeps_bind keeps_service fun _ => keeps_throw _

theorem required_keeps {α : Type} (describe : Str) (c : Call ω (Except Str α)) :
    Keeps True (required describe c) := by
  refine keeps_bind (keeps_call _) fun r => ?_
  split
  · exact keeps_pure _
  · exact keeps_throw _

theorem sendGroupSignal_keeps (pid : Nat) (signal : Int) :
    Keeps True (sendGroupSignal os pid signal) := by
  refine keeps_bind keeps_service fun s => keeps_bind (keeps_call _) fun r => ?_
  split
  · exact keeps_pure ()
  · refine keeps_ite (keeps_pure ()) (signalPidFd_keeps os signal _ _ (fun e => ?_) _)
    refine keeps_bind keeps_service fun s => keeps_ite ?_ (keeps_throw _)
    exact keeps_optionForM (fun _ => required_keeps _ _) _

theorem sendSignalRaw_keeps (pid : Nat) (signal : Int) :
    Keeps True (sendSignalRaw os pid signal) := by
  refine keeps_bind keeps_service fun s => ?_
  have hp := sendProcessSignal_keeps os pid signal
  have hg := sendGroupSignal_keeps os pid signal
  suffices h : Keeps True _ from keeps_ite (keeps_bind (keeps_throw _) fun _ => h) h
  cases s.spec.killMode with
  | controlGroup => exact hg
  | process => exact hp
  | mixed => exact keeps_ite hp hg
  | none => exact keeps_pure ()

theorem sendSignal_keeps (pid : Nat) (signal : Int) : Keeps True (sendSignal os pid signal) := by
  refine keeps_bind keeps_service fun s => ?_
  refine keeps_bind (sendSignalRaw_keeps os pid _) fun _ => keeps_ite ?_ (keeps_pure ())
  refine keeps_bind (keeps_update fun _ => rfl) fun _ => keeps_ite ?_ (keeps_pure ())
  exact sendSignalRaw_keeps os pid sigHup

theorem spawnStartPost_keeps (pid : Nat) : Keeps True (spawnStartPost os pid) := by
  refine keeps_bind keeps_service fun s => keeps_ite (keeps_pure ()) ?_
  refine keeps_bind (keeps_call _) fun r => ?_
  split
  · exact keeps_update fun _ => rfl
  · refine keeps_bind (keeps_tryCatch (sendSignal_keeps os pid _) fun _ => keeps_pure ()) fun _ => ?_
    exact keeps_throw _

end

def Recorded (r : ServiceRecord) : Prop := r.state = .failed ∨ r.state = .backoff

instance : DecidablePred Recorded := fun r =>
  inferInstanceAs (Decidable (r.state = .failed ∨ r.state = .backoff))

/-- The failure of a start is on record unless the main process has been launched. -/
def Accounted (r : ServiceRecord) : Prop := Recorded r ↔ r.pid = none

/-- A generation is being started, and has no main process yet. -/
def Launching (generation : Nat) (r : ServiceRecord) : Prop :=
  r.state = .starting ∧ r.pid = none ∧ r.generation = generation

/-- The end of a start that has failed before its main process was launched. -/
def Refused (r : ServiceRecord) : Prop := Recorded r ∧ r.pid = none

theorem Refused.accounted {r : ServiceRecord} (h : Refused r) : Accounted r :=
  iff_of_true h.1 h.2

/-- Where a failed start leads to: a record, and at most a restart later on. -/
def LeadsToRefusal (x : ServiceRecord × List Action) : Prop :=
  Refused x.1 ∧ ∀ a ∈ x.2, ∃ g d, a = .scheduleRestart g d

theorem backoff_refused {r : ServiceRecord} (hp : r.pid = none) :
    ∀ x ∈ r.backoff, LeadsToRefusal x := by
  intro x hx
  unfold ServiceRecord.backoff at hx
  split at hx
  · obtain rfl := Option.mem_some.mp hx
    exact ⟨⟨.inr rfl, hp⟩, by simp⟩
  · simp at hx

theorem spawnFailed_refused {generation : Nat} {r : ServiceRecord} (h : Launching generation r) :
    ∃ x, r.transition (.spawnFailed generation) = .ok x ∧ LeadsToRefusal x := by
  obtain ⟨hs, hp, rfl⟩ := h
  let r' := { r with lastExit := some (.exited 127) }
  let restart := if r.spec.restart.shouldRestart (.exited 127) then r'.backoff else none
  refine ⟨restart.getD ({ r' with state := .failed }, []), ?_, ?_⟩
  · simp [ServiceRecord.transition, ServiceRecord.spawnFailed, ServiceRecord.during,
      ServiceRecord.checkGeneration, hs, restart, r']
    rfl
  · cases hr : restart with
    | none => exact ⟨⟨.inl rfl, hp⟩, by simp⟩
    | some x =>
      refine backoff_refused (r := r') hp x ?_
      by_cases hc : r.spec.restart.shouldRestart (.exited 127)
      · simpa [restart, hc] using hr
      · simp [restart, hc] at hr

theorem transition_ok {describe : Str} {event : ServiceRecord → Event} {s : ManagedService × ω}
    {x : ServiceRecord × List Action}
    (h : s.1.record.transition (event s.1.record) = .ok x) :
    transition describe event s = .ok x.2 ({ s.1 with record := x.1 }, s.2) := by
  rw [transition, service_bind, h]
  rfl

theorem markSpawnFailed_refuses {generation : Nat} (now : Instant) {s : ManagedService × ω}
    (h : Launching generation s.1.record) :
    Ends (fun _ t => Refused t.1.record) (fun _ _ => False)
      (markSpawnFailed os generation now s) := by
  refine ends_after (killExecConditionHelper_keeps os) fun _ t₁ h₁ => ?_
  refine ends_after (clearActivationFds_keeps os) fun _ t₂ h₂ => ?_
  refine ends_after (cleanupDirectories_keeps os) fun _ t₃ h₃ => ?_
  have hr : t₃.1.record = s.1.record := h₃.trans (h₂.trans h₁)
  obtain ⟨x, hx, ⟨href, hact⟩⟩ := spawnFailed_refused (hr ▸ h : Launching generation t₃.1.record)
  refine ends_bind (p := fun actions t => actions = x.2 ∧ Refused t.1.record) ?_ ?_
  · rw [transition_ok hx]
    exact ⟨rfl, href⟩
  · rintro _ t ⟨rfl, ht⟩
    refine ends_forM (i := fun t : ManagedService × ω => Refused t.1.record) (fun a ha u hu => ?_) ht
    obtain ⟨g, d, rfl⟩ := hact a ha
    exact hu

/-- The operation goes on with the launch, or its failure is on record. -/
def Launches {α : Type} (generation : Nat) (x : Op ω α) : Prop :=
  ∀ s, Launching generation s.1.record →
    Ends (fun _ t => Launching generation t.1.record) (fun _ t => Refused t.1.record) (x s)

section

variable {generation : Nat} {α β : Type}

theorem launches_of_keeps {x : Op ω α} (hx : Keeps False x) : Launches generation x :=
  fun s hs => ends_mono (fun _ _ h => h ▸ hs) (fun _ _ h => h.1.elim) (hx s)

theorem launches_bind {x : Op ω α} {f : α → Op ω β} (hx : Launches generation x)
    (hf : ∀ a, Launches generation (f a)) : Launches generation (x >>= f) :=
  fun s hs => ends_bind (hx s hs) fun a t => hf a t

theorem orSpawnFailed_launches {undo : Op ω Unit} (hu : Keeps False undo) (now : Instant)
    (describe : Str) (c : Call ω (Except Str α)) :
    Launches generation (orSpawnFailed os undo generation now describe c) := by
  refine launches_bind (launches_of_keeps (keeps_call c)) fun r => ?_
  cases r with
  | ok a => exact launches_of_keeps (keeps_pure a)
  | error e =>
    intro s hs
    refine ends_after hu fun _ t ht => ?_
    refine ends_bind (ends_mono (fun _ _ h => h) (fun _ _ h => h.elim)
      (markSpawnFailed_refuses os now (ht ▸ hs : Launching generation t.1.record))) ?_
    exact fun _ _ h => h

theorem launches_ite {c : Prop} [Decidable c] {x y : Op ω α} (hx : Launches generation x)
    (hy : Launches generation y) : Launches generation (if c then x else y) := by
  split
  · exact hx
  · exact hy

theorem prepare_launches (now : Instant) : Launches generation (prepare os generation now) := by
  have hu : Keeps False (cleanupDirectories os) := cleanupDirectories_keeps os
  refine launches_bind (launches_of_keeps keeps_service) fun s => ?_
  refine launches_bind (orSpawnFailed_launches os hu now _ _) fun credentials => ?_
  refine launches_bind (launches_of_keeps (keeps_update fun _ => rfl)) fun _ => ?_
  refine launches_bind (orSpawnFailed_launches os hu now _ _) fun directories => ?_
  refine launches_bind (launches_of_keeps (keeps_update fun _ => rfl)) fun _ => ?_
  refine launches_bind (orSpawnFailed_launches os hu now _ _) fun paths => ?_
  exact launches_of_keeps (keeps_update fun _ => rfl)

theorem prepareReadiness_launches (spec : ServiceSpec) (now : Instant) :
    Launches generation (prepareReadiness os spec generation now) := by
  refine launches_ite ?_ (launches_of_keeps (keeps_pure none))
  rw [map_eq_pure_bind]
  refine launches_bind (orSpawnFailed_launches os (keeps_pure ()) now _ _) fun path => ?_
  exact launches_of_keeps (keeps_pure _)

theorem launchMain_launches (spec : ServiceSpec) (notify cgroup : Option Str) (now : Instant) :
    Launches generation (launchMain os spec notify cgroup generation now) := by
  have hu : Keeps False (undoLaunch os notify cgroup) := undoLaunch_keeps os notify cgroup
  refine launches_bind (launches_of_keeps keeps_service) fun s => ?_
  refine launches_bind (orSpawnFailed_launches os hu now _ _) fun _ => ?_
  refine launches_bind (orSpawnFailed_launches os hu now _ _) fun _ => ?_
  refine launches_bind (orSpawnFailed_launches os hu now _ _) fun _ => ?_
  refine launches_bind (launches_of_keeps keeps_service) fun s => ?_
  refine launches_bind (launches_of_keeps (keeps_update fun _ => rfl)) fun _ => ?_
  refine launches_bind (orSpawnFailed_launches os hu now _ _) fun _ => ?_
  refine launches_bind (launches_of_keeps (keeps_call _)) fun spawned => ?_
  refine launches_bind (launches_of_keeps (keeps_forM (fun _ => keeps_call _) _)) fun _ => ?_
  exact orSpawnFailed_launches os hu now _ _

section

variable {undo : Op ω Unit} (hu : Keeps False undo)

include hu

theorem forwardJournal_launches (wanted : Bool) (label : String) (pid : Nat) (now : Instant) :
    Launches generation (forwardJournal os wanted label pid undo generation now) := by
  refine launches_bind (launches_of_keeps keeps_service) fun s => ?_
  exact launches_ite (orSpawnFailed_launches os hu now _ _) (launches_of_keeps (keeps_pure ()))

theorem attachMain_launches (cgroup : Option Str) (pid : Nat) (now : Instant) :
    Launches generation (attachMain os cgroup pid undo generation now) := by
  cases cgroup with
  | none => exact launches_of_keeps (keeps_pure ())
  | some path => exact orSpawnFailed_launches os hu now _ _

theorem openMainPidFd_launches (pid : Nat) (now : Instant) :
    Launches generation (openMainPidFd os pid undo generation now) := by
  refine launches_bind (launches_of_keeps (keeps_call _)) fun r => ?_
  cases r with
  | opened => exact launches_of_keeps (keeps_pure true)
  | unavailable => exact launches_of_keeps (keeps_pure false)
  | failed e => exact orSpawnFailed_launches os hu now _ _

end

/-- The main process of a start that has succeeded so far. -/
def Launched (r : ServiceRecord) : Prop := (r.state = .starting ∨ r.state = .running) ∧ r.pid ≠ none

theorem Launched.accounted {r : ServiceRecord} (h : Launched r) : Accounted r := by
  refine iff_of_false ?_ h.2
  rintro (hf | hb)
  · rcases h.1 with hs | hs <;> rw [hf] at hs <;> cases hs
  · rcases h.1 with hs | hs <;> rw [hb] at hs <;> cases hs

theorem spawned_launched {r : ServiceRecord} (h : Launching generation r) {pid : Nat}
    (hp : pid ≠ 0) : ∃ x, r.transition (.spawned pid generation) = .ok x ∧ Launched x.1 := by
  obtain ⟨hs, -, rfl⟩ := h
  by_cases ht : r.spec.serviceType = .notify ∨ r.spec.serviceType = .dbus
  · refine ⟨({ r with pid := some pid }, []), ?_, .inl hs, by simp⟩
    simp [ServiceRecord.transition, ServiceRecord.spawned, ServiceRecord.during,
      ServiceRecord.checkGeneration, hs, hp, ht]
    rfl
  · refine ⟨({ r with pid := some pid, state := .running }, []), ?_, .inr rfl, by simp⟩
    simp [ServiceRecord.transition, ServiceRecord.spawned, ServiceRecord.during,
      ServiceRecord.checkGeneration, hs, hp, ht]
    rfl

theorem registerMain_ends (pidfd : Bool) (undo : Op ω Unit) {pid : Nat} (hp : pid ≠ 0)
    {s : ManagedService × ω} (hs : Launching generation s.1.record) :
    Ends (fun _ t => Launched t.1.record) (fun _ _ => False)
      (registerMain os generation pid pidfd undo s) := by
  obtain ⟨x, hx, hl⟩ := spawned_launched hs hp
  have hr : registerMain os generation pid pidfd undo s =
      .ok () ({ s.1 with record := x.1 }, s.2) := by
    simp only [registerMain, service_bind, hx]
    rfl
  rw [hr]
  exact hl

/-- An operation of a launch that ends it. -/
abbrev Finishes (generation : Nat) (x : Op ω Unit) : Prop :=
  ∀ s, Launching generation s.1.record →
    Ends (fun _ _ => True) (fun _ t => Accounted t.1.record) (x s)

theorem finishes_of_launches {x : Op ω Unit} (hx : Launches generation x) :
    Finishes generation x :=
  fun s hs => ends_mono (fun _ _ _ => trivial) (fun _ _ h => h.accounted) (hx s hs)

theorem finishes_bind {x : Op ω α} {f : α → Op ω Unit} (hx : Launches generation x)
    (hf : ∀ a, Finishes generation (f a)) : Finishes generation (x >>= f) :=
  fun s hs =>
    ends_bind (ends_mono (fun _ _ h => h) (fun _ _ h => h.accounted) (hx s hs)) fun a t => hf a t

theorem spawnMain_finishes (now : Instant) :
    Finishes generation (spawnMain os generation now) := by
  have hu : ∀ notify cgroup, Keeps False (undoLaunch os notify cgroup) := undoLaunch_keeps os
  refine finishes_bind (launches_of_keeps keeps_service) fun s => ?_
  refine finishes_bind (orSpawnFailed_launches os (keeps_pure ()) now _ _) fun _ => ?_
  refine finishes_bind (prepareReadiness_launches os _ now) fun notify => ?_
  refine finishes_bind (orSpawnFailed_launches os (hu notify none) now _ _) fun cgroup => ?_
  refine finishes_bind (launchMain_launches os _ notify cgroup now) fun ⟨pid, hp⟩ => ?_
  have hk := keeps_bind (keeps_call (os.kill pid)) fun _ => hu notify cgroup
  refine finishes_bind (forwardJournal_launches os hk _ _ pid now) fun _ => ?_
  refine finishes_bind (forwardJournal_launches os hk _ _ pid now) fun _ => ?_
  refine finishes_bind (attachMain_launches os hk cgroup pid now) fun _ => ?_
  refine finishes_bind (launches_of_keeps fun _ => rfl) fun oomEvents => ?_
  refine finishes_bind (openMainPidFd_launches os hk pid now) fun pidfd => ?_
  intro s₁ h₁
  refine ends_bind (ends_mono (fun _ _ h => h) (fun _ _ h => h.elim)
    (registerMain_ends os pidfd _ hp h₁)) fun _ s₂ h₂ => ?_
  refine ends_after (keeps_update fun _ => rfl) fun _ s₃ h₃ => ?_
  have hl : Launched s₃.1.record := h₃ ▸ h₂
  have hlast : Keeps True (if startsAtOnce s.spec then spawnStartPost os pid else pure ()) :=
    keeps_ite (spawnStartPost_keeps os pid) (keeps_pure ())
  exact ends_mono (fun _ _ _ => trivial) (fun _ _ h => (h.2 ▸ hl).accounted) (hlast s₃)

theorem activated_ok {r : ServiceRecord} (h : Launching generation r) :
    ∃ x, r.transition (.activated generation) = .ok x := by
  obtain ⟨hs, -, rfl⟩ := h
  refine ⟨({ r with pid := none, state := .active, restartCount := 0, startFailed := false }, []),
    ?_⟩
  simp [ServiceRecord.transition, ServiceRecord.activated, ServiceRecord.during,
    ServiceRecord.checkGeneration, hs]
  rfl

theorem spawnSocket_finishes (now : Instant) :
    Finishes generation (spawnSocket os generation now) := by
  intro s hs
  obtain ⟨x, hx⟩ := activated_ok hs
  simp only [spawnSocket, service_bind, hx]
  refine finishes_bind (orSpawnFailed_launches os (keeps_pure ()) now _ _) (fun listeners => ?_) s hs
  exact fun _ _ => trivial

theorem spawnTrigger_finishes (now : Instant) :
    Finishes generation (spawnTrigger os generation now) := by
  intro s hs
  obtain ⟨x, hx⟩ := activated_ok hs
  refine ends_bind (p := fun _ _ => True) ?_ fun _ _ _ => trivial
  rw [transition_ok hx]
  trivial

theorem finishes_ite {c : Prop} [Decidable c] {x y : Op ω Unit} (hx : Finishes generation x)
    (hy : Finishes generation y) : Finishes generation (if c then x else y) := by
  split
  · exact hx
  · exact hy

theorem spawn_finishes (now : Instant) : Finishes generation (spawn os generation now) := by
  refine finishes_bind (launches_of_keeps keeps_service) fun s => ?_
  refine finishes_ite (spawnSocket_finishes os now) ?_
  refine finishes_ite (spawnTrigger_finishes os now) ?_
  refine finishes_ite ?_ (finishes_ite ?_ (spawnMain_finishes os now))
  · refine finishes_bind (orSpawnFailed_launches os (keeps_pure ()) now _ _) fun h => ?_
    exact finishes_of_launches (launches_of_keeps (keeps_update fun _ => rfl))
  · refine finishes_bind (orSpawnFailed_launches os (keeps_pure ()) now _ _) fun h => ?_
    exact finishes_of_launches (launches_of_keeps (keeps_update fun _ => rfl))

theorem startRequested_launching {r : ServiceRecord} (h : Startable r.state) :
    ∃ r' : ServiceRecord, r.transition .startRequested = .ok (r', [.spawn r'.generation]) ∧
      Launching r'.generation r' := by
  refine ⟨{ r.advanceGeneration with
    state := .starting, pid := none, lastExit := none, restartCount := 0,
    startFailed := false, runtimeFailed := false }, ?_, rfl, rfl, rfl⟩
  simp only [Startable, List.mem_cons, List.not_mem_nil, or_false] at h
  rcases h with h | h | h | h | h <;>
    simp [ServiceRecord.transition, ServiceRecord.start, h] <;> rfl

theorem startLimitHit_refused {r : ServiceRecord} (h : Startable r.state) :
    ∃ x, r.transition (.startLimitHit r.generation) = .ok x ∧ Refused x.1 := by
  refine ⟨(r.failWith (.exited 1), []), ?_, .inl rfl, rfl⟩
  simp only [Startable, List.mem_cons, List.not_mem_nil, or_false] at h
  rcases h with h | h | h | h | h <;>
    simp [ServiceRecord.transition, ServiceRecord.startLimitHit, ServiceRecord.during,
      ServiceRecord.checkGeneration, h] <;> rfl

theorem enforceStartLimit_ends (now : Instant) {s : ManagedService × ω}
    (h : Startable s.1.record.state) :
    Ends (fun _ t => t.1.record = s.1.record) (fun _ t => Refused t.1.record)
      (enforceStartLimit os now s) := by
  obtain ⟨x, hx, href⟩ := startLimitHit_refused h
  simp only [enforceStartLimit, service_bind]
  split
  · exact rfl
  · split
    · exact rfl
    · simp only [update_bind]
      split
      · refine ends_bind (p := fun _ t => Refused t.1.record) ?_ fun _ t₁ h₁ => ?_
        · rw [transition_ok hx]
          exact href
        · refine ends_after (keeps_update fun _ => rfl) fun _ t₂ h₂ => ?_
          refine ends_after (keeps_update fun _ => rfl) fun _ t₃ h₃ => ?_
          refine ends_after (cleanupDirectories_keeps os) fun _ t₄ h₄ => ?_
          change Refused t₄.1.record
          rw [h₄, h₃, h₂]
          exact h₁
      · exact rfl

theorem conditionSkipped_ok {r : ServiceRecord} (h : Launching generation r) :
    ∃ x, r.transition (.conditionSkipped r.generation) = .ok x := by
  refine ⟨({ r with pid := none, state := .skipped, restartCount := 0, startFailed := false }, []),
    ?_⟩
  simp [ServiceRecord.transition, ServiceRecord.conditionSkipped, ServiceRecord.during,
    ServiceRecord.checkGeneration, h.1]
  rfl

theorem startFailed_ok {r : ServiceRecord} (h : Launching generation r) :
    ∃ x, r.transition (.startFailed r.generation) = .ok x := by
  refine ⟨({ r with startFailed := true, state := .failed }.advanceGeneration, []), ?_⟩
  simp [ServiceRecord.transition, ServiceRecord.failStart, ServiceRecord.during,
    ServiceRecord.checkGeneration, h.1, h.2.1]
  rfl

theorem startAfresh_accounted (now : Instant) {s : ManagedService × ω}
    (h : Startable s.1.record.state) :
    Ends (fun _ _ => True) (fun _ t => Accounted t.1.record) (startAfresh os now s) := by
  refine ends_bind (ends_mono (fun _ _ h => h) (fun _ _ h => h.accounted)
    (enforceStartLimit_ends os now h)) fun _ t₁ h₁ => ?_
  refine ends_after (keeps_update fun _ => rfl) fun _ t₂ h₂ => ?_
  have hstart : Startable t₂.1.record.state := (h₂.trans h₁) ▸ h
  obtain ⟨r, hr, hl⟩ := startRequested_launching hstart
  refine ends_bind (p := fun actions t => actions = [.spawn r.generation] ∧ t.1.record = r) ?_ ?_
  · rw [transition_ok hr]
    exact ⟨rfl, rfl⟩
  · rintro _ t₃ ⟨rfl, rfl⟩
    simp only [service_bind, look_bind]
    split
    · obtain ⟨x, hx⟩ := conditionSkipped_ok hl
      refine ends_bind (p := fun _ _ => True) ?_ fun _ _ _ => trivial
      rw [transition_ok hx]
      trivial
    · split
      · obtain ⟨x, hx⟩ := startFailed_ok hl
        refine ends_bind (p := fun _ _ => True) ?_ fun _ _ _ => trivial
        rw [transition_ok hx]
        trivial
      · refine ends_after (keeps_update fun _ => rfl) fun _ t₄ h₄ => ?_
        have hl₄ : Launching t₃.1.record.generation t₄.1.record := h₄ ▸ hl
        refine finishes_bind (prepare_launches os now) (fun _ t₅ h₅ => ?_) t₄ hl₄
        refine ends_after (keeps_update fun _ => rfl) fun _ t h₆ => ?_
        have ht : Launching t₃.1.record.generation t.1.record := h₆ ▸ h₅
        exact ends_bind (spawn_finishes os now t ht) fun _ _ _ => trivial

/-- A start that fails has its failure on record, unless the main process has
been launched. -/
theorem start_accounted (now : Instant) (s : ManagedService × ω) :
    Ends (fun _ _ => True) (fun _ t => Accounted t.1.record) (start os now s) := by
  refine ends_after (keeps_update fun _ => rfl) fun _ t ht => ?_
  simp only [service_bind]
  cases hs : t.1.record.state with
  | running | starting | active | stopping => exact trivial
  | exited =>
    simp only
    split
    · exact trivial
    · exact startAfresh_accounted os now (by simp [Startable, hs])
  | defined | backoff | skipped | failed =>
    exact startAfresh_accounted os now (by simp [Startable, hs])

end

end FractalD.Supervisor.StartFailure
