import FractalD.Supervisor.Frame

namespace FractalD.Supervisor.Stopping

open FractalD.Core.Record FractalD.Core.Spec FractalD.Machine.CString FractalD.Machine.Effect
open FractalD.Supervisor.Frame FractalD.Supervisor.Service FractalD.Supervisor.ServicePoll
open FractalD.Supervisor.System

section

variable {ω : Type} (os : Os ω)

/-- Tell the record to stop, and the process. -/
def askToStop (signal : Int) : Op ω Unit := do
  if (← service).record.state = .starting ∨ (← service).record.state = .running then
    update ({ · with stopSignal := some signal, stopSignalSent := false })
  applyActions os (← transition "cannot stop ".toList fun _ => .stopRequested)

def stopListening (spec : ServiceSpec) : Op ω Unit := do
  if spec.serviceType = .socket then
    closeListeners os spec.removeOnStop
    clearActivationFds os

def stopBare : Op ω Unit := do
  let s ← service
  if s.record.state = .stopping ∧ s.record.pid.isNone then completeStop os

def stopActive (now : Instant) (state : ServiceState) : Op ω Unit := do
  let s ← service
  if state = .active ∧ s.record.state = .exited then
    if s.spec.stop.isSome then
      spawnActiveStop os
      update ({ · with stopDeadline := timeoutDeadline now s.spec.stopTimeout })
    else spawnStopPost os none

def stopResources : Op ω Unit := do
  let s ← service
  if s.record.state = .exited then
    resetTriggerState
    if s.activeStopHelper.isNone ∧ s.stopPostHelper.isNone then cleanupDirectories os

def stopMain (signal : Int) : Op ω Unit := do
  let s ← service
  if let some pid := s.record.pid then
    if s.spec.stop.isSome then
      tryCatch (spawnStopCommand os pid) fun _ => do
        sendSignal os pid ((← service).stopSignal.getD signal)

def limitStop (now : Instant) : Op ω Unit :=
  update fun s => { s with
    stopDeadline :=
      if s.record.state = .stopping ∧ s.record.pid.isSome then timeoutDeadline now s.spec.stopTimeout
      else none }

theorem stopWithSignal_eq (now : Instant) (signal : Int) :
    stopWithSignal os now signal = (do
      update ({ · with
        wantsRunning := false, restartAfterStop := false, restartAt := none,
        runtimeDeadline := none })
      killDbusProbe os
      let before ← service
      askToStop os signal
      stopListening os before.spec
      stopBare os
      stopActive os now before.record.state
      stopResources os
      stopMain os signal
      limitStop now) := by
  have hs (f : ManagedService → ManagedService → Op ω Unit) :
      (service >>= fun a => service >>= fun b => f a b) = service >>= fun a => f a a := rfl
  have hm (o : Option Nat) (x : Nat → Op ω Unit) (y z : Op ω Unit) :
      ((match o with | some pid => x pid | _ => y) >>= fun _ => z) =
        match o with | some pid => x pid >>= fun _ => z | _ => y >>= fun _ => z := by
    cases o <;> rfl
  simp only [stopWithSignal, askToStop, stopListening, stopBare, stopActive, stopResources, stopMain,
    limitStop, bind_assoc, ite_bind, pure_bind, hs, hm]
  -- what is left, if anything, are matches that differ by their names
  all_goals rfl

end

/-- A condition on the record of a service alone. -/
def OnRecord (ω : Type) (p : ServiceRecord → Prop) (s : ManagedService × ω) : Prop := p s.1.record

/-- A condition on the record of a service and on the signal that it was told to stop with. -/
def Marked (ω : Type) (q : ServiceRecord → Option Int → Prop) (s : ManagedService × ω) : Prop :=
  q s.1.record s.1.stopSignal

/-- A condition that the end of a stop keeps. -/
def Completes (p : ServiceRecord → Prop) : Prop :=
  ∀ r r' actions, p r → r.transition .stopCompleted = .ok (r', actions) → p r'

section

variable {ω α : Type} {os : Os ω} {q : ServiceRecord → Option Int → Prop}

theorem marked_insensitive : Insensitive os (Marked ω q) :=
  insensitive_service (q := fun m => q m.record m.stopSignal)
    (fun {m m'} h hs hq => by
      have hrecord : m'.record = m.record := congrArg Core.record h
      rwa [hrecord, hs])
    id id id id

theorem marked_update {f : ManagedService → ManagedService}
    (h : ∀ m, ((f m).record, (f m).stopSignal) = (m.record, m.stopSignal)) :
    Preserves (Marked ω q) (update f : Op ω Unit) := by
  apply preserves_update
  intro m w hm
  obtain ⟨hrecord, hsignal⟩ := Prod.ext_iff.mp (h m)
  have hrecord : (f m).record = m.record := hrecord
  have hsignal : (f m).stopSignal = m.stopSignal := hsignal
  rwa [Marked, hrecord, hsignal]

theorem marked_call (c : Call ω α) : Preserves (Marked ω q) (call c) :=
  preserves_call fun _ _ hm => hm

end

section

variable {ω : Type} (os : Os ω) {q : ServiceRecord → Option Int → Prop}

theorem cleanupDirectories_marked : Preserves (Marked ω q) (cleanupDirectories os) := by
  refine preserves_bind preserves_service fun s => ?_
  refine preserves_bind (preserves_forM (fun _ => marked_call _) _) fun _ => ?_
  refine preserves_bind (preserves_optionForM (fun _ => marked_call _) _) fun _ => ?_
  refine preserves_bind (preserves_optionForM (fun paths => ?_) _) fun _ =>
    marked_update fun _ => rfl
  exact preserves_bind (marked_call _) fun _ => marked_call _

theorem spawnStopPost_marked (pid : Option Nat) :
    Preserves (Marked ω q) (spawnStopPost os pid) := by
  refine preserves_bind preserves_service fun s => preserves_ite (fun _ => preserves_pure ())
    fun _ => ?_
  refine preserves_bind (killStopPostHelper_preserves marked_insensitive fun _ _ hm => hm)
    fun _ => ?_
  refine preserves_bind (marked_call _) fun r => ?_
  cases r with
  | ok helper => exact marked_update fun _ => rfl
  | error e => exact preserves_pure ()

theorem spawnActiveStop_marked : Preserves (Marked ω q) (spawnActiveStop os) := by
  refine preserves_bind preserves_service fun s => ?_
  cases s.spec.stop with
  | none => exact preserves_throw _
  | some command =>
    exact preserves_bind (preserves_required (fun _ _ hm => hm) _) fun _ =>
      marked_update fun _ => rfl

theorem stopListening_marked (before : ServiceSpec) :
    Preserves (Marked ω q) (stopListening os before) :=
  preserves_ite (fun _ => preserves_bind (closeListeners_preserves marked_insensitive _) fun _ =>
    clearActivationFds_preserves marked_insensitive) fun _ => preserves_pure ()

theorem stopActive_marked (now : Instant) (state : ServiceState) :
    Preserves (Marked ω q) (stopActive os now state) := by
  refine preserves_bind preserves_service fun s => preserves_ite (fun _ => ?_) fun _ =>
    preserves_pure ()
  exact preserves_ite (fun _ => preserves_bind (spawnActiveStop_marked os) fun _ =>
    marked_update fun _ => rfl) fun _ => spawnStopPost_marked os none

theorem stopResources_marked : Preserves (Marked ω q) (stopResources os) := by
  have hframe : Insensitive os (Marked ω q) := marked_insensitive
  refine preserves_bind preserves_service fun s => preserves_ite (fun _ => ?_) fun _ =>
    preserves_pure ()
  exact preserves_bind (resetTriggerState_preserves hframe) fun _ =>
    preserves_ite (fun _ => cleanupDirectories_marked os) fun _ => preserves_pure ()

theorem stopMain_marked (signal : Int) : Preserves (Marked ω q) (stopMain os signal) := by
  have hframe : Insensitive os (Marked ω q) := marked_insensitive
  refine preserves_bind preserves_service fun s => ?_
  cases s.record.pid with
  | none => exact preserves_pure ()
  | some pid =>
    refine preserves_ite (fun _ => ?_) fun _ => preserves_pure ()
    exact preserves_tryCatch (spawnStopCommand_preserves hframe pid) fun _ =>
      preserves_bind preserves_service fun _ => sendSignal_preserves hframe.deaf pid _

variable (hq : ∀ signal, Completes (q · signal))

include hq

theorem completeStop_marked : Preserves (Marked ω q) (completeStop os) := by
  refine preserves_bind (killExecConditionHelper_preserves marked_insensitive) fun _ => ?_
  refine preserves_bind (killStartHelper_preserves marked_insensitive) fun _ => ?_
  refine preserves_bind (killStartPostHelper_preserves marked_insensitive) fun _ => ?_
  refine preserves_bind (marked_update fun _ => rfl) fun _ => ?_
  have htransition : Preserves (Marked ω q)
      (transition "cannot complete stop for ".toList fun _ => .stopCompleted) :=
    preserves_transition fun _ _ _ _ hm h => hq _ _ _ _ hm h
  exact preserves_bind htransition fun _ => preserves_pure ()

theorem stopBare_marked : Preserves (Marked ω q) (stopBare os) :=
  preserves_bind preserves_service fun _ => preserves_ite (fun _ => completeStop_marked os hq)
    fun _ => preserves_pure ()

/-- What a stop does after the record and the process have been told. -/
theorem afterAsking_marked (now : Instant) (signal : Int) (before : ManagedService) :
    Preserves (Marked ω q) (do
      stopListening os before.spec
      stopBare os
      stopActive os now before.record.state
      stopResources os
      stopMain os signal
      limitStop now) := by
  refine preserves_bind (stopListening_marked os before.spec) fun _ => ?_
  refine preserves_bind (stopBare_marked os hq) fun _ => ?_
  refine preserves_bind (stopActive_marked os now before.record.state) fun _ => ?_
  refine preserves_bind (stopResources_marked os) fun _ => ?_
  refine preserves_bind (stopMain_marked os signal) fun _ => ?_
  exact marked_update fun _ => rfl

end

section

variable {ω : Type} {os : Os ω} {p : ServiceRecord → Prop}

theorem onRecord_insensitive : Insensitive os (OnRecord ω p) :=
  marked_insensitive (q := fun r _ => p r)

variable (os) in
theorem afterAsking_onRecord (hp : Completes p) (now : Instant) (signal : Int)
    (before : ManagedService) :
    Preserves (OnRecord ω p) (do
      stopListening os before.spec
      stopBare os
      stopActive os now before.record.state
      stopResources os
      stopMain os signal
      limitStop now) :=
  afterAsking_marked (q := fun r _ => p r) os (fun _ => hp) now signal before

end

end FractalD.Supervisor.Stopping
