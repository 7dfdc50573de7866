import FractalD.Supervisor.ServicePoll
import FractalD.Machine.Effect

namespace FractalD.Supervisor.Frame

open FractalD.Core.Record FractalD.Core.Spec FractalD.Machine.CString FractalD.Machine.Effect
open FractalD.Supervisor.Service FractalD.Supervisor.ServicePoll FractalD.Supervisor.System

/-- The part of a service that decides how it goes on. -/
structure Core where
  record : ServiceRecord
  child : Option Nat
  pidfd : Option Nat
  processGroup : Option Nat
  forkingPending : Bool
  forkingParentExited : Bool
  adoptedPid : Option Nat
  notifySocket : Option Str
  watchdogDeadline : Option Instant
  listeners : List ManagedListener
  activation : List Str × List Nat × List Nat
  startHelper : Option HelperProcess
  execConditionHelper : Option HelperProcess
  execConditionsDone : Bool
  activeStopHelper : Option HelperProcess
  stopPostHelper : Option HelperProcess
  startDeadline : Option Instant
  runtimeDeadline : Option Instant
  restartAt : Option Instant
  restartAfterStop : Bool
  wantsRunning : Bool
  directories : List ManagedDirectory
  credentialDirectory : Option Str
  privateTmpPaths : Option PrivateTmpPaths

def core (m : ManagedService) : Core :=
  ⟨m.record, m.child, m.pidfd, m.processGroup, m.forkingPending, m.forkingParentExited,
    m.adoptedPid, m.notifySocket, m.watchdogDeadline, m.listeners,
    (m.activationFdNames, m.activationFds, m.activationOwnedFds), m.startHelper,
    m.execConditionHelper, m.execConditionsDone, m.activeStopHelper, m.stopPostHelper,
    m.startDeadline, m.runtimeDeadline, m.restartAt, m.restartAfterStop, m.wantsRunning,
    m.directories, m.credentialDirectory, m.privateTmpPaths⟩

section

variable {ω : Type} (os : Os ω)

/-- The calls that prepare nothing, launch no main process and tear nothing down. -/
inductive Drifts : ω → ω → Prop
  | kill (pid : Nat) (w : ω) : Drifts w (os.kill pid w).2
  | closeFd (fd : Nat) (w : ω) : Drifts w (os.closeFd fd w).2
  | closeListener (l : ManagedListener) (remove : Bool) (w : ω) :
    Drifts w (os.closeListener l remove w).2
  | removeFile (path : Str) (w : ω) : Drifts w (os.removeFile path w).2
  | removeDirectory (path : Str) (w : ω) : Drifts w (os.removeDirectory path w).2
  | removeTree (path : Str) (w : ω) : Drifts w (os.removeTree path w).2
  | cleanupCgroup (path : Str) (w : ω) : Drifts w (os.cleanupCgroup path w).2
  | killCgroup (path : Str) (w : ω) : Drifts w (os.killCgroup path w).2
  | attachToCgroup (path : Str) (pid : Nat) (w : ω) : Drifts w (os.attachToCgroup path pid w).2
  | signalProcess (pid : Nat) (signal : Int) (w : ω) : Drifts w (os.signalProcess pid signal w).2
  | signalProcessGroup (pid : Nat) (signal : Int) (w : ω) :
    Drifts w (os.signalProcessGroup pid signal w).2
  | pidfdSendSignal (fd : Nat) (signal : Int) (w : ω) :
    Drifts w (os.pidfdSendSignal fd signal w).2
  | childKill (pid : Nat) (w : ω) : Drifts w (os.childKill pid w).2
  | spawnScript (script : Script) (h : script.label = "start-post".toList) (w : ω) :
    Drifts w (os.spawnScript script w).2
  | spawnCommand (script : Script) (w : ω) : Drifts w (os.spawnCommand script w).2
  | spawnDbusProbe (name : Str) (w : ω) : Drifts w (os.spawnDbusProbe name w).2
  | tryWait (handle : Handle) (w : ω) : Drifts w (os.tryWait handle w).2
  | openPidFd (pid : Nat) (w : ω) : Drifts w (os.openPidFd pid w).2
  | receiveNotifications (path : Str) (w : ω) : Drifts w (os.receiveNotifications path w).2
  | prepareNotifySocket (spec : ServiceSpec) (generation : Nat) (w : ω) :
    Drifts w (os.prepareNotifySocket spec generation w).2
  | prepareCgroup (spec : ServiceSpec) (w : ω) : Drifts w (os.prepareCgroup spec w).2
  | openOutput (spec : ServiceSpec) (label : Str) (fd : Option Nat) (w : ω) :
    Drifts w (os.openOutput spec label fd w).2
  | openInput (spec : ServiceSpec) (w : ω) : Drifts w (os.openInput spec w).2
  | prepareIdentity (spec : ServiceSpec) (w : ω) : Drifts w (os.prepareIdentity spec w).2
  | forwardJournal (spec : ServiceSpec) (label : Str) (pid : Nat) (w : ω) :
    Drifts w (os.forwardJournal spec label pid w).2
  | openListeners (spec : ServiceSpec) (w : ω) : Drifts w (os.openListeners spec w).2
  | recordTimerFire (spec : ServiceSpec) (w : ω) : Drifts w (os.recordTimerFire spec w).2

/-- A condition that survives such calls, and that signals are sent. -/
structure Deaf (i : ManagedService × ω → Prop) : Prop where
  sent : ∀ {m w b}, i (m, w) → i ({ m with stopSignalSent := b }, w)
  world : ∀ {m w w'}, Drifts os w w' → i (m, w) → i (m, w')

/-- A condition that survives such calls, changes outside of the core but to the signal of a
stop, and that the helpers of a start and descriptors are dropped. -/
structure Insensitive (i : ManagedService × ω → Prop) : Prop where
  core : ∀ {m m' w}, core m' = core m → m'.stopSignal = m.stopSignal → i (m, w) → i (m', w)
  world : ∀ {m w w'}, Drifts os w w' → i (m, w) → i (m, w')
  startHelper : ∀ {m w}, i (m, w) → i ({ m with startHelper := none }, w)
  execConditionHelper : ∀ {m w}, i (m, w) → i ({ m with execConditionHelper := none }, w)
  listeners : ∀ {m w}, i (m, w) → i ({ m with listeners := [] }, w)
  activation : ∀ {m w}, i (m, w) →
    i ({ m with activationOwnedFds := [], activationFdNames := [], activationFds := [] }, w)

end

section

variable {ω α β γ : Type} {os : Os ω} {i : ManagedService × ω → Prop}

theorem preserves_service : Preserves i (service : Op ω ManagedService) := fun _ hs => hs

theorem preserves_service_bind {f : ManagedService → Op ω α}
    (h : ∀ m w, i (m, w) → Ends (fun _ => i) (fun _ => i) (f m (m, w))) :
    Preserves i (service >>= f) :=
  fun s hs => h s.1 s.2 hs

theorem preserves_look (f : ω → α) : Preserves i (look f) := fun _ hs => hs

theorem preserves_update {f : ManagedService → ManagedService}
    (h : ∀ m w, i (m, w) → i (f m, w)) : Preserves i (update f : Op ω Unit) :=
  fun s hs => h s.1 s.2 hs

theorem preserves_call {c : Call ω α} (h : ∀ m w, i (m, w) → i (m, (c w).2)) :
    Preserves i (call c) :=
  fun s hs => h s.1 s.2 hs

theorem preserves_optionForM {g : γ → Op ω Unit} (hg : ∀ c, Preserves i (g c)) (o : Option γ) :
    Preserves i (o.forM g) := by
  cases o with
  | none => exact preserves_pure ()
  | some c => exact hg c

theorem preserves_tryCatch {x : Op ω α} {h : Str → Op ω α} (hx : Preserves i x)
    (hh : ∀ e, Preserves i (h e)) : Preserves i (tryCatch x h) := by
  intro s hs
  have hend := hx s hs
  change Ends _ _ (EStateM.tryCatch x h s)
  rw [EStateM.tryCatch]
  cases hr : x s with
  | ok a t =>
    rw [hr] at hend
    exact hend
  | error e t =>
    rw [hr] at hend
    exact hh e t hend

theorem preserves_transition {describe : Str} {event : ServiceRecord → Event}
    (h : ∀ m w record actions, i (m, w) → m.record.transition (event m.record) =
      .ok (record, actions) → i ({ m with record := record }, w)) :
    Preserves i (transition describe event : Op ω (List Action)) := by
  intro s hs
  refine ends_bind (p := fun service t => s = t ∧ service = s.1) ⟨rfl, rfl⟩ ?_
  rintro _ _ ⟨rfl, rfl⟩
  cases hr : s.1.record.transition (event s.1.record) with
  | ok x => exact h s.1 s.2 x.1 x.2 hs hr
  | error e => exact hs

theorem preserves_required {c : Call ω (Except Str α)} (h : ∀ m w, i (m, w) → i (m, (c w).2))
    (describe : Str) : Preserves i (required describe c) := by
  refine preserves_bind (preserves_call h) fun r => ?_
  cases r with
  | ok a => exact preserves_pure a
  | error e => exact preserves_throw _

/-- What depends on the service alone survives all calls. -/
theorem insensitive_service {q : ManagedService → Prop}
    (hcore : ∀ {m m'}, core m' = core m → m'.stopSignal = m.stopSignal → q m → q m')
    (hstart : ∀ {m}, q m → q { m with startHelper := none })
    (hcondition : ∀ {m}, q m → q { m with execConditionHelper := none })
    (hlisteners : ∀ {m}, q m → q { m with listeners := [] })
    (hactivation : ∀ {m}, q m →
      q { m with activationOwnedFds := [], activationFdNames := [], activationFds := [] }) :
    Insensitive os fun s => q s.1 :=
  ⟨hcore, fun _ h => h, hstart, hcondition, hlisteners, hactivation⟩

end

section

variable {ω : Type} {os : Os ω} {i : ManagedService × ω → Prop}

theorem Insensitive.deaf (h : Insensitive os i) : Deaf os i where
  sent {m _ b} hi := @h.core m { m with stopSignalSent := b } _ rfl rfl hi
  world := h.world

variable (h : Deaf os i)

include h

theorem preserves_heard {α : Type} {c : Call ω α} (hc : ∀ w, Drifts os w (c w).2) :
    Preserves i (call c) :=
  preserves_call fun _ w hi => h.world (hc w) hi

theorem signalPidFd_preserves (signal : Int) (first second : String) {otherwise : OsError → Op ω Unit}
    (ho : ∀ e, Preserves i (otherwise e)) (e : OsError) :
    Preserves i (signalPidFd os signal first second otherwise e) := by
  refine preserves_bind preserves_service fun s => ?_
  cases s.pidfd with
  | none => exact ho e
  | some fd =>
    refine preserves_bind (preserves_heard h (.pidfdSendSignal fd signal)) fun r => ?_
    cases r with
    | ok u => exact preserves_pure ()
    | error e => exact preserves_ite (fun _ => preserves_pure ()) fun _ => preserves_throw _

theorem answered_preserves (signal : Int) (first second : String) {otherwise : OsError → Op ω Unit}
    (ho : ∀ e, Preserves i (otherwise e)) (r : Except OsError Unit) :
    Preserves i (match r with
      | .ok () => pure ()
      | .error e => unless e.noSuchProcess do signalPidFd os signal first second otherwise e) := by
  cases r with
  | ok u => exact preserves_pure ()
  | error e =>
    exact preserves_ite (fun _ => preserves_pure ()) fun _ => signalPidFd_preserves h signal first second ho e

theorem sendProcessSignal_preserves (pid : Nat) (signal : Int) :
    Preserves i (sendProcessSignal os pid signal) := by
  refine preserves_bind (preserves_heard h (.signalProcess pid signal)) fun r => ?_
  refine answered_preserves h signal "process" "pidfd" (fun e => ?_) r
  exact preserves_bind preserves_service fun s => preserves_throw _

/-- What is left to do where a process group could not be signalled. -/
theorem ungrouped_preserves (signal : Int) (e : OsError) : Preserves i (do
    let s ← service
    if signal = sigKill then
      s.child.forM fun child =>
        required ("cannot kill ".toList ++ s.spec.name ++ ": ".toList) (os.childKill child)
    else throw (cannotSend signal s.spec.name e)) := by
  refine preserves_bind preserves_service fun s => preserves_ite (fun _ => ?_) fun _ =>
    preserves_throw _
  exact preserves_optionForM
    (fun child => preserves_required (fun _ w => h.world (.childKill child w)) _) _

theorem sendGroupSignal_preserves (pid : Nat) (signal : Int) :
    Preserves i (sendGroupSignal os pid signal) := by
  refine preserves_bind preserves_service fun s => ?_
  refine preserves_bind (preserves_heard h (.signalProcessGroup _ signal)) fun r => ?_
  exact answered_preserves h signal "group" "process" (ungrouped_preserves h signal) r

theorem sendSignalRaw_preserves (pid : Nat) (signal : Int) :
    Preserves i (sendSignalRaw os pid signal) := by
  refine preserves_bind preserves_service fun s => ?_
  have hp := sendProcessSignal_preserves h pid signal
  have hg := sendGroupSignal_preserves h pid signal
  suffices hmode : Preserves i _ from
    preserves_ite (fun _ => preserves_bind (preserves_throw _) fun _ => hmode) fun _ => hmode
  cases s.spec.killMode with
  | controlGroup => exact hg
  | process => exact hp
  | mixed => exact preserves_ite (fun _ => hp) fun _ => hg
  | none => exact preserves_pure ()

theorem sendSignal_preserves (pid : Nat) (signal : Int) :
    Preserves i (sendSignal os pid signal) := by
  refine preserves_bind preserves_service fun s => ?_
  refine preserves_bind (sendSignalRaw_preserves h pid _) fun _ =>
    preserves_ite (fun _ => ?_) fun _ => preserves_pure ()
  refine preserves_bind (preserves_update fun _ _ => h.sent) fun _ =>
    preserves_ite (fun _ => ?_) fun _ => preserves_pure ()
  exact sendSignalRaw_preserves h pid sigHup

theorem applyAction_preserves (action : Action) : Preserves i (applyAction os action) := by
  cases action with
  | sendSignal pid signal => exact sendSignal_preserves h pid signal
  | scheduleRestart generation after => exact preserves_pure ()
  | spawn generation => exact preserves_pure ()

theorem applyActions_preserves (actions : List Action) : Preserves i (applyActions os actions) :=
  preserves_forM (applyAction_preserves h) actions

end

section

variable {ω : Type} {os : Os ω} {i : ManagedService × ω → Prop} (h : Insensitive os i)

include h

theorem preserves_drift {α : Type} {c : Call ω α} (hc : ∀ w, Drifts os w (c w).2) :
    Preserves i (call c) :=
  preserves_call fun _ w hi => h.world (hc w) hi

theorem preserves_aside {f : ManagedService → ManagedService}
    (hf : ∀ m, (core (f m), (f m).stopSignal) = (core m, m.stopSignal)) :
    Preserves i (update f : Op ω Unit) :=
  preserves_update fun m _ hi => h.core (Prod.ext_iff.mp (hf m)).1 (Prod.ext_iff.mp (hf m)).2 hi

theorem killHelper_preserves (helper : Option HelperProcess) :
    Preserves i (killHelper os helper) := by
  refine preserves_optionForM (fun process => ?_) helper
  exact preserves_drift h (.kill process.pid)

theorem killStartHelper_preserves : Preserves i (killStartHelper os) :=
  preserves_bind preserves_service fun _ => preserves_bind (killHelper_preserves h _) fun _ =>
    preserves_update fun _ _ => h.startHelper

theorem killExecConditionHelper_preserves : Preserves i (killExecConditionHelper os) :=
  preserves_bind preserves_service fun _ => preserves_bind (killHelper_preserves h _) fun _ =>
    preserves_update fun _ _ => h.execConditionHelper

theorem killActiveStopHelper_preserves
    (hdrop : ∀ m w, i (m, w) → i ({ m with activeStopHelper := none }, w)) :
    Preserves i (killActiveStopHelper os) :=
  preserves_bind preserves_service fun _ => preserves_bind (killHelper_preserves h _) fun _ =>
    preserves_update hdrop

theorem killStopPostHelper_preserves
    (hdrop : ∀ m w, i (m, w) → i ({ m with stopPostHelper := none }, w)) :
    Preserves i (killStopPostHelper os) :=
  preserves_bind preserves_service fun _ => preserves_bind (killHelper_preserves h _) fun _ =>
    preserves_update hdrop

theorem killStartPostHelper_preserves : Preserves i (killStartPostHelper os) :=
  preserves_bind preserves_service fun _ => preserves_bind (killHelper_preserves h _) fun _ =>
    preserves_aside h fun _ => rfl

theorem killStopCommand_preserves : Preserves i (killStopCommand os) :=
  preserves_bind preserves_service fun _ => preserves_bind (killHelper_preserves h _) fun _ =>
    preserves_aside h fun _ => rfl

theorem killReloadCommand_preserves : Preserves i (killReloadCommand os) :=
  preserves_bind preserves_service fun _ => preserves_bind (killHelper_preserves h _) fun _ =>
    preserves_aside h fun _ => rfl

theorem killDbusProbe_preserves : Preserves i (killDbusProbe os) :=
  preserves_bind preserves_service fun _ =>
    preserves_bind (preserves_optionForM (fun pid => preserves_drift h (.kill pid)) _) fun _ =>
      preserves_aside h fun _ => rfl

theorem clearActivationFds_preserves : Preserves i (clearActivationFds os) :=
  preserves_bind preserves_service fun _ =>
    preserves_bind (preserves_forM (fun fd => preserves_drift h (.closeFd fd)) _) fun _ =>
      preserves_update fun _ _ => h.activation

theorem closeListeners_preserves (removeOnStop : Bool) :
    Preserves i (closeListeners os removeOnStop) :=
  preserves_bind preserves_service fun _ =>
    preserves_bind (preserves_forM (fun l => preserves_drift h (.closeListener l _)) _) fun _ =>
      preserves_update fun _ _ => h.listeners

theorem resetTriggerState_preserves : Preserves i (resetTriggerState : Op ω Unit) :=
  preserves_aside h fun _ => rfl

theorem undoLaunch_preserves (notify cgroup : Option Str) :
    Preserves i (undoLaunch os notify cgroup) :=
  preserves_bind (preserves_optionForM (fun path => preserves_drift h (.removeFile path)) _)
    fun _ => preserves_optionForM (fun path => preserves_drift h (.cleanupCgroup path)) _

theorem spawnStartPost_preserves (pid : Nat) : Preserves i (spawnStartPost os pid) := by
  refine preserves_bind preserves_service fun s => preserves_ite (fun _ => preserves_pure ())
    fun _ => ?_
  refine preserves_bind (preserves_drift h (.spawnScript _ rfl)) fun r => ?_
  cases r with
  | ok helper => exact preserves_aside h fun _ => rfl
  | error e =>
    refine preserves_bind (preserves_tryCatch (sendSignal_preserves h.deaf pid _) fun _ =>
      preserves_pure ()) fun _ => preserves_throw _

theorem spawnStopCommand_preserves (pid : Nat) : Preserves i (spawnStopCommand os pid) := by
  refine preserves_bind preserves_service fun s => ?_
  cases s.spec.stop with
  | none => exact preserves_throw _
  | some command =>
    exact preserves_bind (preserves_required (fun _ w => h.world (.spawnCommand _ w)) _) fun _ =>
      preserves_aside h fun _ => rfl

theorem reload_preserves : Preserves i (reload os) := by
  refine preserves_bind preserves_service fun s => ?_
  suffices hrest : Preserves i _ from
    preserves_ite (fun _ => preserves_bind (preserves_throw _) fun _ => hrest) fun _ => hrest
  cases s.spec.reload with
  | none => exact preserves_throw _
  | some command =>
    refine preserves_ite (fun _ => preserves_pure ()) fun _ => ?_
    cases s.record.pid with
    | none => exact preserves_throw _
    | some pid =>
      exact preserves_bind (preserves_aside h fun _ => rfl) fun _ =>
        preserves_bind (preserves_required (fun _ w => h.world (.spawnCommand _ w)) _) fun _ =>
          preserves_aside h fun _ => rfl

theorem triggerDue_preserves (now : Instant) : Preserves i (triggerDue os now) := by
  refine preserves_bind preserves_service fun s => ?_
  refine preserves_ite (fun _ => preserves_pure _) fun _ => ?_
  cases s.spec.trigger with
  | none => exact preserves_pure _
  | some trigger =>
    cases trigger with
    | timer =>
      refine preserves_bind (preserves_look _) fun due => ?_
      refine preserves_bind (preserves_aside h fun _ => rfl) fun _ => ?_
      exact preserves_ite (fun _ => preserves_bind (preserves_drift h (.recordTimerFire _))
        fun _ => preserves_pure _) fun _ => preserves_pure _
    | path =>
      exact preserves_bind (preserves_look _) fun due =>
        preserves_bind (preserves_aside h fun _ => rfl) fun _ => preserves_pure _

theorem observeHelper_preserves (label : String)
    (helper : ManagedService → Option HelperProcess) :
    Preserves i (observeHelper os label helper) := by
  refine preserves_bind preserves_service fun s => ?_
  cases helper s with
  | none => exact preserves_pure none
  | some process => exact preserves_required (fun _ w => h.world (.tryWait _ w)) _

theorem observeExit_preserves : Preserves i (observeExit os) := by
  refine preserves_bind preserves_service fun s => ?_
  have hobserve (handle : Handle) : Preserves i (required
      ("cannot observe ".toList ++ s.spec.name ++ ": ".toList) (os.tryWait handle)) :=
    preserves_required (fun _ w => h.world (.tryWait handle w)) _
  cases s.adoptedPid with
  | some pid => exact preserves_look _
  | none =>
    cases s.pidfd with
    | some fd => exact hobserve (.pidfd fd)
    | none =>
      cases s.child with
      | some pid => exact hobserve (.child pid)
      | none => exact preserves_pure none

theorem startDbusProbe_preserves (now : Instant) : Preserves i (startDbusProbe os now) := by
  refine preserves_bind preserves_service fun s => preserves_ite (fun _ => preserves_pure ())
    fun _ => ?_
  cases s.spec.busNames[s.dbusProbeIndex]? with
  | none => exact preserves_throw _
  | some busName =>
    refine preserves_bind (preserves_drift h (.spawnDbusProbe busName)) fun r => ?_
    cases r with
    | ok probe => exact preserves_aside h fun _ => rfl
    | error e => exact preserves_aside h fun _ => by simp only [core]

theorem armStopDeadline_preserves (now : Instant) : Preserves i (armStopDeadline now : Op ω Unit) :=
  preserves_bind preserves_service fun _ =>
    preserves_ite (fun _ => preserves_aside h fun _ => rfl) fun _ => preserves_pure ()

theorem handleReloadExit_preserves (exit : ExitKind) :
    Preserves i (handleReloadExit exit : Op ω Unit) :=
  preserves_aside h fun _ => rfl

theorem handleStopExit_preserves (exit : ExitKind) : Preserves i (handleStopExit os exit) :=
  preserves_bind (preserves_aside h fun _ => rfl) fun _ => preserves_bind preserves_service
    fun _ => preserves_optionForM (fun pid => sendSignal_preserves h.deaf pid _) _

end

end FractalD.Supervisor.Frame
