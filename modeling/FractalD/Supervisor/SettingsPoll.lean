import FractalD.Supervisor.Settings
import FractalD.Supervisor.StartFailure

namespace FractalD.Supervisor.SettingsPoll

open FractalD.Core.Record FractalD.Core.Spec FractalD.Machine.CString FractalD.Machine.Effect
open FractalD.Supervisor.Frame FractalD.Supervisor.Service FractalD.Supervisor.ServicePoll
open FractalD.Supervisor.Settings FractalD.Supervisor.StartFailure FractalD.Supervisor.System

section

variable {ω : Type} (os : Os ω) {spec : ServiceSpec} {p : Memory spec}

theorem armStop_remembers (now : Instant) :
    Preserves (Remembers ω p) (armStopDeadline now : Op ω Unit) :=
  preserves_bind preserves_service fun _ => preserves_ite (fun _ => remembers_update fun _ => rfl)
    fun _ => preserves_pure ()

theorem restart_remembers (now : Instant) :
    Leads (fun s => Remembers ω p s ∧ (s.1.record.state = .starting ∨ s.1.record.state = .running →
        p.holds (some (spec.restartKillSignal.getD spec.killSignal))))
      (restart os now) (fun _ => Remembers ω p) (Remembers ω p) := by
  rintro ⟨m, w⟩ ⟨hm, hsignal⟩
  have hstart : Preserves (Remembers ω p) (start os now) := start_remembers os now
  have hagain : Preserves (Remembers ω p) (do
      update ({ · with wantsRunning := true, restartAfterStop := true })
      if (← service).record.state = .exited then
        update ({ · with restartAfterStop := false })
        start os now) :=
    preserves_bind (remembers_update fun _ => rfl) fun _ => preserves_bind preserves_service
      fun s => preserves_ite (fun _ => preserves_bind (remembers_update fun _ => rfl) fun _ => hstart)
        fun _ => preserves_pure ()
  have hstop (hs : p.holds (some (spec.restartKillSignal.getD spec.killSignal))) :
      Preserves (Remembers ω p) (stopForRestart os now) :=
    preserves_service_bind fun m w hm => stopWithSignal_remembers os (by rwa [hm.1]) now (m, w) hm
  rw [restart, update_bind, service_bind]
  have hm : Remembers ω p ({ m with wantsRunning := true, restartAt := none }, w) := hm
  cases hstate : m.record.state with
  | running =>
    exact preserves_bind (hstop (hsignal (.inr hstate))) (fun _ => hagain) _ hm
  | starting =>
    exact preserves_bind (hstop (hsignal (.inl hstate))) (fun _ => hagain) _ hm
  | stopping =>
    exact remembers_update (fun _ => rfl) _ hm
  | backoff =>
    exact preserves_bind (remembers_transition _ _) (fun _ => hstart) _ hm
  | active =>
    exact preserves_bind (stop_remembers os now) (fun _ => hstart) _ hm
  | defined | exited | skipped | failed =>
    exact hstart _ hm

theorem resetFailed_remembers : Preserves (Remembers ω p) (resetFailed os) := by
  have hframe : Insensitive os (Remembers ω p) := remembers_insensitive
  refine preserves_bind preserves_service fun s => preserves_ite (fun _ => ?_) fun _ =>
    preserves_pure ()
  refine preserves_bind (remembers_transition _ _) fun _ => ?_
  refine preserves_bind (resetTriggerState_preserves hframe) fun _ => ?_
  exact preserves_bind (remembers_update fun _ => rfl) fun _ => cleanupDirectories_remembers os

theorem failStarting_remembers (describe : String) (event : ServiceRecord → Event) (now : Instant) :
    Preserves (Remembers ω p) (failStarting os describe event now) := by
  have hframe : Insensitive os (Remembers ω p) := remembers_insensitive
  refine preserves_bind (remembers_transition _ _) fun actions => ?_
  refine preserves_bind (applyActions_preserves hframe.deaf actions) fun _ => ?_
  refine preserves_bind (remembers_update fun _ => rfl) fun _ => ?_
  refine preserves_bind (killStartHelper_preserves hframe) fun _ => ?_
  refine preserves_bind (killExecConditionHelper_preserves hframe) fun _ => ?_
  refine preserves_bind (killStartPostHelper_preserves hframe) fun _ => ?_
  exact armStop_remembers now

theorem markJobTimeout_remembers (now : Instant) :
    Preserves (Remembers ω p) (markJobTimeout os now) := by
  refine preserves_bind (remembers_update fun _ => rfl) fun _ => ?_
  refine preserves_bind (killDbusProbe_preserves remembers_insensitive) fun _ => ?_
  refine preserves_bind preserves_service fun s => ?_
  cases s.record.state with
  | defined | exited | skipped | failed | backoff =>
    exact preserves_bind (remembers_transition _ _) fun _ =>
      preserves_bind (remembers_update fun _ => rfl) fun _ => cleanupDirectories_remembers os
  | starting => exact failStarting_remembers os _ _ now
  | running => exact failStarting_remembers os _ _ now
  | active | stopping => exact preserves_pure ()

theorem markLost_remembers (describe : String) :
    Preserves (Remembers ω p) (markLost os describe) :=
  preserves_bind (remembers_update fun _ => rfl) fun _ => preserves_bind (remembers_transition _ _)
    fun _ => cleanupDirectories_remembers os

theorem clearActivation_remembers : Preserves (Remembers ω p) (clearActivationFds os) :=
  clearActivationFds_preserves remembers_insensitive

theorem setActivationFds_remembers (fds : List Nat) (names : List Str) :
    Preserves (Remembers ω p) (setActivationFds os fds names) := by
  refine preserves_bind preserves_service fun s => preserves_ite (fun _ => ?_) fun _ =>
    preserves_pure ()
  exact preserves_bind (clearActivation_remembers os) fun _ => remembers_update fun _ => rfl

theorem setActivationConnection_remembers (fd : Nat) :
    Preserves (Remembers ω p) (setActivationConnection os fd) := by
  refine preserves_bind preserves_service fun s => preserves_ite (fun _ => ?_) fun _ =>
    remembers_call _
  exact preserves_bind (clearActivation_remembers os) fun _ => remembers_update fun _ => rfl

theorem acceptReady_remembers (describe : String) (pid : Nat) :
    Preserves (Remembers ω p) (acceptReady describe pid : Op ω Unit) :=
  preserves_bind (remembers_transition _ _) fun _ => preserves_pure ()

theorem acceptNotification_remembers (now : Instant) (message : Str) :
    Preserves (Remembers ω p) (acceptNotification os now message) := by
  have hlast : Preserves (Remembers ω p) (do
      let s ← service
      if announces message "WATCHDOG=1".toList ∧ s.record.state = .running then
        armWatchdog now : Op ω Unit) :=
    preserves_bind preserves_service fun s => preserves_ite (fun _ => remembers_update fun _ => rfl)
      fun _ => preserves_pure ()
  refine preserves_bind preserves_service fun s => preserves_ite (fun _ => ?_) fun _ => hlast
  cases s.record.pid with
  | none => exact hlast
  | some pid =>
    refine preserves_bind (acceptReady_remembers _ pid) fun _ => ?_
    refine preserves_bind (remembers_update fun _ => rfl) fun _ => ?_
    refine preserves_bind (remembers_update fun _ => rfl) fun _ => ?_
    refine preserves_bind (remembers_update fun _ => rfl) fun _ => ?_
    exact preserves_bind (spawnStartPost_preserves remembers_insensitive pid) fun _ => hlast

theorem observeNotify_remembers (now : Instant) :
    Preserves (Remembers ω p) (observeNotify os now) := by
  refine preserves_bind preserves_service fun s => ?_
  cases s.notifySocket with
  | none => exact preserves_pure ()
  | some socket =>
    refine preserves_bind (preserves_required (fun _ _ hm => hm) _) fun received => ?_
    refine preserves_bind (preserves_look _) fun allowed => preserves_forM (fun c => ?_) _
    exact acceptNotification_remembers os now c.1

theorem observeDbusProbe_remembers (now : Instant) (probe : Nat) :
    Preserves (Remembers ω p) (observeDbusProbe os now probe) := by
  refine preserves_bind preserves_service fun s => preserves_bind (remembers_call _) fun r => ?_
  cases r with
  | error e => exact preserves_bind (remembers_update fun _ => rfl) fun _ => preserves_throw _
  | ok exit =>
    cases exit with
    | none => exact preserves_pure false
    | some exit =>
      refine preserves_bind (remembers_update fun _ => rfl) fun _ => preserves_ite (fun _ => ?_)
        fun _ => preserves_ite (fun _ => ?_) fun _ => ?_
      · cases s.record.pid with
        | none => exact preserves_throw _
        | some pid =>
          refine preserves_bind (acceptReady_remembers _ pid) fun _ => ?_
          refine preserves_bind (remembers_update fun _ => rfl) fun _ => ?_
          refine preserves_bind (remembers_update fun _ => rfl) fun _ => ?_
          exact preserves_bind (spawnStartPost_preserves remembers_insensitive pid) fun _ =>
            preserves_pure false
      · exact preserves_bind (remembers_update fun _ => rfl) fun _ => preserves_pure true
      · exact preserves_bind (remembers_update fun _ => rfl) fun _ => preserves_pure true

theorem observeDbus_remembers (now : Instant) :
    Preserves (Remembers ω p) (observeDbus os now) := by
  have hprobe : Preserves (Remembers ω p) (startDbusProbe os now) :=
    startDbusProbe_preserves remembers_insensitive now
  refine preserves_bind preserves_service fun s => preserves_ite (fun _ => ?_) fun _ =>
    preserves_pure ()
  cases s.dbusProbe with
  | none => exact hprobe
  | some probe =>
    exact preserves_bind (observeDbusProbe_remembers os now probe) fun again =>
      preserves_ite (fun _ => hprobe) fun _ => preserves_pure ()

theorem oomStop_remembers (now : Instant) (path : Str) :
    Preserves (Remembers ω p) (oomStop os now path) := by
  refine preserves_bind preserves_service fun s => ?_
  cases s.spec.oomPolicy with
  | «continue» => exact preserves_pure ()
  | stop => exact stop_remembers os now
  | kill =>
    refine preserves_bind (remembers_call _) fun r => ?_
    cases r with
    | ok u => exact preserves_pure ()
    | error e =>
      exact preserves_optionForM (fun pid => sendSignal_preserves remembers_insensitive.deaf pid _) _

theorem checkOom_remembers (now : Instant) : Preserves (Remembers ω p) (checkOom os now) := by
  refine preserves_bind preserves_service fun s => ?_
  cases s.cgroupPath with
  | none => exact preserves_pure ()
  | some path =>
    refine preserves_bind (preserves_look _) fun events => ?_
    cases events with
    | none => exact preserves_pure ()
    | some current =>
      exact preserves_bind (remembers_update fun _ => rfl) fun _ =>
        preserves_ite (fun _ => oomStop_remembers os now path) fun _ => preserves_pure ()

theorem checkWatchdog_remembers (now : Instant) :
    Preserves (Remembers ω p) (checkWatchdog os now) := by
  refine preserves_bind preserves_service fun s => preserves_ite (fun _ => ?_) fun _ =>
    preserves_pure ()
  exact preserves_bind (remembers_update fun _ => rfl) fun _ =>
    preserves_optionForM (fun pid => sendSignal_preserves remembers_insensitive.deaf pid _) _

theorem checkRuntimeLimit_remembers (now : Instant) :
    Preserves (Remembers ω p) (checkRuntimeLimit os now) := by
  refine preserves_bind preserves_service fun s => preserves_ite (fun _ => ?_) fun _ =>
    preserves_pure ()
  refine preserves_bind (remembers_update fun _ => rfl) fun _ => ?_
  refine preserves_bind (remembers_transition _ _) fun actions => ?_
  exact preserves_bind (applyActions_preserves remembers_insensitive.deaf actions) fun _ =>
    armStop_remembers now

theorem handleExecConditionExit_remembers (now : Instant) (exit : ExitKind) :
    Preserves (Remembers ω p) (handleExecConditionExit os now exit) := by
  refine preserves_bind (remembers_update fun _ => rfl) fun _ => preserves_bind preserves_service
    fun s => preserves_ite (fun _ => ?_) fun _ => ?_
  · exact preserves_bind (remembers_transition _ _) fun _ =>
      preserves_bind (remembers_update fun _ => rfl) fun _ => cleanupDirectories_remembers os
  · have hfail : Preserves (Remembers ω p) (do
        update ({ · with startDeadline := none })
        markSpawnFailed os s.record.generation now) :=
      preserves_bind (remembers_update fun _ => rfl) fun _ => markSpawnFailed_remembers os _ now
    cases exit with
    | signaled signal => exact hfail
    | coreDumped signal => exact hfail
    | exited code =>
      refine preserves_ite (fun _ => ?_) fun _ => preserves_ite (fun _ => ?_) fun _ => hfail
      · exact preserves_bind (remembers_update fun _ => rfl) fun _ =>
          preserves_ite (fun _ => spawn_remembers os _ now) fun _ => preserves_pure ()
      · exact preserves_bind (remembers_update fun _ => rfl) fun _ =>
          preserves_bind (remembers_transition _ _) fun _ => cleanupDirectories_remembers os

theorem handleStartHelperExit_remembers (now : Instant) (exit : ExitKind) :
    Preserves (Remembers ω p) (handleStartHelperExit os now exit) := by
  refine preserves_bind (remembers_update fun _ => rfl) fun _ => preserves_bind preserves_service
    fun s => preserves_ite (fun _ => ?_) fun _ => preserves_ite (fun _ => ?_) fun _ =>
      preserves_ite (fun _ => spawnMain_remembers os _ now) fun _ => preserves_pure ()
  · exact preserves_bind (remembers_transition _ _) fun _ => remembers_update fun _ => rfl
  · exact preserves_bind (remembers_update fun _ => rfl) fun _ => markSpawnFailed_remembers os _ now

theorem handleStartPostExit_remembers (now : Instant) (exit : ExitKind) :
    Preserves (Remembers ω p) (handleStartPostExit os now exit) := by
  refine preserves_bind (remembers_update fun _ => rfl) fun _ => preserves_bind preserves_service
    fun s => preserves_ite (fun _ => ?_) fun _ => preserves_pure ()
  refine preserves_bind (remembers_transition _ _) fun actions => ?_
  refine preserves_bind (applyActions_preserves remembers_insensitive.deaf actions) fun _ => ?_
  exact preserves_bind (remembers_update fun _ => rfl) fun _ => armStop_remembers now

theorem maybeStartAfterTeardown_remembers (now : Instant) :
    Preserves (Remembers ω p) (maybeStartAfterTeardown os now) := by
  refine preserves_bind preserves_service fun s => preserves_ite (fun _ => ?_) fun _ =>
    preserves_pure ()
  exact preserves_bind (remembers_update fun _ => rfl) fun _ => start_remembers os now

theorem handleStopPostExit_remembers (now : Instant) (exit : ExitKind) :
    Preserves (Remembers ω p) (handleStopPostExit os now exit) :=
  preserves_bind (remembers_update fun _ => rfl) fun _ =>
    preserves_bind (cleanupDirectories_remembers os) fun _ => maybeStartAfterTeardown_remembers os now

theorem finishActiveStop_remembers (now : Instant) :
    Preserves (Remembers ω p) (finishActiveStop os now) := by
  refine preserves_bind (remembers_update fun _ => rfl) fun _ => ?_
  refine preserves_bind (spawnStopPost_remembers os none) fun _ => ?_
  refine preserves_bind preserves_service fun s => preserves_ite (fun _ => ?_) fun _ =>
    maybeStartAfterTeardown_remembers os now
  exact preserves_bind (cleanupDirectories_remembers os) fun _ =>
    maybeStartAfterTeardown_remembers os now

theorem handleActiveStopExit_remembers (now : Instant) (exit : ExitKind) :
    Preserves (Remembers ω p) (handleActiveStopExit os now exit) :=
  preserves_bind (remembers_update fun _ => rfl) fun _ => finishActiveStop_remembers os now

theorem forgetMain_remembers : Preserves (Remembers ω p) (forgetMain os) := by
  have hframe : Insensitive os (Remembers ω p) := remembers_insensitive
  refine preserves_bind (killStopCommand_preserves hframe) fun _ => ?_
  refine preserves_bind (killReloadCommand_preserves hframe) fun _ => ?_
  refine preserves_bind (remembers_update fun _ => rfl) fun _ => ?_
  refine preserves_bind (killDbusProbe_preserves hframe) fun _ => ?_
  refine preserves_bind preserves_service fun s => ?_
  refine preserves_bind (preserves_optionForM (fun _ => remembers_call _) _) fun _ => ?_
  refine preserves_bind (preserves_optionForM (fun _ => remembers_call _) _) fun _ => ?_
  exact remembers_update fun _ => rfl

theorem limited_remembers (now : Instant) : Preserves (Remembers ω p)
    (tryCatch (do enforceStartLimit os now; pure false) fun _ => pure true : Op ω Bool) :=
  preserves_tryCatch (preserves_bind (enforceStartLimit_remembers os now) fun _ =>
    preserves_pure false) fun _ => preserves_pure true

theorem restartAfterExit_remembers (now : Instant) :
    Preserves (Remembers ω p) (restartAfterExit os now) := by
  refine preserves_bind preserves_service fun s => preserves_ite
    (fun _ => remembers_update fun _ => rfl) fun _ => preserves_ite (fun _ => ?_) fun _ =>
      preserves_pure ()
  refine preserves_bind (remembers_update fun _ => rfl) fun _ => ?_
  refine preserves_bind (limited_remembers os now) fun limited =>
    preserves_ite (fun _ => preserves_pure ()) fun _ => ?_
  exact preserves_bind (remembers_transition _ _) fun actions =>
    applyStartActions_remembers os actions now

theorem handleExit_remembers (now : Instant) (exit : ExitKind) :
    Preserves (Remembers ω p) (handleExit os now exit) := by
  refine preserves_bind preserves_service fun s => ?_
  cases s.record.pid with
  | none => exact preserves_throw _
  | some pid =>
    have hlast : Preserves (Remembers ω p) (restartAfterExit os now) :=
      restartAfterExit_remembers os now
    refine preserves_bind (forgetMain_remembers os) fun _ => ?_
    refine preserves_bind (remembers_transition _ _) fun actions => ?_
    refine preserves_bind (applyActions_preserves remembers_insensitive.deaf actions) fun _ => ?_
    refine preserves_bind preserves_service fun s => preserves_ite (fun _ => ?_) fun _ => hlast
    refine preserves_bind (spawnStopPost_remembers os _) fun _ => ?_
    refine preserves_bind preserves_service fun s => preserves_ite (fun _ => ?_) fun _ => hlast
    exact preserves_bind (cleanupDirectories_remembers os) fun _ => hlast

theorem adopt_remembers (now : Instant) (pid : Nat) (pidfd : Bool) :
    Preserves (Remembers ω p) (adopt os now pid pidfd) := by
  have hlast : Preserves (Remembers ω p) (do
      update ({ · with
        pidfd := if pidfd then some pid else none, forkingPending := false,
        forkingParentExited := false, adoptedPid := some pid, startDeadline := none })
      armRuntimeLimit now
      spawnStartPost os pid) :=
    preserves_bind (remembers_update fun _ => rfl) fun _ =>
      preserves_bind (remembers_update fun _ => rfl) fun _ =>
        spawnStartPost_preserves remembers_insensitive pid
  refine preserves_bind (remembers_transition _ _) fun _ => preserves_bind preserves_service
    fun s => ?_
  cases s.cgroupPath with
  | none => exact hlast
  | some path =>
    refine preserves_bind (remembers_call _) fun r => ?_
    cases r with
    | ok u => exact hlast
    | error e =>
      refine preserves_ite (fun _ => ?_) fun _ => preserves_bind (preserves_throw _) fun _ => hlast
      exact preserves_bind (remembers_call _) fun _ => preserves_bind (preserves_throw _) fun _ => hlast

theorem tryAdoptForking_remembers (now : Instant) :
    Preserves (Remembers ω p) (tryAdoptForking os now) := by
  refine preserves_bind preserves_service fun s => ?_
  cases s.processGroup with
  | none => exact preserves_bind (remembers_update fun _ => rfl) fun _ => preserves_throw _
  | some parent =>
    refine preserves_bind (preserves_look _) fun candidate => ?_
    cases candidate with
    | none =>
      refine preserves_ite (fun _ => ?_) fun _ => preserves_pure ()
      exact preserves_bind (remembers_update fun _ => rfl) fun _ => handleExit_remembers os now _
    | some pid =>
      refine preserves_ite (fun _ => preserves_pure ()) fun _ => ?_
      refine preserves_bind (remembers_call _) fun answer => ?_
      cases answer with
      | opened => exact adopt_remembers os now pid true
      | unavailable => exact adopt_remembers os now pid false
      | failed e => exact preserves_ite (fun _ => preserves_pure ()) fun _ => preserves_throw _

theorem handleMainExit_remembers (now : Instant) (exit : ExitKind) :
    Preserves (Remembers ω p) (handleMainExit os now exit) := by
  refine preserves_bind preserves_service fun s => preserves_ite (fun _ => ?_) fun _ =>
    handleExit_remembers os now exit
  refine preserves_ite (fun _ => ?_) fun _ => ?_
  · exact preserves_bind (remembers_update fun _ => rfl) fun _ => handleExit_remembers os now exit
  · exact preserves_bind (remembers_update fun _ => rfl) fun _ => tryAdoptForking_remembers os now

theorem checkStopDeadline_remembers (now : Instant) :
    Preserves (Remembers ω p) (checkStopDeadline os now) := by
  have hframe : Insensitive os (Remembers ω p) := remembers_insensitive
  refine preserves_bind preserves_service fun s => preserves_ite (fun _ => ?_) fun _ =>
    preserves_pure ()
  refine preserves_bind (remembers_transition _ _) fun actions => ?_
  refine preserves_bind (applyActions_preserves hframe.deaf actions) fun _ => ?_
  refine preserves_bind (killStartHelper_preserves hframe) fun _ => ?_
  refine preserves_bind (killExecConditionHelper_preserves hframe) fun _ => ?_
  refine preserves_bind (killStartPostHelper_preserves hframe) fun _ => ?_
  refine preserves_bind (killDbusProbe_preserves hframe) fun _ => ?_
  exact preserves_bind (killStopCommand_preserves hframe) fun _ => remembers_update fun _ => rfl

theorem checkActiveStopDeadline_remembers (now : Instant) :
    Preserves (Remembers ω p) (checkActiveStopDeadline os now) := by
  refine preserves_bind preserves_service fun s => preserves_ite (fun _ => ?_) fun _ =>
    preserves_pure ()
  exact preserves_bind (killActiveStopHelper_preserves remembers_insensitive fun _ _ hm => hm)
    fun _ => finishActiveStop_remembers os now

theorem checkStartDeadline_remembers (now : Instant) :
    Preserves (Remembers ω p) (checkStartDeadline os now) := by
  have hframe : Insensitive os (Remembers ω p) := remembers_insensitive
  refine preserves_bind preserves_service fun s => preserves_ite (fun _ => ?_) fun _ =>
    preserves_pure ()
  refine preserves_bind (remembers_transition _ _) fun actions => ?_
  refine preserves_bind (applyActions_preserves hframe.deaf actions) fun _ => ?_
  refine preserves_bind (remembers_update fun _ => rfl) fun _ => ?_
  refine preserves_bind (killStartHelper_preserves hframe) fun _ => ?_
  refine preserves_bind (killStartPostHelper_preserves hframe) fun _ => ?_
  exact preserves_bind (killDbusProbe_preserves hframe) fun _ => armStop_remembers now

theorem checkRestart_remembers (now : Instant) :
    Preserves (Remembers ω p) (checkRestart os now) := by
  refine preserves_bind preserves_service fun s => preserves_ite (fun _ => ?_) fun _ =>
    preserves_pure ()
  refine preserves_bind (remembers_update fun _ => rfl) fun _ => ?_
  refine preserves_bind (limited_remembers os now) fun limited =>
    preserves_ite (fun _ => preserves_pure ()) fun _ => ?_
  exact preserves_bind (remembers_transition _ _) fun actions =>
    applyStartActions_remembers os actions now

theorem onExit_remembers {handle : ExitKind → Op ω Unit}
    (h : ∀ exit, Preserves (Remembers ω p) (handle exit)) (exit : Option ExitKind) :
    Preserves (Remembers ω p) (onExit exit handle) :=
  preserves_optionForM h exit

theorem poll_remembers (now : Instant) : Preserves (Remembers ω p) (poll os now) := by
  have hframe : Insensitive os (Remembers ω p) := remembers_insensitive
  have hobserve (label : String) (helper : ManagedService → Option HelperProcess) :=
    observeHelper_preserves hframe label helper
  refine preserves_bind (observeNotify_remembers os now) fun _ => ?_
  refine preserves_bind (observeDbus_remembers os now) fun _ => ?_
  refine preserves_bind (checkOom_remembers os now) fun _ => ?_
  refine preserves_bind (checkWatchdog_remembers os now) fun _ => ?_
  refine preserves_bind (checkRuntimeLimit_remembers os now) fun _ => ?_
  refine preserves_bind (hobserve _ _) fun exit => ?_
  refine preserves_bind (onExit_remembers (handleExecConditionExit_remembers os now) exit) fun _ => ?_
  refine preserves_bind (hobserve _ _) fun exit => ?_
  refine preserves_bind (onExit_remembers (handleStartHelperExit_remembers os now) exit) fun _ => ?_
  refine preserves_bind (hobserve _ _) fun exit => ?_
  refine preserves_bind (onExit_remembers (handleStartPostExit_remembers os now) exit) fun _ => ?_
  refine preserves_bind (hobserve _ _) fun exit => ?_
  refine preserves_bind (onExit_remembers (handleActiveStopExit_remembers os now) exit) fun _ => ?_
  refine preserves_bind (hobserve _ _) fun exit => ?_
  refine preserves_bind (onExit_remembers (handleStopPostExit_remembers os now) exit) fun _ => ?_
  refine preserves_bind (hobserve _ _) fun exit => ?_
  refine preserves_bind (onExit_remembers (handleReloadExit_preserves hframe) exit) fun _ => ?_
  refine preserves_bind (hobserve _ _) fun exit => ?_
  refine preserves_bind (onExit_remembers (handleStopExit_preserves hframe) exit) fun _ => ?_
  refine preserves_bind (observeExit_preserves hframe) fun exit => ?_
  refine preserves_bind (onExit_remembers (handleMainExit_remembers os now) exit) fun _ => ?_
  refine preserves_bind preserves_service fun s => ?_
  have hlast : Preserves (Remembers ω p) (do
      checkStopDeadline os now
      checkActiveStopDeadline os now
      checkStartDeadline os now
      checkRestart os now) :=
    preserves_bind (checkStopDeadline_remembers os now) fun _ =>
      preserves_bind (checkActiveStopDeadline_remembers os now) fun _ =>
        preserves_bind (checkStartDeadline_remembers os now) fun _ => checkRestart_remembers os now
  exact preserves_ite (fun _ => preserves_bind (tryAdoptForking_remembers os now) fun _ => hlast)
    fun _ => hlast

end

section

variable {ω : Type} (os : Os ω) {spec : ServiceSpec}

theorem restart_hasSpec (now : Instant) : Preserves (HasSpec ω spec) (restart os now) :=
  hasSpec_of_remembers fun s hs => restart_remembers os now s ⟨hs, fun _ => trivial⟩

theorem resetFailed_hasSpec : Preserves (HasSpec ω spec) (resetFailed os) :=
  hasSpec_of_remembers (resetFailed_remembers os)

theorem markJobTimeout_hasSpec (now : Instant) :
    Preserves (HasSpec ω spec) (markJobTimeout os now) :=
  hasSpec_of_remembers (markJobTimeout_remembers os now)

theorem markLost_hasSpec (describe : String) : Preserves (HasSpec ω spec) (markLost os describe) :=
  hasSpec_of_remembers (markLost_remembers os describe)

theorem clearActivation_hasSpec : Preserves (HasSpec ω spec) (clearActivationFds os) :=
  hasSpec_of_remembers (clearActivation_remembers os)

theorem setActivationFds_hasSpec (fds : List Nat) (names : List Str) :
    Preserves (HasSpec ω spec) (setActivationFds os fds names) :=
  hasSpec_of_remembers (setActivationFds_remembers os fds names)

theorem setActivationConnection_hasSpec (fd : Nat) :
    Preserves (HasSpec ω spec) (setActivationConnection os fd) :=
  hasSpec_of_remembers (setActivationConnection_remembers os fd)

theorem poll_hasSpec (now : Instant) : Preserves (HasSpec ω spec) (poll os now) :=
  hasSpec_of_remembers (poll_remembers os now)

end

end FractalD.Supervisor.SettingsPoll
