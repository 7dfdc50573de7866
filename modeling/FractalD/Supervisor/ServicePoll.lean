import FractalD.Supervisor.Service

namespace FractalD.Supervisor.ServicePoll

open FractalD.Core.Record FractalD.Core.Spec FractalD.Machine.CString FractalD.Machine.Text
open FractalD.Supervisor.Service FractalD.Supervisor.System

section

variable {ω : Type} (os : Os ω)

def observeHelper (label : String) (helper : ManagedService → Option HelperProcess) :
    Op ω (Option ExitKind) := do
  let s ← service
  match helper s with
  | none => pure none
  | some h =>
    required ("cannot observe ".toList ++ label.toList ++ " for ".toList ++ s.spec.name ++
      ": ".toList) (os.tryWait h.handle)

def onExit (exit : Option ExitKind) (handle : ExitKind → Op ω Unit) : Op ω Unit :=
  exit.forM handle

def isSigner (s : ManagedService) (sender : Nat) : Bool :=
  s.record.pid = some sender ||
    ([s.stopCommand, s.reloadCommand] ++ s.helpers).any fun helper =>
      helper.map (·.pid) = some sender

def processBelongsToService (s : ManagedService) (w : ω) (pid : Nat) : Bool :=
  s.cgroupPath.any (fun path => os.cgroupContainsPid w path pid) ||
    s.processGroup.any fun group => os.processGroupId w pid = some group

def notificationSenderAllowed (s : ManagedService) (w : ω) (sender : Nat) : Bool :=
  match effectiveNotifyAccess s.spec with
  | .none => false
  | .main => s.record.pid = some sender
  | .exec => isSigner s sender
  | .all => processBelongsToService os s w sender

def linesOf (message : Str) : List Str := message.splitOnP (· = '\n')

def announces (message word : Str) : Bool := (linesOf message).any fun line => trim line = word

def acceptReady (describe : String) (pid : Nat) : Op ω Unit := do
  let _ ← transition describe.toList fun r => .ready pid r.generation

def acceptNotification (now : Instant) (message : Str) : Op ω Unit := do
  let s ← service
  if announces message "READY=1".toList ∧ s.record.state = .starting then
    if let some pid := s.record.pid then
      acceptReady "cannot accept readiness notification for " pid
      update ({ · with notifyReady := true, startDeadline := none })
      armWatchdog now
      armRuntimeLimit now
      spawnStartPost os pid
  let s ← service
  if announces message "WATCHDOG=1".toList ∧ s.record.state = .running then armWatchdog now

def observeNotify (now : Instant) : Op ω Unit := do
  let s ← service
  match s.notifySocket with
  | none => pure ()
  | some socket => do
    let received ← required
      ("cannot receive readiness notification for ".toList ++ s.spec.name ++ ": ".toList)
      (os.receiveNotifications socket)
    let allowed ← look fun w =>
      received.filter fun (_, sender) => notificationSenderAllowed os s w sender
    allowed.forM fun (message, _) => acceptNotification os now message

/-- Take up the answer of the running probe; whether another one is to be started. -/
def observeDbusProbe (now : Instant) (probe : Nat) : Op ω Bool := do
  let s ← service
  let name := s.spec.name
  match ← call (os.tryWait (.child probe)) with
  | .ok none => return false
  | .ok (some exit) => do
    update ({ · with dbusProbe := none })
    if isSuccess exit then
      match s.record.pid with
      | none =>
        throw ("D-Bus service ".toList ++ name ++ " lost its process before readiness".toList)
      | some pid => do
        acceptReady "cannot accept D-Bus readiness for " pid
        update ({ · with
          dbusReady := true, dbusProbeIndex := 0, dbusProbeAt := none, startDeadline := none })
        armRuntimeLimit now
        spawnStartPost os pid
        return false
    else if s.spec.busNames.length ≤ s.dbusProbeIndex + 1 then
      update ({ · with
        dbusProbeIndex := 0, dbusProbeAt := checkedAdd now (milliseconds 100) })
      return true
    else
      update ({ · with dbusProbeIndex := s.dbusProbeIndex + 1, dbusProbeAt := some now })
      return true
  | .error e => do
    update ({ · with dbusProbe := none, dbusProbeAt := checkedAdd now (milliseconds 100) })
    throw ("cannot poll D-Bus readiness for ".toList ++ name ++ ": ".toList ++ e)

def startDbusProbe (now : Instant) : Op ω Unit := do
  let s ← service
  unless s.dbusProbe.isSome ∨ s.dbusProbeAt.any (now < ·) do
    match s.spec.busNames[s.dbusProbeIndex]? with
    | none => throw ("D-Bus service ".toList ++ s.spec.name ++ " has no bus name".toList)
    | some busName =>
      match ← call (os.spawnDbusProbe busName) with
      | .ok probe => update ({ · with dbusProbe := some probe, dbusProbeAt := none })
      | .error _ => update ({ · with dbusProbeAt := checkedAdd now (seconds 1) })

def observeDbus (now : Instant) : Op ω Unit := do
  let s ← service
  if s.spec.serviceType = .dbus ∧ !s.dbusReady ∧ s.record.state = .starting then
    match s.dbusProbe with
    | none => startDbusProbe os now
    | some probe => if ← observeDbusProbe os now probe then startDbusProbe os now

def oomStop (now : Instant) (path : Str) : Op ω Unit := do
  let s ← service
  match s.spec.oomPolicy with
  | .continue => pure ()
  | .stop => stop os now
  | .kill =>
    if let .error _ ← call (os.killCgroup path) then
      s.record.pid.forM fun pid => sendSignal os pid sigKill

def checkOom (now : Instant) : Op ω Unit := do
  let s ← service
  if let some path := s.cgroupPath then
    if let some current ← look fun w => os.readCgroupOomEvents w path then
      update ({ · with oomEvents := some current })
      if s.oomEvents.any (· < current) ∧ s.record.state = .running then oomStop os now path

def checkWatchdog (now : Instant) : Op ω Unit := do
  let s ← service
  if s.record.state = .running ∧ due now s.watchdogDeadline then
    update ({ · with watchdogDeadline := none })
    s.record.pid.forM fun pid => sendSignal os pid sigAbrt

/-- Give the main process the stop timeout to exit. -/
def armStopDeadline (now : Instant) : Op ω Unit := do
  let s ← service
  if s.record.state = .stopping ∧ s.record.pid.isSome then
    update ({ · with stopDeadline := timeoutDeadline now s.spec.stopTimeout })

def checkRuntimeLimit (now : Instant) : Op ω Unit := do
  let s ← service
  if s.record.state = .running ∧ due now s.runtimeDeadline then
    update ({ · with runtimeDeadline := none })
    let actions ← transition "cannot time out runtime for ".toList fun r =>
      .runtimeTimedOut r.generation
    applyActions os actions
    armStopDeadline now

def handleExecConditionExit (now : Instant) (exit : ExitKind) : Op ω Unit := do
  update ({ · with execConditionHelper := none })
  let s ← service
  let generation := s.record.generation
  if s.record.state = .stopping then
    let _ ← transition "cannot complete stop of ".toList fun _ => .stopCompleted
    update ({ · with startDeadline := none })
    cleanupDirectories os
  else
    match exit with
    | .exited code =>
      if code = 0 then
        update ({ · with execConditionsDone := true })
        if s.record.state = .starting then spawn os generation now
      else if 1 ≤ code ∧ code ≤ 254 then
        update ({ · with startDeadline := none })
        let _ ← transition "cannot skip ".toList fun _ => .conditionSkipped generation
        cleanupDirectories os
      else
        update ({ · with startDeadline := none })
        markSpawnFailed os generation now
    | .signaled _ | .coreDumped _ => do
      update ({ · with startDeadline := none })
      markSpawnFailed os generation now

def handleStartHelperExit (now : Instant) (exit : ExitKind) : Op ω Unit := do
  update ({ · with startHelper := none })
  let s ← service
  if s.record.state = .stopping then
    let _ ← transition "cannot complete stop of ".toList fun _ => .stopCompleted
    update ({ · with startDeadline := none })
  else if !isSuccess exit then
    update ({ · with startDeadline := none })
    markSpawnFailed os s.record.generation now
  else if s.record.state = .starting then spawnMain os s.record.generation now

def handleStartPostExit (now : Instant) (exit : ExitKind) : Op ω Unit := do
  update ({ · with startPostHelper := none })
  let s ← service
  if !isSuccess exit ∧ s.record.state = .running then
    let actions ← transition "cannot record failed start-post for ".toList fun r =>
      .startFailed r.generation
    applyActions os actions
    update ({ · with startDeadline := none, stopDeadline := none })
    armStopDeadline now

def maybeStartAfterTeardown (now : Instant) : Op ω Unit := do
  let s ← service
  if s.restartAfterStop ∧ s.wantsRunning ∧ s.record.state = .exited ∧
      s.activeStopHelper.isNone ∧ s.stopPostHelper.isNone then
    update ({ · with restartAfterStop := false })
    start os now

def handleStopPostExit (now : Instant) (_ : ExitKind) : Op ω Unit := do
  update ({ · with stopPostHelper := none, stopDeadline := none })
  cleanupDirectories os
  maybeStartAfterTeardown os now

def finishActiveStop (now : Instant) : Op ω Unit := do
  update ({ · with stopDeadline := none })
  spawnStopPost os none
  if (← service).stopPostHelper.isNone then cleanupDirectories os
  maybeStartAfterTeardown os now

def handleActiveStopExit (now : Instant) (_ : ExitKind) : Op ω Unit := do
  update ({ · with activeStopHelper := none })
  finishActiveStop os now

def handleReloadExit (exit : ExitKind) : Op ω Unit :=
  update ({ · with reloadFailed := !isSuccess exit, reloadCommand := none })

def handleStopExit (_ : ExitKind) : Op ω Unit := do
  update ({ · with stopCommand := none })
  let s ← service
  s.record.pid.forM fun pid => sendSignal os pid (s.stopSignal.getD s.spec.killSignal)

def observeExit : Op ω (Option ExitKind) := do
  let s ← service
  let observe (handle : Handle) : Op ω (Option ExitKind) :=
    required ("cannot observe ".toList ++ s.spec.name ++ ": ".toList) (os.tryWait handle)
  match s.adoptedPid, s.pidfd, s.child with
  | some pid, _, _ => look fun w => if os.processExists w pid then none else some (.exited 1)
  | none, some fd, _ => observe (.pidfd fd)
  | none, none, some pid => observe (.child pid)
  | none, none, none => pure none

def ExitKind.reason : ExitKind → ExitReason
  | .exited code => .exited code
  | .signaled signal => .signaled signal
  | .coreDumped signal => .coreDumped signal

/-- What the record is told about an exit. -/
def exitReason (spec : ServiceSpec) (exit : ExitKind) : ExitReason :=
  if spec.mainIgnoreFailure then .exited 0 else ExitKind.reason exit

/-- Drop what belonged to a main process that has exited. -/
def forgetMain : Op ω Unit := do
  killStopCommand os
  killReloadCommand os
  update ({ · with
    pidfd := none, child := none, processGroup := none, forkingPending := false,
    forkingParentExited := false, adoptedPid := none })
  killDbusProbe os
  let s ← service
  s.notifySocket.forM fun path => call (os.removeFile path)
  s.cgroupPath.forM fun path => call (os.cleanupCgroup path)
  update ({ · with
    dbusReady := true, dbusProbeIndex := 0, watchdogDeadline := none, runtimeDeadline := none,
    notifySocket := none, notifyReady := true, cgroupPath := none, oomEvents := none,
    startDeadline := none, stopDeadline := none })

/-- Start a service again whose process has exited, if a restart waits for that. -/
def restartAfterExit (now : Instant) : Op ω Unit := do
  let s ← service
  if s.record.state = .backoff ∧ s.wantsRunning then
    update ({ · with restartAt := some ((checkedAdd now s.spec.restartBackoff).getD now) })
  else if s.restartAfterStop ∧ s.wantsRunning then
    update ({ · with restartAfterStop := false })
    let limited ← tryCatch (do enforceStartLimit os now; pure false) fun _ => pure true
    unless limited do
      let actions ← transition "cannot restart ".toList fun _ => .startRequested
      applyStartActions os actions now

def handleExit (now : Instant) (exit : ExitKind) : Op ω Unit := do
  let s ← service
  match s.record.pid with
  | none => throw (s.spec.name ++ " exited without a recorded PID".toList)
  | some pid => do
    forgetMain os
    let actions ← transition "cannot commit exit of ".toList fun _ =>
      .exited pid s.record.generation (exitReason s.spec exit)
    applyActions os actions
    if (← service).record.state ≠ .active then
      spawnStopPost os (some pid)
      if (← service).stopPostHelper.isNone then cleanupDirectories os
    restartAfterExit os now

def adopt (now : Instant) (pid : Nat) (pidfd : Bool) : Op ω Unit := do
  let _ ← transition "cannot adopt a process for ".toList fun r => .adopted pid r.generation
  if let some path := (← service).cgroupPath then
    match ← call (os.attachToCgroup path pid) with
    | .ok () => pure ()
    | .error e => do
      if pidfd then let _ ← call (os.pidfdSendSignal pid sigKill)
      throw ("cannot attach forked process to cgroup ".toList ++ path ++ ": ".toList ++ e)
  update ({ · with
    pidfd := if pidfd then some pid else none, forkingPending := false,
    forkingParentExited := false, adoptedPid := some pid, startDeadline := none })
  armRuntimeLimit now
  spawnStartPost os pid

def tryAdoptForking (now : Instant) : Op ω Unit := do
  let s ← service
  let abandon : Op ω Unit :=
    update ({ · with forkingPending := false, forkingParentExited := false })
  match s.processGroup with
  | none => do
    abandon
    throw ("forking service ".toList ++ s.spec.name ++ " has no launcher process group".toList)
  | some parent =>
    match ← look fun w => os.forkingProcessCandidate w s.spec parent with
    | none =>
      if due now s.startDeadline then
        abandon
        handleExit os now (.exited 1)
    | some pid =>
      unless pid = parent do
        match ← call (os.openPidFd pid) with
        | .opened => adopt os now pid true
        | .unavailable => adopt os now pid false
        | .failed e =>
          unless e.noSuchProcess do
            throw ("cannot open forked process for ".toList ++ s.spec.name ++ ": ".toList ++ e.text)

def handleForkingParentExit (now : Instant) (exit : ExitKind) : Op ω Unit := do
  if !isSuccess exit then
    update ({ · with forkingPending := false, forkingParentExited := false })
    handleExit os now exit
  else
    update ({ · with child := none, pidfd := none, forkingParentExited := true })
    tryAdoptForking os now

def handleMainExit (now : Instant) (exit : ExitKind) : Op ω Unit := do
  let s ← service
  if s.forkingPending ∧ !s.forkingParentExited then handleForkingParentExit os now exit
  else handleExit os now exit

/-- Kill a service that has not stopped in time. -/
def checkStopDeadline (now : Instant) : Op ω Unit := do
  let s ← service
  if s.record.state = .stopping ∧ due now s.stopDeadline then
    let actions ← transition "cannot escalate ".toList fun r => .stopTimedOut r.generation
    applyActions os actions
    killStartHelper os
    killExecConditionHelper os
    killStartPostHelper os
    killDbusProbe os
    killStopCommand os
    update ({ · with stopDeadline := none })

def checkActiveStopDeadline (now : Instant) : Op ω Unit := do
  let s ← service
  if s.record.state = .exited ∧ s.activeStopHelper.isSome ∧ due now s.stopDeadline then
    killActiveStopHelper os
    finishActiveStop os now

def checkStartDeadline (now : Instant) : Op ω Unit := do
  let s ← service
  if s.record.state = .starting ∧ due now s.startDeadline then
    let actions ← transition "cannot time out ".toList fun r => .startTimedOut r.generation
    applyActions os actions
    update ({ · with startDeadline := none })
    killStartHelper os
    killStartPostHelper os
    killDbusProbe os
    armStopDeadline now

/-- Start a service whose time to wait for a restart is over. -/
def checkRestart (now : Instant) : Op ω Unit := do
  let s ← service
  if s.wantsRunning ∧ s.record.state = .backoff ∧ due now s.restartAt then
    update ({ · with restartAt := none })
    let limited ← tryCatch (do enforceStartLimit os now; pure false) fun _ => pure true
    unless limited do
      let actions ← transition "cannot restart ".toList fun r => .restartDue r.generation
      applyStartActions os actions now

def poll (now : Instant) : Op ω Unit := do
  observeNotify os now
  observeDbus os now
  checkOom os now
  checkWatchdog os now
  checkRuntimeLimit os now
  onExit (← observeHelper os "exec-condition" (·.execConditionHelper))
    (handleExecConditionExit os now)
  onExit (← observeHelper os "start-pre" (·.startHelper)) (handleStartHelperExit os now)
  onExit (← observeHelper os "start-post" (·.startPostHelper)) (handleStartPostExit os now)
  onExit (← observeHelper os "stop" (·.activeStopHelper)) (handleActiveStopExit os now)
  onExit (← observeHelper os "stop-post" (·.stopPostHelper)) (handleStopPostExit os now)
  onExit (← observeHelper os "reload command" (·.reloadCommand)) handleReloadExit
  onExit (← observeHelper os "stop command" (·.stopCommand)) (handleStopExit os)
  onExit (← observeExit os) (handleMainExit os now)
  let s ← service
  if s.forkingPending ∧ s.forkingParentExited then tryAdoptForking os now
  checkStopDeadline os now
  checkActiveStopDeadline os now
  checkStartDeadline os now
  checkRestart os now

end

end FractalD.Supervisor.ServicePoll
