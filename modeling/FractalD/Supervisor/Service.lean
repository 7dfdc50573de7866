import FractalD.Supervisor.Trigger

namespace FractalD.Supervisor.Service

open FractalD.Core.Record FractalD.Core.Spec FractalD.Machine.CString
open FractalD.Machine.Text FractalD.Supervisor.System FractalD.Supervisor.Trigger

/-- A service with its processes. The handles of a stop or a reload command are
kept together, as they are set and dropped together. -/
structure ManagedService where
  record : ServiceRecord
  child : Option Nat
  pidfd : Option Nat
  processGroup : Option Nat
  forkingPending : Bool
  forkingParentExited : Bool
  adoptedPid : Option Nat
  notifySocket : Option Str
  notifyReady : Bool
  dbusReady : Bool
  dbusProbe : Option Nat
  dbusProbeIndex : Nat
  dbusProbeAt : Option Instant
  watchdogDeadline : Option Instant
  listeners : List ManagedListener
  activationFdNames : List Str
  activationFds : List Nat
  activationOwnedFds : List Nat
  stopCommand : Option HelperProcess
  reloadCommand : Option HelperProcess
  reloadFailed : Bool
  startHelper : Option HelperProcess
  execConditionHelper : Option HelperProcess
  execConditionsDone : Bool
  startPostHelper : Option HelperProcess
  activeStopHelper : Option HelperProcess
  stopPostHelper : Option HelperProcess
  stopSignal : Option Int
  stopSignalSent : Bool
  startDeadline : Option Instant
  stopDeadline : Option Instant
  runtimeDeadline : Option Instant
  restartAt : Option Instant
  restartAfterStop : Bool
  wantsRunning : Bool
  startAttempts : List Instant
  cgroupPath : Option Str
  oomEvents : Option Nat
  directories : List ManagedDirectory
  credentialDirectory : Option Str
  privateTmpPaths : Option PrivateTmpPaths
  trigger : TriggerState

namespace ManagedService

def ofRecord (record : ServiceRecord) : ManagedService where
  record := record
  child := none
  pidfd := none
  processGroup := none
  forkingPending := false
  forkingParentExited := false
  adoptedPid := none
  notifySocket := none
  notifyReady := true
  dbusReady := true
  dbusProbe := none
  dbusProbeIndex := 0
  dbusProbeAt := none
  watchdogDeadline := none
  listeners := []
  activationFdNames := []
  activationFds := []
  activationOwnedFds := []
  stopCommand := none
  reloadCommand := none
  reloadFailed := false
  startHelper := none
  execConditionHelper := none
  execConditionsDone := false
  startPostHelper := none
  activeStopHelper := none
  stopPostHelper := none
  stopSignal := none
  stopSignalSent := false
  startDeadline := none
  stopDeadline := none
  runtimeDeadline := none
  restartAt := none
  restartAfterStop := false
  wantsRunning := false
  startAttempts := []
  cgroupPath := none
  oomEvents := none
  directories := []
  credentialDirectory := none
  privateTmpPaths := none
  trigger := .reset

section

variable (s : ManagedService)

def spec : ServiceSpec := s.record.spec

def snapshot : ServiceSnapshot :=
  ⟨s.spec.name, s.record.state, s.record.pid, s.record.generation, s.record.restartCount,
    s.record.lastExit⟩

def resources : Resources :=
  ⟨s.directories, s.credentialDirectory, s.privateTmpPaths, s.notifySocket⟩

def helpers : List (Option HelperProcess) :=
  [s.startHelper, s.execConditionHelper, s.startPostHelper, s.activeStopHelper, s.stopPostHelper]

def directChildPids : List Nat :=
  s.record.pid.toList ++ s.child.toList ++ (s.stopCommand.map (·.pid)).toList ++
    (s.reloadCommand.map (·.pid)).toList ++ s.dbusProbe.toList ++
    s.helpers.flatMap fun helper => (helper.map (·.pid)).toList

def readyForDependency : Bool :=
  if s.record.state ≠ .running ∨ s.forkingPending ∨ s.startPostHelper.isSome then false
  else
    match s.spec.serviceType with
    | .oneshot | .mount | .swap => false
    | .notify => s.notifyReady
    | .dbus => s.dbusReady
    | .simple | .forking | .idle | .socket | .timer | .path => true

def isDown : ServiceState → Bool
  | .defined | .exited | .skipped | .failed => true
  | .starting | .running | .active | .stopping | .backoff => false

def isStopped : Bool :=
  s.child.isNone && s.pidfd.isNone && s.processGroup.isNone && !s.forkingPending &&
    !s.forkingParentExited && s.adoptedPid.isNone && s.notifySocket.isNone &&
    s.dbusProbe.isNone && s.watchdogDeadline.isNone && s.listeners.isEmpty &&
    s.activationFdNames.isEmpty && s.activationFds.isEmpty && s.activationOwnedFds.isEmpty &&
    s.stopCommand.isNone && s.reloadCommand.isNone && s.helpers.all (·.isNone) &&
    isDown s.record.state && s.restartAt.isNone && s.runtimeDeadline.isNone &&
    s.credentialDirectory.isNone && s.privateTmpPaths.isNone

def reloadState : Str :=
  if s.reloadCommand.isSome then "pending".toList
  else if s.reloadFailed then "failed".toList
  else "done".toList

def listenerFds : List Nat := s.listeners.map (·.fd)

end

end ManagedService

/-- A numeric identity of a dynamic user. -/
structure DynamicIdentity where
  uid : Nat
  gid : Nat
  deriving DecidableEq, Repr

/-- The settings of a dynamic user that replace those of the descriptor. -/
def withIdentity (spec : ServiceSpec) (identity : DynamicIdentity) : ServiceSpec :=
  { spec with
    user := some (printUnsigned identity.uid)
    group := some (printUnsigned identity.gid)
    supplementaryGroups := some (spec.supplementaryGroups.getD [])
    protectSystem := if spec.protectSystem = .no then .strict else spec.protectSystem
    protectHome := if spec.protectHome = .no then .readOnly else spec.protectHome
    privateTmp := if spec.privateTmp = .no then .yes else spec.privateTmp }

def newWithDynamicIdentity (spec : ServiceSpec) (identity : Option DynamicIdentity) :
    Except Str ManagedService := do
  let spec ← match spec.dynamicUser, identity with
    | false, _ => pure spec
    | true, some identity => pure (withIdentity spec identity)
    | true, none => throw ("cannot allocate a dynamic identity for ".toList ++ spec.name)
  match ServiceRecord.new spec with
  | .ok record => pure (.ofRecord record)
  | .error _ => throw "invalid service specification".toList

/-- An operation on a service. What it did before an error stays done. -/
abbrev Op (ω : Type) := EStateM Str (ManagedService × ω)

section

variable {ω α : Type}

def service : Op ω ManagedService := do return (← get).1

def look (f : ω → α) : Op ω α := do return f (← get).2

def update (f : ManagedService → ManagedService) : Op ω Unit := modify fun s => (f s.1, s.2)

def call (c : Call ω α) : Op ω α := modifyGet fun s => ((c s.2).1, (s.1, (c s.2).2))

def required (describe : Str) (c : Call ω (Except Str α)) : Op ω α := do
  match ← call c with
  | .ok a => pure a
  | .error e => throw (describe ++ e)

/-- The error itself is left out of the text. -/
def transition (describe : Str) (event : ServiceRecord → Event) : Op ω (List Action) := do
  let s ← service
  match s.record.transition (event s.record) with
  | .ok (record, actions) =>
    update ({ · with record := record })
    pure actions
  | .error _ => throw (describe ++ s.spec.name)

end

section

variable {ω : Type} (os : Os ω)

def killHelper (helper : Option HelperProcess) : Op ω Unit :=
  helper.forM fun helper => call (os.kill helper.pid)

def killStartHelper : Op ω Unit := do
  killHelper os (← service).startHelper
  update ({ · with startHelper := none })

def killExecConditionHelper : Op ω Unit := do
  killHelper os (← service).execConditionHelper
  update ({ · with execConditionHelper := none })

def killStartPostHelper : Op ω Unit := do
  killHelper os (← service).startPostHelper
  update ({ · with startPostHelper := none })

def killActiveStopHelper : Op ω Unit := do
  killHelper os (← service).activeStopHelper
  update ({ · with activeStopHelper := none })

def killStopPostHelper : Op ω Unit := do
  killHelper os (← service).stopPostHelper
  update ({ · with stopPostHelper := none })

def killStopCommand : Op ω Unit := do
  killHelper os (← service).stopCommand
  update ({ · with stopCommand := none })

def killReloadCommand : Op ω Unit := do
  let s ← service
  killHelper os s.reloadCommand
  update ({ · with
    reloadCommand := none, reloadFailed := s.reloadFailed || s.reloadCommand.isSome })

def killDbusProbe : Op ω Unit := do
  (← service).dbusProbe.forM fun pid => call (os.kill pid)
  update ({ · with dbusProbe := none, dbusProbeAt := none })

def clearActivationFds : Op ω Unit := do
  (← service).activationOwnedFds.forM fun fd => call (os.closeFd fd)
  update ({ · with activationOwnedFds := [], activationFdNames := [], activationFds := [] })

def closeListeners (removeOnStop : Bool) : Op ω Unit := do
  (← service).listeners.forM fun listener => call (os.closeListener listener removeOnStop)
  update ({ · with listeners := [] })

def cleanupDirectories : Op ω Unit := do
  let s ← service
  (s.directories.filter (·.cleanup)).reverse.forM fun d => call (os.removeDirectory d.path)
  s.credentialDirectory.forM fun path => call (os.removeTree path)
  s.privateTmpPaths.forM fun paths => do
    call (os.removeTree paths.tmp)
    call (os.removeTree paths.varTmp)
  update ({ · with directories := [], credentialDirectory := none, privateTmpPaths := none })

def resetTriggerState : Op ω Unit := update ({ · with trigger := .reset })

/-- The `Debug` form of a duration. -/
def debugDuration (d : Duration) : Str :=
  let (unit, digits, suffix) :=
    if 10 ^ 9 ≤ d then (10 ^ 9, 9, "s")
    else if 10 ^ 6 ≤ d then (10 ^ 6, 6, "ms")
    else if 10 ^ 3 ≤ d then (10 ^ 3, 3, "µs")
    else (1, 0, "ns")
  let fraction := printUnsigned (d % unit)
  printUnsigned (d / unit) ++
    (if d % unit = 0 then []
    else '.' :: trimEnd (· = '0') (List.replicate (digits - fraction.length) '0' ++ fraction)) ++
    suffix.toList

def cannotSend (signal : Int) (name : Str) (e : OsError) : Str :=
  "cannot send signal ".toList ++ printSigned signal ++ " to ".toList ++ name ++ ": ".toList ++ e.text

/-- What is done where a process could not be signalled. -/
def signalPidFd (signal : Int) (first second : String) (otherwise : OsError → Op ω Unit) (e : OsError) :
    Op ω Unit := do
  let s ← service
  match s.pidfd with
  | none => otherwise e
  | some fd =>
    match ← call (os.pidfdSendSignal fd signal) with
    | .ok () => pure ()
    | .error e' =>
      unless e'.noSuchProcess do
        throw ("cannot signal ".toList ++ s.spec.name ++ ": ".toList ++ first.toList ++ '=' :: e.text ++
          "; ".toList ++ second.toList ++ '=' :: e'.text)

def sendProcessSignal (pid : Nat) (signal : Int) : Op ω Unit := do
  match ← call (os.signalProcess pid signal) with
  | .ok () => pure ()
  | .error e =>
    unless e.noSuchProcess do
      signalPidFd os signal "process" "pidfd" (fun e => do
        throw (cannotSend signal (← service).spec.name e)) e

def sendGroupSignal (pid : Nat) (signal : Int) : Op ω Unit := do
  match ← call (os.signalProcessGroup ((← service).processGroup.getD pid) signal) with
  | .ok () => pure ()
  | .error e =>
    unless e.noSuchProcess do
      signalPidFd os signal "group" "process" (fun e => do
        let s ← service
        if signal = sigKill then
          s.child.forM fun child =>
            required ("cannot kill ".toList ++ s.spec.name ++ ": ".toList) (os.childKill child)
        else throw (cannotSend signal s.spec.name e)) e

def sendSignalRaw (pid : Nat) (signal : Int) : Op ω Unit := do
  let s ← service
  if s.record.pid ≠ some pid then
    throw ("service ".toList ++ s.spec.name ++ " has no process ".toList ++ printUnsigned pid)
  match s.spec.killMode with
  | .none => pure ()
  | .process => sendProcessSignal os pid signal
  | .mixed =>
    if signal ≠ sigKill then sendProcessSignal os pid signal else sendGroupSignal os pid signal
  | .controlGroup => sendGroupSignal os pid signal

def sendSignal (pid : Nat) (signal : Int) : Op ω Unit := do
  let s ← service
  let stopping := s.record.state = .stopping
  let effective :=
    if stopping ∧ signal = s.spec.killSignal then s.stopSignal.getD signal else signal
  sendSignalRaw os pid effective
  if stopping ∧ s.stopSignal = some effective ∧ !s.stopSignalSent then
    update ({ · with stopSignalSent := true })
    if s.spec.sendSighup ∧ effective ≠ sigHup then sendSignalRaw os pid sigHup

def applyAction : Action → Op ω Unit
  | .sendSignal pid signal => sendSignal os pid signal
  | .scheduleRestart _ _ | .spawn _ => pure ()

def applyActions (actions : List Action) : Op ω Unit := actions.forM (applyAction os)

def markSpawnFailed (generation : Nat) (now : Instant) : Op ω Unit := do
  killExecConditionHelper os
  clearActivationFds os
  cleanupDirectories os
  let actions ← transition "cannot record spawn failure of ".toList fun _ =>
    .spawnFailed generation
  actions.forM fun
    | .scheduleRestart _ after =>
      update ({ · with restartAt := some ((checkedAdd now after).getD now) })
    | .sendSignal pid signal => sendSignal os pid signal
    | .spawn _ => pure ()

/-- A step that a launch needs. Where it fails, what was made for the launch is
undone and the service has failed to start. -/
def orSpawnFailed {α : Type} (undo : Op ω Unit) (generation : Nat) (now : Instant) (describe : Str)
    (c : Call ω (Except Str α)) : Op ω α := do
  match ← call c with
  | .ok a => pure a
  | .error e => do
    undo
    markSpawnFailed os generation now
    throw (describe ++ e)

def script (s : ManagedService) (commands : List CommandSpec) (mainPid : Option Nat)
    (label : Str) : Script :=
  ⟨s.spec, commands, mainPid, label, s.resources⟩

def spawnStartPost (pid : Nat) : Op ω Unit := do
  let s ← service
  if s.spec.startPost = [] ∨ s.startPostHelper.isSome then return
  match ← call (os.spawnScript (script s s.spec.startPost (some pid) "start-post".toList)) with
  | .ok helper => update ({ · with startPostHelper := some helper })
  | .error e => do
    -- The failure of the signal is dropped, and what it changed is not.
    tryCatch (sendSignal os pid s.spec.killSignal) fun _ => pure ()
    throw ("cannot execute start-post for ".toList ++ s.spec.name ++ ": ".toList ++ e)

def effectiveNotifyAccess (spec : ServiceSpec) : NotifyAccess :=
  if spec.notifyAccess = .none ∧ (spec.serviceType = .notify ∨ spec.watchdog.isSome) then .main
  else spec.notifyAccess

def wantsNotifySocket (spec : ServiceSpec) : Bool :=
  spec.serviceType = .notify || spec.watchdog.isSome || effectiveNotifyAccess spec ≠ .none

def undoLaunch (notify cgroup : Option Str) : Op ω Unit := do
  notify.forM fun path => call (os.removeFile path)
  cgroup.forM fun path => call (os.cleanupCgroup path)

def armRuntimeLimit (now : Instant) : Op ω Unit :=
  update fun s => { s with
    runtimeDeadline := (s.spec.runtimeMax.filter (· ≠ 0)).bind (timeoutDeadline now) }

def armWatchdog (now : Instant) : Op ω Unit :=
  update fun s => { s with watchdogDeadline := s.spec.watchdog.bind (checkedAdd now) }

def registerMain (generation pid : Nat) (pidfd : Bool) (undo : Op ω Unit) : Op ω Unit := do
  let s ← service
  match s.record.transition (.spawned pid generation) with
  | .ok (record, _) => update ({ · with record := record })
  | .error _ => do
    if pidfd then let _ ← call (os.pidfdSendSignal pid sigKill)
    else call (os.kill pid)
    undo
    throw ("cannot register ".toList ++ printUnsigned pid)

/-- The socket on which the service tells that it is ready, if it is to have one. -/
def prepareReadiness (spec : ServiceSpec) (generation : Nat) (now : Instant) :
    Op ω (Option Str) :=
  if wantsNotifySocket spec then
    some <$> orSpawnFailed os (pure ()) generation now
      ("cannot prepare readiness socket for ".toList ++ spec.name ++ ": ".toList)
      (os.prepareNotifySocket spec generation)
  else pure none

def launchMain (spec : ServiceSpec) (notify cgroup : Option Str) (generation : Nat)
    (now : Instant) : Op ω Pid := do
  let undo := undoLaunch os notify cgroup
  let activationFd := (← service).activationFds.head?
  orSpawnFailed os undo generation now [] (os.openOutput spec "stdout".toList activationFd)
  orSpawnFailed os undo generation now [] (os.openOutput spec "stderr".toList activationFd)
  orSpawnFailed os undo generation now [] (os.openInput spec)
  let s ← service
  update ({ · with activationFds := [], activationOwnedFds := [], activationFdNames := [] })
  orSpawnFailed os undo generation now [] (os.prepareIdentity spec)
  let launch : Launch :=
    { spec := spec, resources := { s.resources with notifySocket := notify },
      activationFds := s.activationFds, activationFdNames := s.activationFdNames,
      cgroupPath := cgroup }
  let spawned ← call (os.spawnMain launch)
  s.activationOwnedFds.forM fun fd => call (os.closeFd fd)
  orSpawnFailed os undo generation now ("cannot execute ".toList ++ spec.program ++ ": ".toList)
    fun w => (spawned, w)

def forwardJournal (wanted : Bool) (label : String) (pid : Nat) (undo : Op ω Unit)
    (generation : Nat) (now : Instant) : Op ω Unit := do
  let spec := (← service).spec
  if wanted then
    orSpawnFailed os undo generation now
      ("cannot forward journal ".toList ++ label.toList ++ " for ".toList ++ spec.name ++
        ": ".toList)
      (os.forwardJournal spec label.toList pid)
  else pure ()

def attachMain (cgroup : Option Str) (pid : Nat) (undo : Op ω Unit) (generation : Nat)
    (now : Instant) : Op ω Unit :=
  cgroup.forM fun path =>
    orSpawnFailed os undo generation now
      ("cannot attach ".toList ++ printUnsigned pid ++ " to cgroup ".toList ++ path ++ ": ".toList)
      (os.attachToCgroup path pid)

def openMainPidFd (pid : Nat) (undo : Op ω Unit) (generation : Nat) (now : Instant) :
    Op ω Bool := do
  match ← call (os.openPidFd pid) with
  | .opened => pure true
  | .unavailable => pure false
  | .failed e =>
    orSpawnFailed os undo generation now
      ("cannot open pidfd for ".toList ++ printUnsigned pid ++ ": ".toList) fun w =>
        (.error e.text, w)

/-- Whether the process is known once it has been launched. -/
def startsAtOnce (spec : ServiceSpec) : Bool :=
  spec.serviceType ≠ .forking && spec.serviceType ≠ .dbus

/-- Remember what belongs to a main process that has been registered. -/
def rememberMain (spec : ServiceSpec) (pid : Nat) (pidfd : Bool) (notify cgroup : Option Str)
    (oomEvents : Option Nat) (now : Instant) : Op ω Unit :=
  update fun s => { s with
    child := some pid
    pidfd := if pidfd then some pid else none
    processGroup := some pid
    forkingPending := spec.serviceType = .forking
    forkingParentExited := false
    notifyReady := spec.serviceType ≠ .notify
    dbusReady := spec.serviceType ≠ .dbus
    dbusProbeIndex := 0
    dbusProbeAt := none
    watchdogDeadline := none
    runtimeDeadline :=
      if s.record.state = .running ∧ startsAtOnce spec then
        (spec.runtimeMax.filter (· ≠ 0)).bind (timeoutDeadline now)
      else none
    notifySocket := notify.or s.notifySocket
    cgroupPath := cgroup
    oomEvents := oomEvents
    startDeadline := s.startDeadline.or (timeoutDeadline now spec.startTimeout) }

def spawnMain (generation : Nat) (now : Instant) : Op ω Unit := do
  let s ← service
  let spec := s.spec
  orSpawnFailed os (pure ()) generation now [] (os.effectiveEnvironment spec s.resources)
  let notify ← prepareReadiness os spec generation now
  let cgroup ← orSpawnFailed os (undoLaunch os notify none) generation now
    ("cannot prepare cgroup for ".toList ++ spec.name ++ ": ".toList) (os.prepareCgroup spec)
  let ⟨pid, _⟩ ← launchMain os spec notify cgroup generation now
  let undoSpawn : Op ω Unit := do
    call (os.kill pid)
    undoLaunch os notify cgroup
  forwardJournal os spec.journalStdout "stdout" pid undoSpawn generation now
  forwardJournal os spec.journalStderr "stderr" pid undoSpawn generation now
  attachMain os cgroup pid undoSpawn generation now
  let oomEvents ← look fun w => cgroup.bind (os.readCgroupOomEvents w)
  let pidfd ← openMainPidFd os pid undoSpawn generation now
  registerMain os generation pid pidfd (undoLaunch os notify cgroup)
  rememberMain spec pid pidfd notify cgroup oomEvents now
  if startsAtOnce spec then spawnStartPost os pid

def spawnSocket (generation : Nat) (now : Instant) : Op ω Unit := do
  let s ← service
  let listeners ← orSpawnFailed os (pure ()) generation now
    ("cannot open socket listeners for ".toList ++ s.spec.name ++ ": ".toList)
    (os.openListeners s.spec)
  match s.record.transition (.activated generation) with
  | .error _ => do
    listeners.forM fun listener => call (os.closeListener listener true)
    throw ("cannot activate socket ".toList ++ s.spec.name)
  | .ok (record, _) =>
    update ({ · with record := record, listeners := listeners, startDeadline := none })

def spawnTrigger (generation : Nat) (now : Instant) : Op ω Unit := do
  let _ ← transition "cannot activate trigger ".toList fun _ => .activated generation
  let s ← service
  let trigger ← look fun w => activate os w s.spec now
  update ({ · with startDeadline := none, trigger := trigger })

/-- Run the commands that come before the main process, or it. -/
def spawn (generation : Nat) (now : Instant) : Op ω Unit := do
  let s ← service
  let spec := s.spec
  let launch (describe : String) (commands : List CommandSpec) (label : String) :
      Op ω HelperProcess :=
    orSpawnFailed os (pure ()) generation now (describe.toList ++ spec.name ++ ": ".toList)
      (os.spawnScript (script s commands none label.toList))
  if spec.serviceType = .socket then spawnSocket os generation now
  else if spec.serviceType = .timer ∨ spec.serviceType = .path then
    spawnTrigger os generation now
  else if spec.execConditions ≠ [] ∧ !s.execConditionsDone then
    let helper ← launch "cannot execute ExecCondition for " spec.execConditions "exec-condition"
    update ({ · with execConditionHelper := some helper })
  else if spec.startPre ≠ [] then
    let helper ← launch "cannot execute start-pre for " spec.startPre "start-pre"
    update ({ · with startHelper := some helper })
  else spawnMain os generation now

def applyStartActions (actions : List Action) (now : Instant) : Op ω Unit :=
  actions.forM fun
    | .spawn generation => spawn os generation now
    | action => applyAction os action

def enforceStartLimit (now : Instant) : Op ω Unit := do
  let s ← service
  if s.spec.startLimitInterval.isNone ∧ s.spec.startLimitBurst.isNone then return
  let interval := s.spec.startLimitInterval.getD (seconds 10)
  let burst := s.spec.startLimitBurst.getD 5
  if interval = 0 ∨ burst = 0 then
    update ({ · with startAttempts := [] })
    return
  let attempts := s.startAttempts.dropWhile fun attempt => interval ≤ now - attempt
  update ({ · with startAttempts := attempts })
  if burst ≤ attempts.length then
    let _ ← transition "cannot record start limit for ".toList fun r => .startLimitHit r.generation
    update ({ · with wantsRunning := false, restartAt := none })
    resetTriggerState
    cleanupDirectories os
    throw ("start limit hit for ".toList ++ s.spec.name ++ " (".toList ++ printUnsigned burst ++
      " starts in ".toList ++ debugDuration interval ++ [')'])
  update ({ · with startAttempts := attempts ++ [now] })

/-- Prepare what the processes of a new generation use. -/
def prepare (generation : Nat) (now : Instant) : Op ω Unit := do
  let spec := (← service).spec
  let named (text : String) : Str := text.toList ++ spec.name ++ ": ".toList
  let credentials ← orSpawnFailed os (cleanupDirectories os) generation now
    (named "cannot prepare credentials for ") (os.prepareCredentials spec)
  update ({ · with credentialDirectory := credentials })
  let directories ← orSpawnFailed os (cleanupDirectories os) generation now
    (named "cannot prepare service directories for ") (os.prepareDirectories spec)
  update ({ · with directories := directories })
  let paths ← orSpawnFailed os (cleanupDirectories os) generation now
    (named "cannot prepare private temporary directories for ") (os.preparePrivateTmp spec)
  update ({ · with privateTmpPaths := paths })

def startAfresh (now : Instant) : Op ω Unit := do
  enforceStartLimit os now
  update ({ · with stopSignal := none, stopSignalSent := false, runtimeDeadline := none })
  let actions ← transition "cannot start ".toList fun _ => .startRequested
  let s ← service
  let met ← look fun w => s.spec.conditions.all (os.conditionMatches w s.spec)
  let asserted ← look fun w => s.spec.assertions.all (os.conditionMatches w s.spec)
  if !met then
    let _ ← transition "cannot skip ".toList fun r => .conditionSkipped r.generation
    update ({ · with startDeadline := none })
  else if !asserted then
    let _ ← transition "cannot fail ".toList fun r => .startFailed r.generation
    update ({ · with startDeadline := none })
  else
    update ({ · with execConditionsDone := false })
    prepare os s.record.generation now
    update ({ · with startDeadline := timeoutDeadline now s.spec.startTimeout })
    applyStartActions os actions now

def start (now : Instant) : Op ω Unit := do
  update ({ · with wantsRunning := true, restartAfterStop := false, restartAt := none })
  let s ← service
  match s.record.state with
  | .running | .starting | .active => pure ()
  | .stopping => update ({ · with restartAfterStop := true })
  | .exited =>
    if s.activeStopHelper.isSome ∨ s.stopPostHelper.isSome then
      update ({ · with restartAfterStop := true })
    else startAfresh os now
  | .defined | .backoff | .skipped | .failed => startAfresh os now

/-- Kill what a service that is stopping without a main process still runs. -/
def completeStop : Op ω Unit := do
  killExecConditionHelper os
  killStartHelper os
  killStartPostHelper os
  update ({ · with startDeadline := none })
  let _ ← transition "cannot complete stop for ".toList fun _ => .stopCompleted

def spawnStopPost (pid : Option Nat) : Op ω Unit := do
  let s ← service
  unless s.spec.stopPost = [] do
    killStopPostHelper os
    if let .ok helper ← call (os.spawnScript (script s s.spec.stopPost pid "stop-post".toList))
    then update ({ · with stopPostHelper := some helper })

def spawnActiveStop : Op ω Unit := do
  let s ← service
  match s.spec.stop with
  | none => throw "service has no stop command".toList
  | some command => do
    let helper ← required [] (os.spawnScript (script s [command] none "stop".toList))
    update ({ · with activeStopHelper := some helper })

def spawnStopCommand (pid : Nat) : Op ω Unit := do
  let s ← service
  match s.spec.stop with
  | none => throw "service has no stop command".toList
  | some command => do
    let helper ← required [] (os.spawnCommand (script s [command] (some pid) "stop".toList))
    update ({ · with stopCommand := some helper })

def stopWithSignal (now : Instant) (signal : Int) : Op ω Unit := do
  update ({ · with
    wantsRunning := false, restartAfterStop := false, restartAt := none, runtimeDeadline := none })
  killDbusProbe os
  let before ← service
  let state := before.record.state
  if state = .starting ∨ state = .running then
    update ({ · with stopSignal := some signal, stopSignalSent := false })
  let actions ← transition "cannot stop ".toList fun _ => .stopRequested
  applyActions os actions
  if before.spec.serviceType = .socket then
    closeListeners os before.spec.removeOnStop
    clearActivationFds os
  let s ← service
  if s.record.state = .stopping ∧ s.record.pid.isNone then completeStop os
  let s ← service
  if state = .active ∧ s.record.state = .exited then
    if s.spec.stop.isSome then
      spawnActiveStop os
      update ({ · with stopDeadline := timeoutDeadline now s.spec.stopTimeout })
    else spawnStopPost os none
  let s ← service
  if s.record.state = .exited then
    resetTriggerState
    if s.activeStopHelper.isNone ∧ s.stopPostHelper.isNone then cleanupDirectories os
  let s ← service
  if let some pid := s.record.pid then
    if s.spec.stop.isSome then
      tryCatch (spawnStopCommand os pid) fun _ => do
        sendSignal os pid ((← service).stopSignal.getD signal)
  update fun s => { s with
    stopDeadline :=
      if s.record.state = .stopping ∧ s.record.pid.isSome then timeoutDeadline now s.spec.stopTimeout
      else none }

def stop (now : Instant) : Op ω Unit := do stopWithSignal os now (← service).spec.killSignal

def stopForRestart (now : Instant) : Op ω Unit := do
  let spec := (← service).spec
  stopWithSignal os now (spec.restartKillSignal.getD spec.killSignal)

def restart (now : Instant) : Op ω Unit := do
  update ({ · with wantsRunning := true, restartAt := none })
  match (← service).record.state with
  | .running | .starting => do
    stopForRestart os now
    update ({ · with wantsRunning := true, restartAfterStop := true })
    if (← service).record.state = .exited then
      update ({ · with restartAfterStop := false })
      start os now
  | .stopping => update ({ · with restartAfterStop := true })
  | .backoff => do
    let _ ← transition "cannot restart ".toList fun _ => .stopRequested
    start os now
  | .active => do
    stop os now
    start os now
  | .defined | .exited | .skipped | .failed => start os now

def reload : Op ω Unit := do
  let s ← service
  if s.record.state ≠ .running then
    throw ("service ".toList ++ s.spec.name ++ " is not running".toList)
  match s.spec.reload, s.record.pid with
  | none, _ => throw ("service ".toList ++ s.spec.name ++ " has no reload command".toList)
  | some command, pid =>
    unless s.reloadCommand.isSome do
      match pid with
      | none => throw ("service ".toList ++ s.spec.name ++ " has no process".toList)
      | some pid => do
        update ({ · with reloadFailed := false })
        let helper ←
          required [] (os.spawnCommand (script s [command] (some pid) "reload".toList))
        update ({ · with reloadCommand := some helper })

def resetFailed : Op ω Unit := do
  if (← service).record.state = .failed then
    let _ ← transition "cannot reset ".toList fun _ => .reset
    resetTriggerState
    update ({ · with startAttempts := [], runtimeDeadline := none })
    cleanupDirectories os

def failStarting (describe : String) (event : ServiceRecord → Event) (now : Instant) :
    Op ω Unit := do
  let actions ← transition describe.toList event
  applyActions os actions
  update ({ · with startDeadline := none })
  killStartHelper os
  killExecConditionHelper os
  killStartPostHelper os
  let s ← service
  if s.record.state = .stopping ∧ s.record.pid.isSome then
    update ({ · with stopDeadline := timeoutDeadline now s.spec.stopTimeout })

def markJobTimeout (now : Instant) : Op ω Unit := do
  update ({ · with
    wantsRunning := false, restartAfterStop := false, restartAt := none, runtimeDeadline := none })
  killDbusProbe os
  match (← service).record.state with
  | .defined | .exited | .skipped | .failed | .backoff => do
    let _ ← transition "cannot record job timeout for ".toList fun _ => .jobTimedOut
    update ({ · with startDeadline := none })
    cleanupDirectories os
  | .starting =>
    failStarting os "cannot time out start job for " (fun r => .startTimedOut r.generation) now
  | .running =>
    failStarting os "cannot fail timed out job for " (fun r => .startFailed r.generation) now
  | .active | .stopping => pure ()

def mountIsLost (s : ManagedService) (w : ω) : Bool :=
  s.spec.serviceType = .mount && s.record.state = .active &&
    s.spec.mountWhere.any fun path => !os.pathIsMountPoint w path

def deviceIsLost (s : ManagedService) (w : ω) : Bool :=
  s.record.state = .active && s.spec.devicePath.any fun path => !os.pathExists w path

/-- Record that the mount or the device of a unit has gone away. -/
def markLost (describe : String) : Op ω Unit := do
  update ({ · with wantsRunning := false })
  let _ ← transition describe.toList fun _ => .stopRequested
  cleanupDirectories os

def setActivationFds (fds : List Nat) (names : List Str) : Op ω Unit := do
  let s ← service
  if s.child.isNone ∧ s.record.state ≠ .running then
    clearActivationFds os
    update ({ · with activationFdNames := names, activationFds := fds })

def setActivationConnection (fd : Nat) : Op ω Unit := do
  let s ← service
  if s.child.isNone ∧ s.record.state ≠ .running then
    clearActivationFds os
    update ({ · with activationFds := [fd], activationOwnedFds := [fd] })
  else call (os.closeFd fd)

/-- The service that a timer or a path unit starts now. -/
def triggerDue (now : Instant) : Op ω (Option Str) := do
  let s ← service
  if s.record.state ≠ .active then return none
  match s.spec.trigger with
  | none => return none
  | some (.timer target onBoot onUnitActive onUnitInactive onCalendar persistent _ _) => do
    let (fires, trigger) ← look fun w =>
      timerDue os w s.trigger now onBoot onUnitActive onUnitInactive onCalendar
    update ({ · with
      trigger := if fires then { trigger with lastFire := some now } else trigger })
    if fires ∧ persistent then call (os.recordTimerFire s.spec)
    return if fires then some target else none
  | some (.path target watches) => do
    let (fires, trigger) ← look fun w => pathDue os w s.spec s.trigger watches
    update ({ · with trigger := trigger })
    return if fires then some target else none

end

end FractalD.Supervisor.Service
