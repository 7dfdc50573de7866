import FractalD.Core.Record

namespace FractalD.Supervisor.System

open FractalD.Core.Spec FractalD.Machine.CString

inductive ExitKind
  | exited (code : Int)
  | signaled (signal : Int)
  | coreDumped (signal : Int)
  deriving DecidableEq, Repr

def isSuccess (exit : ExitKind) : Bool := exit = .exited 0

structure OsError where
  rawOsError : Option Int
  text : Str
  deriving DecidableEq, Repr

/-- The process that a signal was meant for does not exist. -/
def OsError.noSuchProcess (e : OsError) : Bool := e.rawOsError = some 3

/-- The id of a process that has been spawned. -/
abbrev Pid := { pid : Nat // pid ≠ 0 }

/-- A child process, and whether a pidfd refers to it. -/
structure HelperProcess where
  pid : Nat
  pidfd : Bool
  deriving DecidableEq, Repr

inductive Handle
  | pidfd (pid : Nat)
  | child (pid : Nat)
  deriving DecidableEq, Repr

def HelperProcess.handle (h : HelperProcess) : Handle :=
  if h.pidfd then .pidfd h.pid else .child h.pid

inductive PidFdAnswer
  | opened
  | unavailable
  | failed (e : OsError)
  deriving DecidableEq, Repr

inductive DirectoryKind
  | configuration
  | runtime
  | state
  | cache
  | logs
  deriving DecidableEq, Repr

structure ManagedDirectory where
  path : Str
  kind : DirectoryKind
  cleanup : Bool
  deriving DecidableEq, Repr

structure PrivateTmpPaths where
  tmp : Str
  varTmp : Str
  deriving DecidableEq, Repr

structure PathObservation where
  present : Bool
  isDirectory : Bool
  length : Nat
  modified : Option Nat
  directoryNonempty : Bool
  deriving DecidableEq, Repr

/-- An open listener. Some have a path that goes away with them. -/
structure ManagedListener where
  fd : Nat
  path : Option Str
  deriving DecidableEq, Repr

/-- What the processes of a service can use. -/
structure Resources where
  directories : List ManagedDirectory
  credentialDirectory : Option Str
  privateTmpPaths : Option PrivateTmpPaths
  notifySocket : Option Str
  deriving DecidableEq, Repr

/-- The commands of a helper process. -/
structure Script where
  spec : ServiceSpec
  commands : List CommandSpec
  mainPid : Option Nat
  label : Str
  resources : Resources
  deriving DecidableEq, Repr

/-- The launch of a main process. -/
structure Launch where
  spec : ServiceSpec
  resources : Resources
  activationFds : List Nat
  activationFdNames : List Str
  cgroupPath : Option Str
  deriving DecidableEq, Repr

abbrev Call (ω α : Type) := ω → α × ω

/-- The operating system. Every call may be answered in any way and may change
its state, which the calls that only look at it do not. -/
structure Os (ω : Type) where
  debug : Str → Str
  directories : Directories
  nameHash : Str → Nat
  identityOccupied : ω → Nat → Bool
  reapUntrackedChildren : List Nat → Call ω (Except Str Unit)
  now : Call ω Instant
  wallClock : ω → Nat
  conditionMatches : ω → ServiceSpec → Condition → Bool
  expandSpecifiers : ω → ServiceSpec → Str → Str
  pathIsMountPoint : ω → Str → Bool
  pathExists : ω → Str → Bool
  prepareCredentials : ServiceSpec → Call ω (Except Str (Option Str))
  prepareDirectories : ServiceSpec → Call ω (Except Str (List ManagedDirectory))
  preparePrivateTmp : ServiceSpec → Call ω (Except Str (Option PrivateTmpPaths))
  removeDirectory : Str → Call ω Unit
  removeTree : Str → Call ω Unit
  removeFile : Str → Call ω Unit
  effectiveEnvironment : ServiceSpec → Resources → Call ω (Except Str Unit)
  prepareNotifySocket : ServiceSpec → Nat → Call ω (Except Str Str)
  prepareCgroup : ServiceSpec → Call ω (Except Str (Option Str))
  openOutput : ServiceSpec → Str → Option Nat → Call ω (Except Str Unit)
  openInput : ServiceSpec → Call ω (Except Str Unit)
  prepareIdentity : ServiceSpec → Call ω (Except Str Unit)
  spawnMain : Launch → Call ω (Except Str Pid)
  forwardJournal : ServiceSpec → Str → Nat → Call ω (Except Str Unit)
  attachToCgroup : Str → Nat → Call ω (Except Str Unit)
  cleanupCgroup : Str → Call ω Unit
  readCgroupOomEvents : ω → Str → Option Nat
  killCgroup : Str → Call ω (Except Str Unit)
  cgroupContainsPid : ω → Str → Nat → Bool
  processGroupId : ω → Nat → Option Nat
  processExists : ω → Nat → Bool
  openPidFd : Nat → Call ω PidFdAnswer
  forkingProcessCandidate : ω → ServiceSpec → Nat → Option Nat
  spawnScript : Script → Call ω (Except Str HelperProcess)
  spawnCommand : Script → Call ω (Except Str HelperProcess)
  spawnDbusProbe : Str → Call ω (Except Str Nat)
  tryWait : Handle → Call ω (Except Str (Option ExitKind))
  kill : Nat → Call ω Unit
  signalProcess : Nat → Int → Call ω (Except OsError Unit)
  signalProcessGroup : Nat → Int → Call ω (Except OsError Unit)
  pidfdSendSignal : Nat → Int → Call ω (Except OsError Unit)
  childKill : Nat → Call ω (Except Str Unit)
  receiveNotifications : Str → Call ω (Except Str (List (Str × Nat)))
  openListeners : ServiceSpec → Call ω (Except Str (List ManagedListener))
  closeListener : ManagedListener → Bool → Call ω Unit
  acceptConnection : ManagedListener → Call ω (Except Str (Option Nat))
  closeFd : Nat → Call ω Unit
  timerHasMissedSchedule : ω → ServiceSpec → Bool
  timerRandomDelay : ω → ServiceSpec → Duration → Duration
  calendarMatch : Str → Nat → Option Nat
  recordTimerFire : ServiceSpec → Call ω Unit
  observePathWatch : ω → ServiceSpec → PathWatch → PathObservation

def timeoutDeadline (now : Instant) (timeout : Duration) : Option Instant :=
  if timeout = durationMax then none else checkedAdd now timeout

/-- A deadline that has passed. -/
def due (now : Instant) (deadline : Option Instant) : Bool := deadline.any (· ≤ now)

end FractalD.Supervisor.System
