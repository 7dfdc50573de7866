import FractalD.Machine.OrderedMap
import FractalD.Machine.Text
import Mathlib.Data.List.Lex
import Mathlib.Data.Char

namespace FractalD.Core.Spec

open FractalD.Machine.CString FractalD.Machine.OrderedMap FractalD.Machine.Text

def sigHup : Int := 1
def sigAbrt : Int := 6
def sigKill : Int := 9
def sigTerm : Int := 15

/-- Durations and instants are counted in nanoseconds. -/
abbrev Duration := Nat
abbrev Instant := Nat

def milliseconds (n : Nat) : Duration := n * 10 ^ 6
def seconds (n : Nat) : Duration := n * 10 ^ 9

/-- `Duration::MAX`. -/
def durationMax : Duration := 2 ^ 64 * 10 ^ 9 - 1

/-- `Instant::checked_add`. The seconds of an instant are an `i64`. -/
def checkedAdd (now : Instant) (d : Duration) : Option Instant :=
  if now + d < 2 ^ 63 * 10 ^ 9 then some (now + d) else none

/-- `Duration::saturating_add`. -/
def saturatingAdd (a b : Duration) : Duration := min (a + b) durationMax

structure DependencySet where
  requires : List Str := []
  wants : List Str := []
  after : List Str := []
  before : List Str := []
  conflicts : List Str := []
  partOf : List Str := []
  bindsTo : List Str := []
  requisite : List Str := []
  onSuccess : List Str := []
  onFailure : List Str := []
  deriving DecidableEq, Repr

inductive ExitReason
  | exited (code : Int)
  | signaled (signal : Int)
  | coreDumped (signal : Int)
  deriving DecidableEq, Repr

namespace ExitReason

def isSuccess (reason : ExitReason) : Bool := reason = .exited 0

def isFailure (reason : ExitReason) : Bool := !reason.isSuccess

def isSignaled : ExitReason → Bool
  | .exited _ => false
  | .signaled _ | .coreDumped _ => true

def isCoreDumped : ExitReason → Bool
  | .coreDumped _ => true
  | .exited _ | .signaled _ => false

end ExitReason

inductive RestartPolicy
  | never
  | onSuccess
  | onFailure
  | onAbnormal
  | onAbort
  | always
  deriving DecidableEq, Repr

def RestartPolicy.shouldRestart : RestartPolicy → ExitReason → Bool
  | .never, _ => false
  | .onSuccess, reason => reason.isSuccess
  | .onFailure, reason => reason.isFailure
  | .onAbnormal, reason => reason.isSignaled
  | .onAbort, reason => reason.isCoreDumped
  | .always, _ => true

inductive OomPolicy
  | continue
  | stop
  | kill
  deriving DecidableEq, Repr

inductive ManagerAction
  | none
  | exit
  | halt
  | haltForce
  | poweroff
  | poweroffForce
  | reboot
  | rebootForce
  | kexec
  | kexecForce
  | softReboot
  | softRebootForce
  deriving DecidableEq, Repr

inductive ServiceType
  | simple
  | forking
  | oneshot
  | notify
  | dbus
  | idle
  | socket
  | timer
  | path
  | mount
  | swap
  deriving DecidableEq, Repr

inductive KillMode
  | controlGroup
  | process
  | mixed
  | none
  deriving DecidableEq, Repr

inductive NotifyAccess
  | none
  | main
  | exec
  | all
  deriving DecidableEq, Repr

inductive PrivateTmpMode
  | no
  | yes
  | disconnected
  deriving DecidableEq, Repr

inductive ProtectSystemMode
  | no
  | yes
  | full
  | strict
  deriving DecidableEq, Repr

inductive ProtectHomeMode
  | no
  | yes
  | readOnly
  | tmpfs
  deriving DecidableEq, Repr

structure CommandSpec where
  program : Str
  args : List Str
  deriving DecidableEq, Repr

/-- A condition on the system. The kinds that only the system decides are one
case, which keeps the condition as it is written. -/
inductive Condition
  | pathIsMountPoint (path : Str) (negate : Bool)
  | other (text : Str)
  deriving DecidableEq, Repr

inductive PathWatch
  | changed (path : Str)
  | modified (path : Str)
  | exists (path : Str)
  | existsGlob (path : Str)
  | directoryNotEmpty (path : Str)
  deriving DecidableEq, Repr

inductive TriggerSpec
  | timer (service : Str) (onBoot onUnitActive onUnitInactive : Option Duration)
      (onCalendar : List Str) (persistent : Bool) (randomizedDelay accuracy : Option Duration)
  | path (service : Str) (watches : List PathWatch)
  deriving DecidableEq, Repr

/-- The settings of a service. Those that only shape the processes it launches
are kept together, as the manager does no more with them than compare them. -/
structure ServiceSpec where
  name : Str
  aliases : List Str := []
  profiles : List Str := []
  allowIsolate : Bool := false
  ignoreOnIsolate : Bool := false
  refuseManualStart : Bool := false
  refuseManualStop : Bool := false
  program : Str
  mainIgnoreFailure : Bool := false
  execConditions : List CommandSpec := []
  conditions : List Condition := []
  assertions : List Condition := []
  fileDescriptorName : Option Str := none
  socketService : Option Str := none
  socketAccept : Bool := false
  removeOnStop : Bool := false
  trigger : Option TriggerSpec := none
  successExitStatus : List Int := []
  restartPreventExitStatus : List Int := []
  restart : RestartPolicy := .never
  restartLimit : Nat := 5
  startLimitInterval : Option Duration := none
  startLimitBurst : Option Nat := none
  startTimeout : Duration := seconds 30
  stopTimeout : Duration := seconds 5
  jobTimeout : Option Duration := none
  jobTimeoutAction : ManagerAction := .none
  runtimeMax : Option Duration := none
  restartBackoff : Duration := milliseconds 250
  killSignal : Int := sigTerm
  restartKillSignal : Option Int := none
  failureAction : ManagerAction := .none
  successAction : ManagerAction := .none
  sendSighup : Bool := false
  killMode : KillMode := .controlGroup
  dependencies : DependencySet := {}
  stopWhenUnneeded : Bool := false
  requiresMountsFor : List Str := []
  wantsMountsFor : List Str := []
  mountWhere : Option Str := none
  devicePath : Option Str := none
  serviceType : ServiceType := .simple
  busNames : List Str := []
  dynamicUser : Bool := false
  user : Option Str := none
  group : Option Str := none
  supplementaryGroups : Option (List Str) := none
  privateTmp : PrivateTmpMode := .no
  protectSystem : ProtectSystemMode := .no
  protectHome : ProtectHomeMode := .no
  oomPolicy : OomPolicy := .continue
  watchdog : Option Duration := none
  notifyAccess : NotifyAccess := .none
  journalStdout : Bool := true
  journalStderr : Bool := true
  remainAfterExit : Bool := false
  stop : Option CommandSpec := none
  reload : Option CommandSpec := none
  startPre : List CommandSpec := []
  startPost : List CommandSpec := []
  stopPost : List CommandSpec := []
  launch : Str := []
  deriving DecidableEq, Repr

inductive SpecError
  | emptyName
  | invalidName (name : Str)
  | emptyProgram
  | invalidKillSignal (signal : Int)
  | invalidAlias (name : Str)
  | invalidFileDescriptorName (name : Str)
  deriving DecidableEq, Repr

/-- `char::is_control`. -/
def isControl (c : Char) : Bool := c.toNat < 0x20 || (0x7f ≤ c.toNat && c.toNat < 0xa0)

def unusableName (name : Str) : Bool :=
  name.any (fun c => isWhitespace c || isControl c) || '/' ∈ name || name = ['.'] ||
    name = ['.', '.']

def validFileDescriptorName (value : Str) : Bool :=
  value ≠ [] && utf8Length value ≤ 255 && value.all (·.toNat < 128) && ':' ∉ value &&
    !value.any isControl

/-- The checks of `ServiceSpec::validate`, but for those on the slice, the credentials and the paths
of a service. -/
def ServiceSpec.validate (spec : ServiceSpec) : Except SpecError Unit := do
  if trim spec.name = [] then throw .emptyName
  if unusableName spec.name then throw (.invalidName spec.name)
  if spec.program = [] then throw .emptyProgram
  if let some name := spec.aliases.find? fun name => trim name = [] || unusableName name then
    throw (.invalidAlias name)
  if let some name := spec.fileDescriptorName then
    if !validFileDescriptorName name then throw (.invalidFileDescriptorName name)
  if spec.killSignal ≤ 0 then throw (.invalidKillSignal spec.killSignal)
  if let some signal := spec.restartKillSignal then
    if signal ≤ 0 then throw (.invalidKillSignal signal)

def svcSuffix : Str := ".svc".toList

/-- The directories that a mount path can refer to. -/
structure Directories where
  runtime : Str
  state : Str
  home : Str

/-- The name of a service and its parts before and after the last `@`. -/
structure NameParts where
  stem : Str
  before : Str
  instanceName : Option Str

def nameParts (name : Str) : NameParts :=
  let stem := (removeSuffix svcSuffix name).getD name
  let last := stem.reverse.takeWhile (· ≠ '@')
  if '@' ∈ stem then
    ⟨stem, (stem.reverse.drop (last.length + 1)).reverse, some last.reverse⟩
  else ⟨stem, stem, none⟩

def replacement (dirs : Directories) (name : Str) (specifier : Char) : Option Str :=
  let parts := nameParts name
  if specifier = 'n' then some name
  else if specifier = 'N' then some parts.stem
  else if specifier = 'p' ∨ specifier = 'P' then some parts.before
  else if specifier = 'i' ∨ specifier = 'I' ∨ specifier = 'f' then some (parts.instanceName.getD [])
  else if specifier = 't' then some dirs.runtime
  else if specifier = 'S' then some dirs.state
  else if specifier = 'h' then some dirs.home
  else none

def expandMountPath (dirs : Directories) (name : Str) : Str → Str
  | [] => []
  | '%' :: [] => ['%']
  | '%' :: '%' :: s => '%' :: expandMountPath dirs name s
  | '%' :: c :: s => (replacement dirs name c).getD ['%', c] ++ expandMountPath dirs name s
  | c :: s => c :: expandMountPath dirs name s

end FractalD.Core.Spec
