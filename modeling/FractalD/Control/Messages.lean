import FractalD.Machine.Text

namespace FractalD.Control.Messages

open FractalD.Machine.CString FractalD.Machine.Text

inductive ShutdownAction
  | stop
  | poweroff
  | reboot
  | halt
  deriving DecidableEq, Repr

def ShutdownAction.asStr : ShutdownAction → Str
  | .stop => "stop".toList
  | .poweroff => "poweroff".toList
  | .reboot => "reboot".toList
  | .halt => "halt".toList

def ShutdownAction.parse (value : Str) : Option ShutdownAction :=
  [ShutdownAction.stop, .poweroff, .reboot, .halt].find? (·.asStr = value)

inductive Request
  | status
  | stop
  | ping
  | list
  | reload
  | enableService (name : Str)
  | disableService (name : Str)
  | isEnabled (name : Str)
  | reloadService (name : Str)
  | resetFailed (name : Option Str)
  | startService (name : Str)
  | isolateService (name : Str)
  | stopService (name : Str)
  | restartService (name : Str)
  | serviceStatus (name : Str)
  | transactionStatus (id : Nat)
  | subscribe (since : Option Nat)
  | shutdown (action : ShutdownAction)
  deriving DecidableEq, Repr

inductive ProtocolError
  | unknownRequest (value : Str)
  | malformedRequest (value : Str)
  | malformedResponse (value : Str)
  deriving DecidableEq, Repr

/-- The text of an error. Texts of the client are shown as `debug` shows them. -/
def ProtocolError.display (debug : Str → Str) : ProtocolError → Str
  | .unknownRequest value => "unknown request ".toList ++ debug value
  | .malformedRequest value => "malformed request ".toList ++ debug value
  | .malformedResponse value => "malformed response ".toList ++ debug value

/-- The value read from the fields of a request, and the fields that are left. -/
abbrev Field (α : Type) := List Str → Except ProtocolError (α × List Str)

def parseShutdownAction : Field ShutdownAction
  | [] => throw (.malformedRequest "shutdown action is required".toList)
  | value :: fields =>
    match ShutdownAction.parse value with
    | none => throw (.malformedRequest ("unsupported shutdown action ".toList ++ value))
    | some action => pure (action, fields)

def parseOptionalSequence : Field (Option Nat)
  | [] => pure (none, [])
  | value :: fields =>
    match parseU64 value with
    | none => throw (.malformedRequest "invalid event sequence".toList)
    | some since => pure (some since, fields)

def parseServiceName : Field Str
  | [] => throw (.malformedRequest "service name is required".toList)
  | name :: fields =>
    if name = [] ∨ '\n' ∈ name ∨ '\r' ∈ name then
      throw (.malformedRequest "invalid service name".toList)
    else pure (name, fields)

def parseTransactionId : Field Nat
  | [] => throw (.malformedRequest "transaction id is required".toList)
  | value :: fields =>
    match parseU64 value with
    | none => throw (.malformedRequest "invalid transaction id".toList)
    | some id =>
      if id = 0 then throw (.malformedRequest "transaction id must be non-zero".toList)
      else pure (id, fields)

def constant (request : Request) : Field Request := fun fields => pure (request, fields)

def build {α : Type} (make : α → Request) (field : Field α) : Field Request := fun fields => do
  let (value, rest) ← field fields
  pure (make value, rest)

def commands : List (Str × Field Request) :=
  [("STATUS".toList, constant .status),
    ("STOP".toList, constant .stop),
    ("PING".toList, constant .ping),
    ("LIST".toList, constant .list),
    ("RELOAD".toList, constant .reload),
    ("ENABLE_SERVICE".toList, build .enableService parseServiceName),
    ("DISABLE_SERVICE".toList, build .disableService parseServiceName),
    ("IS_ENABLED".toList, build .isEnabled parseServiceName),
    ("RELOAD_SERVICE".toList, build .reloadService parseServiceName),
    ("RESET_FAILED".toList, fun fields => pure (.resetFailed fields.head?, fields.tail)),
    ("START_SERVICE".toList, build .startService parseServiceName),
    ("ISOLATE_SERVICE".toList, build .isolateService parseServiceName),
    ("STOP_SERVICE".toList, build .stopService parseServiceName),
    ("RESTART_SERVICE".toList, build .restartService parseServiceName),
    ("SERVICE_STATUS".toList, build .serviceStatus parseServiceName),
    ("TRANSACTION_STATUS".toList, build .transactionStatus parseTransactionId),
    ("SUBSCRIBE".toList, build .subscribe parseOptionalSequence),
    ("SHUTDOWN".toList, build .shutdown parseShutdownAction)]

def Request.parse (value : Str) : Except ProtocolError Request :=
  match splitWhitespace value with
  | [] => throw (.unknownRequest (trim value))
  | command :: fields =>
    match commands.find? (·.1 = command) with
    | none => throw (.unknownRequest command)
    | some (_, field) => do
      let (request, rest) ← field fields
      if rest = [] then pure request else throw (.malformedRequest (trim value))

structure ServiceStatus where
  name : Str
  state : Str
  pid : Option Nat
  generation : Nat
  restartCount : Nat
  deriving DecidableEq, Repr

structure TransactionStatus where
  id : Nat
  operation : Str
  name : Str
  state : Str
  deriving DecidableEq, Repr

inductive Response
  | status (pid uptimeMs : Nat)
  | stopping
  | pong
  | subscribed
  | event (line : Str)
  | services (names : List Str)
  | service (status : ServiceStatus)
  | transaction (status : TransactionStatus)
  | accepted (id : Nat) (operation name : Str)
  | enabled (name : Str)
  | disabled (name : Str)
  | enabledStatus (name : Str) (enabled : Bool)
  | reloaded
  | reset
  | error (message : Str)
  deriving DecidableEq, Repr

def oneLine (value : Str) : Str :=
  value.map fun c => if c = '\n' ∨ c = '\r' ∨ c.toNat = 0 then ' ' else c

def isLineEnd (c : Char) : Bool := c = '\r' || c = '\n'

/-- The line that is sent for a response, without its newline. -/
def Response.line : Response → Str
  | .status pid uptimeMs =>
    "OK STATUS pid=".toList ++ printUnsigned pid ++ " uptime_ms=".toList ++ printUnsigned uptimeMs
  | .stopping => "OK STOPPING".toList
  | .pong => "OK PONG".toList
  | .subscribed => "OK SUBSCRIBED".toList
  | .event line => "OK EVENT ".toList ++ oneLine (trimEnd isLineEnd line)
  | .services names => "OK SERVICES names=".toList ++ join [','] names
  | .service s =>
    "OK SERVICE name=".toList ++ s.name ++ " state=".toList ++ s.state ++
      " pid=".toList ++ s.pid.elim ['-'] printUnsigned ++
      " generation=".toList ++ printUnsigned s.generation ++
      " restarts=".toList ++ printUnsigned s.restartCount
  | .transaction s =>
    "OK TRANSACTION id=".toList ++ printUnsigned s.id ++ " operation=".toList ++ s.operation ++
      " name=".toList ++ s.name ++ " state=".toList ++ s.state
  | .accepted id operation name =>
    "OK ACCEPTED id=".toList ++ printUnsigned id ++ " operation=".toList ++ operation ++
      " name=".toList ++ name
  | .enabled name => "OK ENABLED name=".toList ++ name
  | .disabled name => "OK DISABLED name=".toList ++ name
  | .enabledStatus name on =>
    "OK ENABLED_STATUS name=".toList ++ name ++ " enabled=".toList ++ printUnsigned on.toNat
  | .reloaded => "OK RELOADED".toList
  | .reset => "OK RESET_FAILED".toList
  | .error message => "ERR ".toList ++ oneLine message

def Response.asLine (r : Response) : Str := r.line ++ ['\n']

example : Request.parse "SHUTDOWN halt\n".toList = .ok (.shutdown .halt) := by decide

end FractalD.Control.Messages
