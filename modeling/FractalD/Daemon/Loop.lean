import FractalD.Daemon.Transactions
import FractalD.Machine.Effect

namespace FractalD.Daemon.Loop

open FractalD.Control.Messages FractalD.Core.Record FractalD.Core.Spec
open FractalD.Daemon.Transactions FractalD.Machine.CString FractalD.Machine.Effect
open FractalD.Machine.Text

inductive PowerAction
  | poweroff
  | reboot
  | halt
  deriving DecidableEq, Repr

def actionName : PowerAction → Str
  | .poweroff => "poweroff".toList
  | .reboot => "reboot".toList
  | .halt => "halt".toList

abbrev Op (σ : Type) := EStateM Str σ

/-- What the loop calls on: the supervisor, its journal and the directories of
the manager, in a common state. Each of them may do anything. -/
structure Manager (σ : Type) where
  pid : Nat
  reapUntrackedChildren : Op σ Unit
  poll : Op σ Unit
  takeManagerAction : σ → Option ManagerAction × σ
  stopAll : Op σ Unit
  isStopped : σ → Bool
  names : σ → List Str
  resolveName : σ → Str → Option Str
  snapshot : σ → Str → Option ServiceSnapshot
  reloadState : σ → Str → Option Str
  start : Str → Op σ Unit
  isolate : Str → Op σ Unit
  stop : Str → Op σ Unit
  restart : Str → Op σ Unit
  reloadService : Str → Op σ Unit
  resetFailed : Str → Op σ Unit
  resetFailedAll : σ → σ
  ensureServiceLoaded : Str → Op σ Str
  reloadNativeConfiguration : Op σ Unit
  enable : Str → Op σ Unit
  disable : Str → Op σ Unit
  isEnabled : Str → Op σ Bool
  observe : Op σ (List Str)
  eventsSince : σ → Nat → Except Str (List Str)
  powerAction : PowerAction → Op σ Unit
  debug : Str → Str

/-- The stream of a client. A write fails once the client is gone. -/
structure Stream where
  breaks : Nat → Option Str
  sent : List Str

def Response.writeTo (response : Response) (s : Stream) : Except Str Stream :=
  match s.breaks s.sent.length with
  | some e => .error e
  | none => .ok { s with sent := s.sent ++ [response.asLine] }

def writeEvents (events : List Str) (s : Stream) : Except Str Stream :=
  events.foldlM (fun s line => Response.writeTo (.event line) s) s

/-- A connection: what reading its request gives, and how its socket answers. -/
structure Connection where
  incoming : Except Str Str
  breaks : Nat → Option Str
  setWriteTimeout : Except Str Unit
  setNonblocking : Except Str Unit

def Connection.stream (c : Connection) : Stream := ⟨c.breaks, []⟩

inductive Accept
  | wouldBlock
  | failed (error : Str)
  | connection (c : Connection)

/-- What one turn of the loop meets: the flag of the signal handler, the answer
of the listener, the clock and the pid file. -/
structure Turn where
  shutdownRequested : Bool
  accept : Accept
  uptimeMs : Nat
  drainRounds : Nat
  pidExists : Bool

structure State (σ : Type) where
  system : σ
  ledger : Ledger
  subscriptions : List Stream

/-- Why the loop returns. -/
inductive Cause
  | signal
  | managerAction
  | shutdown
  | supervision
  | journal
  | accept
  | pidFile
  | reply
  | subscription
  deriving DecidableEq, Repr

def Cause.Permitted (cause : Cause) : Prop := cause ≠ .reply ∧ cause ≠ .subscription

instance : DecidablePred Cause.Permitted := fun cause =>
  inferInstanceAs (Decidable (cause ≠ .reply ∧ cause ≠ .subscription))

structure Exit where
  cause : Cause
  result : Except Str Unit

abbrev Run (σ : Type) := EStateM Exit (State σ)

section

variable {σ α : Type}

def return' (cause : Cause) (result : Except Str Unit) : Run σ α := throw ⟨cause, result⟩

/-- Run an operation; its failure ends the loop. -/
def orReturn (cause : Cause) (describe : Str) (op : Op σ α) : Run σ α := fun d =>
  match op d.system with
  | .ok a s => .ok a { d with system := s }
  | .error e s => .error ⟨cause, .error (describe ++ e)⟩ { d with system := s }

/-- Run an operation; its failure goes to the client. -/
def attempt (op : Op σ α) : Run σ (Except Str α) := fun d =>
  match op d.system with
  | .ok a s => .ok (.ok a) { d with system := s }
  | .error e s => .ok (.error e) { d with system := s }

def describing (describe : Str) (op : Op σ α) : Op σ α := fun s =>
  match op s with
  | .ok a t => .ok a t
  | .error e t => .error (describe ++ e) t

end

section

variable {σ : Type} (m : Manager σ)

/-- Poll the services that are being stopped. -/
def drain : Op σ Unit := do
  describing "service shutdown failed: ".toList m.poll
  modify fun s => (m.takeManagerAction s).2
  if m.pid = 1 then
    describing "PID1 child reaping failed during shutdown: ".toList m.reapUntrackedChildren
  let _ ← m.observe

/-- The deadline has passed after the given number of polls and one more. -/
def waitForShutdown : Nat → Op σ Unit
  | 0 => do
    unless m.isStopped (← get) do
      drain m
      throw "services did not stop within 10 seconds".toList
  | rounds + 1 => do
    unless m.isStopped (← get) do
      drain m
      waitForShutdown rounds

def performPowerAction (action : PowerAction) : Op σ Unit :=
  describing ("cannot perform ".toList ++ actionName action ++ ": ".toList) (m.powerAction action)

def performShutdownAction : ShutdownAction → Op σ Unit
  | .stop => pure ()
  | .poweroff => performPowerAction m .poweroff
  | .reboot => performPowerAction m .reboot
  | .halt => performPowerAction m .halt

def performManagerAction : ManagerAction → Op σ Unit
  | .none | .exit => pure ()
  | .poweroff | .poweroffForce => performPowerAction m .poweroff
  | .reboot | .rebootForce | .kexec | .kexecForce | .softReboot | .softRebootForce =>
    performPowerAction m .reboot
  | .halt | .haltForce => performPowerAction m .halt

def broadcastEvents (events : List Str) (subscriptions : List Stream) : List Stream :=
  subscriptions.filterMap fun s => (writeEvents events s).toOption

/-- Record the changes of the services and pass them on. -/
def publish (cause : Cause) : Run σ Unit := do
  let events ← orReturn cause [] m.observe
  modify fun d => { d with subscriptions := broadcastEvents events d.subscriptions }

def outcome (s : σ) (name : Str) : Outcome := ⟨m.snapshot s name, m.reloadState s name⟩

/-- Stop the services, wait until they have and return. -/
def shutDown (cause : Cause) (t : Turn) (after : Op σ Unit) : Run σ Unit := do
  publish m cause
  orReturn cause [] (waitForShutdown m t.drainRounds)
  orReturn cause [] after
  return' cause (.ok ())

def reapChildren : Run σ Unit :=
  if m.pid = 1 then
    orReturn .supervision "PID1 child reaping failed: ".toList m.reapUntrackedChildren
  else pure ()

def obeySignal (t : Turn) : Run σ Unit :=
  if t.shutdownRequested then do
    orReturn .signal "cannot begin signal-driven shutdown: ".toList m.stopAll
    shutDown m .signal t (pure ())
  else pure ()

def takeManagerAction : Run σ (Option ManagerAction) := fun d =>
  .ok (m.takeManagerAction d.system).1 { d with system := (m.takeManagerAction d.system).2 }

def obeyManagerAction (t : Turn) (action : ManagerAction) : Run σ Unit :=
  if m.pid = 1 ∨ action = .exit then do
    orReturn .managerAction "cannot begin manager action shutdown: ".toList m.stopAll
    shutDown m .managerAction t (if m.pid = 1 then performManagerAction m action else pure ())
  else pure ()

def refreshLedger : Run σ Unit :=
  modify fun d => { d with
    ledger := { d.ledger with table := refreshTransactions (outcome m d.system) d.ledger.table } }

/-- The part of a turn before the listener is asked. -/
def attend (t : Turn) : Run σ Unit := do
  reapChildren m
  obeySignal m t
  orReturn .supervision "service supervision failed: ".toList m.poll
  let action ← takeManagerAction m
  action.forM (obeyManagerAction m t)
  refreshLedger m
  publish m .journal

def readRequest (c : Connection) : Except Str Request :=
  match c.incoming with
  | .error e => .error ("cannot read control request: ".toList ++ e)
  | .ok input =>
    if utf8Length input > 4096 then .error "control request is too large".toList
    else (Request.parse input).mapError (·.display m.debug)

/-- The recorded events that a new subscriber asks for. -/
def backlog (s : σ) (since : Option Nat) : Except Str (List Str) :=
  (since.map (m.eventsSince s)).getD (.ok [])

def cannotConfigure (e : Str) : Except Str Unit :=
  .error ("cannot configure event subscription: ".toList ++ e)

def openEventSubscription (c : Connection) (since : Option Nat) : Run σ (Option Stream) := do
  match backlog m (← get).system since with
  | .error e => return' .journal (.error e)
  | .ok events =>
    match c.setWriteTimeout with
    | .error e => return' .subscription (cannotConfigure e)
    | .ok () =>
      match Response.writeTo .subscribed c.stream >>= writeEvents events with
      | .error _ => pure none
      | .ok stream =>
        match c.setNonblocking with
        | .error e => return' .subscription (cannotConfigure e)
        | .ok () => pure (some stream)

def canonicalServiceName (name : Str) : Run σ Str := do
  pure ((m.resolveName (← get).system name).getD name)

def failure (describe : Str) (e : Str) : Response := .error (describe ++ e)

/-- The response to a request for all services to stop, and whether they do. -/
def beginShutdown : Run σ (Response × Bool) := do
  match ← attempt m.stopAll with
  | .ok () => pure (.stopping, true)
  | .error e => pure (.error e, false)

def answer (describe : Str) (op : Op σ Response) : Run σ (Response × Bool) := do
  match ← attempt op with
  | .ok response => pure (response, false)
  | .error e => pure (failure describe e, false)

/-- A request that starts a transaction on a service. -/
def transact (operation name : Str) (op : Str → Op σ Unit) : Run σ (Response × Bool) := do
  let loaded : Op σ Str := do
    let name ← m.ensureServiceLoaded name
    op name
    pure name
  match ← attempt loaded with
  | .error e => pure (.error e, false)
  | .ok name =>
    modifyGet fun d =>
      let (response, ledger) := acceptedTransaction d.ledger operation name
      ((response, false), { d with ledger := ledger })

def stateName : ServiceState → Str
  | .defined => "defined".toList
  | .starting => "starting".toList
  | .running => "running".toList
  | .active => "active".toList
  | .stopping => "stopping".toList
  | .backoff => "backoff".toList
  | .exited => "exited".toList
  | .skipped => "skipped".toList
  | .failed => "failed".toList

def serviceResponse (s : ServiceSnapshot) : Response :=
  .service ⟨s.name, stateName s.state, s.pid, s.generation, s.restartCount⟩

def serviceStatus (name : Str) : Op σ Response := do
  let name ← m.ensureServiceLoaded name
  match m.snapshot (← get) name with
  | some s => pure (serviceResponse s)
  | none => throw ("unknown service ".toList ++ name)

/-- The response to a request, and whether the services are being stopped for it. -/
def respond (t : Turn) : Except Str Request → Run σ (Response × Bool)
  | .ok .status => pure (.status m.pid t.uptimeMs, false)
  | .ok .ping => pure (.pong, false)
  | .ok .stop => beginShutdown m
  | .ok (.shutdown action) =>
    if action ≠ .stop ∧ m.pid ≠ 1 then
      pure (.error (action.asStr ++ " requires FractalD to be running as PID 1".toList), false)
    else beginShutdown m
  | .ok .list => do pure (.services (m.names (← get).system), false)
  | .ok (.enableService name) => do
    let name ← canonicalServiceName m name
    answer "cannot enable service: ".toList ((fun _ => .enabled name) <$> m.enable name)
  | .ok (.disableService name) => do
    let name ← canonicalServiceName m name
    answer "cannot disable service: ".toList ((fun _ => .disabled name) <$> m.disable name)
  | .ok (.isEnabled name) => do
    let name ← canonicalServiceName m name
    answer "cannot inspect enabled state: ".toList (.enabledStatus name <$> m.isEnabled name)
  | .ok (.serviceStatus name) => answer [] (serviceStatus m name)
  | .ok (.transactionStatus id) => do
    pure (transactionResponse (← get).ledger.table id, false)
  | .ok (.startService name) => transact m "start".toList name m.start
  | .ok (.isolateService name) => transact m "isolate".toList name m.isolate
  | .ok (.stopService name) => transact m "stop".toList name m.stop
  | .ok (.restartService name) => transact m "restart".toList name m.restart
  | .ok (.reloadService name) => transact m "reload".toList name m.reloadService
  | .ok (.resetFailed (some name)) => do
    let name ← canonicalServiceName m name
    answer "cannot reset failed state: ".toList ((fun _ => .reset) <$> m.resetFailed name)
  | .ok (.resetFailed none) => do
    modify fun d => { d with system := m.resetFailedAll d.system }
    pure (.reset, false)
  | .ok .reload => answer [] ((fun _ => .reloaded) <$> m.reloadNativeConfiguration)
  | .ok (.subscribe _) => pure (.error "event subscription could not be registered".toList, false)
  | .error e => pure (.error e, false)

/-- The way of the machine that a request asks for once the services are stopped. -/
def requestedShutdown : Except Str Request → Option ShutdownAction
  | .ok .stop => some .stop
  | .ok (.shutdown action) => some action
  | _ => none

/-- Answer a request. -/
def reply (t : Turn) (c : Connection) (request : Except Str Request) : Run σ Unit := do
  let (response, shutdown) ← respond m t request
  match Response.writeTo response c.stream with
  | .error e => return' .reply (.error ("cannot write control response: ".toList ++ e))
  | .ok _ =>
    if shutdown then
      shutDown m .shutdown t ((requestedShutdown request).forM (performShutdownAction m))
    else pure ()

def checkPidFile (t : Turn) : Run σ Unit :=
  if t.pidExists then pure ()
  else return' .pidFile (.error "pid file disappeared while daemon was running".toList)

/-- The rest of a turn. A new subscriber takes it to the next turn at once. -/
def serve (t : Turn) : Run σ Unit :=
  match t.accept with
  | .wouldBlock => checkPidFile t
  | .failed e => return' .accept (.error ("control socket accept failed: ".toList ++ e))
  | .connection c =>
    match readRequest m c with
    | .ok (.subscribe since) => do
      let subscription ← openEventSubscription m c since
      modify fun d => { d with subscriptions := d.subscriptions ++ subscription.toList }
    | request => do
      reply m t c request
      checkPidFile t

def turn (t : Turn) : Run σ Unit := do
  attend m t
  serve m t

def daemonLoop : List Turn → Run σ Unit
  | [] => pure ()
  | t :: turns => do
    turn m t
    daemonLoop turns

end

end FractalD.Daemon.Loop
