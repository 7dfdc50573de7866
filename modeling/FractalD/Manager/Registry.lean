import FractalD.Core.Graph
import FractalD.Supervisor.ServicePoll

namespace FractalD.Manager.Registry

open FractalD.Core.Graph FractalD.Core.Record FractalD.Core.Spec
open FractalD.Machine.CString FractalD.Machine.OrderedMap FractalD.Machine.Text
open FractalD.Supervisor FractalD.Supervisor.System
open FractalD.Supervisor.Service (ManagedService DynamicIdentity newWithDynamicIdentity)

/-- The start of a service together with all that it pulls in. -/
structure StartJob where
  root : Str
  selected : BTreeSet Str
  required : BTreeSet Str
  order : List Str
  conflicts : BTreeSet Str
  attempted : BTreeSet Str
  started : BTreeSet Str
  deadline : Option Instant
  timeoutAction : ManagerAction

structure Supervisor where
  services : BTreeMap Str ManagedService
  aliases : BTreeMap Str Str
  startJobs : List StartJob
  pendingManagerAction : Option ManagerAction
  progressingSocketActivation : Bool

/-- How an operation of the supervisor fails: with an error, or by activating
services that activate services until the stack is used up. -/
inductive Failure
  | stackOverflow
  | error (text : Str)
  deriving DecidableEq, Repr

abbrev Manage (ω : Type) := EStateM Failure (Supervisor × ω)

namespace Supervisor

def new : Supervisor := ⟨empty, empty, [], none, false⟩

variable (s : Supervisor)

def names : List Str := s.services.keys

def resolveName (name : Str) : Option Str :=
  let known (name : Str) : Option Str :=
    if s.services.contains name then some name else s.aliases.get name
  let stem := (removeSuffix svcSuffix name).getD name
  (known name).or <| (known stem).or <|
    s.names.find? fun candidate => removeSuffix svcSuffix candidate = some stem

def canonicalName (name : Str) : Str := (s.resolveName name).getD name

def find (name : Str) : Option ManagedService := (s.resolveName name).bind s.services.get

def specification (name : Str) : Option ServiceSpec := (s.find name).map (·.spec)

def snapshot (name : Str) : Option ServiceSnapshot := (s.find name).map (·.snapshot)

def snapshots : List ServiceSnapshot := s.services.values.map (·.snapshot)

def reloadState (name : Str) : Option Str := (s.find name).map (·.reloadState)

def isStopped : Bool := s.startJobs.isEmpty && s.services.values.all (·.isStopped)

def serviceIsStopped (name : Str) : Option Bool := (s.find name).map (·.isStopped)

/-- The states of the services, as they are remembered during an operation. -/
def states : BTreeMap Str ServiceState := s.services.map (·.record.state)

def record (name : Str) : Option ServiceRecord := (s.services.get name).map (·.record)

def state (name : Str) : Option ServiceState := (s.record name).map (·.state)

end Supervisor

def dynamicUserMin : Nat := 61184
def dynamicUserMax : Nat := 65519

def dynamicIdentityFromSpec (spec : ServiceSpec) : Option DynamicIdentity :=
  if spec.dynamicUser then do
    pure ⟨← spec.user.bind (parseUnsigned 32), ← spec.group.bind (parseUnsigned 32)⟩
  else none

def dynamicIdentities (s : Supervisor) : List DynamicIdentity :=
  s.services.values.filterMap fun service => dynamicIdentityFromSpec service.spec

def dynamicUserIds (s : Supervisor) : List Nat :=
  (dynamicIdentities s).flatMap fun identity => [identity.uid, identity.gid]

def dynamicIdentityFor (s : Supervisor) (name : Str) : Option DynamicIdentity :=
  (s.services.get name).bind fun service => dynamicIdentityFromSpec service.spec

def managerActionPriority : ManagerAction → Nat
  | .none => 0
  | .exit => 1
  | .halt | .haltForce => 2
  | .reboot | .rebootForce | .kexec | .kexecForce | .softReboot | .softRebootForce => 3
  | .poweroff | .poweroffForce => 4

/-- Ask for a manager action, which replaces a weaker one. -/
def requestManagerAction (action : ManagerAction) (s : Supervisor) : Supervisor :=
  if action = .none then s
  else if s.pendingManagerAction.all fun pending =>
      managerActionPriority pending < managerActionPriority action then
    { s with pendingManagerAction := some action }
  else s

section

variable {ω α : Type}

def fail (text : Str) : Manage ω α := throw (.error text)

def supervisor : Manage ω Supervisor := do return (← get).1

def look (f : ω → α) : Manage ω α := do return f (← get).2

def update (f : Supervisor → Supervisor) : Manage ω Unit := modify fun s => (f s.1, s.2)

def call (c : Call ω α) : Manage ω α := modifyGet fun s => ((c s.2).1, (s.1, (c s.2).2))

/-- Run an operation and look at its error. A stack overflow is no error. -/
def attempt (x : Manage ω α) : Manage ω (Except Str α) := fun s =>
  match x s with
  | .ok a t => .ok (.ok a) t
  | .error (.error e) t => .ok (.error e) t
  | .error .stackOverflow t => .error .stackOverflow t

def orFail (r : Except Str α) : Manage ω α :=
  match r with
  | .ok a => pure a
  | .error e => fail e

def onService (name : Str) (op : Service.Op ω α) : Manage ω α := fun s =>
  match s.1.services.get name with
  | none => .error (.error ("unknown service ".toList ++ name)) s
  | some service =>
    match op (service, s.2) with
    | .ok a t => .ok a ({ s.1 with services := s.1.services.insert name t.1 }, t.2)
    | .error e t =>
      .error (.error e) ({ s.1 with services := s.1.services.insert name t.1 }, t.2)

def ifService (name : Str) (op : Service.Op ω Unit) : Manage ω Unit := do
  if (← supervisor).services.contains name then onService name op

def serviceIs (name : Str) (p : ManagedService → ω → Bool) : Manage ω Bool := do
  let (s, w) ← get
  return (s.services.get name).any (p · w)

end

section

variable {ω : Type} (os : Os ω)

def allocateDynamicIdentity (w : ω) (name : Str) (reserved : List Nat) :
    Except Str DynamicIdentity :=
  let span := dynamicUserMax - dynamicUserMin + 1
  let candidate (offset : Nat) : Nat := dynamicUserMin + (os.nameHash name % span + offset) % span
  match (List.range span).find? fun offset =>
      candidate offset ∉ reserved ∧ !os.identityOccupied w (candidate offset) with
  | some offset => .ok ⟨candidate offset, candidate offset⟩
  | none =>
    .error ("dynamic user range ".toList ++ printUnsigned dynamicUserMin ++ "-".toList ++
      printUnsigned dynamicUserMax ++ " is exhausted".toList)

def definedTwice (name : Str) : Str :=
  "service ".toList ++ name ++ " is defined more than once".toList

/-- Register a service. -/
def add (spec : ServiceSpec) : Manage ω Unit := do
  let name := spec.name
  let aliases :=
    (ofList (spec.aliases.map fun a => (removeSuffix svcSuffix a).getD a)).keys.filter (· ≠ name)
  let s ← supervisor
  let identity ←
    if spec.dynamicUser then do
      let allocated ← look fun w => allocateDynamicIdentity os w name (dynamicUserIds s)
      some <$> orFail allocated
    else pure none
  let service ← orFail (newWithDynamicIdentity spec identity)
  let taken (name : Str) : Bool := s.services.contains name || s.aliases.contains name
  if taken name then fail (definedTwice name)
  if let some a := aliases.find? taken then
    fail ("service alias ".toList ++ a ++ " conflicts with an existing service".toList)
  update fun s => { s with
    services := s.services.insert name service
    aliases := aliases.foldl (·.insert · name) s.aliases }

def incomingServices (w : ω) (s : Supervisor) (specs : List ServiceSpec) :
    Except Str (BTreeMap Str ManagedService) := do
  let (incoming, _) ← specs.foldlM (fun (incoming, reserved) spec => do
    let identity ←
      if spec.dynamicUser then
        match dynamicIdentityFor s spec.name with
        | some identity => pure (some identity)
        | none => some <$> allocateDynamicIdentity os w spec.name reserved
      else pure none
    let service ← newWithDynamicIdentity spec identity
    if incoming.contains spec.name then throw (definedTwice spec.name)
    pure (incoming.insert spec.name service,
      reserved ++ (identity.map (·.uid)).toList)) (empty, dynamicUserIds s)
  pure incoming

def collectAliases (services : BTreeMap Str ManagedService) :
    Except Str (BTreeMap Str Str) := do
  let pairs := services.entries.flatMap fun (canonical, service) =>
    ((ofList service.spec.aliases).keys.filter (· ≠ canonical)).map (·, canonical)
  let aliases ← pairs.foldlM (fun aliases (a, canonical) =>
    match aliases.get a with
    | some previous =>
      if previous ≠ canonical then
        throw ("service alias ".toList ++ a ++ " refers to both ".toList ++ previous ++
          " and ".toList ++ canonical)
      else pure (aliases.insert a canonical)
    | none => pure (aliases.insert a canonical)) empty
  if let some canonical := services.keys.find? aliases.contains then
    throw ("service alias ".toList ++ canonical ++ " conflicts with a service name".toList)
  pure aliases

/-- Whether a service may be replaced by what a new configuration says of it. -/
def checkReplaced (incoming : BTreeMap Str ManagedService) (name : Str)
    (existing : ManagedService) : Except Str Unit :=
  match incoming.get name with
  | none =>
    if existing.isStopped then .ok ()
    else .error ("cannot remove active service ".toList ++ name ++ " during reload".toList)
  | some replacement =>
    if existing.spec ≠ replacement.spec ∧ !existing.isStopped then
      .error ("cannot change active service ".toList ++ name ++ " during reload".toList)
    else .ok ()

/-- Replace all services by those of a new configuration. Those that stay as
they are keep their state. -/
def reload (specs : List ServiceSpec) : Manage ω Unit := do
  let (s, w) ← get
  let incoming ← orFail (incomingServices os w s specs)
  let aliases ← orFail (collectAliases incoming)
  orFail (s.services.entries.forM fun (name, existing) => checkReplaced incoming name existing)
  let keep (name : Str) (replacement : ManagedService) : ManagedService :=
    match s.services.get name with
    | some existing => if existing.spec = replacement.spec then existing else replacement
    | none => replacement
  update ({ · with services := incoming.mapKeyed keep, aliases := aliases })

def graphOf (s : Supervisor) : Except GraphError DependencyGraph :=
  s.services.values.foldlM (fun g service => g.add service.spec) ⟨empty, os.directories⟩

def orFailGraph {α : Type} (describe : Str) (r : Except GraphError α) : Manage ω α :=
  orFail (r.mapError fun e => describe ++ e.display os.debug)

def graph : Manage ω DependencyGraph := do
  orFailGraph os "cannot build service graph: ".toList (graphOf os (← supervisor))

def reapUntrackedChildren : Manage ω Unit := do
  let managed := ofList ((← supervisor).services.values.flatMap (·.directChildPids))
  match ← call (os.reapUntrackedChildren managed.keys) with
  | .ok () => pure ()
  | .error e => fail ("cannot reap untracked child processes: ".toList ++ e)

def reloadService (name : Str) : Manage ω Unit := do
  onService ((← supervisor).canonicalName name) (Service.reload os)

def resetFailed (name : Str) : Manage ω Unit := do
  onService ((← supervisor).canonicalName name) (Service.resetFailed os)

def resetFailedAll : Manage ω Unit := do
  (← supervisor).names.forM fun name => do
    let _ ← attempt (onService name (Service.resetFailed os))

def takeManagerAction : Manage ω (Option ManagerAction) :=
  modifyGet fun (s, w) => (s.pendingManagerAction, ({ s with pendingManagerAction := none }, w))

end

end FractalD.Manager.Registry
