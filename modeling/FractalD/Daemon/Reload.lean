import FractalD.Manager.Runs

namespace FractalD.Daemon.Reload

open FractalD.Core.Spec FractalD.Machine.CString FractalD.Machine.OrderedMap
open FractalD.Machine.Text FractalD.Manager.Jobs FractalD.Manager.Registry
open FractalD.Supervisor.System

/-- Where the daemon reads its configuration from. -/
structure Sources (ω : Type) where
  loadAllServiceSpecs : Call ω (Except Str (List ServiceSpec))
  loadNamedServiceSpec : Str → Call ω (Except Str (Option ServiceSpec))
  isMasked : Str → Call ω (Except Str Bool)
  enabledNames : Call ω (Except Str (List Str))
  configuredBootProfile : Call ω (Option Str)
  pid1 : Bool
  sleep : Call ω Unit

section

variable {ω α : Type}

/-- Say what failed. -/
def describing (describe : Str) (x : Manage ω α) : Manage ω α := fun s =>
  match x s with
  | .ok a t => .ok a t
  | .error (.error e) t => .error (.error (describe ++ e)) t
  | .error .stackOverflow t => .error .stackOverflow t

def nativeServiceName (name : Str) : Str := (removeSuffix svcSuffix name).getD name

def dependencyNames (spec : ServiceSpec) : List Str :=
  let d := spec.dependencies
  (ofList (d.requires ++ d.wants ++ d.after ++ d.before ++ d.conflicts ++ d.partOf ++ d.bindsTo ++
    d.requisite ++ d.onSuccess ++ d.onFailure)).keys

def triggerTarget (spec : ServiceSpec) : Option Str :=
  spec.trigger.map fun
    | .timer service _ _ _ _ _ _ _ => service
    | .path service _ => service

end

section

variable {ω : Type} (os : Os ω) (src : Sources ω)

/-- The descriptor of a service, loaded or not, under the name it has. -/
def requestedSpec (requested : Str) : Manage ω (Str × ServiceSpec) := do
  let s ← supervisor
  match s.resolveName requested with
  | some name =>
    match s.specification name with
    | some spec => pure (name, spec)
    | none => fail ("unknown service ".toList ++ name)
  | none =>
    match ← orFail (← call (src.loadNamedServiceSpec requested)) with
    | some spec => pure (spec.name, spec)
    | none => fail ("unknown service ".toList ++ requested)

/-- Load a service that is not known, if there is a descriptor for it. -/
def loadMissing (load : BTreeSet Str → Str → Manage ω (Str × BTreeSet Str))
    (loading : BTreeSet Str) (dependency : Str) : Manage ω (BTreeSet Str) := do
  let dependency := nativeServiceName dependency
  if ((← supervisor).resolveName dependency).isSome then pure loading
  else
    match ← orFail (← call (src.loadNamedServiceSpec dependency)) with
    | some _ => Prod.snd <$> load loading dependency
    | none => pure loading

/-- Load a service and what it refers to. The number bounds how deep services can
refer to services. -/
def ensureServiceLoadedInner : Nat → BTreeSet Str → Str → Manage ω (Str × BTreeSet Str)
  | 0, _, _ => throw .stackOverflow
  | depth + 1, loading, requested => do
    let (name, spec) ← requestedSpec src requested
    if loading.contains name then pure (name, loading)
    else
      if ((← supervisor).resolveName name).isNone then
        describing ("cannot load service ".toList ++ name ++ ": ".toList) (add os spec)
      let names := dependencyNames spec ++ (triggerTarget spec).toList
      let loading ← names.foldlM (loadMissing src (ensureServiceLoadedInner depth))
        (loading.add name)
      pure (name, loading)

def ensureServiceLoaded (depth : Nat) (requested : Str) : Manage ω Str := do
  let requested := (← supervisor).canonicalName (nativeServiceName requested)
  let masked ← describing ("cannot inspect masked state for ".toList ++ requested ++ ": ".toList) do
    orFail (← call (src.isMasked requested))
  if masked then fail ("service ".toList ++ requested ++ " is masked".toList)
  Prod.fst <$> ensureServiceLoadedInner os src depth empty requested

variable (depth : Nat)

def startStorageProfile : Manage ω Unit := do
  match (← supervisor).resolveName "storage".toList with
  | some name => do let _ ← attempt (start os depth name)
  | none => pure ()

def startBootProfile : Manage ω (Option Str) := do
  let configured ← call src.configuredBootProfile
  match configured.or (if src.pid1 then some "boot".toList else none) with
  | none => pure none
  | some profile =>
    match ← attempt (ensureServiceLoaded os src depth profile) with
    | .error _ => pure (some profile)
    | .ok name => do
      let _ ← attempt (start os depth name)
      pure (some profile)

def startProfileServices (profile : Str) : Manage ω Unit := do
  let s ← supervisor
  let names := s.names.filter fun name =>
    (s.specification name).any fun spec => profile ∈ spec.profiles
  names.forM fun name => do let _ ← attempt (start os depth name)

def startEnabled : Manage ω Unit := do
  let names ← describing "cannot read enabled services: ".toList do
    orFail (← call src.enabledNames)
  (ofList names).keys.forM fun requestedName => do
    match ← attempt (ensureServiceLoaded os src depth requestedName) with
    | .error _ => pure ()
    | .ok name => do let _ ← attempt (start os depth name)

def startConfigured : Manage ω Unit := do
  startStorageProfile os depth
  let bootProfile ← startBootProfile os src depth
  bootProfile.forM (startProfileServices os depth)
  startEnabled os src depth

/-- Poll until services have stopped, or for ten seconds. The number bounds how often;
with too few turns the wait does not end. -/
def waitTurns (names : List Str) (deadline : Instant) : Nat → Manage ω Unit
  | 0 => throw .stackOverflow
  | turns + 1 => do
    let s ← supervisor
    if names.any fun name => s.serviceIsStopped name = some false then
      describing "service stop during reload failed: ".toList (poll os depth)
      if deadline ≤ (← call os.now) then
        fail "services did not stop within 10 seconds for reload".toList
      call src.sleep
      waitTurns names deadline turns

def waitForReconfigure (turns : Nat) (names : List Str) : Manage ω Unit := do
  let deadline := (← call os.now) + seconds 10
  waitTurns os src depth names deadline turns

/-- The descriptors by name. A later one replaces an earlier one of the same name. -/
def incomingSpecs (specs : List ServiceSpec) : BTreeMap Str ServiceSpec :=
  specs.foldl (fun incoming spec => incoming.insert spec.name spec) empty

/-- The descriptor of a service is another one than before, or gone. -/
def changed (specs : List ServiceSpec) (s : Supervisor) (name : Str) : Bool :=
  match (incomingSpecs specs).get name with
  | some next => (s.specification name).any (next ≠ ·)
  | none => true

def stoppingFor (specs : List ServiceSpec) (s : Supervisor) : List Str :=
  s.names.filter fun name => changed specs s name && s.serviceIsStopped name = some false

/-- Those of them that are started again. -/
def restartFor (specs : List ServiceSpec) (s : Supervisor) : List Str :=
  (stoppingFor specs s).filter (incomingSpecs specs).contains

def stopChanged (name : Str) : Manage ω Unit :=
  describing ("cannot stop ".toList ++ name ++ " for reload: ".toList)
    (stopForReconfigure os name)

def restartReloaded (name : Str) : Manage ω Unit := do
  match (← supervisor).resolveName name with
  | none => pure ()
  | some name =>
    describing ("cannot restart reloaded service ".toList ++ name ++ ": ".toList)
      (start os depth name)

def reloadNativeConfiguration (turns : Nat) : Manage ω Unit := do
  let specs ← orFail (← call src.loadAllServiceSpecs)
  let s ← supervisor
  let stopping := stoppingFor specs s
  stopping.forM (stopChanged os)
  waitForReconfigure os src depth turns stopping
  describing "cannot reload native services: ".toList (reload os specs)
  startConfigured os src depth
  (restartFor specs s).forM (restartReloaded os depth)

end

end FractalD.Daemon.Reload
