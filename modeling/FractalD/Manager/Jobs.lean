import FractalD.Manager.Registry

namespace FractalD.Manager.Jobs

open FractalD.Core.Graph FractalD.Core.Record FractalD.Core.Spec FractalD.Machine.CString
open FractalD.Machine.OrderedMap FractalD.Manager.Registry FractalD.Supervisor
open FractalD.Supervisor.System
open FractalD.Supervisor.Service (ManagedService)

def serviceWasUp : ServiceState → Bool
  | .starting | .running | .active => true
  | .defined | .stopping | .backoff | .exited | .skipped | .failed => false

def serviceIsDown (state : ServiceState) : Bool := !serviceWasUp state

def startable (s : Supervisor) (name : Str) : Bool := (s.state name).any ManagedService.isDown

def serviceIsReadyWithoutStart (s : Supervisor) (name : Str) : Bool :=
  (s.services.get name).any fun service =>
    service.record.state ∈ [.active, .exited, .skipped] || service.readyForDependency

def serviceStartComplete (s : Supervisor) (name : Str) : Bool :=
  (s.services.get name).any fun service =>
    match service.record.state with
    | .running => service.readyForDependency
    | .active | .exited | .skipped | .failed => true
    | .defined | .starting | .stopping | .backoff => false

def checkRequisites (s : Supervisor) (name : Str) : Except Str Unit :=
  match s.services.get name with
  | none => .error ("cannot check requisites for unknown service ".toList ++ name)
  | some service =>
    (ofList service.spec.dependencies.requisite).keys.forM fun requisite =>
      match s.resolveName requisite with
      | none =>
        .error ("requisite ".toList ++ requisite ++ " for ".toList ++ name ++
          " is unavailable".toList)
      | some requisiteName =>
        match s.services.get requisiteName with
        | none =>
          .error ("requisite ".toList ++ requisiteName ++ " for ".toList ++ name ++
            " is unavailable".toList)
        | some requisiteService =>
          if requisiteService.record.state ∈ [.active, .exited] ∨
              requisiteService.readyForDependency then .ok ()
          else
            .error ("requisite ".toList ++ requisiteName ++ " for ".toList ++ name ++
              " is not active".toList)

/-- The services that are to stop with a service. -/
def dependentNames (s : Supervisor) (source : Str) (includePartOf : Bool) : List Str :=
  let refers (l : List Str) : Bool := l.any fun dependency => s.resolveName dependency = some source
  (s.services.filterKeys fun name service =>
    name ≠ source &&
      (refers service.spec.dependencies.bindsTo ||
        includePartOf && refers service.spec.dependencies.partOf)).keys

def hasActiveDependent (s : Supervisor) (g : DependencyGraph) (source : Str) : Bool :=
  let refers (l : List Str) : Bool := l.any fun dependency => s.resolveName dependency = some source
  s.services.entries.any fun (name, service) =>
    name ≠ source && serviceWasUp service.record.state &&
      (refers ((g.requiredDependencies name).keys ++ service.spec.dependencies.wants) ||
        service.spec.serviceType = .socket && refers service.spec.socketService.toList)

def unneeded (s : Supervisor) (g : DependencyGraph) : List Str :=
  (s.services.filterKeys fun name service =>
    service.spec.stopWhenUnneeded && serviceWasUp service.record.state &&
      !hasActiveDependent s g name).keys

def wentDown (s : Supervisor) (before : BTreeMap Str ServiceState) : List (Str × Bool) :=
  before.entries.filterMap fun (source, previous) => do
    let service ← s.services.get source
    guard (serviceWasUp previous && serviceIsDown service.record.state)
    pure (source, !service.wantsRunning)

def newlyFailed (s : Supervisor) (before : BTreeMap Str ServiceState) :
    List (ManagerAction × List Str) :=
  before.entries.filterMap fun (source, previous) => do
    let service ← s.services.get source
    guard (previous ≠ .failed ∧ service.record.state = .failed)
    pure (service.spec.failureAction, service.spec.dependencies.onFailure)

def newlySucceeded (s : Supervisor) (before : BTreeMap Str ServiceState) :
    List (ManagerAction × List Str) :=
  before.entries.filterMap fun (source, previous) => do
    let service ← s.services.get source
    let exit := service.record.lastExit
    guard (previous ∉ [.active, .exited] ∧ service.record.state ∈ [.active, .exited] ∧
      exit.all (·.isSuccess))
    pure (if exit.any (·.isSuccess) then service.spec.successAction else .none,
      service.spec.dependencies.onSuccess)

/-- A socket that can activate its service. -/
structure Activation where
  socket : Str
  target : Option Str
  accept : Bool
  fdName : Str
  fds : List Nat
  deriving DecidableEq, Repr

def activations (s : Supervisor) : List Activation :=
  s.services.values.filterMap fun socket => do
    guard (socket.spec.serviceType = .socket ∧ socket.record.state = .active ∧
      socket.listeners ≠ [])
    let spec := socket.spec
    let standard := if spec.socketAccept then "connection".toList else spec.name
    pure ⟨spec.name, spec.socketService, spec.socketAccept,
      spec.fileDescriptorName.getD standard, socket.listenerFds⟩

/-- The descriptors for a service, their names and the sockets they come from. -/
abbrev Ordinary := BTreeMap Str (List Nat × List Str × List Str)

section

variable {ω : Type} (os : Os ω)

def skippedMountIsAvailable (w : ω) (spec : ServiceSpec) : Bool :=
  spec.conditions.any fun
    | .pathIsMountPoint path true => os.pathIsMountPoint w (os.expandSpecifiers w spec path)
    | .pathIsMountPoint _ false | .other _ => false

def requiredDependencyIsUnavailable (s : Supervisor) (w : ω) (name : Str) : Bool :=
  match s.services.get name with
  | none => true
  | some service =>
    match service.record.state with
    | .failed => true
    | .skipped => !skippedMountIsAvailable os w service.spec
    | .defined | .starting | .running | .active | .stopping | .backoff | .exited => false

def requiredDependencyFailed (s : Supervisor) (w : ω) (job : StartJob) : Bool :=
  job.required.keys.any fun name =>
    job.attempted.contains name && requiredDependencyIsUnavailable os s w name

def startDependenciesReady (s : Supervisor) (w : ω) (name : Str) (job : StartJob) : Bool :=
  (s.services.get name).any fun service =>
    let required :=
      match graphOf os s with
      | .ok g => (g.requiredDependencies name).keys
      | .error _ => service.spec.dependencies.requires
    let required := required.filter job.selected.contains
    let after := service.spec.dependencies.after.filter job.selected.contains
    let before := job.selected.keys.filter fun other =>
      (s.services.get other).any fun other => other.spec.dependencies.before.contains name
    (required ++ after ++ before).all fun dependency =>
      !(required.contains dependency && requiredDependencyIsUnavailable os s w dependency) &&
        (serviceIsReadyWithoutStart s dependency ||
          job.attempted.contains dependency && serviceStartComplete s dependency)

def conflictsFor (s : Supervisor) (g : DependencyGraph) (selected : BTreeSet Str) :
    Except Str (BTreeSet Str) :=
  let conflicts := ofList <| s.names.flatMap fun candidate =>
    ((g.conflictDependencies candidate).keys.filterMap s.resolveName).filterMap fun dependency =>
      if selected.contains candidate then some dependency
      else if selected.contains dependency then some candidate
      else none
  if conflicts.keys.any selected.contains then
    .error "start transaction contains mutually conflicting services".toList
  else .ok conflicts

def refreshLostMount (name : Str) : Manage ω Unit := do
  if ← serviceIs name (Service.mountIsLost os) then
    onService name (Service.markLost os "cannot record lost mount ")
  else if ← serviceIs name (Service.deviceIsLost os) then
    onService name (Service.markLost os "cannot record lost device ")

def rollbackStartJob (job : StartJob) (now : Instant) : Manage ω Unit :=
  (job.order.reverse.filter job.started.contains).forM fun name => do
    let _ ← attempt (onService name (Service.stop os now))

/-- Drop the jobs that do not satisfy a predicate. -/
def keepStartJobs (keep : StartJob → Bool) : Manage ω Unit := do
  let jobs := (← supervisor).startJobs
  update ({ · with startJobs := [] })
  let now ← call os.now
  (jobs.filter fun job => !keep job).forM fun job => rollbackStartJob os job now
  update ({ · with startJobs := jobs.filter keep })

def cancelStartJobs (name : Str) : Manage ω Unit :=
  keepStartJobs os fun job => job.root ≠ name && !job.selected.contains name

def cancelIsolationJobs (keep : BTreeSet Str) : Manage ω Unit :=
  keepStartJobs os fun job => job.selected.keys.all keep.contains

def stopDependent (now : Instant) (dependent : Str) : Manage ω Unit := do
  cancelStartJobs os dependent
  onService dependent (Service.stop os now)

def stopDependents (source : Str) (includePartOf : Bool) (now : Instant) : Manage ω Unit := do
  (dependentNames (← supervisor) source includePartOf).forM (stopDependent os now)

def timeoutStartJob (job : StartJob) (now : Instant) : Manage ω Unit := do
  onService job.root (Service.markJobTimeout os now)
  rollbackStartJob os job now
  update (requestManagerAction job.timeoutAction)

/-- A member of a job whose start failed, and the record this left. -/
structure Refusal where
  name : Str
  record : Option ServiceRecord
  deriving DecidableEq, Repr

/-- What has been done of a job: its own fields, whether a member was attempted
in this pass, and the failures that the job goes on without. -/
structure Pass where
  job : StartJob
  progressed : Bool
  refused : List Refusal

def startMember (now : Instant) (p : Pass) (name : Str) : Manage ω Pass := do
  let (s, w) ← get
  let attempted := { p.job with attempted := p.job.attempted.add name }
  if p.job.attempted.contains name then pure p
  else if name ≠ p.job.root ∧ serviceIsReadyWithoutStart s name then
    pure { p with job := attempted, progressed := true }
  else if !startDependenciesReady os s w name p.job then pure p
  else
    match ← attempt (onService name (Service.start os now)) with
    | .ok () =>
      pure { p with
        job := { attempted with started := attempted.started.add name }, progressed := true }
    | .error e =>
      if attempted.required.contains name then do
        rollbackStartJob os attempted now
        fail e
      else do
        let record := (← supervisor).record name
        pure ⟨attempted, true, p.refused ++ [⟨name, record⟩]⟩

/-- The result of `progress_start_job`: whether the job is still pending, what
it has become, and the failures it went on without, which the source drops. -/
structure Progress where
  pending : Bool
  job : StartJob
  refused : List Refusal

def Progress.kept (p : Progress) : List StartJob := if p.pending then [p.job] else []

def jobComplete (s : Supervisor) (job : StartJob) : Bool :=
  job.selected.keys.all fun name => job.attempted.contains name && serviceStartComplete s name

/-- Go through the members until a pass attempts none of them. A pass that is
followed by another one attempts a member, so that one pass more than there are
members is enough. -/
def progressMembers (now : Instant) : Nat → Pass → Manage ω Progress
  | 0, p => pure ⟨true, p.job, p.refused⟩
  | passes + 1, p => do
    let p ← p.job.selected.keys.foldlM (startMember os now) { p with progressed := false }
    let (s, w) ← get
    if requiredDependencyFailed os s w p.job then
      rollbackStartJob os p.job now
      pure ⟨false, p.job, p.refused⟩
    else if p.progressed then progressMembers now passes p
    else pure ⟨!jobComplete s p.job, p.job, p.refused⟩

def progressStartJob (now : Instant) (job : StartJob) : Manage ω Progress := do
  let s ← supervisor
  if !jobComplete s job ∧ due now job.deadline then
    timeoutStartJob os job now
    pure ⟨false, job, []⟩
  else if job.conflicts.keys.any fun name =>
      (s.services.get name).any fun service => !service.isStopped then
    pure ⟨true, job, []⟩
  else progressMembers os now (job.selected.keys.length + 1) ⟨job, false, []⟩

def progressEach (now : Instant) : List StartJob → Manage ω (List StartJob)
  | [] => pure []
  | job :: jobs => do
    let kept ← Progress.kept <$> progressStartJob os now job
    let pending ← progressEach now jobs
    pure (kept ++ pending)

end

section

variable {ω : Type} (os : Os ω) (activate : Str → Manage ω Unit)

/-- Start a service for a socket. If that fails it loses the descriptors. -/
def activateTarget (target : Str) : Manage ω Unit := do
  match ← attempt (activate target) with
  | .ok () => pure ()
  | .error _ => ifService target (Service.clearActivationFds os)

def progressSocket (ordinary : Ordinary) (a : Activation) : Manage ω Ordinary := do
  let s ← supervisor
  match (a.target.bind s.resolveName).filter (startable s) with
  | none => pure ordinary
  | some target =>
    if a.accept then
      match (s.services.get a.socket).bind (·.listeners.head?) with
      | none => pure ordinary
      | some listener =>
        match ← call (os.acceptConnection listener) with
        | .error e =>
          fail ("cannot accept a connection from ".toList ++ a.socket ++ ": ".toList ++ e)
        | .ok none => pure ordinary
        | .ok (some fd) => do
          ifService target (Service.setActivationConnection os fd)
          activateTarget os activate target
          pure ordinary
    else
      let (fds, fdNames, sockets) := (ordinary.get target).getD ([], [], [])
      pure (ordinary.insert target
        (fds ++ a.fds, fdNames ++ a.fds.map fun _ => a.fdName, sockets ++ [a.socket]))

def activateOrdinary (target : Str) (fds : List Nat) (fdNames : List Str) : Manage ω Unit := do
  ifService target (Service.setActivationFds os fds fdNames)
  activateTarget os activate target

def progressSocketActivationInner : Manage ω Unit := do
  let ordinary ← (activations (← supervisor)).foldlM (progressSocket os activate) empty
  ordinary.entries.forM fun (target, fds, fdNames, _) => activateOrdinary os activate target fds fdNames

/-- Activate services for their sockets, unless this is being done. -/
def progressSocketActivation : Manage ω Unit := do
  unless (← supervisor).progressingSocketActivation do
    update ({ · with progressingSocketActivation := true })
    let result ← attempt (progressSocketActivationInner os activate)
    update ({ · with progressingSocketActivation := false })
    orFail result

/-- The services that timers and path units start now. -/
def dueTargets (now : Instant) : List Str → Manage ω (List Str)
  | [] => pure []
  | name :: names => do
    let target ← onService name (Service.triggerDue os now)
    return target.toList ++ (← dueTargets now names)

def progressTriggerActivation (now : Instant) : Manage ω Unit := do
  let targets ← dueTargets os now (← supervisor).names
  targets.forM fun target => do
    let s ← supervisor
    match (s.resolveName target).filter (startable s) with
    | none => pure ()
    | some name => do let _ ← attempt (activate name)

def progressStartJobs (now : Instant) : Manage ω Unit := do
  let jobs := (← supervisor).startJobs
  update ({ · with startJobs := [] })
  let pending ← progressEach os now jobs
  update ({ · with startJobs := pending })
  progressSocketActivation os activate
  progressTriggerActivation os activate now

def propagateBindings (before : BTreeMap Str ServiceState) (now : Instant) : Manage ω Unit := do
  (wentDown (← supervisor) before).forM fun (source, intended) =>
    stopDependents os source intended now

/-- Do what services ask for when they fail or succeed. -/
def request (asked : ManagerAction × List Str) : Manage ω Unit := do
  update (requestManagerAction asked.1)
  (ofList asked.2).keys.forM fun dependency => do
    match (← supervisor).resolveName dependency with
    | none => pure ()
    | some name => do let _ ← attempt (activate name)

def propagateSuccesses (before : BTreeMap Str ServiceState) : Manage ω Unit := do
  (newlySucceeded (← supervisor) before).forM (request activate)

def propagateFailures (before : BTreeMap Str ServiceState) : Manage ω Unit := do
  (newlyFailed (← supervisor) before).forM (request activate)

def stopUnneeded (now : Instant) (name : Str) : Manage ω Unit := do
  if ← serviceIs name fun service _ => service.spec.stopWhenUnneeded then
    cancelStartJobs os name
    onService name (Service.stop os now)

/-- Stop what no longer has a dependent. A service that has been stopped is down,
so that there are no more rounds than services and one. -/
def reapRounds (now : Instant) : Nat → Manage ω Unit
  | 0 => throw .stackOverflow
  | rounds + 1 => do
    let g ← graph os
    match unneeded (← supervisor) g with
    | [] => pure ()
    | names => do
      names.forM (stopUnneeded os now)
      reapRounds now rounds

def reapUnneeded (now : Instant) : Manage ω Unit := do
  let s ← supervisor
  if s.startJobs.isEmpty then reapRounds os now (s.names.length + 1)

def stopConflict (now : Instant) (conflict : Str) : Manage ω Unit := do
  cancelStartJobs os conflict
  ifService conflict (Service.stop os now)
  stopDependents os conflict true now

def manualRefused (operation name : Str) : Str :=
  "manual ".toList ++ operation ++ " is refused for ".toList ++ name

/-- Start a service. What this activates is started by the given operation. -/
def startThen (manual : Bool) (name : Str) : Manage ω Unit := do
  let name := (← supervisor).canonicalName name
  refreshLostMount os name
  let s ← supervisor
  if manual && (s.services.get name).any (·.spec.refuseManualStart) then
    fail (manualRefused "start".toList name)
  orFail (checkRequisites s name)
  let before := s.states
  let g ← graph os
  let cannotPlan := "cannot plan start for ".toList ++ name ++ ": ".toList
  let required ← orFailGraph os cannotPlan (g.requiredClosure name)
  let order ← orFailGraph os cannotPlan (g.planStart name)
  let selected := ofList order
  let conflicts ← orFail (conflictsFor s g selected)
  if conflicts.contains name then
    fail ("service ".toList ++ name ++ " conflicts with itself".toList)
  let now ← call os.now
  conflicts.keys.forM (stopConflict os now)
  let timeout := (s.services.get name).bind (·.spec.jobTimeout)
  let action := ((s.services.get name).map (·.spec.jobTimeoutAction)).getD .none
  update fun s => { s with startJobs := s.startJobs ++
    [⟨name, selected, required, order, conflicts, empty, empty,
      timeout.bind (timeoutDeadline now), action⟩] }
  progressStartJobs os activate now
  propagateBindings os before now
  propagateSuccesses activate before
  propagateFailures activate before
  reapUnneeded os now

end

section

variable {ω : Type} (os : Os ω)

/-- Start a service. The number bounds how deep activations can nest. -/
def startWithOrigin : Nat → Bool → Str → Manage ω Unit
  | 0, _, _ => throw .stackOverflow
  | depth + 1, manual, name => startThen os (startWithOrigin depth false) manual name

variable (depth : Nat)

def start (name : Str) : Manage ω Unit := startWithOrigin os depth true name

def stopForReconfigure (name : Str) : Manage ω Unit := do
  let name := (← supervisor).canonicalName name
  cancelStartJobs os name
  let now ← call os.now
  onService name (Service.stop os now)
  stopDependents os name true now

def stop (name : Str) : Manage ω Unit := do
  let canonical := (← supervisor).canonicalName name
  if ← serviceIs canonical fun service _ => service.spec.refuseManualStop then
    fail (manualRefused "stop".toList canonical)
  stopForReconfigure os name

def restart (name : Str) : Manage ω Unit := do
  let name := (← supervisor).canonicalName name
  refreshLostMount os name
  if ← serviceIs name fun service _ => service.spec.refuseManualStart then
    fail (manualRefused "start".toList name)
  if ← serviceIs name fun service _ => service.spec.refuseManualStop then
    fail (manualRefused "stop".toList name)
  let before := (← supervisor).states
  cancelStartJobs os name
  let now ← call os.now
  stopDependents os name true now
  onService name (Service.restart os now)
  propagateBindings os before now
  propagateFailures (startWithOrigin os depth false) before
  reapUnneeded os now

def keptOnIsolate (s : Supervisor) (g : DependencyGraph) (order : List Str) : BTreeSet Str :=
  let ignored := (s.services.filterKeys fun _ service => service.spec.ignoreOnIsolate).keys
  ofList (order ++ ignored ++ ignored.flatMap fun name => (g.planStart name).toOption.getD [])

def isolate (name : Str) : Manage ω Unit := do
  let name := (← supervisor).canonicalName name
  match (← supervisor).services.get name with
  | none => fail ("unknown service ".toList ++ name)
  | some service => do
    unless service.spec.allowIsolate do
      fail ("service profile ".toList ++ name ++ " does not allow isolation".toList)
    let g ← graph os
    let order ←
      orFailGraph os ("cannot plan isolation for ".toList ++ name ++ ": ".toList) (g.planStart name)
    let keep := keptOnIsolate (← supervisor) g order
    cancelIsolationJobs os keep
    startWithOrigin os depth true name
    let now ← call os.now
    let others := ((← supervisor).services.filterKeys fun candidate service =>
      !keep.contains candidate && !service.spec.ignoreOnIsolate).keys
    others.forM fun candidate => do
      cancelStartJobs os candidate
      onService candidate (Service.stop os now)
    reapUnneeded os now

def stopAll : Manage ω Unit := do
  update ({ · with startJobs := [] })
  let g ← graph os
  let order ←
    match g.planAllStop with
    | .error (.cycle _) =>
      orFailGraph os "cannot plan shutdown: ".toList g.planAllStopBestEffort
    | order => orFailGraph os "cannot plan shutdown: ".toList order
  let now ← call os.now
  order.forM fun name => do
    onService name (Service.stop os now)
    stopDependents os name true now

def pollService (now : Instant) (name : Str) : Manage ω Unit := do
  refreshLostMount os name
  onService name (ServicePoll.poll os now)

def poll : Manage ω Unit := do
  let s ← supervisor
  let now ← call os.now
  s.names.forM (pollService os now)
  let activate := startWithOrigin os depth false
  progressStartJobs os activate now
  propagateBindings os s.states now
  propagateSuccesses activate s.states
  propagateFailures activate s.states
  reapUnneeded os now

end

end FractalD.Manager.Jobs
