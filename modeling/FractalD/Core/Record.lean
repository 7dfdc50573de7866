import FractalD.Core.Spec

namespace FractalD.Core.Record

open FractalD.Core.Spec FractalD.Machine.CString

inductive ServiceState
  | defined
  | starting
  | running
  | active
  | stopping
  | backoff
  | exited
  | skipped
  | failed
  deriving DecidableEq, Repr

inductive Event
  | startRequested
  | spawned (pid generation : Nat)
  | adopted (pid generation : Nat)
  | ready (pid generation : Nat)
  | activated (generation : Nat)
  | conditionSkipped (generation : Nat)
  | startFailed (generation : Nat)
  | spawnFailed (generation : Nat)
  | stopRequested
  | stopCompleted
  | exited (pid generation : Nat) (reason : ExitReason)
  | startTimedOut (generation : Nat)
  | jobTimedOut
  | stopTimedOut (generation : Nat)
  | runtimeTimedOut (generation : Nat)
  | startLimitHit (generation : Nat)
  | restartDue (generation : Nat)
  | reset
  deriving DecidableEq, Repr

inductive Action
  | spawn (generation : Nat)
  | sendSignal (pid : Nat) (signal : Int)
  | scheduleRestart (generation : Nat) (after : Duration)
  deriving DecidableEq, Repr

inductive TransitionError
  | invalidEvent (state : ServiceState) (event : Event)
  | invalidPid
  | staleGeneration (expected observed : Nat)
  | unexpectedPid (expected observed : Nat)
  deriving DecidableEq, Repr

structure ServiceRecord where
  spec : ServiceSpec
  state : ServiceState
  pid : Option Nat
  generation : Nat
  restartCount : Nat
  lastExit : Option ExitReason
  startFailed : Bool
  runtimeFailed : Bool
  deriving DecidableEq, Repr

def ServiceRecord.new (spec : ServiceSpec) : Except SpecError ServiceRecord := do
  spec.validate
  pure ⟨spec, .defined, none, 0, 0, none, false, false⟩

abbrev Transition := Except TransitionError (ServiceRecord × List Action)

namespace ServiceRecord

variable (r : ServiceRecord)

def checkGeneration (observed : Nat) : Except TransitionError Unit :=
  if observed = r.generation then pure () else throw (.staleGeneration r.generation observed)

def advanceGeneration : ServiceRecord :=
  { r with generation := if r.generation + 1 < 2 ^ 64 then r.generation + 1 else 1 }

/-- Accept an event in the given states only. -/
def during (states : List ServiceState) (event : Event) : Except TransitionError Unit :=
  if r.state ∈ states then pure () else throw (.invalidEvent r.state event)

def expectPid (pid : Nat) : Except TransitionError Unit :=
  match r.pid with
  | none => throw (.unexpectedPid 0 pid)
  | some expected => if expected = pid then pure () else throw (.unexpectedPid expected pid)

def exitStatusMatches (statuses : List Int) : ExitReason → Bool
  | .exited code => code ∈ statuses
  | .signaled signal | .coreDumped signal => signal ∈ statuses

def successfulExit (reason : ExitReason) : Bool :=
  reason.isSuccess || exitStatusMatches r.spec.successExitStatus reason

/-- Wait for the next start if the restart limit allows one. -/
def backoff : Option (ServiceRecord × List Action) :=
  if r.restartCount < r.spec.restartLimit then
    some ({ r with restartCount := r.restartCount + 1, state := .backoff },
      [.scheduleRestart r.generation r.spec.restartBackoff])
  else none

def start : Transition :=
  match r.state with
  | .defined | .exited | .skipped | .failed | .backoff =>
    let r := { r.advanceGeneration with
      state := .starting, pid := none, lastExit := none, restartCount := 0,
      startFailed := false, runtimeFailed := false }
    pure (r, [.spawn r.generation])
  | .active => pure (r, [])
  | state => throw (.invalidEvent state .startRequested)

def spawned (pid generation : Nat) : Transition := do
  if pid = 0 then throw .invalidPid
  r.during [.starting, .stopping] (.spawned pid generation)
  r.checkGeneration generation
  if r.state = .starting then
    if r.spec.serviceType = .notify ∨ r.spec.serviceType = .dbus then
      pure ({ r with pid := some pid }, [])
    else pure ({ r with pid := some pid, state := .running }, [])
  else pure ({ r with pid := some pid }, [.sendSignal pid r.spec.killSignal])

def adopted (pid generation : Nat) : Transition := do
  if pid = 0 then throw .invalidPid
  r.during [.running] (.adopted pid generation)
  r.checkGeneration generation
  pure ({ r with pid := some pid }, [])

def ready (pid generation : Nat) : Transition := do
  r.during [.starting] (.ready pid generation)
  if pid = 0 then throw .invalidPid
  r.checkGeneration generation
  r.expectPid pid
  pure ({ r with state := .running }, [])

def activated (generation : Nat) : Transition := do
  r.during [.starting] (.activated generation)
  r.checkGeneration generation
  pure ({ r with pid := none, state := .active, restartCount := 0, startFailed := false }, [])

def spawnFailed (generation : Nat) : Transition := do
  r.during [.starting] (.spawnFailed generation)
  r.checkGeneration generation
  let r := { r with lastExit := some (.exited 127) }
  let restart := if r.spec.restart.shouldRestart (.exited 127) then r.backoff else none
  pure (restart.getD ({ r with state := .failed }, []))

def conditionSkipped (generation : Nat) : Transition := do
  r.during [.starting] (.conditionSkipped generation)
  r.checkGeneration generation
  pure ({ r with pid := none, state := .skipped, restartCount := 0, startFailed := false }, [])

def failStart (generation : Nat) : Transition := do
  r.during [.starting, .running] (.startFailed generation)
  r.checkGeneration generation
  let r := { r with startFailed := true }
  match r.pid with
  | some pid => pure ({ r with state := .stopping }, [.sendSignal pid r.spec.killSignal])
  | none => pure ({ r with state := .failed }.advanceGeneration, [])

def stop : Transition :=
  match r.state with
  | .starting | .running =>
    let r' := { r with state := .stopping, startFailed := false, runtimeFailed := false }
    if r.spec.stop.isSome then pure (r', [])
    else pure (r', r.pid.toList.map fun pid => .sendSignal pid r.spec.killSignal)
  | .active | .backoff => pure ({ r with state := .exited, restartCount := 0 }, [])
  | .defined | .exited | .skipped | .failed | .stopping => pure (r, [])

def stopCompleted : Transition := do
  if r.state ≠ .stopping ∨ r.pid.isSome then throw (.invalidEvent r.state .stopCompleted)
  pure ({ r with
    state := .exited, restartCount := 0, startFailed := false, runtimeFailed := false }, [])

def exitedByItself (reason : ExitReason) : ServiceRecord × List Action :=
  let successful := r.successfulExit reason
  if successful ∧ r.spec.remainAfterExit then ({ r with state := .active, restartCount := 0 }, [])
  else
    let prevented := exitStatusMatches r.spec.restartPreventExitStatus reason
    let shouldRestart := !prevented &&
      if successful ∧ ¬ reason.isSuccess then
        r.spec.restart = .onSuccess || r.spec.restart = .always
      else r.spec.restart.shouldRestart reason
    let restart := if shouldRestart then r.backoff else none
    restart.getD <|
      if successful then ({ r with state := .exited, restartCount := 0 }, [])
      else ({ r with state := .failed }, [])

/-- The state after the exit of a process that is being stopped. -/
def exitedStopping (failed : Bool) : ServiceRecord × List Action :=
  if failed then
    let prevented := exitStatusMatches r.spec.restartPreventExitStatus (.exited 1)
    let restart :=
      if !prevented && r.spec.restart.shouldRestart (.exited 1) then r.backoff else none
    restart.getD ({ r with state := .failed }, [])
  else ({ r with state := .exited, restartCount := 0 }, [])

def exited (pid generation : Nat) (reason : ExitReason) : Transition := do
  r.during [.starting, .running, .stopping] (.exited pid generation reason)
  r.checkGeneration generation
  r.expectPid pid
  let r' := { r with
    pid := none, lastExit := some reason, startFailed := false, runtimeFailed := false }
  if r.state = .stopping then pure (r'.exitedStopping (r.startFailed || r.runtimeFailed))
  else pure (r'.exitedByItself reason)

def startTimedOut (generation : Nat) : Transition := do
  r.during [.starting] (.startTimedOut generation)
  r.checkGeneration generation
  match r.pid with
  | some pid =>
    pure ({ r with state := .stopping, startFailed := true }, [.sendSignal pid r.spec.killSignal])
  | none =>
    pure ({ r with state := .failed, startFailed := false, runtimeFailed := false
      }.advanceGeneration, [])

/-- The failed state that a job timeout and a start limit lead to. -/
def failWith (reason : ExitReason) : ServiceRecord :=
  { r with
    pid := none, lastExit := some reason, startFailed := false, runtimeFailed := false,
    restartCount := 0, state := .failed }.advanceGeneration

def jobTimedOut : Transition := do
  r.during [.defined, .exited, .skipped, .failed, .backoff] .jobTimedOut
  pure (r.failWith (.exited 124), [])

def runtimeTimedOut (generation : Nat) : Transition := do
  r.during [.running] (.runtimeTimedOut generation)
  r.checkGeneration generation
  match r.pid with
  | some pid =>
    pure ({ r with state := .stopping, runtimeFailed := true },
      [.sendSignal pid r.spec.killSignal])
  | none => pure ({ r with state := .failed, runtimeFailed := false }.advanceGeneration, [])

def stopTimedOut (generation : Nat) : Transition := do
  r.during [.stopping] (.stopTimedOut generation)
  r.checkGeneration generation
  match r.pid with
  | some pid => pure (r, [.sendSignal pid sigKill])
  | none => pure ({ r with state := .exited }.advanceGeneration, [])

def startLimitHit (generation : Nat) : Transition := do
  r.during [.defined, .starting, .backoff, .exited, .skipped, .failed] (.startLimitHit generation)
  r.checkGeneration generation
  pure (r.failWith (.exited 1), [])

def restartDue (generation : Nat) : Transition := do
  r.during [.backoff] (.restartDue generation)
  r.checkGeneration generation
  let r := { r.advanceGeneration with state := .starting }
  pure (r, [.spawn r.generation])

def reset : Transition :=
  match r.state with
  | .defined | .exited | .skipped | .failed =>
    pure ({ r with
      state := .defined, pid := none, restartCount := 0, lastExit := none,
      startFailed := false, runtimeFailed := false }, [])
  | state => throw (.invalidEvent state .reset)

def transition : Event → Transition
  | .startRequested => r.start
  | .spawned pid generation => r.spawned pid generation
  | .adopted pid generation => r.adopted pid generation
  | .ready pid generation => r.ready pid generation
  | .activated generation => r.activated generation
  | .conditionSkipped generation => r.conditionSkipped generation
  | .startFailed generation => r.failStart generation
  | .spawnFailed generation => r.spawnFailed generation
  | .stopRequested => r.stop
  | .stopCompleted => r.stopCompleted
  | .exited pid generation reason => r.exited pid generation reason
  | .startTimedOut generation => r.startTimedOut generation
  | .jobTimedOut => r.jobTimedOut
  | .stopTimedOut generation => r.stopTimedOut generation
  | .runtimeTimedOut generation => r.runtimeTimedOut generation
  | .startLimitHit generation => r.startLimitHit generation
  | .restartDue generation => r.restartDue generation
  | .reset => r.reset

end ServiceRecord

structure ServiceSnapshot where
  name : Str
  state : ServiceState
  pid : Option Nat
  generation : Nat
  restartCount : Nat
  lastExit : Option ExitReason
  deriving DecidableEq, Repr

end FractalD.Core.Record
