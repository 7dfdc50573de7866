import FractalD.Core.Record
import FractalD.Machine.EventRuns

namespace FractalD.Core.Lifecycle

open FractalD.Core.Record FractalD.Core.Spec FractalD.Machine.EventRuns

/-- A transition as the record makes it: what it has assigned when it fails stays
assigned. -/
abbrev Assign := EStateM TransitionError ServiceRecord

def assign (f : ServiceRecord → ServiceRecord) : Assign Unit := modify f

/-- Return an error unless a condition holds. -/
def check (c : ServiceRecord → Bool) (e : ServiceRecord → TransitionError) : Assign Unit := do
  let r ← get
  if c r then pure () else throw (e r)

def checkState (states : List ServiceState) (event : Event) : Assign Unit :=
  check (fun r => r.state ∈ states) fun r => .invalidEvent r.state event

def checkPidValid (pid : Nat) : Assign Unit := check (fun _ => pid ≠ 0) fun _ => .invalidPid

def checkGeneration (generation : Nat) : Assign Unit :=
  check (fun r => generation = r.generation) fun r => .staleGeneration r.generation generation

def checkPid (pid : Nat) : Assign Unit :=
  check (fun r => r.pid = some pid) fun r => .unexpectedPid (r.pid.getD 0) pid

def signal (pid : Nat) : Assign (List Action) := do
  return [.sendSignal pid (← get).spec.killSignal]

/-- Count a restart, if one is wanted and the limit allows it. -/
def retry (wanted : Bool) (otherwise : Assign (List Action)) : Assign (List Action) := do
  let r ← get
  if wanted ∧ r.restartCount < r.spec.restartLimit then
    assign ({ · with restartCount := r.restartCount + 1 })
    assign ({ · with state := .backoff })
    return [.scheduleRestart r.generation r.spec.restartBackoff]
  else otherwise

def failed : Assign (List Action) := do
  assign ({ · with state := .failed })
  return []

def advance : Assign Unit := assign ServiceRecord.advanceGeneration

def start : Assign (List Action) := do
  match (← get).state with
  | .defined | .exited | .skipped | .failed | .backoff => do
    advance
    assign ({ · with state := .starting })
    assign ({ · with pid := none })
    assign ({ · with lastExit := none })
    assign ({ · with restartCount := 0 })
    assign ({ · with startFailed := false })
    assign ({ · with runtimeFailed := false })
    return [.spawn (← get).generation]
  | .active => return []
  | state => throw (.invalidEvent state .startRequested)

def spawned (pid generation : Nat) : Assign (List Action) := do
  checkPidValid pid
  checkState [.starting, .stopping] (.spawned pid generation)
  checkGeneration generation
  assign ({ · with pid := some pid })
  let r ← get
  if r.state = .starting then
    if ¬(r.spec.serviceType = .notify ∨ r.spec.serviceType = .dbus) then
      assign ({ · with state := .running })
    return []
  else signal pid

def adopted (pid generation : Nat) : Assign (List Action) := do
  checkPidValid pid
  checkState [.running] (.adopted pid generation)
  checkGeneration generation
  assign ({ · with pid := some pid })
  return []

def ready (pid generation : Nat) : Assign (List Action) := do
  checkState [.starting] (.ready pid generation)
  checkPidValid pid
  checkGeneration generation
  checkPid pid
  assign ({ · with state := .running })
  return []

/-- The states of a record without a process. -/
def settle (state : ServiceState) : Assign (List Action) := do
  assign ({ · with pid := none })
  assign ({ · with state := state })
  assign ({ · with restartCount := 0 })
  assign ({ · with startFailed := false })
  return []

def activated (generation : Nat) : Assign (List Action) := do
  checkState [.starting] (.activated generation)
  checkGeneration generation
  settle .active

def conditionSkipped (generation : Nat) : Assign (List Action) := do
  checkState [.starting] (.conditionSkipped generation)
  checkGeneration generation
  settle .skipped

def spawnFailed (generation : Nat) : Assign (List Action) := do
  checkState [.starting] (.spawnFailed generation)
  checkGeneration generation
  assign ({ · with lastExit := some (.exited 127) })
  retry ((← get).spec.restart.shouldRestart (.exited 127)) failed

def startFailed (generation : Nat) : Assign (List Action) := do
  checkState [.starting, .running] (.startFailed generation)
  checkGeneration generation
  assign ({ · with startFailed := true })
  match (← get).pid with
  | some pid => do
    assign ({ · with state := .stopping })
    signal pid
  | none => do
    assign ({ · with state := .failed })
    advance
    return []

def stop : Assign (List Action) := do
  match (← get).state with
  | .starting | .running => do
    assign ({ · with state := .stopping })
    assign ({ · with startFailed := false })
    assign ({ · with runtimeFailed := false })
    let r ← get
    if r.spec.stop.isSome then return []
    else return r.pid.toList.map fun pid => .sendSignal pid r.spec.killSignal
  | .active | .backoff => do
    assign ({ · with state := .exited })
    assign ({ · with restartCount := 0 })
    return []
  | .defined | .exited | .skipped | .failed | .stopping => return []

def stopCompleted : Assign (List Action) := do
  check (fun r => r.state = .stopping ∧ r.pid = none) fun r => .invalidEvent r.state .stopCompleted
  assign ({ · with state := .exited })
  assign ({ · with restartCount := 0 })
  assign ({ · with startFailed := false })
  assign ({ · with runtimeFailed := false })
  return []

/-- The end of a record whose process has exited as it should. -/
def exitedWell (state : ServiceState) : Assign (List Action) := do
  assign ({ · with state := state })
  assign ({ · with restartCount := 0 })
  return []

def prevented (r : ServiceRecord) (reason : ExitReason) : Bool :=
  ServiceRecord.exitStatusMatches r.spec.restartPreventExitStatus reason

/-- The end of a record whose process has exited unasked. -/
def exitedByItself (reason : ExitReason) : Assign (List Action) := do
  let r ← get
  let successful := r.successfulExit reason
  if successful ∧ r.spec.remainAfterExit then exitedWell .active
  else
    let wanted := if successful ∧ ¬ reason.isSuccess then
        r.spec.restart = .onSuccess || r.spec.restart = .always
      else r.spec.restart.shouldRestart reason
    retry (!prevented r reason && wanted) (if successful then exitedWell .exited else failed)

def exited (pid generation : Nat) (reason : ExitReason) : Assign (List Action) := do
  checkState [.starting, .running, .stopping] (.exited pid generation reason)
  checkGeneration generation
  checkPid pid
  let before ← get
  assign ({ · with pid := none })
  assign ({ · with lastExit := some reason })
  assign ({ · with startFailed := false })
  assign ({ · with runtimeFailed := false })
  let r ← get
  if before.state = .stopping then
    if before.startFailed || before.runtimeFailed then
      retry (!prevented r (.exited 1) && r.spec.restart.shouldRestart (.exited 1)) failed
    else exitedWell .exited
  else exitedByItself reason

def startTimedOut (generation : Nat) : Assign (List Action) := do
  checkState [.starting] (.startTimedOut generation)
  checkGeneration generation
  match (← get).pid with
  | some pid => do
    assign ({ · with state := .stopping })
    assign ({ · with startFailed := true })
    signal pid
  | none => do
    assign ({ · with state := .failed })
    assign ({ · with startFailed := false })
    assign ({ · with runtimeFailed := false })
    advance
    return []

/-- The failed state that a job timeout and a start limit lead to. -/
def failWith (reason : ExitReason) : Assign (List Action) := do
  assign ({ · with pid := none })
  assign ({ · with lastExit := some reason })
  assign ({ · with startFailed := false })
  assign ({ · with runtimeFailed := false })
  assign ({ · with restartCount := 0 })
  assign ({ · with state := .failed })
  advance
  return []

def jobTimedOut : Assign (List Action) := do
  checkState [.defined, .exited, .skipped, .failed, .backoff] .jobTimedOut
  failWith (.exited 124)

def runtimeTimedOut (generation : Nat) : Assign (List Action) := do
  checkState [.running] (.runtimeTimedOut generation)
  checkGeneration generation
  match (← get).pid with
  | some pid => do
    assign ({ · with state := .stopping })
    assign ({ · with runtimeFailed := true })
    signal pid
  | none => do
    assign ({ · with state := .failed })
    assign ({ · with runtimeFailed := false })
    advance
    return []

def stopTimedOut (generation : Nat) : Assign (List Action) := do
  checkState [.stopping] (.stopTimedOut generation)
  checkGeneration generation
  match (← get).pid with
  | some pid => return [.sendSignal pid sigKill]
  | none => do
    assign ({ · with state := .exited })
    advance
    return []

def startLimitHit (generation : Nat) : Assign (List Action) := do
  checkState [.defined, .starting, .backoff, .exited, .skipped, .failed] (.startLimitHit generation)
  checkGeneration generation
  failWith (.exited 1)

def restartDue (generation : Nat) : Assign (List Action) := do
  checkState [.backoff] (.restartDue generation)
  checkGeneration generation
  advance
  assign ({ · with state := .starting })
  return [.spawn (← get).generation]

def reset : Assign (List Action) := do
  match (← get).state with
  | .defined | .exited | .skipped | .failed => do
    assign ({ · with state := .defined })
    assign ({ · with pid := none })
    assign ({ · with restartCount := 0 })
    assign ({ · with lastExit := none })
    assign ({ · with startFailed := false })
    assign ({ · with runtimeFailed := false })
    return []
  | state => throw (.invalidEvent state .reset)

def apply : Event → Assign (List Action)
  | .startRequested => start
  | .spawned pid generation => spawned pid generation
  | .adopted pid generation => adopted pid generation
  | .ready pid generation => ready pid generation
  | .activated generation => activated generation
  | .conditionSkipped generation => conditionSkipped generation
  | .startFailed generation => startFailed generation
  | .spawnFailed generation => spawnFailed generation
  | .stopRequested => stop
  | .stopCompleted => stopCompleted
  | .exited pid generation reason => exited pid generation reason
  | .startTimedOut generation => startTimedOut generation
  | .jobTimedOut => jobTimedOut
  | .stopTimedOut generation => stopTimedOut generation
  | .runtimeTimedOut generation => runtimeTimedOut generation
  | .startLimitHit generation => startLimitHit generation
  | .restartDue generation => restartDue generation
  | .reset => reset

/-- The record as a machine: a transition that fails leaves what it has assigned. -/
def step : EventMachine ServiceRecord Event Action := fun r e =>
  match apply e r with
  | .ok actions r' => (r', some actions)
  | .error _ r' => (r', none)

section

variable {α : Type} (r : ServiceRecord)

theorem assign_bind (f : ServiceRecord → ServiceRecord) (g : Unit → Assign α) :
    (assign f >>= g) r = g () (f r) := rfl

theorem get_bind (g : ServiceRecord → Assign α) : (get >>= g) r = g r r := rfl

theorem check_bind (c : ServiceRecord → Bool) (e : ServiceRecord → TransitionError)
    (g : Unit → Assign α) :
    (check c e >>= g) r = if c r then g () r else .error (e r) r := by
  rw [check, bind_assoc, get_bind]
  by_cases h : c r
  · rw [if_pos h, if_pos h]
    rfl
  · rw [if_neg h, if_neg h]
    rfl

/-- The end of a transition of which nothing is assigned when it fails. -/
def outcome : Transition → EStateM.Result TransitionError ServiceRecord (List Action)
  | .ok (r', actions) => .ok actions r'
  | .error e => .error e r

variable {r} {f : Unit → Transition} {g : Unit → Assign (List Action)}

theorem checkState_outcome {states : List ServiceState} {event : Event}
    (h : r.state ∈ states → g () r = outcome r (f ())) :
    (checkState states event >>= g) r = outcome r (r.during states event >>= f) := by
  rw [checkState, check_bind]
  by_cases hs : r.state ∈ states
  · simp only [ServiceRecord.during, hs, if_true, decide_true]
    exact h hs
  · simp only [ServiceRecord.during, hs, if_false, decide_false]
    rfl

theorem checkGeneration_outcome {generation : Nat}
    (h : generation = r.generation → g () r = outcome r (f ())) :
    (checkGeneration generation >>= g) r = outcome r (r.checkGeneration generation >>= f) := by
  rw [checkGeneration, check_bind]
  by_cases hg : generation = r.generation
  · simp only [ServiceRecord.checkGeneration, hg, if_true, decide_true]
    exact h hg
  · simp only [ServiceRecord.checkGeneration, hg, if_false, decide_false]
    rfl

theorem checkPid_outcome {pid : Nat} (h : r.pid = some pid → g () r = outcome r (f ())) :
    (checkPid pid >>= g) r = outcome r (r.expectPid pid >>= f) := by
  rw [checkPid, check_bind]
  by_cases hp : r.pid = some pid
  · simp only [ServiceRecord.expectPid, hp, if_true, decide_true]
    exact h hp
  · simp only [hp, decide_false]
    cases h' : r.pid with
    | none => simp only [ServiceRecord.expectPid, h']; rfl
    | some expected =>
      have he : expected ≠ pid := fun he => hp (he ▸ h')
      simp only [ServiceRecord.expectPid, h', he, if_false]
      rfl

theorem check_outcome {p : Prop} [Decidable p] {c : ServiceRecord → Bool}
    {e : ServiceRecord → TransitionError} {x : Transition} (hc : c r ↔ ¬ p)
    (h : g () r = outcome r x) :
    (check c e >>= g) r = outcome r (if p then throw (e r) >>= fun (_ : PUnit) => x else x) := by
  rw [check_bind]
  by_cases hp : p
  · simp only [hc, hp, not_true_eq_false, if_true, if_false]
    rfl
  · simpa only [hc, hp, not_false_eq_true, if_true, if_false] using h

theorem checkPidValid_outcome {pid : Nat} {x : Transition} (h : g () r = outcome r x) :
    (checkPidValid pid >>= g) r =
      outcome r (if pid = 0 then throw .invalidPid >>= fun (_ : PUnit) => x else x) :=
  check_outcome (by simp) h

end

section

variable (r : ServiceRecord)

theorem start_outcome : start r = outcome r r.start := by
  simp only [start, ServiceRecord.start, get_bind]
  cases h : r.state <;> rfl

theorem spawned_outcome (pid generation : Nat) :
    spawned pid generation r = outcome r (r.spawned pid generation) := by
  refine checkPidValid_outcome (checkState_outcome fun _ => checkGeneration_outcome fun _ => ?_)
  simp only [assign_bind, get_bind]
  by_cases hs : r.state = .starting
  · by_cases ht : r.spec.serviceType = .notify ∨ r.spec.serviceType = .dbus
    · simp only [hs, ht, if_true, not_true_eq_false, if_false]
      rfl
    · simp only [hs, ht, if_true, not_false_eq_true, if_false]
      rfl
  · simp only [hs, if_false]
    rfl

theorem adopted_outcome (pid generation : Nat) :
    adopted pid generation r = outcome r (r.adopted pid generation) :=
  checkPidValid_outcome (checkState_outcome fun _ => checkGeneration_outcome fun _ => rfl)

theorem ready_outcome (pid generation : Nat) :
    ready pid generation r = outcome r (r.ready pid generation) :=
  checkState_outcome fun _ => checkPidValid_outcome
    (checkGeneration_outcome fun _ => checkPid_outcome fun _ => rfl)

theorem activated_outcome (generation : Nat) :
    activated generation r = outcome r (r.activated generation) :=
  checkState_outcome fun _ => checkGeneration_outcome fun _ => rfl

theorem conditionSkipped_outcome (generation : Nat) :
    conditionSkipped generation r = outcome r (r.conditionSkipped generation) :=
  checkState_outcome fun _ => checkGeneration_outcome fun _ => rfl

theorem retry_outcome {r r' : ServiceRecord} (wanted : Bool) {otherwise : Assign (List Action)}
    {x : ServiceRecord × List Action} (h : otherwise r = .ok x.2 x.1) :
    retry wanted otherwise r = outcome r' (pure ((if wanted then r.backoff else none).getD x)) := by
  simp only [retry, get_bind]
  cases wanted with
  | false => exact h
  | true =>
    by_cases hl : r.restartCount < r.spec.restartLimit
    · simp only [ServiceRecord.backoff, hl, and_self, if_true]
      rfl
    · simp only [ServiceRecord.backoff, hl, and_false, if_true, if_false]
      exact h

theorem spawnFailed_outcome (generation : Nat) :
    spawnFailed generation r = outcome r (r.spawnFailed generation) :=
  checkState_outcome fun _ => checkGeneration_outcome fun _ => retry_outcome _ rfl

theorem startFailed_outcome (generation : Nat) :
    startFailed generation r = outcome r (r.failStart generation) := by
  refine checkState_outcome fun _ => checkGeneration_outcome fun _ => ?_
  rcases r with ⟨spec, state, pid, _⟩
  cases pid <;> rfl

theorem stop_outcome : stop r = outcome r r.stop := by
  simp only [stop, ServiceRecord.stop, get_bind]
  cases h : r.state with
  | starting | running =>
    by_cases hs : r.spec.stop.isSome
    · simp only [assign_bind, get_bind, hs, if_true]
      rfl
    · simp only [assign_bind, get_bind, hs]
      rfl
  | _ => rfl

theorem stopCompleted_outcome : stopCompleted r = outcome r r.stopCompleted := by
  refine check_outcome ?_ rfl
  cases r.pid <;> simp

theorem exitedByItself_outcome {r' : ServiceRecord} (reason : ExitReason) :
    exitedByItself reason r = outcome r' (pure (r.exitedByItself reason)) := by
  simp only [exitedByItself, ServiceRecord.exitedByItself, get_bind]
  by_cases ha : r.successfulExit reason ∧ r.spec.remainAfterExit
  · simp only [ha, and_self, if_true]
    rfl
  · simp only [ha, if_false]
    refine retry_outcome _ ?_
    cases r.successfulExit reason <;> rfl

theorem exited_outcome (pid generation : Nat) (reason : ExitReason) :
    exited pid generation reason r = outcome r (r.exited pid generation reason) := by
  refine checkState_outcome fun _ => checkGeneration_outcome fun _ => checkPid_outcome fun _ => ?_
  simp only [assign_bind, get_bind]
  by_cases hs : r.state = .stopping
  · cases hf : r.startFailed || r.runtimeFailed with
    | true =>
      simp only [hs, if_true]
      exact retry_outcome _ rfl
    | false =>
      simp only [hs, if_true]
      rfl
  · simp only [hs, if_false]
    exact exitedByItself_outcome _ reason

theorem startTimedOut_outcome (generation : Nat) :
    startTimedOut generation r = outcome r (r.startTimedOut generation) := by
  refine checkState_outcome fun _ => checkGeneration_outcome fun _ => ?_
  rcases r with ⟨spec, state, pid, _⟩
  cases pid <;> rfl

theorem jobTimedOut_outcome : jobTimedOut r = outcome r r.jobTimedOut :=
  checkState_outcome fun _ => rfl

theorem runtimeTimedOut_outcome (generation : Nat) :
    runtimeTimedOut generation r = outcome r (r.runtimeTimedOut generation) := by
  refine checkState_outcome fun _ => checkGeneration_outcome fun _ => ?_
  rcases r with ⟨spec, state, pid, _⟩
  cases pid <;> rfl

theorem stopTimedOut_outcome (generation : Nat) :
    stopTimedOut generation r = outcome r (r.stopTimedOut generation) := by
  refine checkState_outcome fun _ => checkGeneration_outcome fun _ => ?_
  rcases r with ⟨spec, state, pid, _⟩
  cases pid <;> rfl

theorem startLimitHit_outcome (generation : Nat) :
    startLimitHit generation r = outcome r (r.startLimitHit generation) :=
  checkState_outcome fun _ => checkGeneration_outcome fun _ => rfl

theorem restartDue_outcome (generation : Nat) :
    restartDue generation r = outcome r (r.restartDue generation) :=
  checkState_outcome fun _ => checkGeneration_outcome fun _ => rfl

theorem reset_outcome : reset r = outcome r r.reset := by
  simp only [reset, ServiceRecord.reset, get_bind]
  cases h : r.state <;> rfl

/-- The assignments of a transition come after all that can make it fail. -/
theorem apply_outcome (e : Event) : apply e r = outcome r (r.transition e) := by
  cases e with
  | startRequested => exact start_outcome r
  | spawned pid generation => exact spawned_outcome r pid generation
  | adopted pid generation => exact adopted_outcome r pid generation
  | ready pid generation => exact ready_outcome r pid generation
  | activated generation => exact activated_outcome r generation
  | conditionSkipped generation => exact conditionSkipped_outcome r generation
  | startFailed generation => exact startFailed_outcome r generation
  | spawnFailed generation => exact spawnFailed_outcome r generation
  | stopRequested => exact stop_outcome r
  | stopCompleted => exact stopCompleted_outcome r
  | exited pid generation reason => exact exited_outcome r pid generation reason
  | startTimedOut generation => exact startTimedOut_outcome r generation
  | jobTimedOut => exact jobTimedOut_outcome r
  | stopTimedOut generation => exact stopTimedOut_outcome r generation
  | runtimeTimedOut generation => exact runtimeTimedOut_outcome r generation
  | startLimitHit generation => exact startLimitHit_outcome r generation
  | restartDue generation => exact restartDue_outcome r generation
  | reset => exact reset_outcome r

variable {r}

theorem step_ok {r' : ServiceRecord} {e : Event} {actions : List Action}
    (h : r.transition e = .ok (r', actions)) : step r e = (r', some actions) := by
  simp only [step, apply_outcome, h, outcome]

theorem step_error {e : Event} {error : TransitionError} (h : r.transition e = .error error) :
    step r e = (r, none) := by
  simp only [step, apply_outcome, h, outcome]

theorem not_accepts {e : Event} (h : ¬ Accepts step r e) : step r e = (r, none) := by
  cases ht : r.transition e with
  | ok x => simp [Accepts, step_ok ht] at h
  | error error => exact step_error ht

end

end FractalD.Core.Lifecycle
