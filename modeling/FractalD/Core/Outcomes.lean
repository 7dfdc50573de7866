import FractalD.Core.Restarts

namespace FractalD.Core.Outcomes

open FractalD.Core.Lifecycle FractalD.Core.Record FractalD.Core.Restarts FractalD.Core.Spec

def Startable (state : ServiceState) : Prop :=
  state ∈ [ServiceState.defined, .backoff, .exited, .skipped, .failed]

/-- Nothing but a restart is asked for. -/
def OnlySchedules (actions : List Action) : Prop :=
  ∀ a ∈ actions, ∃ generation after, a = .scheduleRestart generation after

section

variable {r r' : ServiceRecord} {actions : List Action} {pid generation : Nat}

theorem startRequested_outcome (h : r.transition .startRequested = .ok (r', actions)) :
    r.state = .active ∧ r' = r ∧ actions = [] ∨
      Startable r.state ∧ r'.state = .starting ∧ r'.pid = none ∧
        actions = [.spawn r'.generation] := by
  simp only [ServiceRecord.transition, ServiceRecord.start] at h
  cases hs : r.state <;> simp only [hs, pure_ok, throw_ok, Prod.mk.injEq] at h
  case active => exact .inl ⟨rfl, h.1.symm, h.2.symm⟩
  all_goals
    obtain ⟨rfl, rfl⟩ := h
    exact .inr ⟨by simp [Startable], rfl, rfl, rfl⟩

theorem spawned_outcome (h : r.transition (.spawned pid generation) = .ok (r', actions)) :
    (r.state = .starting ∧ (r' = { r with pid := some pid } ∨
      r' = { r with pid := some pid, state := .running })) ∨
    r.state = .stopping ∧ r' = { r with pid := some pid } := by
  simp only [ServiceRecord.transition, ServiceRecord.spawned, guard_ok, during_ok,
    checkGeneration_ok] at h
  obtain ⟨-, hs, -, h⟩ := h
  split at h
  next hstarting =>
    refine .inl ⟨hstarting, ?_⟩
    split at h
    · cases h
      exact .inl rfl
    · cases h
      exact .inr rfl
  next hstarting =>
    cases h
    exact .inr ⟨(List.mem_pair.mp hs).resolve_left hstarting, rfl⟩

theorem adopted_outcome (h : r.transition (.adopted pid generation) = .ok (r', actions)) :
    r.state = .running ∧ r' = { r with pid := some pid } := by
  simp only [ServiceRecord.transition, ServiceRecord.adopted, guard_ok, during_ok,
    checkGeneration_ok, pure_ok, List.mem_singleton, Prod.mk.injEq] at h
  obtain ⟨-, hs, -, rfl, -⟩ := h
  exact ⟨hs, rfl⟩

theorem ready_outcome (h : r.transition (.ready pid generation) = .ok (r', actions)) :
    r.state = .starting ∧ r.pid = some pid ∧ r' = { r with state := .running } := by
  simp only [ServiceRecord.transition, ServiceRecord.ready, guard_ok, during_ok,
    checkGeneration_ok, expectPid_ok, pure_ok, List.mem_singleton, Prod.mk.injEq] at h
  obtain ⟨hs, -, -, hp, rfl, -⟩ := h
  exact ⟨hs, hp, rfl⟩

theorem activated_outcome (h : r.transition (.activated generation) = .ok (r', actions)) :
    r.state = .starting ∧ r'.state = .active ∧ r'.pid = none := by
  simp only [ServiceRecord.transition, ServiceRecord.activated, during_ok, checkGeneration_ok,
    pure_ok, List.mem_singleton, Prod.mk.injEq] at h
  obtain ⟨hs, -, rfl, -⟩ := h
  exact ⟨hs, rfl, rfl⟩

theorem conditionSkipped_outcome
    (h : r.transition (.conditionSkipped generation) = .ok (r', actions)) :
    r.state = .starting ∧ r'.state = .skipped ∧ r'.pid = none := by
  simp only [ServiceRecord.transition, ServiceRecord.conditionSkipped, during_ok,
    checkGeneration_ok, pure_ok, List.mem_singleton, Prod.mk.injEq] at h
  obtain ⟨hs, -, rfl, -⟩ := h
  exact ⟨hs, rfl, rfl⟩

/-- A failure stops the main process, if there is one. -/
def Fails (r r' : ServiceRecord) (actions : List Action) : Prop :=
  (∃ pid, r.pid = some pid ∧ r'.pid = some pid ∧ r'.state = .stopping ∧
    actions = [.sendSignal pid r.spec.killSignal]) ∨
  r.pid = none ∧ r'.pid = none ∧ r'.state = .failed ∧ actions = []

theorem startFailed_outcome (h : r.transition (.startFailed generation) = .ok (r', actions)) :
    (r.state = .starting ∨ r.state = .running) ∧ r'.restartCount = r.restartCount ∧
      Fails r r' actions := by
  simp only [ServiceRecord.transition, ServiceRecord.failStart, during_ok, checkGeneration_ok] at h
  obtain ⟨hs, -, h⟩ := h
  refine ⟨List.mem_pair.mp hs, ?_⟩
  cases hp : r.pid with
  | none =>
    simp only [hp] at h
    cases h
    exact ⟨rfl, .inr ⟨hp, rfl, rfl, rfl⟩⟩
  | some pid =>
    simp only [hp] at h
    cases h
    exact ⟨rfl, .inl ⟨pid, hp, rfl, rfl, rfl⟩⟩

theorem startTimedOut_outcome
    (h : r.transition (.startTimedOut generation) = .ok (r', actions)) :
    r.state = .starting ∧ r'.restartCount = r.restartCount ∧ Fails r r' actions := by
  simp only [ServiceRecord.transition, ServiceRecord.startTimedOut, during_ok, checkGeneration_ok,
    List.mem_singleton] at h
  obtain ⟨hs, -, h⟩ := h
  refine ⟨hs, ?_⟩
  cases hp : r.pid with
  | none =>
    simp only [hp] at h
    cases h
    exact ⟨rfl, .inr ⟨hp, rfl, rfl, rfl⟩⟩
  | some pid =>
    simp only [hp] at h
    cases h
    exact ⟨rfl, .inl ⟨pid, hp, rfl, rfl, rfl⟩⟩

theorem runtimeTimedOut_outcome
    (h : r.transition (.runtimeTimedOut generation) = .ok (r', actions)) :
    r.state = .running ∧ r'.restartCount = r.restartCount ∧ Fails r r' actions := by
  simp only [ServiceRecord.transition, ServiceRecord.runtimeTimedOut, during_ok,
    checkGeneration_ok, List.mem_singleton] at h
  obtain ⟨hs, -, h⟩ := h
  refine ⟨hs, ?_⟩
  cases hp : r.pid with
  | none =>
    simp only [hp] at h
    cases h
    exact ⟨rfl, .inr ⟨hp, rfl, rfl, rfl⟩⟩
  | some pid =>
    simp only [hp] at h
    cases h
    exact ⟨rfl, .inl ⟨pid, hp, rfl, rfl, rfl⟩⟩

theorem spawnFailed_outcome (h : r.transition (.spawnFailed generation) = .ok (r', actions)) :
    r.state = .starting ∧ r'.pid = r.pid ∧
      (r'.state = .failed ∧ actions = [] ∨
        r'.state = .backoff ∧ ∃ after, actions = [.scheduleRestart r.generation after]) := by
  simp only [ServiceRecord.transition, ServiceRecord.spawnFailed, during_ok, checkGeneration_ok,
    pure_ok, List.mem_singleton] at h
  obtain ⟨hs, -, h⟩ := h
  refine ⟨hs, ?_⟩
  obtain ⟨-, -, rfl, rfl⟩ | ⟨-, h⟩ := retry_cases h
  · exact ⟨rfl, .inr ⟨rfl, _, rfl⟩⟩
  · cases h
    exact ⟨rfl, .inl ⟨rfl, rfl⟩⟩

theorem stopRequested_outcome (h : r.transition .stopRequested = .ok (r', actions)) :
    r'.pid = r.pid ∧ (r.pid = none → actions = []) ∧
      ((r.state = .starting ∨ r.state = .running) ∧ r'.state = .stopping ∧ ¬ failing r' ∨
        (r.state = .active ∨ r.state = .backoff) ∧ r'.state = .exited ∧ actions = [] ∨
        r.state ∈ [ServiceState.defined, .exited, .skipped, .failed, .stopping] ∧ r' = r ∧
          actions = []) := by
  simp only [ServiceRecord.transition, ServiceRecord.stop] at h
  cases hs : r.state with
  | starting | running =>
    simp only [hs] at h
    split at h
    · cases h
      exact ⟨rfl, fun _ => rfl, .inl ⟨by simp, rfl, by simp [failing]⟩⟩
    · cases h
      exact ⟨rfl, fun hp => by simp [hp], .inl ⟨by simp, rfl, by simp [failing]⟩⟩
  | active | backoff =>
    simp only [hs] at h
    cases h
    exact ⟨rfl, fun _ => rfl, .inr (.inl ⟨by simp, rfl, rfl⟩)⟩
  | defined | exited | skipped | failed | stopping =>
    simp only [hs] at h
    cases h
    exact ⟨rfl, fun _ => rfl, .inr (.inr ⟨by simp, rfl, rfl⟩)⟩

/-- A process that is being stopped is restarted only if it had failed. -/
theorem exited_outcome {reason : ExitReason}
    (h : r.transition (.exited pid generation reason) = .ok (r', actions)) :
    r'.pid = none ∧ OnlySchedules actions ∧
      (r'.state = .active ∧ r.state ≠ .stopping ∨ r'.state = .exited ∨ r'.state = .failed ∨
        r'.state = .backoff ∧
          (r.state = .starting ∨ r.state = .running ∨ failing r ∧ retries r)) := by
  simp only [ServiceRecord.transition, ServiceRecord.exited, during_ok, checkGeneration_ok,
    expectPid_ok] at h
  obtain ⟨hs, -, -, h⟩ := h
  have hnil : OnlySchedules [] := fun a ha => absurd ha List.not_mem_nil
  have hone : ∀ generation after, OnlySchedules [.scheduleRestart generation after] :=
    fun generation after a ha => ⟨generation, after, List.mem_singleton.mp ha⟩
  split at h
  next hst =>
    rw [pure_ok] at h
    simp only [ServiceRecord.exitedStopping] at h
    split at h
    next hfailed =>
      obtain ⟨hc, hl, rfl, rfl⟩ | ⟨-, h⟩ := retry_cases h
      · refine ⟨rfl, hone _ _, .inr (.inr (.inr ⟨rfl, .inr (.inr ⟨?_, ?_⟩)⟩))⟩
        · simpa [failing, hst] using hfailed
        · simpa [retries, prevented, hl] using hc
      · cases h
        exact ⟨rfl, hnil, .inr (.inr (.inl rfl))⟩
    next =>
      cases h
      exact ⟨rfl, hnil, .inr (.inl rfl)⟩
  next hst =>
    rw [pure_ok] at h
    have hup : r.state = .starting ∨ r.state = .running := by simpa [hst] using hs
    simp only [ServiceRecord.exitedByItself] at h
    split at h
    · cases h
      exact ⟨rfl, hnil, .inl ⟨rfl, hst⟩⟩
    · obtain ⟨-, -, rfl, rfl⟩ | ⟨-, h⟩ := retry_cases h
      · exact ⟨rfl, hone _ _, .inr (.inr (.inr ⟨rfl, hup.imp_right .inl⟩))⟩
      · split at h
        · cases h
          exact ⟨rfl, hnil, .inr (.inl rfl)⟩
        · cases h
          exact ⟨rfl, hnil, .inr (.inr (.inl rfl))⟩

theorem stopCompleted_outcome (h : r.transition .stopCompleted = .ok (r', actions)) :
    r.state = .stopping ∧ r.pid = none ∧ r'.state = .exited ∧ r'.pid = none := by
  simp only [ServiceRecord.transition, ServiceRecord.stopCompleted, guard_ok, pure_ok,
    Prod.mk.injEq, not_or, not_not, Option.isSome_iff_ne_none] at h
  obtain ⟨⟨hs, hp⟩, rfl, -⟩ := h
  exact ⟨hs, hp, rfl, hp⟩

theorem stopTimedOut_outcome (h : r.transition (.stopTimedOut generation) = .ok (r', actions)) :
    r.state = .stopping ∧ (r.pid.isSome → r' = r) := by
  simp only [ServiceRecord.transition, ServiceRecord.stopTimedOut, during_ok, checkGeneration_ok,
    List.mem_singleton] at h
  obtain ⟨hs, -, h⟩ := h
  refine ⟨hs, fun hp => ?_⟩
  obtain ⟨pid, hp⟩ := Option.isSome_iff_exists.mp hp
  simp only [hp] at h
  cases h
  rfl

theorem failWith_outcome {reason : ExitReason} : (r.failWith reason).state = .failed ∧
    (r.failWith reason).pid = none := ⟨rfl, rfl⟩

theorem jobTimedOut_outcome (h : r.transition .jobTimedOut = .ok (r', actions)) :
    Startable r.state ∧ r'.state = .failed ∧ r'.pid = none := by
  simp only [ServiceRecord.transition, ServiceRecord.jobTimedOut, during_ok, pure_ok,
    Prod.mk.injEq] at h
  obtain ⟨hs, rfl, -⟩ := h
  refine ⟨?_, failWith_outcome⟩
  simp only [Startable, List.mem_cons, List.not_mem_nil, or_false] at hs ⊢
  tauto

theorem startLimitHit_outcome (h : r.transition (.startLimitHit generation) = .ok (r', actions)) :
    r'.state = .failed ∧ r'.pid = none := by
  simp only [ServiceRecord.transition, ServiceRecord.startLimitHit, during_ok, checkGeneration_ok,
    pure_ok, Prod.mk.injEq] at h
  obtain ⟨-, -, rfl, -⟩ := h
  exact failWith_outcome

theorem restartDue_outcome (h : r.transition (.restartDue generation) = .ok (r', actions)) :
    r.state = .backoff ∧ r'.state = .starting ∧ r'.pid = r.pid ∧
      actions = [.spawn r'.generation] := by
  simp only [ServiceRecord.transition, ServiceRecord.restartDue, during_ok, checkGeneration_ok,
    pure_ok, List.mem_singleton, Prod.mk.injEq] at h
  obtain ⟨hs, -, rfl, rfl⟩ := h
  exact ⟨hs, rfl, rfl, rfl⟩

/-- The failures and the restarts that a record always accepts. -/
theorem startTimedOut_accepted (h : r.state = .starting) :
    ∃ x, r.transition (.startTimedOut r.generation) = .ok x := by
  simp only [ServiceRecord.transition, ServiceRecord.startTimedOut, ServiceRecord.during,
    ServiceRecord.checkGeneration, h, List.mem_singleton, if_true]
  cases r.pid <;> exact ⟨_, rfl⟩

theorem startFailed_accepted (h : r.state = .starting ∨ r.state = .running) :
    ∃ x, r.transition (.startFailed r.generation) = .ok x := by
  have hs : r.state ∈ [ServiceState.starting, .running] := List.mem_pair.mpr h
  simp only [ServiceRecord.transition, ServiceRecord.failStart, ServiceRecord.during,
    ServiceRecord.checkGeneration, if_pos hs, if_true]
  cases r.pid <;> exact ⟨_, rfl⟩

theorem jobTimedOut_accepted (h : Startable r.state) : ∃ x, r.transition .jobTimedOut = .ok x := by
  have hs : r.state ∈ [ServiceState.defined, .exited, .skipped, .failed, .backoff] := by
    simp only [Startable, List.mem_cons, List.not_mem_nil, or_false] at h ⊢
    tauto
  refine ⟨(r.failWith (.exited 124), []), ?_⟩
  simp only [ServiceRecord.transition, ServiceRecord.jobTimedOut, ServiceRecord.during, if_pos hs]
  rfl

theorem restartDue_accepted (h : r.state = .backoff) :
    ∃ x, r.transition (.restartDue r.generation) = .ok x := by
  simp only [ServiceRecord.transition, ServiceRecord.restartDue, ServiceRecord.during,
    ServiceRecord.checkGeneration, h, List.mem_singleton, if_true]
  exact ⟨_, rfl⟩

theorem reset_outcome (h : r.transition .reset = .ok (r', actions)) :
    r'.state = .defined ∧ r'.pid = none := by
  simp only [ServiceRecord.transition, ServiceRecord.reset] at h
  cases hs : r.state <;> simp only [hs, pure_ok, throw_ok, Prod.mk.injEq] at h
  all_goals
    obtain ⟨rfl, -⟩ := h
    exact ⟨rfl, rfl⟩

end

end FractalD.Core.Outcomes
