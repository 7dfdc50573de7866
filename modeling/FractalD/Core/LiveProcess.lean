import FractalD.Core.Outcomes

namespace FractalD.Core.LiveProcess

open FractalD.Core.Lifecycle FractalD.Core.Outcomes FractalD.Core.Record FractalD.Core.Restarts
open FractalD.Core.Spec FractalD.Machine.EventRuns

def Live (r : ServiceRecord) : Prop :=
  r.pid.isSome → r.state ∈ [ServiceState.starting, .running, .stopping]

/-- A process is recorded until it exits or another one is adopted. -/
def Keeps (r : ServiceRecord) (e : Event) (r' : ServiceRecord) : Prop :=
  ∀ pid, r.pid = some pid → r'.pid = some pid ∨
    (∃ generation reason, e = .exited pid generation reason) ∨
    ∃ adopted generation, e = .adopted adopted generation

/-- The processes of a run are recorded as long as they live. -/
def KeepsProcesses (r : ServiceRecord) (es : List Event) : Prop :=
  Live r ∧ Along step (fun r e => Keeps r e (step r e).1 ∧ Live (step r e).1) r es

/-- The events of a start that do not look whether a process is recorded. -/
def Overlooks (r : ServiceRecord) : Event → Prop
  | .spawned pid generation =>
    pid ≠ 0 ∧ r.pid ≠ some pid ∧ r.state ∈ [ServiceState.starting, .stopping] ∧
      generation = r.generation
  | .spawnFailed generation | .activated generation | .conditionSkipped generation
  | .startLimitHit generation => r.state = .starting ∧ generation = r.generation
  | _ => False

section

variable {r r' : ServiceRecord} {e : Event} {actions : List Action}

theorem live_of_none (h : r.pid = none) : Live r := by
  intro hp
  rw [h] at hp
  cases hp

theorem none_of_live (h : Live r) (hs : r.state ∉ [ServiceState.starting, .running, .stopping]) :
    r.pid = none := by
  by_contra hp
  exact hs (h (Option.isSome_iff_ne_none.mpr hp))

theorem keeps_of_eq (hp : r'.pid = r.pid)
    (hs : r'.state ∈ [ServiceState.starting, .running, .stopping]) : Keeps r e r' ∧ Live r' :=
  ⟨fun _ h => .inl (hp.trans h), fun _ => hs⟩

theorem keeps_of_none (hp : r.pid = none) (hp' : r'.pid = none) : Keeps r e r' ∧ Live r' := by
  refine ⟨fun pid h => ?_, live_of_none hp'⟩
  rw [hp] at h
  cases h

theorem keeps_refl (h : Live r) : Keeps r e r ∧ Live r := ⟨fun _ hp => .inl hp, h⟩

theorem keeps_of_fails (h : Fails r r' actions) : Keeps r e r' ∧ Live r' := by
  obtain ⟨pid, hp, hp', hs, -⟩ | ⟨hp, hp', -⟩ := h
  · exact keeps_of_eq (hp'.trans hp.symm) (by simp [hs])
  · exact keeps_of_none hp hp'

theorem accepted_of_overlooks (h : Overlooks r e) : ∃ x, r.transition e = .ok x := by
  cases e with
  | spawned pid generation =>
    obtain ⟨hpid, -, hs, rfl⟩ := h
    simp only [ServiceRecord.transition, ServiceRecord.spawned, ServiceRecord.during,
      ServiceRecord.checkGeneration, if_neg hpid, if_pos hs, if_true]
    split
    · split <;> exact ⟨_, rfl⟩
    · exact ⟨_, rfl⟩
  | spawnFailed generation | activated generation | conditionSkipped generation
  | startLimitHit generation =>
    obtain ⟨hs, rfl⟩ := h
    simp only [ServiceRecord.transition, ServiceRecord.spawnFailed, ServiceRecord.activated,
      ServiceRecord.conditionSkipped, ServiceRecord.startLimitHit, ServiceRecord.during,
      ServiceRecord.checkGeneration, hs, List.mem_cons, true_or, or_true,
      if_true]
    exact ⟨_, rfl⟩
  | _ => exact h.elim

/-- What is overlooked while a process is recorded forgets it, or leaves it to a service
that is down. -/
theorem overlooked (h : r.transition e = .ok (r', actions)) (hp : r.pid.isSome)
    (ho : Overlooks r e) : ¬ (Keeps r e r' ∧ Live r') := by
  rintro ⟨hkeeps, hlive⟩
  obtain ⟨pid, hp⟩ := Option.isSome_iff_exists.mp hp
  have hkept := hkeeps pid hp
  cases e with
  | spawned other generation =>
    have hp' : r'.pid = some other := by
      obtain ⟨-, rfl | rfl⟩ | ⟨-, rfl⟩ := Outcomes.spawned_outcome h <;> rfl
    simp only [hp', Option.some.injEq, reduceCtorEq, exists_false, or_false] at hkept
    exact ho.2.1 (hp.trans (congrArg some hkept.symm))
  | spawnFailed generation =>
    obtain ⟨-, hp', hs⟩ := Outcomes.spawnFailed_outcome h
    have hdown := none_of_live hlive (by obtain ⟨hs, -⟩ | ⟨hs, -⟩ := hs <;> simp [hs])
    rw [hp', hp] at hdown
    cases hdown
  | activated generation =>
    obtain ⟨-, -, hp'⟩ := Outcomes.activated_outcome h
    simp [hp'] at hkept
  | conditionSkipped generation =>
    obtain ⟨-, -, hp'⟩ := Outcomes.conditionSkipped_outcome h
    simp [hp'] at hkept
  | startLimitHit generation =>
    obtain ⟨-, hp'⟩ := Outcomes.startLimitHit_outcome h
    simp [hp'] at hkept
  | _ => exact ho

/-- The end of a start without a process finds none recorded if nothing is overlooked. -/
theorem ends_start {generation : Nat} (hs : r.state = .starting) (hg : generation = r.generation)
    (hnone : r.state = .starting ∧ generation = r.generation → r.pid = none)
    (hp' : r'.pid = none ∨ r'.pid = r.pid) : Keeps r e r' ∧ Live r' := by
  have hp := hnone ⟨hs, hg⟩
  rw [hp, or_self] at hp'
  exact keeps_of_none hp hp'

theorem transition_keeps (h : r.transition e = .ok (r', actions)) (hl : Live r)
    (ho : ¬ (r.pid.isSome ∧ Overlooks r e)) : Keeps r e r' ∧ Live r' := by
  have hnone : Overlooks r e → r.pid = none := fun h =>
    Option.not_isSome_iff_eq_none.mp fun hp => ho ⟨hp, h⟩
  cases e with
  | startRequested =>
    obtain ⟨-, rfl, -⟩ | ⟨hs, -, hp', -⟩ := startRequested_outcome h
    · exact keeps_refl hl
    · refine keeps_of_none (none_of_live hl fun hup => ?_) hp'
      simp only [Startable, List.mem_cons, List.not_mem_nil, or_false] at hs hup
      rcases hup with hup | hup | hup <;> simp [hup] at hs
  | spawned pid generation =>
    have hchecks := h
    simp only [ServiceRecord.transition, ServiceRecord.spawned, guard_ok, during_ok,
      checkGeneration_ok] at hchecks
    obtain ⟨hpid, hs, hg, -⟩ := hchecks
    have hp' : r'.pid = some pid ∧ r'.state ∈ [ServiceState.starting, .running, .stopping] := by
      obtain ⟨hs, rfl | rfl⟩ | ⟨hs, rfl⟩ := Outcomes.spawned_outcome h <;> simp [hs]
    refine ⟨fun old hold => .inl ?_, fun _ => hp'.2⟩
    by_contra hne
    have hnew : r.pid ≠ some pid := fun he => hne (hp'.1.trans (he.symm.trans hold))
    rw [hnone ⟨hpid, hnew, hs, hg⟩] at hold
    cases hold
  | adopted pid generation =>
    obtain ⟨hs, rfl⟩ := Outcomes.adopted_outcome h
    exact ⟨fun _ _ => .inr (.inr ⟨pid, generation, rfl⟩), fun _ => by simp [hs]⟩
  | ready pid generation =>
    obtain ⟨hs, -, rfl⟩ := Outcomes.ready_outcome h
    exact keeps_of_eq rfl (by simp)
  | activated generation =>
    have hchecks := h
    simp only [ServiceRecord.transition, ServiceRecord.activated, during_ok,
      checkGeneration_ok, List.mem_singleton] at hchecks
    exact ends_start hchecks.1 hchecks.2.1 hnone (.inl (Outcomes.activated_outcome h).2.2)
  | conditionSkipped generation =>
    have hchecks := h
    simp only [ServiceRecord.transition, ServiceRecord.conditionSkipped, during_ok,
      checkGeneration_ok, List.mem_singleton] at hchecks
    exact ends_start hchecks.1 hchecks.2.1 hnone (.inl (Outcomes.conditionSkipped_outcome h).2.2)
  | startFailed generation => exact keeps_of_fails (Outcomes.startFailed_outcome h).2.2
  | spawnFailed generation =>
    have hchecks := h
    simp only [ServiceRecord.transition, ServiceRecord.spawnFailed, during_ok,
      checkGeneration_ok, List.mem_singleton] at hchecks
    exact ends_start hchecks.1 hchecks.2.1 hnone (.inr (Outcomes.spawnFailed_outcome h).2.1)
  | stopRequested =>
    obtain ⟨hp', -, ⟨-, hs', -⟩ | ⟨hs, hs', -⟩ | ⟨-, rfl, -⟩⟩ := stopRequested_outcome h
    · exact keeps_of_eq hp' (by simp [hs'])
    · have hp : r.pid = none := none_of_live hl (by rcases hs with hs | hs <;> simp [hs])
      exact keeps_of_none hp (hp'.trans hp)
    · exact keeps_refl hl
  | stopCompleted =>
    obtain ⟨-, hp, -, hp'⟩ := Outcomes.stopCompleted_outcome h
    exact keeps_of_none hp hp'
  | exited pid generation reason =>
    have hchecks := h
    simp only [ServiceRecord.transition, ServiceRecord.exited, during_ok, checkGeneration_ok,
      expectPid_ok] at hchecks
    obtain ⟨-, -, hp, -⟩ := hchecks
    refine ⟨fun old hold => .inr (.inl ⟨generation, reason, ?_⟩), live_of_none (exited_outcome h).1⟩
    cases hp.symm.trans hold
    rfl
  | startTimedOut generation => exact keeps_of_fails (Outcomes.startTimedOut_outcome h).2.2
  | jobTimedOut =>
    obtain ⟨hs, -, hp'⟩ := Outcomes.jobTimedOut_outcome h
    refine keeps_of_none (none_of_live hl fun hup => ?_) hp'
    simp only [Startable, List.mem_cons, List.not_mem_nil, or_false] at hs hup
    rcases hup with hup | hup | hup <;> simp [hup] at hs
  | stopTimedOut generation =>
    simp only [ServiceRecord.transition, ServiceRecord.stopTimedOut, during_ok,
      checkGeneration_ok] at h
    obtain ⟨-, -, h⟩ := h
    cases hp : r.pid with
    | none =>
      simp only [hp] at h
      cases h
      exact keeps_of_none hp rfl
    | some pid =>
      simp only [hp] at h
      cases h
      exact keeps_refl hl
  | runtimeTimedOut generation => exact keeps_of_fails (Outcomes.runtimeTimedOut_outcome h).2.2
  | startLimitHit generation =>
    have hchecks := h
    simp only [ServiceRecord.transition, ServiceRecord.startLimitHit, during_ok,
      checkGeneration_ok, List.mem_cons, List.not_mem_nil, or_false] at hchecks
    obtain ⟨hs, hg, -⟩ := hchecks
    refine keeps_of_none ?_ (Outcomes.startLimitHit_outcome h).2
    by_cases hstarting : r.state = .starting
    · exact hnone ⟨hstarting, hg⟩
    · apply none_of_live hl
      rcases hs with hs | hs | hs | hs | hs | hs <;> simp [hs] at hstarting ⊢
  | restartDue generation =>
    obtain ⟨hs, -, hp', -⟩ := Outcomes.restartDue_outcome h
    have hp := none_of_live hl (by simp [hs])
    exact keeps_of_none hp (hp'.trans hp)
  | reset =>
    refine keeps_of_none (none_of_live hl fun hup => ?_) (Outcomes.reset_outcome h).2
    simp only [List.mem_cons, List.not_mem_nil, or_false] at hup
    rcases hup with hup | hup | hup <;>
      simp only [ServiceRecord.transition, ServiceRecord.reset, hup, throw_ok] at h

theorem step_keeps (hl : Live r) :
    (Keeps r e (step r e).1 ∧ Live (step r e).1) ↔ ¬ (r.pid.isSome ∧ Overlooks r e) := by
  cases h : r.transition e with
  | ok x =>
    rw [step_ok h]
    exact ⟨fun hkeeps ho => overlooked h ho.1 ho.2 hkeeps, transition_keeps h hl⟩
  | error error =>
    rw [step_error h]
    refine iff_of_true (keeps_refl hl) fun ho => ?_
    obtain ⟨x, hx⟩ := accepted_of_overlooks ho.2
    cases h.symm.trans hx

end

/-- The processes of a run are recorded as long as they live exactly if no start overlooks
one of them. -/
theorem keepsProcesses_iff {spec : ServiceSpec} {r : ServiceRecord}
    (h : ServiceRecord.new spec = .ok r) (es : List Event) :
    KeepsProcesses r es ↔ Along step (fun r e => ¬ (r.pid.isSome ∧ Overlooks r e)) r es := by
  have hlive : Live r := by
    rw [new_ok h]
    exact live_of_none rfl
  rw [KeepsProcesses, and_iff_right hlive]
  exact along_iff (fun _ _ hl => step_keeps hl) hlive es

theorem keepsProcesses_iff_demo :
    let es := [.startRequested, .spawned 7 1, .ready 7 1, .exited 7 1 (.exited 1)]
    KeepsProcesses (fresh demo) es ↔
      Along step (fun r e => ¬ (r.pid.isSome ∧ Overlooks r e)) (fresh demo) es :=
  keepsProcesses_iff new_demo [.startRequested, .spawned 7 1, .ready 7 1, .exited 7 1 (.exited 1)]

/-- The process of a start is replaced, or it is left to a service that waits for its
restart, and no signal is asked for. -/
theorem process_forgotten :
    ServiceRecord.new demo = .ok (fresh demo) ∧
      let r := final step (fresh demo) [.startRequested, .spawned 7 1]
      r.pid = some 7 ∧
        step r (.spawned 8 1) = ({ r with pid := some 8 }, some []) ∧
        (step r (.activated 1)).1.pid = none ∧ (step r (.activated 1)).2 = some [] ∧
        (step r (.spawnFailed 1)).1.pid = some 7 ∧ (step r (.spawnFailed 1)).1.state = .backoff ∧
        ¬ KeepsProcesses (fresh demo) [.startRequested, .spawned 7 1, .spawned 8 1] ∧
        ¬ KeepsProcesses (fresh demo) [.startRequested, .spawned 7 1, .spawnFailed 1] := by
  refine ⟨new_demo, by decide +kernel, by decide +kernel, by decide +kernel, by decide +kernel,
    by decide +kernel, by decide +kernel, ?_, ?_⟩
  · rintro ⟨-, -, -, ⟨hkeeps, -⟩, -⟩
    have hkept := hkeeps 7 (by decide +kernel)
    have hp : (step (final step (fresh demo) [.startRequested, .spawned 7 1])
      (.spawned 8 1)).1.pid = some 8 := by decide +kernel
    rcases hkept with hkept | ⟨_, _, ⟨⟩⟩ | ⟨_, _, ⟨⟩⟩
    cases hp.symm.trans hkept
  · rintro ⟨-, -, -, ⟨-, hlive⟩, -⟩
    have hup := hlive (by decide +kernel)
    revert hup
    decide +kernel

end FractalD.Core.LiveProcess
