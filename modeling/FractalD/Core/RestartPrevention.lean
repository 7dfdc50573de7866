import FractalD.Core.Outcomes

namespace FractalD.Core.RestartPrevention

open FractalD.Core.Lifecycle FractalD.Core.Outcomes FractalD.Core.Record FractalD.Core.Restarts
open FractalD.Core.Spec FractalD.Machine.EventRuns

/-- A restart is scheduled only after an exit that does not prevent it. -/
def Heeds (r : ServiceRecord) (e : Event) : Prop :=
  schedules (emitted step r e) ≠ 0 →
    ∀ reason, (step r e).1.lastExit = some reason → ¬ prevented r reason

/-- The restarts that are decided on another exit than the one that is recorded, or on none:
that of a process that is being stopped because it has failed, and that after a launch
that has failed. -/
def Overrules (r : ServiceRecord) : Event → Prop
  | .spawnFailed generation =>
    r.state = .starting ∧ generation = r.generation ∧ prevented r (.exited 127) ∧
      r.spec.restart.shouldRestart (.exited 127) ∧ r.restartCount < r.spec.restartLimit
  | .exited pid generation reason =>
    failing r ∧ r.pid = some pid ∧ generation = r.generation ∧ prevented r reason ∧ retries r
  | _ => False

section

variable {r r' : ServiceRecord} {e : Event} {actions : List Action} {generation : Nat}

theorem schedules_of_none (h : ∀ a ∈ actions, isSchedule a = false) : schedules actions = 0 :=
  List.countP_eq_zero.mpr fun a ha => by simp [h a ha]

theorem schedules_fails (h : Fails r r' actions) : schedules actions = 0 := by
  obtain ⟨pid, -, -, -, rfl⟩ | ⟨-, -, -, rfl⟩ := h <;> rfl

theorem schedules_cases (h : r.transition e = .ok (r', actions)) (hs : schedules actions ≠ 0) :
    (∃ generation, e = .spawnFailed generation) ∨
      ∃ pid generation reason, e = .exited pid generation reason := by
  cases e with
  | spawnFailed generation => exact .inl ⟨generation, rfl⟩
  | exited pid generation reason => exact .inr ⟨pid, generation, reason, rfl⟩
  | startFailed generation =>
    exact absurd (schedules_fails (Outcomes.startFailed_outcome h).2.2) hs
  | startTimedOut generation =>
    exact absurd (schedules_fails (Outcomes.startTimedOut_outcome h).2.2) hs
  | runtimeTimedOut generation =>
    exact absurd (schedules_fails (Outcomes.runtimeTimedOut_outcome h).2.2) hs
  | startRequested =>
    obtain ⟨-, -, rfl⟩ | ⟨-, -, -, rfl⟩ := startRequested_outcome h <;> exact absurd rfl hs
  | stopRequested =>
    obtain ⟨_, _, h', hquiet, -⟩ := stop_ok r
    cases h.symm.trans h'
    exact absurd (schedules_of_none fun a ha => (hquiet a ha).2) hs
  | restartDue generation =>
    obtain ⟨-, -, -, rfl⟩ := Outcomes.restartDue_outcome h
    exact absurd rfl hs
  | spawned pid generation =>
    simp only [ServiceRecord.transition, ServiceRecord.spawned, guard_ok, during_ok,
      checkGeneration_ok] at h
    obtain ⟨-, -, -, h⟩ := h
    split_ifs at h <;> cases h <;> exact absurd rfl hs
  | stopTimedOut generation =>
    simp only [ServiceRecord.transition, ServiceRecord.stopTimedOut, during_ok,
      checkGeneration_ok] at h
    obtain ⟨-, -, h⟩ := h
    cases hp : r.pid <;> simp only [hp] at h <;> cases h <;> exact absurd rfl hs
  | reset =>
    simp only [ServiceRecord.transition, ServiceRecord.reset] at h
    cases hr : r.state <;> simp only [hr, pure_ok, throw_ok, Prod.mk.injEq] at h
    all_goals
      obtain ⟨-, rfl⟩ := h
      exact absurd rfl hs
  | adopted | ready | activated | conditionSkipped | stopCompleted | jobTimedOut | startLimitHit =>
    simp only [ServiceRecord.transition, ServiceRecord.adopted, ServiceRecord.ready,
      ServiceRecord.activated, ServiceRecord.conditionSkipped, ServiceRecord.stopCompleted,
      ServiceRecord.jobTimedOut, ServiceRecord.startLimitHit, guard_ok, during_ok,
      checkGeneration_ok, expectPid_ok, pure_ok, Prod.mk.injEq] at h
    have hnil : actions = [] := by tauto
    rw [hnil] at hs
    exact absurd rfl hs

/-- A failed launch is restarted as the policy and the limit have it. -/
theorem spawnFailed_schedules (h : r.transition (.spawnFailed generation) = .ok (r', actions)) :
    r.state = .starting ∧ generation = r.generation ∧ r'.lastExit = some (.exited 127) ∧
      (schedules actions ≠ 0 ↔ r.spec.restart.shouldRestart (.exited 127) = true ∧
        r.restartCount < r.spec.restartLimit) := by
  simp only [ServiceRecord.transition, ServiceRecord.spawnFailed, during_ok, checkGeneration_ok,
    pure_ok, List.mem_singleton] at h
  obtain ⟨hs, hg, h⟩ := h
  obtain ⟨hc, hl, rfl, rfl⟩ | ⟨hnot, h⟩ := retry_cases h
  · exact ⟨hs, hg, rfl, iff_of_true Nat.one_ne_zero ⟨hc, hl⟩⟩
  · cases h
    exact ⟨hs, hg, rfl, iff_of_false (not_not.mpr rfl) hnot⟩

/-- An exit is recorded as it was, and that of a failing process is restarted like one
with the status 1. -/
theorem exited_schedules_iff {pid : Nat} {reason : ExitReason}
    (h : r.transition (.exited pid generation reason) = .ok (r', actions)) :
    r.pid = some pid ∧ generation = r.generation ∧ r'.lastExit = some reason ∧
      (failing r → (schedules actions ≠ 0 ↔ retries r)) ∧
      (¬ failing r → schedules actions ≠ 0 → ¬ prevented r reason) := by
  simp only [ServiceRecord.transition, ServiceRecord.exited, during_ok, checkGeneration_ok,
    expectPid_ok] at h
  obtain ⟨-, hg, hp, h⟩ := h
  by_cases hst : r.state = .stopping
  · rw [if_pos hst, pure_ok, ServiceRecord.exitedStopping] at h
    by_cases hf : (r.startFailed || r.runtimeFailed) = true
    · have hfailing : failing r := by simp [failing, hst, hf]
      rw [if_pos hf] at h
      obtain ⟨hc, hl, rfl, rfl⟩ | ⟨hnot, h⟩ := retry_cases h
      · refine ⟨hp, hg, rfl, fun _ => iff_of_true Nat.one_ne_zero ?_, fun hn => absurd hfailing hn⟩
        simpa [retries, prevented] using And.intro hc hl
      · cases h
        refine ⟨hp, hg, rfl, fun _ => iff_of_false (not_not.mpr rfl) ?_, fun hn => absurd hfailing hn⟩
        simpa [retries, prevented] using hnot
    · rw [if_neg hf] at h
      cases h
      refine ⟨hp, hg, rfl, fun hfailing => ?_, fun _ hs => absurd rfl hs⟩
      simp [failing, hst] at hfailing
      simp [hfailing] at hf
  · have hnf : ¬ failing r := by simp [failing, hst]
    rw [if_neg hst, pure_ok, ServiceRecord.exitedByItself] at h
    split at h
    · cases h
      exact ⟨hp, hg, rfl, fun hf => absurd hf hnf, fun _ hs => absurd rfl hs⟩
    · obtain ⟨hc, -, rfl, rfl⟩ | ⟨-, h⟩ := retry_cases h
      · refine ⟨hp, hg, rfl, fun hf => absurd hf hnf, fun _ _ hprevented => ?_⟩
        rw [prevented] at hprevented
        simp [hprevented] at hc
      · split at h
        · cases h
          exact ⟨hp, hg, rfl, fun hf => absurd hf hnf, fun _ hs => absurd rfl hs⟩
        · cases h
          exact ⟨hp, hg, rfl, fun hf => absurd hf hnf, fun _ hs => absurd rfl hs⟩

theorem accepted_of_overrules (h : Overrules r e) : ∃ x, r.transition e = .ok x := by
  cases e with
  | spawnFailed generation =>
    obtain ⟨hs, rfl, -⟩ := h
    simp only [ServiceRecord.transition, ServiceRecord.spawnFailed, ServiceRecord.during,
      ServiceRecord.checkGeneration, hs, List.mem_singleton, if_true]
    exact ⟨_, rfl⟩
  | exited pid generation reason =>
    obtain ⟨hf, hp, rfl, -⟩ := h
    have hs : r.state = .stopping := by
      rw [failing, Bool.and_eq_true, decide_eq_true_eq] at hf
      exact hf.1
    simp only [ServiceRecord.transition, ServiceRecord.exited, ServiceRecord.during,
      ServiceRecord.checkGeneration, ServiceRecord.expectPid, hp, hs, if_true]
    exact ⟨_, rfl⟩
  | _ => exact h.elim

theorem step_heeds : Heeds r e ↔ ¬ Overrules r e := by
  cases h : r.transition e with
  | error error =>
    refine iff_of_true (fun hs => ?_) fun ho => ?_
    · rw [emitted, step_error h] at hs
      exact absurd rfl hs
    · obtain ⟨x, hx⟩ := accepted_of_overrules ho
      cases h.symm.trans hx
  | ok x =>
    obtain ⟨r', actions⟩ := x
    rw [Heeds, emitted, step_ok h, Option.getD_some]
    constructor
    · intro hheeds ho
      cases e with
      | spawnFailed generation =>
        obtain ⟨-, -, hlast, hiff⟩ := spawnFailed_schedules h
        exact hheeds (hiff.mpr ho.2.2.2) _ hlast ho.2.2.1
      | exited pid generation reason =>
        obtain ⟨-, -, hlast, hiff, -⟩ := exited_schedules_iff h
        obtain ⟨hf, -, -, hp, hr⟩ := ho
        exact hheeds ((hiff hf).mpr hr) _ hlast hp
      | _ => exact ho
    · intro ho hs reason hreason hp
      obtain ⟨generation, rfl⟩ | ⟨pid, generation, reason, rfl⟩ := schedules_cases h hs
      · obtain ⟨hstarting, hg, hlast, hiff⟩ := spawnFailed_schedules h
        cases hlast.symm.trans hreason
        exact ho ⟨hstarting, hg, hp, hiff.mp hs⟩
      · obtain ⟨hpid, hg, hlast, hfailing, hplain⟩ := exited_schedules_iff h
        cases hlast.symm.trans hreason
        by_cases hf : failing r
        · exact ho ⟨hf, hpid, hg, hp, (hfailing hf).mp hs⟩
        · exact hplain hf hs hp

end

/-- A service for which no run can overrule its exit statuses: its failures are not restarted,
or the two statuses that restarts are decided on are those that can be recorded. -/
def Sound (spec : ServiceSpec) : Prop :=
  spec.restartLimit = 0 ∨ spec.restart.shouldRestart (.exited 1) = false ∨
    127 ∉ spec.restartPreventExitStatus ∧
      (1 ∈ spec.restartPreventExitStatus ∨ spec.restartPreventExitStatus = [])

section

variable {spec : ServiceSpec} {r : ServiceRecord}

theorem shouldRestart_failure (policy : RestartPolicy) :
    policy.shouldRestart (.exited 127) = policy.shouldRestart (.exited 1) := by
  cases policy <;> rfl

theorem not_overrules (h : Sound r.spec) (e : Event) : ¬ Overrules r e := by
  intro ho
  cases e with
  | spawnFailed generation =>
    obtain ⟨-, -, hp, hr, hl⟩ := ho
    rw [shouldRestart_failure] at hr
    obtain h | h | ⟨h, -⟩ := h
    · omega
    · rw [h] at hr
      cases hr
    · exact h (of_decide_eq_true hp)
  | exited pid generation reason =>
    obtain ⟨-, -, -, hp, hr⟩ := ho
    simp only [retries, Bool.and_eq_true, decide_eq_true_eq, Bool.not_eq_true'] at hr
    obtain ⟨⟨hone, hr⟩, hl⟩ := hr
    obtain h | h | ⟨-, h | h⟩ := h
    · omega
    · rw [h] at hr
      cases hr
    · rw [prevented, ServiceRecord.exitStatusMatches, decide_eq_false_iff_not] at hone
      exact hone h
    · rw [prevented, h] at hp
      cases reason <;> cases hp
  | _ => exact ho

theorem along_sound {es : List Event} (h : Sound r.spec) :
    Along step (fun r e => ¬ Overrules r e) r es := by
  induction es generalizing r with
  | nil => trivial
  | cons e es ih =>
    refine ⟨not_overrules h e, ih ?_⟩
    rwa [step_spec]

theorem starting_reached (spec : ServiceSpec) :
    step (fresh spec) .startRequested =
      ({ fresh spec with state := .starting, generation := 1 }, some [.spawn 1]) := rfl

theorem failing_reached (spec : ServiceSpec) :
    let s := final step (fresh spec) [.startRequested, .spawned 7 1, .startFailed 1]
    failing s ∧ s.pid = some 7 ∧ s.generation = 1 ∧ s.spec = spec ∧ s.restartCount = 0 := by
  dsimp only [final]
  rw [starting_reached]
  by_cases hs : spec.serviceType = .notify ∨ spec.serviceType = .dbus
  · have hspawned : step { fresh spec with state := .starting, generation := 1 } (.spawned 7 1) =
        ({ fresh spec with state := .starting, generation := 1, pid := some 7 }, some []) := by
      apply step_ok
      simp only [ServiceRecord.transition, ServiceRecord.spawned, fresh, hs, if_true]
      rfl
    rw [hspawned]
    exact ⟨rfl, rfl, rfl, rfl, rfl⟩
  · have hspawned : step { fresh spec with state := .starting, generation := 1 } (.spawned 7 1) =
        ({ fresh spec with state := .running, generation := 1, pid := some 7 }, some []) := by
      apply step_ok
      simp only [ServiceRecord.transition, ServiceRecord.spawned, fresh, hs, if_true, if_false]
      rfl
    rw [hspawned]
    exact ⟨rfl, rfl, rfl, rfl, rfl⟩

theorem overrules_reached (h : ¬ Sound spec) :
    Overrules (final step (fresh spec) [.startRequested]) (.spawnFailed 1) ∨
      ∃ code, Overrules (final step (fresh spec) [.startRequested, .spawned 7 1, .startFailed 1])
        (.exited 7 1 (.exited code)) := by
  simp only [Sound, not_or, Bool.not_eq_false, not_and] at h
  obtain ⟨hlimit, hrestart, hlist⟩ := h
  by_cases hspawn : 127 ∈ spec.restartPreventExitStatus
  · refine .inl ⟨rfl, rfl, decide_eq_true hspawn, ?_, Nat.pos_of_ne_zero hlimit⟩
    exact (shouldRestart_failure _).trans hrestart
  · obtain ⟨hone, hne⟩ := hlist hspawn
    obtain ⟨code, hcode⟩ := List.exists_mem_of_ne_nil _ hne
    obtain ⟨hf, hp, hg, hspec, hcount⟩ := failing_reached spec
    refine .inr ⟨code, hf, hp, hg.symm, ?_, ?_⟩
    · rw [prevented, hspec]
      exact decide_eq_true hcode
    · rw [retries, hspec, hcount, prevented, hspec, hrestart]
      simp [ServiceRecord.exitStatusMatches, hone, Nat.pos_of_ne_zero hlimit]

end

/-- The restarts of a run are not of exits that prevent them exactly if no failure is
restarted in spite of its exit, and all the runs of a service are so exactly if it is sound. -/
theorem heeds_iff {spec : ServiceSpec} {r : ServiceRecord} (h : ServiceRecord.new spec = .ok r)
    (es : List Event) :
    (Along step Heeds r es ↔ Along step (fun r e => ¬ Overrules r e) r es) ∧
      ((∀ fs, Along step Heeds r fs) ↔ Sound spec) := by
  have hsame : Heeds = fun r e => ¬ Overrules r e :=
    funext fun _ => funext fun _ => propext step_heeds
  rw [hsame, new_ok h]
  refine ⟨Iff.rfl, fun hall => ?_, fun hsound fs => ?_⟩
  · by_contra hsound
    obtain ho | ⟨code, ho⟩ := overrules_reached hsound
    · exact (hall [.startRequested, .spawnFailed 1]).2.1 ho
    · have hrun := hall [.startRequested, .spawned 7 1, .startFailed 1,
        .exited 7 1 (.exited code)]
      exact hrun.2.2.2.1 ho
  · exact along_sound hsound

/-- A service that is always restarted, but not after some exits. -/
def careful : ServiceSpec :=
  { name := "careful".toList, program := "/usr/bin/careful".toList, restart := .always,
    restartPreventExitStatus := [7, 127] }

theorem new_careful : ServiceRecord.new careful = .ok (fresh careful) := rfl

theorem heeds_iff_careful :
    (Along step Heeds (fresh careful) [.startRequested, .spawned 9 1, .exited 9 1 (.exited 7)] ↔
        Along step (fun r e => ¬ Overrules r e) (fresh careful)
          [.startRequested, .spawned 9 1, .exited 9 1 (.exited 7)]) ∧
      ((∀ fs, Along step Heeds (fresh careful) fs) ↔ Sound careful) :=
  heeds_iff new_careful [.startRequested, .spawned 9 1, .exited 9 1 (.exited 7)]

def launchFailed : List Event := [.startRequested, .spawnFailed 1]

def stoppedFailing : List Event :=
  [.startRequested, .spawned 9 1, .startFailed 1, .exited 9 1 (.exited 7)]

/-- A launch that has failed is restarted though its status prevents that, and so is a
process that was stopped because it had failed. -/
theorem prevented_restart :
    ServiceRecord.new careful = .ok (fresh careful) ∧
      ((final step (fresh careful) launchFailed).lastExit = some (.exited 127) ∧
        (final step (fresh careful) launchFailed).state = .backoff ∧
        ¬ Along step Heeds (fresh careful) launchFailed) ∧
      (final step (fresh careful) stoppedFailing).lastExit = some (.exited 7) ∧
        (final step (fresh careful) stoppedFailing).state = .backoff ∧
        ¬ Along step Heeds (fresh careful) stoppedFailing := by
  refine ⟨new_careful, ⟨by decide +kernel, by decide +kernel, fun h => ?_⟩, by decide +kernel,
    by decide +kernel, fun h => ?_⟩
  · exact h.2.1 (by decide +kernel) (.exited 127) (by decide +kernel) (by decide +kernel)
  · exact h.2.2.2.1 (by decide +kernel) (.exited 7) (by decide +kernel) (by decide +kernel)

end FractalD.Core.RestartPrevention
