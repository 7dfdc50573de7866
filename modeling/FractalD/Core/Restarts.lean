import FractalD.Core.Lifecycle

namespace FractalD.Core.Restarts

open FractalD.Core.Record FractalD.Core.Spec FractalD.Core.Lifecycle FractalD.Machine.EventRuns

def spawnOf : Action → Option Nat
  | .spawn generation => some generation
  | .sendSignal .. | .scheduleRestart .. => none

def isSchedule : Action → Bool
  | .scheduleRestart .. => true
  | .spawn _ | .sendSignal .. => false

/-- The generations of the processes that actions ask for. -/
def spawns (actions : List Action) : List Nat := actions.filterMap spawnOf

def schedules (actions : List Action) : Nat := actions.countP isSchedule

def busy (r : ServiceRecord) : Bool :=
  r.state ∈ [ServiceState.starting, .running, .stopping, .backoff]

/-- How many restarts a record may still schedule before it is started again. -/
def left (r : ServiceRecord) : Nat := if busy r then r.spec.restartLimit - r.restartCount else 0

/-- The process is being stopped because it has failed. -/
def failing (r : ServiceRecord) : Bool :=
  r.state = .stopping && (r.startFailed || r.runtimeFailed)

/-- A failed process is restarted. -/
def retries (r : ServiceRecord) : Bool :=
  !prevented r (.exited 1) && r.spec.restart.shouldRestart (.exited 1) &&
    r.restartCount < r.spec.restartLimit

/-- Nothing but a start launches the service again. -/
def Settled (r : ServiceRecord) : Prop :=
  r.state ∈ [ServiceState.defined, .exited, .skipped, .failed] ∨
    r.state = .stopping ∧ ¬ (failing r ∧ retries r)

/-- What a transition does to the counters of a record. -/
structure Moved (r : ServiceRecord) (e : Event) (r' : ServiceRecord) (actions : List Action) :
    Prop where
  spec : r'.spec = r.spec
  generation : r'.generation = r.generation ∧ spawns actions = [] ∨
    r'.generation = r.advanceGeneration.generation ∧
      (spawns actions = [] ∨ spawns actions = [r'.generation])
  count : r.restartCount ≤ r.spec.restartLimit → r'.restartCount ≤ r.spec.restartLimit
  budget : e ≠ .startRequested → schedules actions + left r' ≤ left r
  settled : e ≠ .startRequested → Settled r →
    Settled r' ∧ spawns actions = [] ∧ schedules actions = 0
  process : (failing r → r.pid.isSome) → failing r' → r'.pid.isSome

section

variable {α : Type} {r : ServiceRecord} {x : α} {error : TransitionError}

theorem pure_ok {y : α} : (pure y : Except TransitionError α) = .ok x ↔ y = x := by
  constructor
  · rintro ⟨⟩
    rfl
  · rintro rfl
    rfl

theorem throw_ok : (throw error : Except TransitionError α) = .ok x ↔ False := by
  constructor
  · rintro ⟨⟩
  · exact False.elim

theorem throw_bind_ok {β : Type} {f : β → Except TransitionError α} :
    (throw error >>= f) = .ok x ↔ False := throw_ok

theorem guard_ok {c : Prop} [Decidable c] {y : Except TransitionError α} :
    (if c then throw error >>= fun (_ : PUnit) => y else y) = .ok x ↔ ¬ c ∧ y = .ok x := by
  by_cases h : c
  · simp only [h, if_true, not_true_eq_false, false_and, throw_bind_ok]
  · simp only [h, if_false, not_false_eq_true, true_and]

theorem during_ok {states : List ServiceState} {event : Event}
    {f : Unit → Except TransitionError α} :
    (r.during states event >>= f) = .ok x ↔ r.state ∈ states ∧ f () = .ok x := by
  by_cases h : r.state ∈ states
  · simp only [ServiceRecord.during, h, if_true, true_and]
    rfl
  · simp only [ServiceRecord.during, h, if_false, false_and, throw_bind_ok]

theorem checkGeneration_ok {generation : Nat} {f : Unit → Except TransitionError α} :
    (r.checkGeneration generation >>= f) = .ok x ↔ generation = r.generation ∧ f () = .ok x := by
  by_cases h : generation = r.generation
  · simp only [ServiceRecord.checkGeneration, h, if_true, true_and]
    rfl
  · simp only [ServiceRecord.checkGeneration, h, if_false, false_and, throw_bind_ok]

theorem expectPid_ok {pid : Nat} {f : Unit → Except TransitionError α} :
    (r.expectPid pid >>= f) = .ok x ↔ r.pid = some pid ∧ f () = .ok x := by
  cases h : r.pid with
  | none => simp only [ServiceRecord.expectPid, h, reduceCtorEq, false_and, throw_bind_ok]
  | some expected =>
    by_cases he : expected = pid
    · simp only [ServiceRecord.expectPid, h, he, if_true, true_and]
      rfl
    · simp only [ServiceRecord.expectPid, h, he, if_false, Option.some.injEq, false_and,
        throw_bind_ok]

end

section

variable {r r' : ServiceRecord} {actions : List Action} {pid generation : Nat}

/-- A wanted restart is scheduled if the limit allows it. -/
theorem retry_cases {c : Prop} [Decidable c] {x : ServiceRecord × List Action}
    (h : (if c then r.backoff else none).getD x = (r', actions)) :
    (c ∧ r.restartCount < r.spec.restartLimit ∧
      r' = { r with restartCount := r.restartCount + 1, state := .backoff } ∧
      actions = [.scheduleRestart r.generation r.spec.restartBackoff]) ∨
    (¬ (c ∧ r.restartCount < r.spec.restartLimit) ∧ x = (r', actions)) := by
  by_cases hc : c
  · by_cases hl : r.restartCount < r.spec.restartLimit
    · simp only [hc, hl, ServiceRecord.backoff, if_true, Option.getD_some, Prod.mk.injEq] at h
      exact .inl ⟨hc, hl, h.1.symm, h.2.symm⟩
    · simp only [hc, hl, ServiceRecord.backoff, if_true, if_false, Option.getD_none] at h
      exact .inr ⟨fun hn => hl hn.2, h⟩
  · simp only [hc, if_false, Option.getD_none] at h
    exact .inr ⟨fun hn => hc hn.1, h⟩

attribute [local simp] spawns spawnOf schedules isSchedule busy left failing retries Settled
  prevented ServiceRecord.advanceGeneration

theorem start_moved (h : r.start = .ok (r', actions)) : Moved r .startRequested r' actions := by
  simp only [ServiceRecord.start] at h
  cases hs : r.state <;> simp only [hs, pure_ok, throw_ok, Prod.mk.injEq] at h
  all_goals
    obtain ⟨rfl, rfl⟩ := h
    constructor <;> simp [hs]

theorem spawned_moved (h : r.spawned pid generation = .ok (r', actions)) :
    Moved r (.spawned pid generation) r' actions := by
  simp only [ServiceRecord.spawned, guard_ok, during_ok, checkGeneration_ok] at h
  obtain ⟨-, hs, rfl, h⟩ := h
  split_ifs at h <;> cases h <;> constructor <;> simp [*]

theorem adopted_moved (h : r.adopted pid generation = .ok (r', actions)) :
    Moved r (.adopted pid generation) r' actions := by
  simp only [ServiceRecord.adopted, guard_ok, during_ok, checkGeneration_ok, pure_ok,
    Prod.mk.injEq] at h
  obtain ⟨-, -, rfl, rfl, rfl⟩ := h
  constructor <;> simp

theorem ready_moved (h : r.ready pid generation = .ok (r', actions)) :
    Moved r (.ready pid generation) r' actions := by
  simp only [ServiceRecord.ready, guard_ok, during_ok, checkGeneration_ok, expectPid_ok, pure_ok,
    List.mem_singleton, Prod.mk.injEq] at h
  obtain ⟨hs, -, rfl, -, rfl, rfl⟩ := h
  constructor <;> simp [hs]

theorem activated_moved (h : r.activated generation = .ok (r', actions)) :
    Moved r (.activated generation) r' actions := by
  simp only [ServiceRecord.activated, during_ok, checkGeneration_ok, pure_ok, List.mem_singleton,
    Prod.mk.injEq] at h
  obtain ⟨hs, rfl, rfl, rfl⟩ := h
  constructor <;> simp [hs]

theorem conditionSkipped_moved (h : r.conditionSkipped generation = .ok (r', actions)) :
    Moved r (.conditionSkipped generation) r' actions := by
  simp only [ServiceRecord.conditionSkipped, during_ok, checkGeneration_ok, pure_ok,
    List.mem_singleton, Prod.mk.injEq] at h
  obtain ⟨hs, rfl, rfl, rfl⟩ := h
  constructor <;> simp [hs]

theorem failStart_moved (h : r.failStart generation = .ok (r', actions)) :
    Moved r (.startFailed generation) r' actions := by
  simp only [ServiceRecord.failStart, during_ok, checkGeneration_ok] at h
  obtain ⟨hs, rfl, h⟩ := h
  cases hp : r.pid <;> simp only [hp] at h <;> cases h
  all_goals rcases List.mem_pair.mp hs with hs | hs <;> constructor <;> simp [hs]

theorem spawnFailed_moved (h : r.spawnFailed generation = .ok (r', actions)) :
    Moved r (.spawnFailed generation) r' actions := by
  simp only [ServiceRecord.spawnFailed, during_ok, checkGeneration_ok, pure_ok,
    List.mem_singleton] at h
  obtain ⟨hs, rfl, h⟩ := h
  obtain ⟨-, hl, rfl, rfl⟩ | ⟨-, h⟩ := retry_cases h
  · have hl' : r.restartCount < r.spec.restartLimit := hl
    constructor <;> simp [hs] <;> omega
  · cases h
    constructor <;> simp [hs]

theorem stop_moved (h : r.stop = .ok (r', actions)) : Moved r .stopRequested r' actions := by
  simp only [ServiceRecord.stop] at h
  cases hs : r.state with
  | starting | running =>
    simp only [hs] at h
    split_ifs at h
    · cases h
      constructor <;> simp [hs]
    · cases h
      cases hp : r.pid <;> constructor <;> simp [hs, hp]
  | active | backoff | defined | exited | skipped | failed | stopping =>
    simp only [hs, pure_ok, Prod.mk.injEq] at h
    obtain ⟨rfl, rfl⟩ := h
    constructor <;> simp [hs]

theorem stopCompleted_moved (h : r.stopCompleted = .ok (r', actions)) :
    Moved r .stopCompleted r' actions := by
  simp only [ServiceRecord.stopCompleted, guard_ok, pure_ok, Prod.mk.injEq] at h
  obtain ⟨-, rfl, rfl⟩ := h
  constructor <;> simp

section

variable {reason : ExitReason} {last : Option ExitReason}

theorem exitedStopping_moved (hs : r.state = .stopping)
    (h : { r with
      pid := none, lastExit := last, startFailed := false, runtimeFailed := false
      }.exitedStopping (r.startFailed || r.runtimeFailed) = (r', actions)) :
    Moved r (.exited pid generation reason) r' actions := by
  simp only [ServiceRecord.exitedStopping] at h
  cases hf : r.startFailed || r.runtimeFailed with
  | true =>
    rw [hf, if_pos rfl] at h
    obtain ⟨hc, hl, rfl, rfl⟩ | ⟨-, h⟩ := retry_cases h
    · constructor <;> simp_all
      all_goals omega
    · cases h
      constructor <;> simp [hs]
  | false =>
    simp only [hf, Bool.false_eq_true, if_false] at h
    cases h
    constructor <;> simp [hs]

theorem exitedByItself_moved (hs : r.state = .starting ∨ r.state = .running)
    (h : { r with
      pid := none, lastExit := last, startFailed := false, runtimeFailed := false
      }.exitedByItself reason = (r', actions)) :
    Moved r (.exited pid generation reason) r' actions := by
  simp only [ServiceRecord.exitedByItself] at h
  split at h
  · cases h
    rcases hs with hs | hs <;> constructor <;> simp [hs]
  · obtain ⟨-, hl, rfl, rfl⟩ | ⟨-, h⟩ := retry_cases h
    · have hl' : r.restartCount < r.spec.restartLimit := hl
      rcases hs with hs | hs <;> constructor <;> simp [hs] <;> omega
    · split at h <;> cases h <;> rcases hs with hs | hs <;> constructor <;> simp [hs]

theorem exited_moved (h : r.exited pid generation reason = .ok (r', actions)) :
    Moved r (.exited pid generation reason) r' actions := by
  simp only [ServiceRecord.exited, during_ok, checkGeneration_ok, expectPid_ok] at h
  obtain ⟨hs, rfl, -, h⟩ := h
  by_cases hst : r.state = .stopping
  · rw [if_pos hst, pure_ok] at h
    exact exitedStopping_moved hst h
  · rw [if_neg hst, pure_ok] at h
    exact exitedByItself_moved (by simpa [hst] using hs) h

end

theorem startTimedOut_moved (h : r.startTimedOut generation = .ok (r', actions)) :
    Moved r (.startTimedOut generation) r' actions := by
  simp only [ServiceRecord.startTimedOut, during_ok, checkGeneration_ok, List.mem_singleton] at h
  obtain ⟨hs, rfl, h⟩ := h
  cases hp : r.pid <;> simp only [hp] at h <;> cases h <;> constructor <;> simp [hs]

theorem runtimeTimedOut_moved (h : r.runtimeTimedOut generation = .ok (r', actions)) :
    Moved r (.runtimeTimedOut generation) r' actions := by
  simp only [ServiceRecord.runtimeTimedOut, during_ok, checkGeneration_ok, List.mem_singleton] at h
  obtain ⟨hs, rfl, h⟩ := h
  cases hp : r.pid <;> simp only [hp] at h <;> cases h <;> constructor <;> simp [hs]

theorem stopTimedOut_moved (h : r.stopTimedOut generation = .ok (r', actions)) :
    Moved r (.stopTimedOut generation) r' actions := by
  simp only [ServiceRecord.stopTimedOut, during_ok, checkGeneration_ok, List.mem_singleton] at h
  obtain ⟨hs, rfl, h⟩ := h
  cases hp : r.pid <;> simp only [hp] at h <;> cases h <;> constructor <;> simp [hs, hp]

theorem failWith_moved (e : Event) (reason : ExitReason) : Moved r e (r.failWith reason) [] := by
  simp only [ServiceRecord.failWith]
  constructor <;> simp

theorem jobTimedOut_moved (h : r.jobTimedOut = .ok (r', actions)) :
    Moved r .jobTimedOut r' actions := by
  simp only [ServiceRecord.jobTimedOut, during_ok, pure_ok, Prod.mk.injEq] at h
  obtain ⟨-, rfl, rfl⟩ := h
  exact failWith_moved _ _

theorem startLimitHit_moved (h : r.startLimitHit generation = .ok (r', actions)) :
    Moved r (.startLimitHit generation) r' actions := by
  simp only [ServiceRecord.startLimitHit, during_ok, checkGeneration_ok, pure_ok,
    Prod.mk.injEq] at h
  obtain ⟨-, -, rfl, rfl⟩ := h
  exact failWith_moved _ _

theorem restartDue_moved (h : r.restartDue generation = .ok (r', actions)) :
    Moved r (.restartDue generation) r' actions := by
  simp only [ServiceRecord.restartDue, during_ok, checkGeneration_ok, pure_ok, List.mem_singleton,
    Prod.mk.injEq] at h
  obtain ⟨hs, rfl, rfl, rfl⟩ := h
  constructor <;> simp [hs]

theorem reset_moved (h : r.reset = .ok (r', actions)) : Moved r .reset r' actions := by
  simp only [ServiceRecord.reset] at h
  cases hs : r.state <;> simp only [hs, pure_ok, throw_ok, Prod.mk.injEq] at h
  all_goals
    obtain ⟨rfl, rfl⟩ := h
    constructor <;> simp [hs]

theorem transition_moved {e : Event} (h : r.transition e = .ok (r', actions)) :
    Moved r e r' actions := by
  cases e with
  | startRequested => exact start_moved h
  | spawned => exact spawned_moved h
  | adopted => exact adopted_moved h
  | ready => exact ready_moved h
  | activated => exact activated_moved h
  | conditionSkipped => exact conditionSkipped_moved h
  | startFailed => exact failStart_moved h
  | spawnFailed => exact spawnFailed_moved h
  | stopRequested => exact stop_moved h
  | stopCompleted => exact stopCompleted_moved h
  | exited => exact exited_moved h
  | startTimedOut => exact startTimedOut_moved h
  | jobTimedOut => exact jobTimedOut_moved h
  | stopTimedOut => exact stopTimedOut_moved h
  | runtimeTimedOut => exact runtimeTimedOut_moved h
  | startLimitHit => exact startLimitHit_moved h
  | restartDue => exact restartDue_moved h
  | reset => exact reset_moved h

end

def fresh (spec : ServiceSpec) : ServiceRecord := ⟨spec, .defined, none, 0, 0, none, false, false⟩

def Unstarted (r : ServiceRecord) (e : Event) : Prop := ¬ (e = .startRequested ∧ Accepts step r e)

/-- How often a run advances the generation. -/
def advances : ServiceRecord → List Event → Nat
  | _, [] => 0
  | r, e :: es =>
    (if (step r e).1.generation = r.generation then 0 else 1) + advances (step r e).1 es

section

variable {r : ServiceRecord} {e : Event}

theorem step_moved (r : ServiceRecord) (e : Event) :
    (step r e = (r, none)) ∨
      ∃ r' actions, step r e = (r', some actions) ∧ Moved r e r' actions := by
  cases h : r.transition e with
  | ok x => exact .inr ⟨x.1, x.2, step_ok h, transition_moved h⟩
  | error error => exact .inl (step_error h)

theorem step_spec : (step r e).1.spec = r.spec := by
  obtain h | ⟨r', actions, h, hm⟩ := step_moved r e
  · rw [h]
  · rw [h, hm.spec]

theorem step_count (h : r.restartCount ≤ r.spec.restartLimit) :
    (step r e).1.restartCount ≤ (step r e).1.spec.restartLimit := by
  obtain h' | ⟨r', actions, h', hm⟩ := step_moved r e
  · rwa [h']
  · rw [h', hm.spec]
    exact hm.count h

theorem step_process (h : failing r → r.pid.isSome) :
    failing (step r e).1 → (step r e).1.pid.isSome := by
  obtain h' | ⟨r', actions, h', hm⟩ := step_moved r e
  · rwa [h']
  · rw [h']
    exact hm.process h

theorem step_budget (h : Unstarted r e) :
    schedules (emitted step r e) + left (step r e).1 ≤ left r := by
  obtain h' | ⟨r', actions, h', hm⟩ := step_moved r e
  · simp [emitted, h', schedules]
  · have he : e ≠ .startRequested := fun he => h ⟨he, by simp [Accepts, h']⟩
    simpa [emitted, h'] using hm.budget he

theorem step_settled (h : Unstarted r e) (hs : Settled r) : Settled (step r e).1 ∧
    ∀ a ∈ emitted step r e, spawnOf a = none ∧ isSchedule a = false := by
  obtain h' | ⟨r', actions, h', hm⟩ := step_moved r e
  · simpa [emitted, h'] using hs
  · have he : e ≠ .startRequested := fun he => h ⟨he, by simp [Accepts, h']⟩
    obtain ⟨hs', hspawn, hschedule⟩ := hm.settled he hs
    refine ⟨by simpa [h'] using hs', fun a ha => ?_⟩
    have hmem : a ∈ actions := by simpa [emitted, h'] using ha
    exact ⟨List.filterMap_eq_nil_iff.mp hspawn a hmem,
      by simpa using List.countP_eq_zero.mp hschedule a hmem⟩

theorem step_spawns :
    (step r e).1.generation = r.generation ∧ spawns (emitted step r e) = [] ∨
      (step r e).1.generation = r.advanceGeneration.generation ∧
        (spawns (emitted step r e) = [] ∨
          spawns (emitted step r e) = [(step r e).1.generation]) := by
  obtain h' | ⟨r', actions, h', hm⟩ := step_moved r e
  · exact .inl ⟨by rw [h'], by simp [emitted, h', spawns]⟩
  · simpa only [emitted, h', Option.getD_some] using hm.generation

theorem step_between (h : r.generation + advances r [e] < 2 ^ 64) :
    (step r e).1.generation = r.generation + advances r [e] ∧
      (∀ generation ∈ spawns (emitted step r e),
        r.generation < generation ∧ generation = (step r e).1.generation) ∧
      (spawns (emitted step r e)).Pairwise (· < ·) := by
  simp only [advances, Nat.add_zero] at h ⊢
  obtain ⟨hg, ha⟩ | ⟨hg, ha⟩ := step_spawns (r := r) (e := e)
  · simp [hg, ha]
  · have hn : (step r e).1.generation ≠ r.generation := by
      rw [hg, ServiceRecord.advanceGeneration]
      dsimp only
      split <;> omega
    simp only [hn, if_false] at h ⊢
    have hs : (step r e).1.generation = r.generation + 1 := by
      rw [hg, ServiceRecord.advanceGeneration]
      exact if_pos h
    obtain ha | ha := ha
    · simp [ha, hs]
    · simp [ha, hs]

end

section

variable {r : ServiceRecord} {es : List Event}

theorem spawns_increase (h : r.generation + advances r es < 2 ^ 64) :
    (∀ generation ∈ spawns (actions step r es), r.generation < generation) ∧
      (spawns (actions step r es)).Pairwise (· < ·) := by
  induction es generalizing r with
  | nil => simp [actions, spawns]
  | cons e es ih =>
    have hadvances : advances r (e :: es) = advances r [e] + advances (step r e).1 es := by
      simp [advances]
    obtain ⟨hg, hspawn, hpair⟩ := step_between (r := r) (e := e) (by omega)
    obtain ⟨habove, hincrease⟩ := ih (r := (step r e).1) (by omega)
    have hlater : ∀ generation ∈ spawns (actions step (step r e).1 es),
        (step r e).1.generation < generation := habove
    rw [actions, spawns, List.filterMap_append]
    constructor
    · intro generation hm
      obtain hm | hm := List.mem_append.mp hm
      · exact (hspawn generation hm).1
      · have := hlater generation hm
        omega
    · refine List.pairwise_append.mpr ⟨hpair, hincrease, fun g hm g' hm' => ?_⟩
      rw [(hspawn g hm).2]
      exact hlater g' hm'

theorem final_spec : (final step r es).spec = r.spec :=
  final_keeps (i := fun s : ServiceRecord => s.spec = r.spec)
    (fun _ _ h => by rw [step_spec, h]) rfl es

theorem final_count (h : r.restartCount ≤ r.spec.restartLimit) :
    (final step r es).restartCount ≤ (final step r es).spec.restartLimit :=
  final_keeps (i := fun s : ServiceRecord => s.restartCount ≤ s.spec.restartLimit)
    (fun _ _ => step_count) h es

theorem final_process (h : failing r → r.pid.isSome) :
    failing (final step r es) → (final step r es).pid.isSome :=
  final_keeps (i := fun s : ServiceRecord => failing s → s.pid.isSome)
    (fun _ _ => step_process) h es

theorem schedules_le_left (h : Along step Unstarted r es) :
    schedules (actions step r es) ≤ left r :=
  countP_le_left (i := fun _ => True) (fun _ _ => id) (fun _ _ _ => step_budget) trivial h

theorem left_le : left r ≤ r.spec.restartLimit := by
  rw [left]
  split
  · exact Nat.sub_le _ _
  · exact Nat.zero_le _

theorem new_ok {spec : ServiceSpec} (h : ServiceRecord.new spec = .ok r) : r = fresh spec := by
  cases hv : spec.validate with
  | error error =>
    simp only [ServiceRecord.new, hv] at h
    cases h
  | ok _ =>
    simp only [ServiceRecord.new, hv] at h
    cases h
    rfl

end

/-- The restart count keeps to its limit; from one accepted start to the next at most
that many restarts are scheduled; the launched generations increase while the counter
does not wrap around; an event that is rejected changes nothing. -/
theorem restarts_bounded {spec : ServiceSpec} {r : ServiceRecord}
    (h : ServiceRecord.new spec = .ok r) (es : List Event) :
    (final step r es).restartCount ≤ spec.restartLimit ∧
      (∀ fs, Along step Unstarted (final step r es) fs →
        schedules (actions step (final step r es) fs) ≤ spec.restartLimit) ∧
      (advances r es < 2 ^ 64 → (spawns (actions step r es)).Pairwise (· < ·)) ∧
      ∀ e, ¬ Accepts step (final step r es) e →
        (step (final step r es) e).1 = final step r es := by
  have hr := new_ok h
  have hspec : (final step r es).spec = spec := by
    rw [final_spec, hr]
    rfl
  refine ⟨?_, fun fs hfs => ?_, fun ha => ?_, fun e he => ?_⟩
  · rw [← hspec]
    exact final_count (by rw [hr]; exact Nat.zero_le _)
  · have := schedules_le_left hfs
    have := left_le (r := final step r es)
    rw [hspec] at this
    omega
  · exact (spawns_increase (by rw [hr] at ha ⊢; simpa [fresh] using ha)).2
  · rw [not_accepts he]

/-- A service that is restarted when it fails. -/
def demo : ServiceSpec :=
  { name := "demo".toList, program := "/usr/bin/demo".toList, serviceType := .notify,
    restart := .onFailure }

theorem new_demo : ServiceRecord.new demo = .ok (fresh demo) := rfl

theorem restarts_bounded_demo :
    let es := [.startRequested, .spawned 7 1, .exited 7 1 (.exited 1), .restartDue 1]
    (final step (fresh demo) es).restartCount ≤ 5 ∧
      (∀ fs, Along step Unstarted (final step (fresh demo) es) fs →
        schedules (actions step (final step (fresh demo) es) fs) ≤ 5) ∧
      (spawns (actions step (fresh demo) es)).Pairwise (· < ·) ∧
      ∀ e, ¬ Accepts step (final step (fresh demo) es) e →
        (step (final step (fresh demo) es) e).1 = final step (fresh demo) es := by
  intro es
  obtain ⟨hcount, hbudget, hspawn, hsafe⟩ := restarts_bounded new_demo es
  exact ⟨hcount, hbudget, hspawn (by decide +kernel), hsafe⟩

section

variable {r : ServiceRecord}

theorem settled_run {es : List Event} (hs : Settled r) (h : Along step Unstarted r es) :
    ∀ a ∈ actions step r es, spawnOf a = none ∧ isSchedule a = false :=
  (run_keeps (i := Settled) (fun _ _ hu hs => step_settled hu hs) hs h).2

theorem stop_ok (r : ServiceRecord) : ∃ r' actions,
    r.transition .stopRequested = .ok (r', actions) ∧
    (∀ a ∈ actions, spawnOf a = none ∧ isSchedule a = false) ∧
    (¬ (failing r ∧ retries r) → Settled r') ∧ (r.state = .stopping → r' = r) := by
  simp only [ServiceRecord.transition, ServiceRecord.stop]
  cases hs : r.state with
  | starting | running =>
    by_cases hstop : r.spec.stop.isSome
    · refine ⟨_, _, by simp only [hstop, if_true]; rfl, ?_⟩
      simp [Settled, failing]
    · refine ⟨_, _, by simp only [hstop]; rfl, ?_⟩
      simp [Settled, failing, spawnOf, isSchedule]
  | active | backoff | defined | exited | skipped | failed =>
    refine ⟨_, _, rfl, ?_⟩
    simp [Settled, hs]
  | stopping =>
    refine ⟨_, _, rfl, ?_⟩
    simp [Settled, hs]

theorem exited_schedules {pid : Nat} (reason : ExitReason) (hf : failing r)
    (hr : retries r) (hp : r.pid = some pid) :
    ∃ r', step r (.exited pid r.generation reason) =
      (r', some [.scheduleRestart r.generation r.spec.restartBackoff]) := by
  obtain ⟨hs, hflag⟩ : r.state = .stopping ∧ (r.startFailed || r.runtimeFailed) = true := by
    simpa [failing] using hf
  obtain ⟨hwanted, hlimit⟩ : (!prevented r (.exited 1) &&
      r.spec.restart.shouldRestart (.exited 1)) = true ∧
      r.restartCount < r.spec.restartLimit := by
    simpa [retries] using hr
  let s := { r with
    pid := none, lastExit := some reason, startFailed := false, runtimeFailed := false }
  have hactions : (s.exitedStopping true).2 =
      [.scheduleRestart r.generation r.spec.restartBackoff] := by
    have hc : (!ServiceRecord.exitStatusMatches s.spec.restartPreventExitStatus (.exited 1) &&
        s.spec.restart.shouldRestart (.exited 1)) = true := hwanted
    have hl : s.restartCount < s.spec.restartLimit := hlimit
    simp only [ServiceRecord.exitedStopping, ServiceRecord.backoff, hc, hl, if_true,
      Option.getD_some]
    rfl
  refine ⟨(s.exitedStopping true).1, step_ok ?_⟩
  rw [← hactions]
  simp only [ServiceRecord.transition, ServiceRecord.exited, during_ok, checkGeneration_ok,
    expectPid_ok, hp, hs, if_true, hflag]
  exact ⟨by simp, trivial, trivial, rfl⟩

theorem along_exited (pid generation : Nat) (reason : ExitReason) :
    Along step Unstarted r [.stopRequested, .exited pid generation reason] := by
  simp [Along, Unstarted]

end

/-- A stop cancels every restart, except that of a process that is being stopped because
it has failed. -/
theorem stop_cancels_iff {spec : ServiceSpec} {r : ServiceRecord}
    (h : ServiceRecord.new spec = .ok r) (es : List Event) :
    Accepts step (final step r es) .stopRequested ∧
      ((∀ fs, Along step Unstarted (final step r es) (.stopRequested :: fs) →
          ∀ a ∈ actions step (final step r es) (.stopRequested :: fs),
            spawnOf a = none ∧ isSchedule a = false) ↔
        ¬ (failing (final step r es) ∧ retries (final step r es))) := by
  have hprocess : failing (final step r es) → (final step r es).pid.isSome :=
    final_process (by simp [new_ok h, fresh, failing])
  generalize final step r es = s at hprocess
  obtain ⟨s', actions', hs, hquiet, hsettled, hsame⟩ := stop_ok s
  have hstep := step_ok hs
  refine ⟨by simp [Accepts, hstep], fun hall hfail => ?_, fun hfail fs hfs a ha => ?_⟩
  · obtain ⟨pid, hp⟩ := Option.isSome_iff_exists.mp (hprocess hfail.1)
    have hstopping : s.state = .stopping := by
      have := hfail.1
      simp only [failing, Bool.and_eq_true, decide_eq_true_eq] at this
      exact this.1
    rw [hsame hstopping] at hstep
    obtain ⟨s'', hexit⟩ := exited_schedules (.exited 0) hfail.1 hfail.2 hp
    have := hall [.exited pid s.generation (.exited 0)] (along_exited _ _ _)
      (.scheduleRestart s.generation s.spec.restartBackoff)
      (by simp [actions, emitted, hstep, hexit])
    simp [isSchedule] at this
  · rw [actions, emitted, hstep] at ha
    obtain ha | ha := List.mem_append.mp ha
    · exact hquiet a ha
    · refine settled_run (hsettled hfail) ?_ a ha
      have := hfs.2
      rwa [hstep] at this

theorem stop_cancels_iff_demo :
    let r := final step (fresh demo) [.startRequested, .spawned 7 1]
    Accepts step r .stopRequested ∧
      ((∀ fs, Along step Unstarted r (.stopRequested :: fs) →
          ∀ a ∈ actions step r (.stopRequested :: fs), spawnOf a = none ∧ isSchedule a = false) ↔
        ¬ (failing r ∧ retries r)) :=
  stop_cancels_iff new_demo [.startRequested, .spawned 7 1]

/-- A service that is stopped while its timed out start is being ended starts again. -/
theorem stop_does_not_cancel :
    ServiceRecord.new demo = .ok (fresh demo) ∧
      let r := final step (fresh demo) [.startRequested, .spawned 7 1, .startTimedOut 1]
      let es := [.stopRequested, .exited 7 1 (.signaled sigTerm), .restartDue 1]
      Accepts step r .stopRequested ∧ Along step Unstarted r es ∧
        actions step r es = [.scheduleRestart 1 (milliseconds 250), .spawn 2] := by
  refine ⟨new_demo, by decide +kernel, ?_, by decide +kernel⟩
  simp [Along, Unstarted]

end FractalD.Core.Restarts
