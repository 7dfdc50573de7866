import FractalD.Machine.Windows
import FractalD.Manager.Survival
import FractalD.Supervisor.Execution

namespace FractalD.Supervisor.StartLimit

open FractalD.Core.Record FractalD.Core.Restarts FractalD.Core.Spec FractalD.Machine.CString
open FractalD.Machine.Effect FractalD.Machine.Windows FractalD.Manager.Survival
open FractalD.Supervisor.Execution FractalD.Supervisor.Service
open FractalD.Supervisor.StartFailure FractalD.Supervisor.System

/-- The limit that a service has, where what is not set has its default. -/
def Limited (spec : ServiceSpec) (interval : Duration) (burst : Nat) : Prop :=
  (spec.startLimitInterval.isSome ∨ spec.startLimitBurst.isSome) ∧
    spec.startLimitInterval.getD (seconds 10) = interval ∧ spec.startLimitBurst.getD 5 = burst

section

variable {ω : Type} (os : Os ω)

def accepts (now : Instant) (s : ManagedService × ω) : Bool :=
  match enforceStartLimit os now s with
  | .ok _ _ => true
  | .error _ _ => false

/-- The starts of a service since its attempts were last reset, at times that do not go
back, with the attempts that it has on record. In between, all but these may change. -/
inductive Starts (interval : Duration) (burst : Nat) :
    List (Instant × Bool) → List Instant → Prop
  | reset : Starts interval burst [] []
  | start {log : List (Instant × Bool)} {attempts : List Instant}
    (h : Starts interval burst log attempts) {s : ManagedService × ω}
    (hattempts : s.1.startAttempts = attempts) (hlimit : Limited s.1.spec interval burst)
    {now : Instant} (hnow : ∀ c ∈ log, c.1 ≤ now) :
    Starts interval burst (log ++ [(now, accepts os now s)])
      (final (enforceStartLimit os now) s).1.startAttempts

variable {interval : Duration} {burst : Nat} {s : ManagedService × ω}

theorem limitHit_ends (text : Str) (rest : Op ω Unit) {attempts : List Instant}
    (h : s.1.startAttempts = attempts) :
    Ends (fun _ _ => False) (fun _ t => t.1.startAttempts = attempts) ((do
      let _ ← transition "cannot record start limit for ".toList fun r =>
        .startLimitHit r.generation
      update ({ · with wantsRunning := false, restartAt := none })
      resetTriggerState
      cleanupDirectories os
      throw text
      rest : Op ω Unit) s) := by
  obtain ⟨m, w⟩ := s
  refine ends_bind (p := fun _ t => t.1.startAttempts = attempts) ?_ fun _ t ht => ?_
  · exact ends_transition (fun _ _ _ => h) h
  obtain ⟨m', w'⟩ := t
  simp only [resetTriggerState, update_bind]
  refine ends_bind (p := fun _ t => t.1.startAttempts = attempts) ?_ fun _ _ ht => ?_
  · exact ends_updates (cleanupDirectories_updates os) fun _ => ht
  · exact ht

/-- A start is accepted, and recorded, as a sliding window has it. -/
theorem enforceStartLimit_ends (now : Instant) (hlimit : Limited s.1.spec interval burst)
    (hi : 0 < interval) (hb : 0 < burst) :
    Ends (fun _ t => offer burst interval s.1.startAttempts now = (t.1.startAttempts, true))
      (fun _ t => offer burst interval s.1.startAttempts now = (t.1.startAttempts, false))
      (enforceStartLimit os now s) := by
  obtain ⟨hset, hinterval, hburst⟩ := hlimit
  have hlimited : ¬ (s.1.spec.startLimitInterval.isNone ∧ s.1.spec.startLimitBurst.isNone) := by
    rintro ⟨hi, hb⟩
    rw [Option.isNone_iff_eq_none.mp hi, Option.isNone_iff_eq_none.mp hb] at hset
    rcases hset with h | h <;> cases h
  have hpositive : ¬ (interval = 0 ∨ burst = 0) := not_or.mpr ⟨hi.ne', hb.ne'⟩
  simp only [enforceStartLimit, service_bind, if_neg hlimited, hinterval, hburst,
    if_neg hpositive, update_bind]
  split
  next hfull =>
    refine ends_mono (fun _ _ h => False.elim h) (fun _ t ht => ?_)
      (limitHit_ends os _ _ rfl)
    rw [ht]
    exact if_pos hfull
  next hfull => exact if_neg hfull

theorem enforceStartLimit_offers (now : Instant) (hlimit : Limited s.1.spec interval burst)
    (hi : 0 < interval) (hb : 0 < burst) :
    ((final (enforceStartLimit os now) s).1.startAttempts, accepts os now s) =
      offer burst interval s.1.startAttempts now := by
  have hends := enforceStartLimit_ends os now hlimit hi hb
  rw [final, accepts]
  cases hr : enforceStartLimit os now s with
  | ok u t =>
    rw [hr] at hends
    exact hends.symm
  | error e t =>
    rw [hr] at hends
    exact hends.symm

theorem starts_limits (hi : 0 < interval) (hb : 0 < burst) {log : List (Instant × Bool)}
    {attempts : List Instant} (h : Starts os interval burst log attempts) :
    Limits burst interval log attempts := by
  induction h with
  | reset => exact limits_nil
  | @start log attempts h s hattempts hlimit now hnow ih =>
    have hoffers := enforceStartLimit_offers os now hlimit hi hb
    rw [hattempts] at hoffers
    have hnext := ih.offer hb hnow
    rwa [← hoffers] at hnext

/-- Of the starts that are accepted, any one and the one after as many more as the burst
lie an interval apart, no window of an interval has more of them than the burst, and a
start is rejected only if it follows that many within an interval. -/
theorem startLimit_correct (hi : 0 < interval) (hb : 0 < burst) {log : List (Instant × Bool)}
    {attempts : List Instant} (h : Starts os interval burst log attempts) :
    Spaced burst interval (admitted log) ∧
      (∀ t, ((admitted log).filter fun a => t ≤ a ∧ a < t + interval).length ≤ burst) ∧
      (∀ before now after, log = before ++ (now, false) :: after →
        burst ≤ ((admitted before).filter fun a => a ≤ now ∧ now < a + interval).length) ∧
      attempts.Pairwise (· ≤ ·) ∧ attempts.length ≤ burst := by
  have hlimits := starts_limits os hi hb h
  refine ⟨hlimits.spaced, length_window hlimits.sorted hlimits.spaced, ?_, hlimits.queue_sorted,
    hlimits.bound⟩
  intro before now after hlog
  have hrecent := hlimits.rejected before now after hlog
  have hpast : ∀ a ∈ admitted before, a ≤ now := by
    intro a ha
    have hordered := hlimits.ordered
    rw [hlog, List.map_append, List.pairwise_append] at hordered
    obtain ⟨c, hc, rfl⟩ := List.mem_map.mp ha
    exact hordered.2.2 c.1 (List.mem_map_of_mem (List.mem_filter.mp hc).1) now (by simp)
  have hsame : (admitted before).filter (fun a => a ≤ now ∧ now < a + interval) =
      (admitted before).filter fun a => now < a + interval :=
    List.filter_congr fun a ha => decide_eq_decide.mpr (and_iff_right (hpast a ha))
  rwa [hsame]

end

/-- A service that may start once in ten units of time. -/
def seldom (attempts : List Instant) : ManagedService × Box :=
  ({ ManagedService.ofRecord (fresh { plainService ['a'] with
      startLimitInterval := some 10, startLimitBurst := some 1 }) with
    startAttempts := attempts }, ⟨0, 0, true, []⟩)

theorem starts_seldom : Starts boxOs 10 1 [(3, true), (5, false), (13, true)] [13] := by
  have hlimit (attempts : List Instant) : Limited (seldom attempts).1.spec 10 1 :=
    ⟨.inl rfl, rfl, rfl⟩
  have hfirst : Starts boxOs 10 1 [(3, true)] [3] :=
    .start .reset (s := seldom []) rfl (hlimit []) fun _ h => absurd h List.not_mem_nil
  have hlater : ∀ c ∈ [((3 : Instant), true)], c.1 ≤ 5 := by decide
  have hlast : ∀ c ∈ [((3 : Instant), true), (5, false)], c.1 ≤ 13 := by decide
  have hsecond : Starts boxOs 10 1 [(3, true), (5, false)] [3] :=
    .start hfirst (s := seldom [3]) rfl (hlimit [3]) hlater
  exact .start hsecond (s := seldom [3]) rfl (hlimit [3]) hlast

theorem startLimit_correct_seldom :
    Spaced 1 10 (admitted [(3, true), (5, false), (13, true)]) ∧
      (∀ t, ((admitted [(3, true), (5, false), (13, true)]).filter fun a =>
        t ≤ a ∧ a < t + 10).length ≤ 1) ∧
      (∀ before now after,
        [(3, true), (5, false), (13, true)] = before ++ (now, false) :: after →
        1 ≤ ((admitted before).filter fun a => a ≤ now ∧ now < a + 10).length) ∧
      [13].Pairwise (· ≤ ·) ∧ [13].length ≤ 1 :=
  startLimit_correct boxOs (by decide) (by decide) starts_seldom

end FractalD.Supervisor.StartLimit
