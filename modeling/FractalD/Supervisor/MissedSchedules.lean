import FractalD.Supervisor.Calendar

namespace FractalD.Supervisor.MissedSchedules

open FractalD.Machine.CString FractalD.Machine.Text FractalD.Supervisor.Calendar

/-- An instant of the wall clock: its nanoseconds since 1970, with the seconds in an `i64`. -/
structure SystemTime where
  nanoseconds : Int
  inRange : -2 ^ 63 * 10 ^ 9 ≤ nanoseconds ∧ nanoseconds < 2 ^ 63 * 10 ^ 9

/-- The whole seconds of a time since 1970. -/
def SystemTime.sinceEpoch (time : SystemTime) : Option Nat :=
  if 0 ≤ time.nanoseconds then some (time.nanoseconds / 10 ^ 9).toNat else none

def u64Max : Nat := 2 ^ 64 - 1

/-- Saturating operations on `u64`. -/
def saturatingAdd (a b : Nat) : Nat := min (a + b) u64Max

def saturatingMul (a b : Nat) : Nat := min (a * b) u64Max

def divCeil (a b : Nat) : Nat := (a + b - 1) / b

/-- Whether a clock asks for a second other than the first. -/
def secondPrecision (expression : Str) : Bool :=
  ((splitWhitespace expression).filter (':' ∈ ·)).any fun token =>
    ((token.splitOn ':')[2]?.bind fun value => parseUnsigned 32 (wholeSeconds value)).any (· ≠ 0)

def stepOf (expression : Str) : Nat := if secondPrecision expression then 1 else 60

/-- The second that the search begins at. -/
def firstCandidate (step lastSeconds : Nat) : Nat :=
  let candidate := saturatingAdd lastSeconds 1
  if step = 60 then saturatingMul (divCeil candidate 60) 60 else candidate

def window : Nat := 370 * 86400

/-- The search from a candidate on. The fuel bounds the candidates, which go up. -/
def search (expression : Str) (step scanEnd : Nat) : Nat → Nat → Bool
  | 0, _ => false
  | fuel + 1, candidate =>
    candidate ≤ scanEnd &&
      ((calendarMatch expression candidate).isSome ||
        saturatingAdd candidate step ≠ u64Max &&
          search expression step scanEnd fuel (saturatingAdd candidate step))

def calendarMissedSince (expression : Str) (last now : SystemTime) : Bool :=
  if now.nanoseconds ≤ last.nanoseconds then false
  else
    match now.sinceEpoch, last.sinceEpoch with
    | some nowSeconds, some lastSeconds =>
      let step := stepOf expression
      let scanEnd := min nowSeconds (saturatingAdd lastSeconds window)
      search expression step scanEnd (scanEnd + 1) (firstCandidate step lastSeconds) ||
        saturatingAdd lastSeconds window < nowSeconds
    | _, _ => false

/-- The whole seconds after an instant and up to another that an expression matches. -/
def matched (expression : Str) (last now : SystemTime) : Set Nat :=
  {t | last.nanoseconds < t * 10 ^ 9 ∧ t * 10 ^ 9 ≤ now.nanoseconds ∧
    (calendarMatch expression t).isSome}

theorem search_iff {expression : Str} {step scanEnd : Nat} (h : scanEnd + step < u64Max)
    (fuel candidate : Nat) : search expression step scanEnd fuel candidate ↔
      ∃ k < fuel, candidate + k * step ≤ scanEnd ∧
        (calendarMatch expression (candidate + k * step)).isSome := by
  induction fuel generalizing candidate with
  | zero => simp [search]
  | succ fuel ih =>
    by_cases hle : candidate ≤ scanEnd
    · have hnext : saturatingAdd candidate step = candidate + step := min_eq_left (by omega)
      have hmax : candidate + step ≠ u64Max := by omega
      have hshift (k : Nat) : candidate + step + k * step = candidate + (k + 1) * step := by
        rw [Nat.add_mul, Nat.one_mul]
        omega
      simp only [search, hnext, hle, hmax, ih, hshift, decide_true, Bool.true_and, ne_eq,
        not_false_eq_true, Bool.or_eq_true]
      constructor
      · rintro (h | ⟨k, hk, hend, hmatch⟩)
        · exact ⟨0, by omega, by simpa using hle, by simpa using h⟩
        · exact ⟨k + 1, by omega, hend, hmatch⟩
      · rintro ⟨k, hk, hend, hmatch⟩
        cases k with
        | zero => exact .inl (by simpa using hmatch)
        | succ k => exact .inr ⟨k, by omega, hend, hmatch⟩
    · simp only [search, hle, decide_false, Bool.false_and, Bool.false_eq_true, false_iff]
      rintro ⟨k, -, hend, -⟩
      omega

theorem candidate_iff {expression : Str} {lastSeconds t : Nat} (h : lastSeconds < 2 ^ 63) :
    (∃ k, t = firstCandidate (stepOf expression) lastSeconds + k * stepOf expression) ↔
      lastSeconds < t ∧ (secondPrecision expression ∨ 60 ∣ t) := by
  have hadd : saturatingAdd lastSeconds 1 = lastSeconds + 1 := min_eq_left (by simp [u64Max]; omega)
  cases hprecise : secondPrecision expression with
  | true =>
    have hfirst : firstCandidate 1 lastSeconds = lastSeconds + 1 := by simp [firstCandidate, hadd]
    simp only [stepOf, hprecise, if_true, hfirst, true_or, and_true, Nat.mul_one]
    constructor
    · rintro ⟨k, rfl⟩
      omega
    · intro ht
      exact ⟨t - (lastSeconds + 1), by omega⟩
  | false =>
    have hfirst : firstCandidate 60 lastSeconds = (lastSeconds + 60) / 60 * 60 := by
      simp only [firstCandidate, if_true, hadd, divCeil]
      exact min_eq_left (by simp only [u64Max]; omega)
    simp only [stepOf, hprecise, Bool.false_eq_true, if_false, hfirst, false_or]
    constructor
    · rintro ⟨k, rfl⟩
      omega
    · rintro ⟨ht, m, rfl⟩
      exact ⟨m - (lastSeconds + 60) / 60, by omega⟩

theorem mem_matched {expression : Str} {last now : SystemTime} {lastSeconds nowSeconds t : Nat}
    (hlast : last.sinceEpoch = some lastSeconds) (hnow : now.sinceEpoch = some nowSeconds) :
    t ∈ matched expression last now ↔
      lastSeconds < t ∧ t ≤ nowSeconds ∧ (calendarMatch expression t).isSome := by
  simp only [SystemTime.sinceEpoch, Option.ite_none_right_eq_some, Option.some.injEq] at hlast hnow
  have hafter : last.nanoseconds < t * 10 ^ 9 ↔ lastSeconds < t := by omega
  have hupto : (t : Int) * 10 ^ 9 ≤ now.nanoseconds ↔ t ≤ nowSeconds := by omega
  rw [matched, Set.mem_ofPred_eq, hafter, hupto]

/-- What the search finds, within a window that it goes through. -/
theorem missed_iff {expression : Str} {last now : SystemTime}
    (horder : last.nanoseconds < now.nanoseconds)
    (hwindow : now.nanoseconds < last.nanoseconds + window * 10 ^ 9) :
    calendarMissedSince expression last now ↔ 0 ≤ last.nanoseconds ∧
      ∃ t ∈ matched expression last now, secondPrecision expression ∨ 60 ∣ t := by
  by_cases hepoch : 0 ≤ last.nanoseconds
  · have hlast : last.sinceEpoch = some (last.nanoseconds / 10 ^ 9).toNat := if_pos hepoch
    have hnow : now.sinceEpoch = some (now.nanoseconds / 10 ^ 9).toNat := if_pos (by omega)
    have hbound := now.inRange
    have hend : (now.nanoseconds / 10 ^ 9).toNat ≤
        saturatingAdd (last.nanoseconds / 10 ^ 9).toNat window := by
      simp only [saturatingAdd, u64Max, window] at hwindow ⊢
      omega
    have hsmall : (last.nanoseconds / 10 ^ 9).toNat < 2 ^ 63 := by omega
    have hstep : stepOf expression ≤ 60 := by
      unfold stepOf
      split <;> omega
    have hpos : 1 ≤ stepOf expression := by
      unfold stepOf
      split <;> omega
    rw [calendarMissedSince, if_neg (by omega)]
    simp only [hlast, hnow, min_eq_left hend, hend.not_gt, decide_false, Bool.or_false, hepoch,
      true_and]
    rw [search_iff (by simp only [u64Max]; omega)]
    constructor
    · rintro ⟨k, -, hle, hmatch⟩
      obtain ⟨hlt, hcandidate⟩ := (candidate_iff hsmall).mp ⟨k, rfl⟩
      exact ⟨_, (mem_matched hlast hnow).mpr ⟨hlt, hle, hmatch⟩, hcandidate⟩
    · rintro ⟨t, ht, hcandidate⟩
      obtain ⟨hlt, hle, hmatch⟩ := (mem_matched hlast hnow).mp ht
      obtain ⟨k, rfl⟩ := (candidate_iff hsmall).mpr ⟨hlt, hcandidate⟩
      have hk : k ≤ k * stepOf expression := Nat.le_mul_of_pos_right k hpos
      exact ⟨k, by omega, hle, hmatch⟩
  · have hlast : last.sinceEpoch = none := if_neg hepoch
    have hmissed : calendarMissedSince expression last now = false := by
      simp only [calendarMissedSince, hlast]
      split
      next => rfl
      next => cases now.sinceEpoch <;> rfl
    simp [hmissed, hepoch]

/-- The search finds the schedules that were missed exactly where it goes by seconds or
one of them is at a whole minute, after an instant that is not before 1970. -/
theorem missed_schedules_found (expression : Str) (last now : SystemTime)
    (horder : last.nanoseconds < now.nanoseconds)
    (hwindow : now.nanoseconds < last.nanoseconds + window * 10 ^ 9) :
    (calendarMissedSince expression last now ↔ ∃ t, t ∈ matched expression last now) ↔
      ((∃ t, t ∈ matched expression last now) → 0 ≤ last.nanoseconds ∧
        (secondPrecision expression ∨ ∃ t ∈ matched expression last now, 60 ∣ t)) := by
  rw [missed_iff horder hwindow]
  constructor
  · rintro h hmatched
    obtain ⟨hepoch, t, ht, hcandidate⟩ := h.mpr hmatched
    exact ⟨hepoch, hcandidate.imp_right fun hminute => ⟨t, ht, hminute⟩⟩
  · intro h
    constructor
    · rintro ⟨-, t, ht, -⟩
      exact ⟨t, ht⟩
    · rintro ⟨t, ht⟩
      obtain ⟨hepoch, hprecise | ⟨u, hu, hminute⟩⟩ := h ⟨t, ht⟩
      · exact ⟨hepoch, t, ht, .inl hprecise⟩
      · exact ⟨hepoch, u, hu, .inr hminute⟩

def atSecond (seconds : Nat) (h : seconds < 2 ^ 63) : SystemTime where
  nanoseconds := seconds * 10 ^ 9
  inRange := by omega

theorem missed_hour_found : (calendarMissedSince "hourly".toList (atSecond 1 (by decide))
      (atSecond 7201 (by decide)) ↔
        ∃ t, t ∈ matched "hourly".toList (atSecond 1 (by decide)) (atSecond 7201 (by decide))) ↔
    ((∃ t, t ∈ matched "hourly".toList (atSecond 1 (by decide)) (atSecond 7201 (by decide))) →
      0 ≤ (atSecond 1 (by decide)).nanoseconds ∧
        (secondPrecision "hourly".toList ∨
          ∃ t ∈ matched "hourly".toList (atSecond 1 (by decide)) (atSecond 7201 (by decide)),
            60 ∣ t)) :=
  missed_schedules_found _ _ _ (by decide) (by decide)

/-- Every quarter of a minute, but the search goes by minutes. -/
theorem quarter_minute_missed :
    calendarMissedSince "*:*:0/15".toList (atSecond 1 (by decide)) (atSecond 20 (by decide)) = false ∧
      15 ∈ matched "*:*:0/15".toList (atSecond 1 (by decide)) (atSecond 20 (by decide)) :=
  ⟨by decide +kernel, by decide +kernel, by decide +kernel, by decide +kernel⟩

end FractalD.Supervisor.MissedSchedules
