import FractalD.Machine.Gregorian
import FractalD.Supervisor.Calendar

namespace FractalD.Supervisor.CivilDate

open FractalD.Machine.Gregorian FractalD.Supervisor.Calendar

/-- The date of a day, the year of which has been cut off from an `i64` to an `i32`. -/
def civilDate32 (days : Int) : Date :=
  let (year, month, day) := civilDate days
  ⟨year.bmod (2 ^ 32), month, day⟩

section

variable {a b c day : Int}

/-- The days of an era before a day of a year, which is at its place in four years, these in a
century and the century in the era. -/
def daysOf (a b c day : Int) : Int := 36524 * a + 1461 * b + 365 * c + day

variable (ha : 0 ≤ a ∧ a < 4) (hb : 0 ≤ b ∧ b < 25) (hc : 0 ≤ c ∧ c < 4) (hd : 0 ≤ day)
  (hday : day < 365 ∨ day = 365 ∧ c = 3 ∧ (b = 24 → a = 3))

include ha hb hc hd hday

theorem centuries_eq : daysOf a b c day / 36524 - daysOf a b c day / 146096 = a := by
  simp only [daysOf]
  by_cases hlast : 1461 * b + 365 * c + day < 36524
  · have hcentury : (36524 * a + 1461 * b + 365 * c + day) / 36524 = a := by omega
    have hera : (36524 * a + 1461 * b + 365 * c + day) / 146096 = 0 := by omega
    omega
  · obtain ⟨rfl, rfl, rfl, rfl⟩ : a = 3 ∧ b = 24 ∧ c = 3 ∧ day = 365 := by omega
    decide

/-- Four years have 1460 days and one more, which is counted too early by a day at most. -/
theorem leapDays_eq : ∃ e, daysOf a b c day / 1460 = 25 * a + b + e ∧ 0 ≤ day - e ∧
    day - e < 365 := by
  simp only [daysOf]
  by_cases he : 24 * a + b + 365 * c + day < 1460
  · exact ⟨0, by omega, by omega, by omega⟩
  · exact ⟨1, by omega, by omega, by omega⟩

theorem yearOfEra_eq : (daysOf a b c day - daysOf a b c day / 1460 + daysOf a b c day / 36524 -
    daysOf a b c day / 146096) / 365 = 100 * a + 4 * b + c := by
  have hcenturies := centuries_eq ha hb hc hd hday
  obtain ⟨e, he, hle, hlt⟩ := leapDays_eq ha hb hc hd hday
  have hsum : daysOf a b c day - daysOf a b c day / 1460 + daysOf a b c day / 36524 -
      daysOf a b c day / 146096 = 365 * (100 * a + 4 * b + c) + (day - e) := by
    rw [he]
    generalize daysOf a b c day / 36524 = x, daysOf a b c day / 146096 = y at hcenturies ⊢
    simp only [daysOf]
    omega
  rw [hsum]
  omega

end

section

variable (p : Position)

def dayOfYear : Int := daysBeforeMonth p.month + p.day

theorem dayOfYear_spec : 0 ≤ dayOfYear p ∧ (5 * dayOfYear p + 2) / 153 = p.month ∧
    (dayOfYear p < 365 ∨ dayOfYear p = 365 ∧ IsLeap (p.year + p.era * 400 + 1)) := by
  have hm := p.month_nonneg
  have hlt := p.month_lt
  have hd := p.day_nonneg
  have hday : p.day < p.length := p.day_lt
  by_cases hfebruary : p.month = 11
  · have hlength := p.length_february hfebruary
    simp only [dayOfYear, daysBeforeMonth, hfebruary]
    by_cases hleap : IsLeap (p.year + p.era * 400 + 1)
    · rw [if_pos hleap] at hlength
      refine ⟨by omega, by omega, ?_⟩
      by_cases h : p.day < 28
      · exact .inl (by omega)
      · exact .inr ⟨by omega, hleap⟩
    · rw [if_neg hleap] at hlength
      omega
  · have hlength := p.length_other hfebruary
    simp only [dayOfYear, daysBeforeMonth] at hlength ⊢
    omega

theorem daysBeforeYear_eq : daysBeforeYear p.year + dayOfYear p =
    daysOf (p.year / 100) (p.year % 100 / 4) (p.year % 4) (dayOfYear p) := by
  simp only [daysBeforeYear, daysOf]
  omega

def dayOfEra : Int := daysBeforeYear p.year + dayOfYear p

theorem dayOfEra_spec : 0 ≤ dayOfEra p ∧ dayOfEra p < 146097 ∧
    (dayOfEra p - dayOfEra p / 1460 + dayOfEra p / 36524 - dayOfEra p / 146096) / 365 = p.year := by
  have hy := p.year_nonneg
  have hlt := p.year_lt
  obtain ⟨hd, -, hday⟩ := dayOfYear_spec p
  have ha : 0 ≤ p.year / 100 ∧ p.year / 100 < 4 := by omega
  have hb : 0 ≤ p.year % 100 / 4 ∧ p.year % 100 / 4 < 25 := by omega
  have hc : 0 ≤ p.year % 4 ∧ p.year % 4 < 4 := by omega
  have hleap : dayOfYear p < 365 ∨
      dayOfYear p = 365 ∧ p.year % 4 = 3 ∧ (p.year % 100 / 4 = 24 → p.year / 100 = 3) := by
    refine hday.imp_right fun h => ⟨h.1, ?_⟩
    have hleap := h.2
    simp only [IsLeap] at hleap
    omega
  have hyear := yearOfEra_eq ha hb hc hd hleap
  rw [dayOfEra, daysBeforeYear_eq]
  refine ⟨?_, ?_, hyear.trans (by omega)⟩
  · simp only [daysOf]
    omega
  · simp only [daysOf]
    omega

theorem civilDate_position {d : Nat} (h : p.days = d + 719468) :
    civilDate d = (p.date.year, p.date.month, p.date.day) := by
  have hm := p.month_nonneg
  have hmonth := p.month_lt
  have hy := p.year_nonneg
  have hd := p.day_nonneg
  obtain ⟨hera, hlt, hyear⟩ := dayOfEra_spec p
  obtain ⟨hday, hpart, -⟩ := dayOfYear_spec p
  have hdays : p.days = p.era * 146097 + dayOfEra p := by
    simp only [Position.days, dayOfEra, dayOfYear]
    omega
  have hdiv : p.days.tdiv 146097 = p.era := by
    rw [Int.tdiv_eq_ediv_of_nonneg (by omega)]
    omega
  have hrest : p.days - p.era * 146097 = dayOfEra p := by omega
  have hof : (dayOfEra p - (dayOfEra p).tdiv 1460 + (dayOfEra p).tdiv 36524 -
      (dayOfEra p).tdiv 146096).tdiv 365 = p.year := by
    rw [Int.tdiv_eq_ediv_of_nonneg hera, Int.tdiv_eq_ediv_of_nonneg hera,
      Int.tdiv_eq_ediv_of_nonneg hera, Int.tdiv_eq_ediv_of_nonneg (by omega), hyear]
  have hwithin : dayOfEra p - (365 * p.year + p.year.tdiv 4 - p.year.tdiv 100) = dayOfYear p := by
    rw [Int.tdiv_eq_ediv_of_nonneg hy, Int.tdiv_eq_ediv_of_nonneg hy]
    simp only [dayOfEra, daysBeforeYear]
    omega
  have hmonthPart : (5 * dayOfYear p + 2).tdiv 153 = p.month := by
    rw [Int.tdiv_eq_ediv_of_nonneg (by omega), hpart]
  have hfirst : dayOfYear p - (153 * p.month + 2).tdiv 5 = p.day := by
    rw [Int.tdiv_eq_ediv_of_nonneg (by omega)]
    simp only [dayOfYear, daysBeforeMonth]
    omega
  simp only [civilDate, ← h, hdiv]
  rw [if_pos (by omega)]
  simp only [hrest, hof, hwithin, hmonthPart, hfirst, Position.date, calendarYear,
    calendarMonth, Prod.mk.injEq]
  by_cases hspring : p.month < 10
  · simp only [if_pos hspring]
    rw [if_neg (by omega)]
    exact ⟨rfl, trivial, trivial⟩
  · simp only [if_neg hspring]
    rw [if_pos (by omega)]
    exact ⟨rfl, rfl, trivial⟩

end

theorem civilDate_eq (d : Nat) : civilDate d = ((date d).year, (date d).month, (date d).day) := by
  obtain ⟨p, hdays, hdate⟩ := exists_position d
  rw [civilDate_position p hdays, hdate]

theorem year_date (d : Nat) : (date d).year = (civilDate d).1 := by
  rw [civilDate_eq]

theorem civilTime_date (seconds : Nat) :
    (⟨(civilTime seconds).year, (civilTime seconds).month, (civilTime seconds).day⟩ : Date) =
      date (seconds / 86400) := by
  simp only [civilTime, civilDate_eq]

theorem civilDate32_eq {d : Nat} (h : (date d).year < 2 ^ 31) : civilDate32 d = date d := by
  have hle := year_le_date d
  simp only [civilDate32, civilDate_eq]
  rw [Int.bmod_eq_of_le (by omega) (by omega)]

/-- As long as the year fits, the next day has the next date. -/
theorem civilDate_successor (d : Nat) : civilDate32 0 = ⟨1970, 1, 1⟩ ∧
    ((date (d + 1)).year < 2 ^ 31 →
      civilDate32 d = date d ∧ civilDate32 (d + 1) = (civilDate32 d).next) := by
  refine ⟨by decide, fun h => ?_⟩
  have hd : civilDate32 d = date d :=
    civilDate32_eq (Int.lt_of_le_of_lt (year_le_date_succ d) h)
  have hnext : civilDate32 (d + 1) = date (d + 1) := civilDate32_eq h
  exact ⟨hd, by rw [hnext, hd, date_succ]⟩

/-- The twenty-ninth of February is followed by the first of March. -/
theorem civilDate_successor_leap : civilDate32 19782 = ⟨2024, 2, 29⟩ ∧
    civilDate32 (19782 + 1) = Date.next ⟨2024, 2, 29⟩ := by
  have hyear : (date (19782 + 1)).year = 2024 := (year_date 19783).trans (by decide)
  have hday : civilDate32 19782 = ⟨2024, 2, 29⟩ := by decide
  have hnext : civilDate32 (19782 + 1) = (civilDate32 19782).next :=
    ((civilDate_successor 19782).2 (by rw [hyear]; decide)).2
  exact ⟨hday, by rw [hnext, hday]⟩

/-- The year after the last one that fits is the first one that fits. -/
theorem year_overflows : (date 784351576776).year = 2 ^ 31 - 1 ∧
    civilDate32 784351576777 = ⟨-2 ^ 31, 1, 1⟩ ∧
    civilDate32 784351576777 ≠ (civilDate32 784351576776).next := by
  have hyear : (civilDate (784351576776 : Nat)).1 = 2 ^ 31 - 1 := by decide
  exact ⟨(year_date 784351576776).trans hyear, by decide, by decide⟩

end FractalD.Supervisor.CivilDate
