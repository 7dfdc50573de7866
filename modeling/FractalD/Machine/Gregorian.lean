import Mathlib.Data.Int.Init
import Mathlib.Logic.Function.Iterate
import Mathlib.Tactic.IntervalCases

namespace FractalD.Machine.Gregorian

structure Date where
  year : Int
  month : Nat
  day : Nat
  deriving DecidableEq, Repr

def IsLeap (year : Int) : Prop := year % 4 = 0 ∧ (year % 100 ≠ 0 ∨ year % 400 = 0)

instance : DecidablePred IsLeap := fun year =>
  inferInstanceAs (Decidable (year % 4 = 0 ∧ (year % 100 ≠ 0 ∨ year % 400 = 0)))

def monthLength (year : Int) (month : Nat) : Nat :=
  if month = 2 then if IsLeap year then 29 else 28
  else if month = 4 ∨ month = 6 ∨ month = 9 ∨ month = 11 then 30
  else 31

def Date.next (d : Date) : Date :=
  if d.day < monthLength d.year d.month then { d with day := d.day + 1 }
  else if d.month < 12 then ⟨d.year, d.month + 1, 1⟩
  else ⟨d.year + 1, 1, 1⟩

/-- The date so many days after the first of January 1970. -/
def date (d : Nat) : Date := Date.next^[d] ⟨1970, 1, 1⟩

theorem date_succ (d : Nat) : date (d + 1) = (date d).next := Function.iterate_succ_apply' _ _ _

theorem year_le_next (d : Date) : d.year ≤ d.next.year := by
  rw [Date.next]
  split
  · exact Int.le_refl _
  · split
    · exact Int.le_refl _
    · exact Int.le_of_lt (Int.lt_succ d.year)

theorem year_le_date_succ (d : Nat) : (date d).year ≤ (date (d + 1)).year := by
  rw [date_succ]
  exact year_le_next (date d)

theorem year_le_date (d : Nat) : 1970 ≤ (date d).year := by
  induction d with
  | zero => exact Int.le_refl 1970
  | succ d ih => exact Int.le_trans ih (year_le_date_succ d)

/-- The days of an era of 400 years that come before a year. A year begins in March. -/
def daysBeforeYear (year : Int) : Int := 365 * year + year / 4 - year / 100

def daysBeforeMonth (month : Int) : Int := (153 * month + 2) / 5

def calendarYear (era year month : Int) : Int := year + era * 400 + if month < 10 then 0 else 1

def calendarMonth (month : Int) : Nat := (if month < 10 then month + 3 else month - 9).toNat

section

variable {era year month : Int}

theorem monthLength_calendar (hm : 0 ≤ month) (hlt : month < 12) :
    (monthLength (calendarYear era year month) (calendarMonth month) : Int) =
      if month = 11 then if IsLeap (year + era * 400 + 1) then 29 else 28
      else daysBeforeMonth (month + 1) - daysBeforeMonth month := by
  interval_cases month <;> simp [monthLength, calendarYear, calendarMonth, daysBeforeMonth]

variable (era) in
theorem daysBeforeYear_succ (hy : 0 ≤ year) (hlt : year < 399) :
    daysBeforeYear (year + 1) =
      daysBeforeYear year + 365 + if IsLeap (year + era * 400 + 1) then 1 else 0 := by
  by_cases hleap : IsLeap (year + era * 400 + 1)
  · rw [if_pos hleap]
    simp only [daysBeforeYear, IsLeap] at hleap ⊢
    omega
  · rw [if_neg hleap]
    simp only [daysBeforeYear, IsLeap] at hleap ⊢
    omega

theorem isLeap_last (era : Int) : IsLeap (399 + era * 400 + 1) := by
  simp only [IsLeap]
  omega

end

/-- A day by its place in its month, which is at its place in a year of an era. -/
structure Position where
  era : Int
  year : Int
  month : Int
  day : Int
  year_nonneg : 0 ≤ year
  year_lt : year < 400
  month_nonneg : 0 ≤ month
  month_lt : month < 12
  day_nonneg : 0 ≤ day
  day_lt : day < monthLength (calendarYear era year month) (calendarMonth month)

namespace Position

def days (p : Position) : Int :=
  p.era * 146097 + daysBeforeYear p.year + daysBeforeMonth p.month + p.day

def date (p : Position) : Date :=
  ⟨calendarYear p.era p.year p.month, calendarMonth p.month, (p.day + 1).toNat⟩

/-- The first day of a month. -/
def first (era : Int) {year month : Int} (hy : 0 ≤ year) (hyear : year < 400) (hm : 0 ≤ month)
    (hmonth : month < 12) : Position where
  era := era
  year := year
  month := month
  day := 0
  year_nonneg := hy
  year_lt := hyear
  month_nonneg := hm
  month_lt := hmonth
  day_nonneg := Int.le_refl 0
  day_lt := by
    simp only [monthLength]
    split <;> split <;> omega

theorem first_date {era year month : Int} {hy : 0 ≤ year} {hyear : year < 400} {hm : 0 ≤ month}
    {hmonth : month < 12} : (first era hy hyear hm hmonth).date =
      ⟨calendarYear era year month, calendarMonth month, 1⟩ := rfl

variable (p : Position)

def length : Nat := monthLength (calendarYear p.era p.year p.month) (calendarMonth p.month)

theorem length_february (h : p.month = 11) :
    (p.length : Int) = if IsLeap (p.year + p.era * 400 + 1) then 29 else 28 := by
  rw [length, monthLength_calendar p.month_nonneg p.month_lt, if_pos h]

theorem length_other (h : p.month ≠ 11) :
    (p.length : Int) = daysBeforeMonth (p.month + 1) - daysBeforeMonth p.month := by
  rw [length, monthLength_calendar p.month_nonneg p.month_lt, if_neg h]

variable {p}

theorem next_within (h : p.day + 1 < p.length) :
    p.date.next =
      ⟨calendarYear p.era p.year p.month, calendarMonth p.month, (p.day + 1 + 1).toNat⟩ := by
  have hd := p.day_nonneg
  have hday : (p.day + 1).toNat < p.length := by omega
  have htwice : (p.day + 1).toNat + 1 = (p.day + 1 + 1).toNat := by omega
  rw [← htwice]
  exact if_pos hday

theorem next_after (h : ¬ p.day + 1 < p.length) :
    p.date.next =
      if calendarMonth p.month < 12 then
        ⟨calendarYear p.era p.year p.month, calendarMonth p.month + 1, 1⟩
      else ⟨calendarYear p.era p.year p.month + 1, 1, 1⟩ :=
  if_neg fun hday : (p.day + 1).toNat < p.length => h (by omega)

/-- The day after the last of February is the first of the next year, which may be that of the next
era. -/
theorem exists_march (hmonth : p.month = 11) (hday : p.day + 1 = p.length) :
    ∃ q : Position, q.days = p.days + 1 ∧
      q.date = ⟨calendarYear p.era p.year p.month, calendarMonth p.month + 1, 1⟩ := by
  have hy := p.year_nonneg
  have hyear := p.year_lt
  have hlength := p.length_february hmonth
  by_cases hlast : p.year = 399
  · refine ⟨first (p.era + 1) (Int.le_refl 0) (by omega) (Int.le_refl 0) (by omega), ?_, ?_⟩
    · have hleap := isLeap_last p.era
      rw [hlast, if_pos hleap] at hlength
      simp only [days, first, hlast, hmonth, daysBeforeYear, daysBeforeMonth]
      omega
    · rw [first_date, hmonth, hlast]
      simp [calendarYear, calendarMonth]
      omega
  · have hnext : 0 ≤ p.year + 1 ∧ p.year + 1 < 400 := by omega
    refine ⟨first p.era hnext.1 hnext.2 (Int.le_refl 0) (by omega), ?_, ?_⟩
    · have hyears := daysBeforeYear_succ p.era hy (by omega)
      simp only [days, first, hmonth, daysBeforeMonth]
      by_cases hleap : IsLeap (p.year + p.era * 400 + 1)
      · rw [if_pos hleap] at hlength hyears
        omega
      · rw [if_neg hleap] at hlength hyears
        omega
    · rw [first_date, hmonth]
      simp [calendarYear, calendarMonth]
      omega

theorem exists_next (p : Position) :
    ∃ q : Position, q.days = p.days + 1 ∧ q.date = p.date.next := by
  have hm := p.month_nonneg
  have hmonth := p.month_lt
  have hlast : p.day < p.length := p.day_lt
  by_cases hday : p.day + 1 < p.length
  · have hd := p.day_nonneg
    refine ⟨{ p with day := p.day + 1, day_nonneg := by omega, day_lt := hday }, ?_, ?_⟩
    · simp only [days]
      omega
    · exact (next_within hday).symm
  · rw [next_after hday]
    by_cases hfebruary : p.month = 11
    · rw [if_pos (by simp [calendarMonth, hfebruary])]
      exact exists_march hfebruary (by omega)
    · have hfirst : 0 ≤ p.month + 1 ∧ p.month + 1 < 12 := by omega
      refine ⟨first p.era p.year_nonneg p.year_lt hfirst.1 hfirst.2, ?_, ?_⟩
      · have hlength := p.length_other hfebruary
        simp only [days, first]
        omega
      · rw [first_date]
        obtain hlow | hdecember | hjanuary : p.month < 9 ∨ p.month = 9 ∨ p.month = 10 := by omega
        · have hnext : calendarMonth (p.month + 1) = calendarMonth p.month + 1 := by
            rw [calendarMonth, calendarMonth, if_pos (by omega), if_pos (by omega)]
            omega
          have hsame : calendarMonth p.month < 12 := by
            rw [calendarMonth, if_pos (by omega)]
            omega
          rw [if_pos hsame, hnext, calendarYear, calendarYear, if_pos (by omega), if_pos (by omega)]
        · simp [calendarYear, calendarMonth, hdecember]
        · simp [calendarYear, calendarMonth, hjanuary]

end Position

/-- The days are counted from the first of March of the year 0. -/
theorem exists_position (d : Nat) : ∃ p : Position, p.days = d + 719468 ∧ p.date = date d := by
  induction d with
  | zero =>
    have hyear : (0 : Int) ≤ 369 ∧ (369 : Int) < 400 := by decide
    have hmonth : (0 : Int) ≤ 10 ∧ (10 : Int) < 12 := by decide
    exact ⟨Position.first 4 hyear.1 hyear.2 hmonth.1 hmonth.2, rfl, rfl⟩
  | succ d ih =>
    obtain ⟨p, hdays, hdate⟩ := ih
    obtain ⟨q, hnext, hq⟩ := p.exists_next
    refine ⟨q, ?_, ?_⟩
    · rw [hnext, hdays]
      omega
    · rw [hq, hdate, date_succ]

end FractalD.Machine.Gregorian
