import FractalD.Config.Words
import FractalD.Machine.Wire
import Mathlib.Data.Set.Basic
import Mathlib.Data.Set.Insert
import Mathlib.Order.Interval.Set.Defs

namespace FractalD.Supervisor.Calendar

open FractalD.Config.Words FractalD.Machine.CString FractalD.Machine.Text FractalD.Machine.Wire

/-- `str::split` at two dots. -/
def splitDots : Str → List Str
  | [] => [[]]
  | [c] => [[c]]
  | c :: d :: s =>
    if c = '.' ∧ d = '.' then [] :: splitDots s
    else
      match splitDots (d :: s) with
      | [] => [[c]]
      | part :: parts => (c :: part) :: parts

/-- The base of a part and its step, which is 0 where it cannot be read. -/
def baseAndStep (part : Str) : Str × Nat :=
  match splitOnce '/' part with
  | some (base, step) => (base, (parseUnsigned 32 step).getD 0)
  | none => (part, 1)

/-- Whether a value is at a multiple of the step from the start of a base. -/
def matchesBase (base : Str) (step value : Nat) : Bool :=
  if base = "*".toList then value % step = 0
  else
    match splitDots base with
    | [single] => (parseUnsigned 32 single).any fun start => start ≤ value && (value - start) % step = 0
    | [first, last] =>
      match parseUnsigned 32 first, parseUnsigned 32 last with
      | some first, some last =>
        first ≤ value && value ≤ last && (value - first) % step = 0
      | _, _ => false
    | _ => false

def matchesPart (part : Str) (value : Nat) : Bool :=
  let (base, step) := baseAndStep part
  step ≠ 0 && matchesBase base step value

def matchesComponent (expression : Str) (value : Nat) : Bool :=
  (expression.splitOn ',').any fun part => matchesPart part value

/-- The forms that a part of a component has. -/
inductive Term
  | every
  | multiples (step : Nat)
  | only (n : Nat)
  | range (first last : Nat)
  | progression (start step : Nat)
  | steps (first last step : Nat)
  deriving DecidableEq

def Term.values : Term → Set Nat
  | .every => Set.univ
  | .multiples step => {v | step ∣ v}
  | .only n => {n}
  | .range first last => Set.Icc first last
  | .progression start step => {v | ∃ k, v = start + k * step}
  | .steps first last step => {v | v ≤ last ∧ ∃ k, v = first + k * step}

/-- What comes before the step of a part. -/
inductive Base
  | every
  | single (n : Nat)
  | range (first last : Nat)

def readBase (base : Str) : Option Base :=
  if base = "*".toList then some .every
  else
    match splitDots base with
    | [single] => (parseUnsigned 32 single).map .single
    | [first, last] =>
      match parseUnsigned 32 first, parseUnsigned 32 last with
      | some first, some last => some (.range first last)
      | _, _ => none
    | _ => none

def Base.alone : Base → Term
  | .every => .every
  | .single n => .only n
  | .range first last => .range first last

def Base.stepping (step : Nat) : Base → Term
  | .every => .multiples step
  | .single n => .progression n step
  | .range first last => .steps first last step

/-- What a part says, if it says something. -/
def readPart (part : Str) : Option Term :=
  match splitOnce '/' part with
  | none => (readBase part).map Base.alone
  | some (base, step) => do
    let step ← (parseUnsigned 32 step).filter (· ≠ 0)
    (readBase base).map (Base.stepping step)

/-- The set that a component denotes: the union of what its parts say. -/
def denotes (expression : Str) : Set Nat :=
  {v | ∃ part ∈ expression.splitOn ',', ∃ t ∈ readPart part, v ∈ t.values}

theorem progression_iff {start step value : Nat} :
    start ≤ value ∧ (value - start) % step = 0 ↔ ∃ k, value = start + k * step := by
  constructor
  · rintro ⟨hle, hmod⟩
    obtain ⟨k, hk⟩ := Nat.dvd_of_mod_eq_zero hmod
    refine ⟨k, ?_⟩
    rw [Nat.mul_comm] at hk
    omega
  · rintro ⟨k, rfl⟩
    refine ⟨Nat.le_add_right _ _, ?_⟩
    rw [Nat.add_sub_cancel_left, Nat.mul_mod_left]

theorem matchesBase_iff {base : Str} {step value : Nat} :
    matchesBase base step value ↔ ∃ b ∈ readBase base, value ∈ (b.stepping step).values := by
  simp only [matchesBase, readBase]
  split
  next => simp [Base.stepping, Term.values, Nat.dvd_iff_mod_eq_zero]
  next =>
    split
    next single _ =>
      cases parseUnsigned 32 single with
      | none => simp
      | some n => simp [Base.stepping, Term.values, progression_iff]
    next first last _ =>
      cases parseUnsigned 32 first with
      | none => simp
      | some a =>
        cases parseUnsigned 32 last with
        | none => simp
        | some b =>
          simp only [Base.stepping, Term.values, ← progression_iff, Option.mem_some_iff,
            exists_eq_left', Set.mem_ofPred_eq, Bool.and_eq_true, decide_eq_true_eq]
          tauto
    next => simp

/-- A part without a step says what it says with the step 1, but for a number that
stands alone: the values above it pass, too. -/
theorem alone_iff {b : Base} {value : Nat} : value ∈ (b.stepping 1).values ↔
    value ∈ b.alone.values ∨ ∃ n, b = .single n ∧ n < value := by
  cases b with
  | every => simp [Base.stepping, Base.alone, Term.values]
  | single n =>
    simp only [Base.stepping, Base.alone, Term.values, ← progression_iff, Nat.mod_one, and_true,
      Set.mem_ofPred_eq, Set.mem_singleton_iff, Base.single.injEq, exists_eq_left']
    omega
  | range first last =>
    simp only [Base.stepping, Base.alone, Term.values, ← progression_iff, Nat.mod_one, and_true,
      Set.mem_ofPred_eq, Set.mem_Icc, reduceCtorEq, false_and, exists_false, or_false]
    exact And.comm

theorem of_parseUnsigned {s : Str} {n : Nat} (h : parseUnsigned 32 s = some n) :
    ∀ c ∈ s, c.isDigit ∨ c = '+' := by
  obtain ⟨h, -⟩ := Option.filter_eq_some_iff.mp h
  simp only [parseU64] at h
  obtain ⟨⟨-, hall, -⟩, -⟩ := Option.ite_none_right_eq_some.mp h
  have hall := List.all_eq_true.mp hall
  intro c hc
  split at hall
  next hplus =>
    cases s with
    | nil => simp at hc
    | cons a s =>
      obtain rfl | hc := List.mem_cons.mp hc
      · exact .inr (by simpa using hplus)
      · exact .inl (hall c hc)
  next => exact .inl (hall c hc)

theorem not_mem_of_parseUnsigned {s : Str} {n : Nat} (h : parseUnsigned 32 s = some n) {c : Char}
    (hc : c.isDigit = false) (hplus : c ≠ '+') : c ∉ s := by
  intro hm
  obtain hd | rfl := of_parseUnsigned h c hm
  · simp [hc] at hd
  · exact hplus rfl

theorem splitDots_of_not_mem {s : Str} (h : '.' ∉ s) : splitDots s = [s] := by
  induction s with
  | nil => rfl
  | cons c s ih =>
    obtain ⟨hc, hs⟩ := not_or.mp (mt List.mem_cons.mpr h)
    cases s with
    | nil => rfl
    | cons d s =>
      rw [splitDots, if_neg fun hd => hc hd.1.symm, ih hs]

theorem splitDots_ne_nil (s : Str) : splitDots s ≠ [] := by
  fun_induction splitDots s with
  | case1 => simp
  | case2 => simp
  | case3 => simp
  | case4 => simp
  | case5 => simp

theorem splitDots_eq_singleton {s t : Str} (h : splitDots s = [t]) : t = s := by
  fun_induction splitDots s generalizing t with
  | case1 => simpa using h.symm
  | case2 c => simpa using h.symm
  | case3 c d s hd ih => simp [splitDots_ne_nil] at h
  | case4 c d s hd hnil ih => exact absurd hnil (splitDots_ne_nil _)
  | case5 c d s hd part parts hparts ih =>
    simp only [List.cons.injEq] at h
    obtain ⟨rfl, rfl⟩ := h
    rw [ih hparts]

theorem readBase_single {base : Str} {n : Nat} : readBase base = some (.single n) ↔
    parseUnsigned 32 base = some n := by
  constructor
  · intro h
    simp only [readBase] at h
    split at h
    next => cases h
    split at h
    next single hs =>
      obtain ⟨m, hm, hn⟩ := Option.map_eq_some_iff.mp h
      cases hn
      rwa [splitDots_eq_singleton hs] at hm
    next first last _ =>
      split at h <;> cases h
    next => cases h
  · intro h
    have hstar : base ≠ "*".toList := by
      rintro rfl
      cases h
    have hdots : '.' ∉ base := not_mem_of_parseUnsigned h rfl (by simp)
    rw [readBase, if_neg hstar, splitDots_of_not_mem hdots]
    simp [h]

theorem matchesPart_iff {part : Str} {value : Nat} : matchesPart part value ↔
    (∃ t ∈ readPart part, value ∈ t.values) ∨ ∃ n ∈ parseUnsigned 32 part, n < value := by
  cases hsplit : splitOnce '/' part with
  | none =>
    have hpart : matchesPart part value = matchesBase part 1 value := by
      simp [matchesPart, baseAndStep, hsplit]
    simp only [hpart, matchesBase_iff, alone_iff, readPart, hsplit, Option.mem_def,
      Option.map_eq_some_iff]
    constructor
    · rintro ⟨b, hb, hv | ⟨n, rfl, hn⟩⟩
      · exact .inl ⟨_, ⟨b, hb, rfl⟩, hv⟩
      · exact .inr ⟨n, readBase_single.mp hb, hn⟩
    · rintro (⟨t, ⟨b, hb, rfl⟩, hv⟩ | ⟨n, hp, hn⟩)
      · exact ⟨b, hb, .inl hv⟩
      · exact ⟨.single n, readBase_single.mpr hp, .inr ⟨n, rfl, hn⟩⟩
  | some x =>
    obtain ⟨base, step⟩ := x
    have hnumber : parseUnsigned 32 part = none := by
      by_contra hne
      obtain ⟨n, hn⟩ := Option.ne_none_iff_exists'.mp hne
      have hslash : '/' ∉ part := not_mem_of_parseUnsigned hn rfl (by simp)
      simp [splitOnce, hslash] at hsplit
    have hpart : matchesPart part value =
        (decide ((parseUnsigned 32 step).getD 0 ≠ 0) && matchesBase base ((parseUnsigned 32 step).getD 0) value) := by
      simp [matchesPart, baseAndStep, hsplit]
    simp only [hpart, readPart, hsplit, hnumber]
    cases hstep : parseUnsigned 32 step with
    | none => simp
    | some n =>
      by_cases hn : n = 0
      · simp [hn, Option.filter]
      · simp [hn, matchesBase_iff, Option.filter]

theorem matchesComponent_iff {expression : Str} {value : Nat} : matchesComponent expression value ↔
    value ∈ denotes expression ∨
      ∃ part ∈ expression.splitOn ',', ∃ n ∈ parseUnsigned 32 part, n < value := by
  simp only [matchesComponent, List.any_eq_true, matchesPart_iff, denotes, Set.mem_ofPred_eq]
  constructor
  · rintro ⟨part, hpart, h | h⟩
    · exact .inl ⟨part, hpart, h⟩
    · exact .inr ⟨part, hpart, h⟩
  · rintro (⟨part, hpart, h⟩ | ⟨part, hpart, h⟩)
    · exact ⟨part, hpart, .inl h⟩
    · exact ⟨part, hpart, .inr h⟩

structure CivilTime where
  year : Int
  month : Nat
  day : Nat
  hour : Nat
  minute : Nat
  second : Nat
  weekday : Nat
  deriving DecidableEq, Repr

/-- The year, the month and the day of a number of days since 1970. -/
def civilDate (days : Int) : Int × Nat × Nat :=
  let shifted := days + 719468
  let era := if 0 ≤ shifted then shifted.tdiv 146097 else (shifted - 146096).tdiv 146097
  let dayOfEra := shifted - era * 146097
  let yearOfEra :=
    (dayOfEra - dayOfEra.tdiv 1460 + dayOfEra.tdiv 36524 - dayOfEra.tdiv 146096).tdiv 365
  let dayOfYear := dayOfEra - (365 * yearOfEra + yearOfEra.tdiv 4 - yearOfEra.tdiv 100)
  let monthPart := (5 * dayOfYear + 2).tdiv 153
  let day := dayOfYear - (153 * monthPart + 2).tdiv 5 + 1
  let month := monthPart + if monthPart < 10 then 3 else -9
  (yearOfEra + era * 400 + if month ≤ 2 then 1 else 0, month.toNat, day.toNat)

def civilTime (seconds : Nat) : CivilTime :=
  let days : Int := (seconds / 86400 : Nat)
  let daySeconds := seconds % 86400
  let (year, month, day) := civilDate days
  { year := year
    month := month
    day := day
    hour := daySeconds / 3600
    minute := daySeconds % 3600 / 60
    second := daySeconds % 60
    weekday := ((days + 4) % 7).toNat }

def looksLikeDate (value : Str) : Bool :=
  let components := value.splitOn '-'
  components.length = 3 && components.all fun component =>
    component ≠ [] && component.all fun c => c.isDigit || c ∈ "*.,/".toList

def weekdayNumber (value : Str) : Option Nat :=
  let value := String.ofList (lowercase value)
  if value ∈ ["sun", "sunday"] then some 0
  else if value ∈ ["mon", "monday"] then some 1
  else if value ∈ ["tue", "tuesday"] then some 2
  else if value ∈ ["wed", "wednesday"] then some 3
  else if value ∈ ["thu", "thursday"] then some 4
  else if value ∈ ["fri", "friday"] then some 5
  else if value ∈ ["sat", "saturday"] then some 6
  else none

def looksLikeWeekday (value : Str) : Bool :=
  (value.splitOnP fun c => c = ',' || c = '.').any fun part => (weekdayNumber part).isSome

def weekdayMatches (expression : Str) (weekday : Nat) : Bool :=
  (expression.splitOn ',').any fun part =>
    match splitDots part with
    | [single] => weekdayNumber single = some weekday
    | [first, last] =>
      match weekdayNumber first, weekdayNumber last with
      | some first, some last =>
        if first ≤ last then first ≤ weekday && weekday ≤ last
        else first ≤ weekday || weekday ≤ last
      | _, _ => false
    | _ => false

/-- The kinds of words of an expression, of each at most one. -/
structure Words where
  weekday : Option Str := none
  date : Option Str := none
  clock : Option Str := none
  deriving DecidableEq

def readWords : Words → List Str → Option Words
  | words, [] => some words
  | words, token :: tokens =>
    if lowercase token = "utc".toList ∨ lowercase token = "local".toList then readWords words tokens
    else if ':' ∈ token then
      if words.clock.isSome then none else readWords { words with clock := some token } tokens
    else if looksLikeDate token then
      if words.date.isSome then none else readWords { words with date := some token } tokens
    else if looksLikeWeekday token then
      if words.weekday.isSome then none else readWords { words with weekday := some token } tokens
    else none

/-- `as u32` of an `i32` that has been cut off from an `i64`. -/
def yearValue (year : Int) : Nat := (year % 2 ^ 32).toNat

def dateMatches (date : Str) (time : CivilTime) : Bool :=
  match date.splitOn '-' with
  | [year, month, day] =>
    matchesComponent year (yearValue time.year) && matchesComponent month time.month &&
      matchesComponent day time.day
  | _ => false

/-- The text before the first dot. -/
def wholeSeconds (second : Str) : Str := second.takeWhile (· ≠ '.')

def clockMatches (clock : Str) (time : CivilTime) : Bool :=
  match clock.splitOn ':' with
  | [hour, minute] =>
    matchesComponent hour time.hour && matchesComponent minute time.minute &&
      matchesComponent "0".toList time.second
  | [hour, minute, second] =>
    matchesComponent hour time.hour && matchesComponent minute time.minute &&
      matchesComponent (wholeSeconds second) time.second
  | _ => false

def dayMatches (words : Words) (time : CivilTime) : Bool :=
  words.weekday.all (weekdayMatches · time.weekday) && words.date.all (dateMatches · time)

def isMidnight (time : CivilTime) : Bool := time.hour = 0 && time.minute = 0 && time.second = 0

def named (time : CivilTime) (name : Str) : Option Bool :=
  let name := String.ofList name
  if name = "minutely" then some (time.second = 0)
  else if name = "hourly" then some (time.minute = 0 && time.second = 0)
  else if name ∈ ["daily", "midnight"] then some (isMidnight time)
  else if name = "weekly" then some (time.weekday = 0 && isMidnight time)
  else if name = "monthly" then some (time.day = 1 && isMidnight time)
  else if name = "quarterly" then
    some (time.month ∈ [1, 4, 7, 10] && time.day = 1 && isMidnight time)
  else if name ∈ ["yearly", "annually"] then
    some (time.month = 1 && time.day = 1 && isMidnight time)
  else none

def wordsMatch (words : Words) (time : CivilTime) : Bool :=
  dayMatches words time &&
    match words.clock with
    | some clock => clockMatches clock time
    | none => (words.weekday.isSome || words.date.isSome) && isMidnight time

/-- Whether an expression matches a second since 1970, which is returned. -/
def calendarMatch (expression : Str) (seconds : Nat) : Option Nat :=
  let time := civilTime seconds
  let expression := trim expression
  match named time (lowercase expression) with
  | some fires => if fires then some seconds else none
  | none =>
    match splitWhitespace expression with
    | [] => none
    | tokens =>
      if (readWords {} tokens).any fun words => wordsMatch words time then some seconds else none

def CivilTime.timeOfDay (time : CivilTime) : Nat × Nat × Nat := (time.hour, time.minute, time.second)

/-- The time of day that a clock says without lists, ranges, steps and wildcards. -/
def fixedTime (clock : Str) : Option (Nat × Nat × Nat) :=
  match clock.splitOn ':' with
  | [hour, minute] => do some (← parseUnsigned 32 hour, ← parseUnsigned 32 minute, 0)
  | [hour, minute, second] => do
    some (← parseUnsigned 32 hour, ← parseUnsigned 32 minute, ← parseUnsigned 32 (wholeSeconds second))
  | _ => none

theorem splitOn_number {s : Str} {n : Nat} (h : parseUnsigned 32 s = some n) : s.splitOn ',' = [s] := by
  apply List.splitOn_eq_singleton
  exact not_mem_of_parseUnsigned h rfl (by simp)

theorem matchesComponent_number {s : Str} {n : Nat} (h : parseUnsigned 32 s = some n) (value : Nat) :
    matchesComponent s value ↔ n ≤ value := by
  have hslash : '/' ∉ s := not_mem_of_parseUnsigned h rfl (by simp)
  have hread : readPart s = some (.only n) := by
    have hsplit : splitOnce '/' s = none := by simp [splitOnce, hslash]
    simp [readPart, hsplit, readBase_single.mpr h, Base.alone]
  rw [matchesComponent, splitOn_number h]
  simp only [List.any_cons, List.any_nil, Bool.or_false, matchesPart_iff, hread, h, Option.mem_def,
    Option.some.injEq, exists_eq_left', Term.values, Set.mem_singleton_iff]
  omega

theorem clockMatches_fixed {clock : Str} {a b c : Nat} (h : fixedTime clock = some (a, b, c))
    (time : CivilTime) :
    clockMatches clock time ↔ a ≤ time.hour ∧ b ≤ time.minute ∧ c ≤ time.second := by
  simp only [fixedTime] at h
  simp only [clockMatches]
  split at h
  next hour minute heq =>
    simp only [Option.bind_eq_bind, Option.bind_eq_some_iff, Option.some.injEq, Prod.mk.injEq] at h
    obtain ⟨a, ha, b, hb, rfl, rfl, rfl⟩ := h
    have hzero : parseUnsigned 32 "0".toList = some 0 := by decide
    simp only [Bool.and_eq_true, matchesComponent_number ha, matchesComponent_number hb,
      matchesComponent_number hzero, and_assoc]
  next hour minute second heq =>
    simp only [Option.bind_eq_bind, Option.bind_eq_some_iff, Option.some.injEq, Prod.mk.injEq] at h
    obtain ⟨a, ha, b, hb, c, hc, rfl, rfl, rfl⟩ := h
    simp only [Bool.and_eq_true, matchesComponent_number ha, matchesComponent_number hb,
      matchesComponent_number hc, and_assoc]
  next => cases h

theorem readWords_clock {words next : Words} {tokens : List Str} {clock : Str}
    (h : readWords words tokens = some next) (hclock : next.clock = some clock) :
    words.clock = some clock ∨ clock ∈ tokens ∧ ':' ∈ clock := by
  fun_induction readWords words tokens with
  | case1 words => exact .inl (by rw [Option.some.inj h, hclock])
  | case2 words token tokens hutc ih =>
    exact (ih h).imp_right fun h => ⟨List.mem_cons_of_mem _ h.1, h.2⟩
  | case3 => cases h
  | case4 words token tokens hutc hcolon hnone ih =>
    obtain hnew | h := ih h
    · obtain rfl := Option.some.inj hnew
      exact .inr ⟨List.mem_cons_self, hcolon⟩
    · exact .inr ⟨List.mem_cons_of_mem _ h.1, h.2⟩
  | case5 => cases h
  | case6 words token tokens hutc hcolon hdate hnone ih =>
    exact (ih h).imp_right fun h => ⟨List.mem_cons_of_mem _ h.1, h.2⟩
  | case7 => cases h
  | case8 words token tokens hutc hcolon hdate hweekday hnone ih =>
    exact (ih h).imp_right fun h => ⟨List.mem_cons_of_mem _ h.1, h.2⟩
  | case9 => cases h

theorem named_of_colon {time : CivilTime} {name : Str} (h : ':' ∈ name) : named time name = none := by
  have hne (s : String) (hs : ':' ∉ s.toList) : String.ofList name ≠ s := by
    rintro rfl
    simp [h] at hs
  simp only [named, List.mem_cons, List.not_mem_nil, or_false]
  rw [if_neg (hne _ (by decide)), if_neg (hne _ (by decide)),
    if_neg (not_or.mpr ⟨hne _ (by decide), hne _ (by decide)⟩), if_neg (hne _ (by decide)),
    if_neg (hne _ (by decide)), if_neg (hne _ (by decide)),
    if_neg (not_or.mpr ⟨hne _ (by decide), hne _ (by decide)⟩)]

theorem calendarMatch_of_clock {expression clock : Str} {words : Words}
    (hwords : readWords {} (splitWhitespace (trim expression)) = some words)
    (hclock : words.clock = some clock) (seconds : Nat) :
    (calendarMatch expression seconds).isSome ↔
      dayMatches words (civilTime seconds) ∧ clockMatches clock (civilTime seconds) := by
  obtain hnone | ⟨hmem, hcolon⟩ := readWords_clock hwords hclock
  · cases hnone
  have htrim : ':' ∈ trim expression :=
    (mem_of_mem_splitOnP (List.mem_of_mem_filter hmem) ':' hcolon).1
  have hlower : ':' ∈ lowercase (trim expression) := List.mem_map.mpr ⟨':', htrim, rfl⟩
  rw [calendarMatch, named_of_colon hlower]
  have hany : ((readWords {} (splitWhitespace (trim expression))).any
      fun words => wordsMatch words (civilTime seconds)) =
      (dayMatches words (civilTime seconds) && clockMatches clock (civilTime seconds)) := by
    simp [hwords, wordsMatch, hclock]
  cases htokens : splitWhitespace (trim expression) with
  | nil => simp [htokens] at hmem
  | cons token tokens =>
    rw [htokens] at hany
    simp only [hany, Bool.and_eq_true]
    split
    next h => simpa using h
    next h => simpa using h

/-- A component passes what it denotes exactly where no lower number stands alone in it,
and a clock without lists, ranges, steps and wildcards passes one time of day of a day
exactly where the time asked about is not above it in every component. -/
theorem components_pass_what_they_denote (expression : Str) (value : Nat) :
    ((matchesComponent expression value ↔ value ∈ denotes expression) ↔
      value ∈ denotes expression ∨
        ∀ part ∈ expression.splitOn ',', ∀ n ∈ parseUnsigned 32 part, value ≤ n) ∧
    ∀ words clock a b c, readWords {} (splitWhitespace (trim expression)) = some words →
      words.clock = some clock → fixedTime clock = some (a, b, c) → ∀ seconds,
      (((calendarMatch expression seconds).isSome →
          (civilTime seconds).timeOfDay = (a, b, c)) ↔
        (civilTime seconds).timeOfDay = (a, b, c) ∨ dayMatches words (civilTime seconds) = false ∨
          (civilTime seconds).hour < a ∨ (civilTime seconds).minute < b ∨
            (civilTime seconds).second < c) := by
  constructor
  · rw [matchesComponent_iff]
    by_cases hv : value ∈ denotes expression
    · simp [hv]
    · simp only [hv, false_or, iff_false, not_exists, not_and, not_lt]
  · intro words clock a b c hwords hclock hfixed seconds
    rw [calendarMatch_of_clock hwords hclock, clockMatches_fixed hfixed]
    cases dayMatches words (civilTime seconds) with
    | false => simp
    | true =>
      by_cases hat : (civilTime seconds).timeOfDay = (a, b, c)
      · simp [hat]
      · simp only [hat, true_and, imp_false, false_or, reduceCtorEq]
        omega

theorem components_pass_at_noon :
    ((matchesComponent "12".toList 12 ↔ 12 ∈ denotes "12".toList) ↔
      12 ∈ denotes "12".toList ∨
        ∀ part ∈ "12".toList.splitOn ',', ∀ n ∈ parseUnsigned 32 part, 12 ≤ n) ∧
    (((calendarMatch "12:30".toList 43200).isSome →
        (civilTime 43200).timeOfDay = (12, 30, 0)) ↔
      (civilTime 43200).timeOfDay = (12, 30, 0) ∨ dayMatches {} (civilTime 43200) = false ∨
        (civilTime 43200).hour < 12 ∨ (civilTime 43200).minute < 30 ∨
          (civilTime 43200).second < 0) :=
  ⟨(components_pass_what_they_denote _ _).1,
    (components_pass_what_they_denote "12:30".toList 0).2 { clock := some "12:30".toList }
      "12:30".toList 12 30 0 (by decide +kernel) rfl (by decide +kernel) 43200⟩

/-- The hour 5 passes 7, and half past ten fires at a quarter to twelve. -/
theorem number_passes_later_values :
    matchesComponent "5".toList 7 = true ∧ 7 ∉ denotes "5".toList ∧
      (calendarMatch "10:30".toList 42300).isSome = true ∧
        (civilTime 42300).timeOfDay = (11, 45, 0) := by
  refine ⟨by decide +kernel, ?_, by decide +kernel, by decide +kernel⟩
  rintro ⟨part, hpart, t, ht, hv⟩
  have hsplit : "5".toList.splitOn ',' = ["5".toList] := by decide +kernel
  rw [hsplit, List.mem_singleton] at hpart
  subst hpart
  have hread : readPart "5".toList = some (.only 5) := by decide +kernel
  rw [hread] at ht
  cases ht
  cases hv

end FractalD.Supervisor.Calendar
