import FractalD.Machine.Wire
import FractalD.Supervisor.Expansion
import Mathlib.Data.List.TakeWhile

namespace FractalD.Supervisor.MainPid

open FractalD.Machine.CString FractalD.Machine.OrderedMap FractalD.Machine.Scan FractalD.Machine.Wire
open FractalD.Supervisor.Expansion

def bare : Str := "$MAINPID".toList

def braced : Str := "${MAINPID}".toList

/-- A process id would not be written at the beginning of a text. -/
def Unmarked (s : Str) : Prop := ¬ bare <+: s ∧ ¬ braced <+: s

instance : DecidablePred Unmarked := fun s =>
  inferInstanceAs (Decidable (¬ bare <+: s ∧ ¬ braced <+: s))

/-- The name that is read between braces has none of the marks in it, nor one that the brace
after it completes. -/
def Untouched (name : Str) : Prop := ¬ bare <:+: name ∧ ¬ braced.dropLast <:+ name

/-- What a dollar sign is read as, by what is after it: the name of a variable if there is one,
and what is left. -/
inductive Dollar : Str → Option Str → Str → Prop
  | escape (rest : Str) : Dollar ('$' :: rest) none rest
  | braces (name rest : Str) (h : '}' ∉ name) :
      Dollar ('{' :: (name ++ '}' :: rest)) (some name) rest
  | name (start : Char) (more rest : Str) (hs : startsName start = true)
      (hm : ∀ c ∈ more, continuesName c = true) (hr : ∀ c ∈ rest.head?, continuesName c = false) :
      Dollar (start :: (more ++ rest)) (some (start :: more)) rest
  | lone (rest : Str) (hs : ∀ c ∈ rest.head?, c ≠ '$' ∧ startsName c = false)
      (hb : ∀ inner, rest = '{' :: inner → '}' ∉ inner) : Dollar rest none rest

section

variable {value : Str → Str}

theorem takeWhile_braces {name rest : Str} (h : '}' ∉ name) :
    (name ++ '}' :: rest).takeWhile (· ≠ '}') = name := by
  rw [List.takeWhile_append_of_pos]
  · simp
  · intro c hc
    exact decide_eq_true fun he => h (he ▸ hc)

theorem takeWhile_name {more rest : Str} (hm : ∀ c ∈ more, continuesName c = true)
    (hr : ∀ c ∈ rest.head?, continuesName c = false) :
    (more ++ rest).takeWhile continuesName = more := by
  rw [List.takeWhile_append_of_pos hm]
  cases rest with
  | nil => simp
  | cons c rest => simp [hr c rfl]

theorem expandDollar_braces {name rest : Str} (h : '}' ∉ name) :
    expandDollar value ('{' :: (name ++ '}' :: rest)) = (value name, name.length + 2) := by
  have hne : name ≠ name ++ '}' :: rest := by simp
  rw [expandDollar, takeWhile_braces h]
  exact if_neg hne

theorem expandDollar_name {start : Char} {more rest : Str} (hs : startsName start = true)
    (hm : ∀ c ∈ more, continuesName c = true) (hr : ∀ c ∈ rest.head?, continuesName c = false) :
    expandDollar value (start :: (more ++ rest)) = (value (start :: more), more.length + 1) := by
  have hdollar : start ≠ '$' := by
    rintro rfl
    exact absurd hs (by decide)
  have hbrace : start ≠ '{' := by
    rintro rfl
    exact absurd hs (by decide)
  rw [expandDollar]
  · rw [if_pos hs, takeWhile_name hm hr]
    rfl
  · exact hdollar
  · exact hbrace

theorem expandDollar_lone {rest : Str} (hs : ∀ c ∈ rest.head?, c ≠ '$' ∧ startsName c = false)
    (hb : ∀ inner, rest = '{' :: inner → '}' ∉ inner) : expandDollar value rest = (['$'], 0) := by
  cases rest with
  | nil => rfl
  | cons c rest =>
    obtain ⟨hd, hs⟩ := hs c rfl
    by_cases hc : c = '{'
    · subst hc
      have htake : rest.takeWhile (· ≠ '}') = rest :=
        List.takeWhile_eq_self_iff.mpr fun c hc => decide_eq_true fun he => hb rest rfl (he ▸ hc)
      rw [expandDollar, htake]
      exact if_pos rfl
    · rw [expandDollar, if_neg (Bool.eq_false_iff.mp hs)]
      · exact hd
      · exact hc

theorem dollar_cases (s : Str) : ∃ read rest, Dollar s read rest := by
  cases s with
  | nil => exact ⟨none, [], .lone [] (by simp) (by simp)⟩
  | cons c s =>
    by_cases hd : c = '$'
    · exact ⟨none, s, hd ▸ .escape s⟩
    · by_cases hs : startsName c = true
      · rw [← List.takeWhile_append_dropWhile (p := continuesName) (l := s)]
        refine ⟨_, _, .name c _ _ hs (fun a ha => List.mem_takeWhile_imp ha) fun a ha => ?_⟩
        have hnot := List.head?_dropWhile_not continuesName s
        rw [Option.mem_def.mp ha] at hnot
        exact hnot
      · by_cases hin : c = '{' ∧ '}' ∈ s
        · obtain ⟨rfl, hin⟩ := hin
          obtain ⟨name, rest, rfl, hname⟩ := List.eq_append_cons_of_mem hin
          exact ⟨some name, rest, .braces name rest hname⟩
        · refine ⟨none, c :: s, .lone _ ?_ ?_⟩
          · rintro a ⟨⟩
            exact ⟨hd, Bool.eq_false_iff.mpr hs⟩
          · rintro inner ⟨⟩ hmem
            exact hin ⟨rfl, hmem⟩

variable {s read rest : Str}

variable (value) in
theorem expandDollar_eq {read : Option Str} (h : Dollar s read rest) :
    (expandDollar value s).1 = read.elim ['$'] value ∧ s.drop (expandDollar value s).2 = rest := by
  cases h with
  | escape rest => exact ⟨rfl, rfl⟩
  | braces name rest h =>
    rw [expandDollar_braces h]
    simp
  | name start more rest hs hm hr =>
    rw [expandDollar_name hs hm hr]
    simp
  | lone rest hs hb =>
    rw [expandDollar_lone hs hb]
    exact ⟨rfl, rfl⟩

theorem scan_dollar {read : Option Str} (h : Dollar s read rest) :
    scan (environmentStep value) 0 ('$' :: s) =
      read.elim ['$'] value ++ scan (environmentStep value) 0 rest := by
  obtain ⟨hout, hdrop⟩ := expandDollar_eq value h
  rw [scan_cons, environmentStep, if_pos rfl, hout, hdrop]

theorem scan_plain {c : Char} (h : c ≠ '$') (s : Str) :
    scan (environmentStep value) 0 (c :: s) = c :: scan (environmentStep value) 0 s := by
  rw [scan_cons, environmentStep, if_neg h]
  rfl

theorem scan_append {w : Str} (h : '$' ∉ w) (s : Str) :
    scan (environmentStep value) 0 (w ++ s) = w ++ scan (environmentStep value) 0 s := by
  induction w with
  | nil => rfl
  | cons c w ih =>
    obtain ⟨hc, hw⟩ := not_or.mp (List.mem_cons.not.mp h)
    rw [List.cons_append, scan_plain (Ne.symm hc), ih hw, List.cons_append]

end

section

variable {pid : Nat} {s : Str}

theorem expandMainPid_eq (s : Str) (pid : Nat) : expandMainPid s pid =
    replace bare (printUnsigned pid) (replace braced (printUnsigned pid) s) := rfl

theorem notMem_printUnsigned {c : Char} (h : c.isDigit = false) : c ∉ printUnsigned pid := by
  intro hc
  rw [isDigit_of_mem_printUnsigned hc] at h
  exact absurd h (by decide)

theorem exists_digit (pid : Nat) : ∃ d digits, printUnsigned pid = d :: digits ∧ d.isDigit = true := by
  obtain ⟨d, digits, h⟩ := List.exists_cons_of_ne_nil (printUnsigned_ne_nil pid)
  exact ⟨d, digits, h, isDigit_of_mem_printUnsigned (h ▸ List.mem_cons_self)⟩

/-- A word without dollar signs stays as it is. -/
theorem expandMainPid_append {w : Str} (h : '$' ∉ w) :
    expandMainPid (w ++ s) pid = w ++ expandMainPid s pid := by
  rw [expandMainPid_eq, replace_append (d := '$') rfl h, replace_append (d := '$') rfl h]
  rfl

theorem expandMainPid_braced :
    expandMainPid (braced ++ s) pid = printUnsigned pid ++ expandMainPid s pid := by
  rw [expandMainPid_eq, replace_pattern (by decide), replace_append (d := '$') rfl
    (notMem_printUnsigned (by decide))]
  rfl

variable (pid s) in
theorem prefix_replace_braced {w : Str} (hd : '$' ∉ w) (hw : ∀ c ∈ w, c.isDigit = false) :
    w <+: replace braced (printUnsigned pid) s ↔ w <+: s := by
  obtain ⟨e, digits, he, hdigit⟩ := exists_digit pid
  apply prefix_replace (d := '$') (e := e) rfl
  · rw [he]
    rfl
  · exact hd
  · exact fun h => absurd (hw e h) (by rw [hdigit]; decide)

theorem expandMainPid_other {c : Char} (h : Unmarked (c :: s)) :
    expandMainPid (c :: s) pid = c :: expandMainPid s pid := by
  rw [expandMainPid_eq, replace_other h.2, replace_other]
  · rfl
  · intro hp
    obtain ⟨hc, hp⟩ := List.cons_prefix_cons.mp hp
    apply h.1
    rw [prefix_replace_braced pid s (by decide) (forall_of_all (by decide))] at hp
    exact List.cons_prefix_cons.mpr ⟨hc, hp⟩

theorem expandMainPid_bare :
    expandMainPid (bare ++ s) pid = printUnsigned pid ++ expandMainPid s pid := by
  have hrest : replace braced (printUnsigned pid) (bare ++ s) =
      bare ++ replace braced (printUnsigned pid) s := by
    change replace braced _ ('$' :: (bare.tail ++ s)) = _
    rw [replace_other, replace_append (d := '$') rfl (by decide)]
    · rfl
    · intro h
      obtain ⟨-, h⟩ := List.cons_prefix_cons.mp h
      exact absurd (List.cons_prefix_cons.mp h).1 (by decide)
  rw [expandMainPid_eq, hrest, replace_pattern (by decide)]
  rfl

variable (pid) in
/-- What is put in place of a mark begins with a digit. -/
theorem expandMainPid_marked (h : ¬ Unmarked s) :
    ∃ rest, expandMainPid s pid = printUnsigned pid ++ rest := by
  obtain hb | hb := not_and_or.mp h
  · obtain ⟨rest, rfl⟩ := not_not.mp hb
    exact ⟨_, expandMainPid_bare⟩
  · obtain ⟨rest, rfl⟩ := not_not.mp hb
    exact ⟨_, expandMainPid_braced⟩

theorem mem_expandMainPid {c : Char} (hc : c.isDigit = false) (h : c ∈ expandMainPid s pid) :
    c ∈ s := by
  rw [expandMainPid_eq] at h
  have hin := (mem_replace h).resolve_left (notMem_printUnsigned hc)
  exact (mem_replace hin).resolve_left (notMem_printUnsigned hc)

end

/-- Where a dollar sign is read, the two ways to expand agree. -/
def AgreesDollar : Str → Prop
  | '$' :: rest => Unmarked ('$' :: rest)
  | '{' :: inner =>
    let name := inner.takeWhile (· ≠ '}')
    name = inner ∨ name = mainPidName ∨ Untouched name
  | start :: more =>
    let name := start :: more.takeWhile continuesName
    startsName start → name = mainPidName ∨
      ¬ mainPidName <+: name ∧ Unmarked (more.dropWhile continuesName)
  | [] => True

def Agrees (c : Char) (rest : Str) : Prop := c = '$' → AgreesDollar rest

section

variable {name rest : Str}

theorem agreesDollar_braces (h : '}' ∉ name) :
    AgreesDollar ('{' :: (name ++ '}' :: rest)) ↔ name = mainPidName ∨ Untouched name := by
  rw [AgreesDollar, takeWhile_braces h]
  exact or_iff_right (by simp)

theorem agreesDollar_name {start : Char} {more : Str} (hs : startsName start = true)
    (hm : ∀ c ∈ more, continuesName c = true) (hr : ∀ c ∈ rest.head?, continuesName c = false) :
    AgreesDollar (start :: (more ++ rest)) ↔ start :: more = mainPidName ∨
      ¬ mainPidName <+: start :: more ∧ Unmarked rest := by
  have hdrop : (more ++ rest).dropWhile continuesName = rest := by
    rw [List.dropWhile_append_of_pos hm]
    cases rest with
    | nil => rfl
    | cons c rest => simp [hr c rfl]
  rw [AgreesDollar, takeWhile_name hm hr, hdrop]
  · exact ⟨fun h => h hs, fun h _ => h⟩
  · rintro rfl
    exact absurd hs (by decide)
  · rintro rfl
    exact absurd hs (by decide)

theorem agreesDollar_lone (hs : ∀ c ∈ rest.head?, c ≠ '$' ∧ startsName c = false)
    (hb : ∀ inner, rest = '{' :: inner → '}' ∉ inner) : AgreesDollar rest := by
  cases rest with
  | nil => trivial
  | cons c rest =>
    obtain ⟨hd, hs⟩ := hs c rfl
    by_cases hc : c = '{'
    · subst hc
      exact .inl (List.takeWhile_eq_self_iff.mpr fun c hc =>
        decide_eq_true fun he => hb rest rfl (he ▸ hc))
    · rw [AgreesDollar]
      · exact fun h => absurd h (Bool.eq_false_iff.mp hs)
      · exact hd
      · exact hc

end

section

variable {c : Char} {s name rest : Str} {pid : Nat}

theorem unmarked_of_ne (h : c ≠ '$') : Unmarked (c :: s) :=
  ⟨fun hp => h (List.cons_prefix_cons.mp hp).1.symm,
    fun hp => h (List.cons_prefix_cons.mp hp).1.symm⟩

variable (pid) in
theorem head_expandMainPid (h : Unmarked s) : (expandMainPid s pid).head? = s.head? := by
  cases s with
  | nil => rfl
  | cons c s => rw [expandMainPid_other h, List.head?_cons, List.head?_cons]

variable (name) in
theorem prefix_before {w : Str} (hw : '}' ∉ w) (h : w <+: name ++ '}' :: rest) : w <+: name := by
  obtain hle | ⟨u, rfl⟩ := List.prefix_or_prefix_of_prefix h (List.prefix_append name ('}' :: rest))
  · exact hle
  · rw [List.prefix_append_right_inj] at h
    cases u with
    | nil => exact (List.append_nil name).symm ▸ List.prefix_refl name
    | cons a u =>
      obtain ⟨rfl, -⟩ := List.cons_prefix_cons.mp h
      exact absurd (List.mem_append_right name List.mem_cons_self) hw

theorem untouched_cons (h : '}' ∉ c :: name) : Untouched (c :: name) ↔
    Unmarked (c :: (name ++ '}' :: rest)) ∧ Untouched name := by
  have hname : '}' ∉ name := fun hin => h (List.mem_cons_of_mem c hin)
  have hbare : bare <+: c :: name ↔ bare <+: c :: (name ++ '}' :: rest) :=
    ⟨fun hp => hp.trans ⟨'}' :: rest, rfl⟩,
      fun hp => prefix_before (c :: name) (by decide) hp⟩
  have hbraced : braced.dropLast = c :: name ↔ braced <+: c :: (name ++ '}' :: rest) := by
    constructor
    · intro he
      exact ⟨rest, by rw [← List.cons_append, ← he]; rfl⟩
    · intro hp
      have hsplit : braced = braced.dropLast ++ ['}'] := by decide
      obtain ⟨u, hu⟩ := prefix_before (c :: name) (w := braced.dropLast) (by decide)
        ((List.prefix_append _ ['}']).trans (hsplit ▸ hp))
      rw [hsplit, ← List.cons_append, ← hu, List.append_assoc, List.prefix_append_right_inj] at hp
      cases u with
      | nil => rwa [List.append_nil] at hu
      | cons a u =>
        obtain ⟨rfl, -⟩ := List.cons_prefix_cons.mp hp
        exact absurd (hu ▸ List.mem_append_right _ List.mem_cons_self) h
  rw [Untouched, Unmarked, Untouched, List.infix_cons_iff, List.suffix_cons_iff, hbare, hbraced,
    not_or, not_or, and_and_and_comm]

theorem expandMainPid_untouched (h : '}' ∉ name) (hu : Untouched name) :
    expandMainPid (name ++ '}' :: rest) pid = name ++ '}' :: expandMainPid rest pid := by
  induction name with
  | nil => exact expandMainPid_append (w := ['}']) (by decide)
  | cons c name ih =>
    obtain ⟨hmark, hu⟩ := (untouched_cons h).mp hu
    rw [List.cons_append, expandMainPid_other hmark,
      ih (fun hin => h (List.mem_cons_of_mem c hin)) hu, List.cons_append]

variable (pid rest) in
theorem untouched_of_kept (h : '}' ∉ name)
    (hp : name <+: expandMainPid (name ++ '}' :: rest) pid) : Untouched name := by
  induction name with
  | nil => exact ⟨by decide, by decide⟩
  | cons c name ih =>
    by_cases hmark : Unmarked (c :: (name ++ '}' :: rest))
    · rw [List.cons_append, expandMainPid_other hmark] at hp
      have hname := ih (fun hin => h (List.mem_cons_of_mem c hin)) (List.cons_prefix_cons.mp hp).2
      exact (untouched_cons h).mpr ⟨hmark, hname⟩
    · obtain ⟨out, hout⟩ := expandMainPid_marked pid hmark
      obtain ⟨d, digits, hpid, hd⟩ := exists_digit pid
      rw [List.cons_append, hout, hpid] at hp
      obtain ⟨rfl, -⟩ := List.cons_prefix_cons.mp hp
      apply absurd hmark
      apply not_not.mpr
      apply unmarked_of_ne
      rintro rfl
      exact absurd hd (by decide)

end

section

variable (around : Surroundings) (environment : Environment) {pid : Nat} {s rest : Str}

/-- The variables with the id of the main process. -/
def bound (pid : Nat) : Environment := environment.insert mainPidName (printUnsigned pid)

theorem valueOf_bound_self :
    valueOf around (bound environment pid) mainPidName = printUnsigned pid := by
  rw [valueOf, bound, get_insert_self]
  rfl

theorem valueOf_bound {name : Str} (h : name ≠ mainPidName) :
    valueOf around (bound environment pid) name = valueOf around environment name := by
  rw [valueOf, bound, get_insert_of_ne _ h, valueOf]

theorem notMem_name {start : Char} {more : Str} (hs : startsName start = true)
    (hm : ∀ c ∈ more, continuesName c = true) : '$' ∉ start :: more := by
  intro h
  obtain rfl | h := List.mem_cons.mp h
  · exact absurd hs (by decide)
  · exact absurd (hm '$' h) (by decide)

theorem prefix_name {w : Str} (name : Str) (hw : ∀ c ∈ w, continuesName c = true)
    (hr : ∀ c ∈ rest.head?, continuesName c = false) (h : w <+: name ++ rest) : w <+: name := by
  obtain hle | ⟨u, rfl⟩ := List.prefix_or_prefix_of_prefix h (List.prefix_append name rest)
  · exact hle
  · rw [List.prefix_append_right_inj] at h
    cases u with
    | nil => exact (List.append_nil name).symm ▸ List.prefix_refl name
    | cons a u =>
      obtain ⟨more, rfl⟩ := h
      have ha := hw a (List.mem_append_right name List.mem_cons_self)
      rw [hr a rfl] at ha
      exact absurd ha (by decide)

theorem unmarked_name {start : Char} {more : Str} (hs : startsName start = true)
    (hr : ∀ c ∈ rest.head?, continuesName c = false) (h : ¬ mainPidName <+: start :: more) :
    Unmarked ('$' :: start :: (more ++ rest)) := by
  constructor
  · intro hp
    have hp := (List.cons_prefix_cons.mp hp).2
    exact h (prefix_name (start :: more) (forall_of_all (by decide)) hr hp)
  · intro hp
    obtain ⟨rfl, -⟩ := List.cons_prefix_cons.mp (List.cons_prefix_cons.mp hp).2
    exact absurd hs (by decide)

theorem unmarked_braces {name : Str} (hb : '}' ∉ name) (h : name ≠ mainPidName) :
    Unmarked ('$' :: '{' :: (name ++ '}' :: rest)) := by
  constructor
  · intro hp
    exact absurd (List.cons_prefix_cons.mp (List.cons_prefix_cons.mp hp).2).1 (by decide)
  · intro hp
    have hp : mainPidName ++ ['}'] <+: name ++ '}' :: rest :=
      (List.cons_prefix_cons.mp (List.cons_prefix_cons.mp hp).2).2
    obtain ⟨u, rfl⟩ := prefix_before name (w := mainPidName) (by decide)
      ((List.prefix_append mainPidName ['}']).trans hp)
    rw [List.append_assoc, List.prefix_append_right_inj] at hp
    cases u with
    | nil => exact h (List.append_nil mainPidName)
    | cons a u =>
      obtain ⟨rfl, -⟩ := List.cons_prefix_cons.mp hp
      exact hb (List.mem_append_right _ List.mem_cons_self)

theorem unmarked_escape (rest : Str) : Unmarked ('$' :: '$' :: rest) :=
  ⟨fun hp => absurd (List.cons_prefix_cons.mp (List.cons_prefix_cons.mp hp).2).1 (by decide),
    fun hp => absurd (List.cons_prefix_cons.mp (List.cons_prefix_cons.mp hp).2).1 (by decide)⟩

theorem unmarked_lone (hs : ∀ c ∈ s.head?, c ≠ '$' ∧ startsName c = false)
    (hb : ∀ inner, s = '{' :: inner → '}' ∉ inner) : Unmarked ('$' :: s) := by
  cases s with
  | nil => exact ⟨by decide, by decide⟩
  | cons c s =>
    constructor
    · intro hp
      obtain ⟨rfl, -⟩ := List.cons_prefix_cons.mp (List.cons_prefix_cons.mp hp).2
      exact absurd (hs 'M' rfl).2 (by decide)
    · intro hp
      obtain ⟨hc, hrest⟩ := List.cons_prefix_cons.mp (List.cons_prefix_cons.mp hp).2
      have hinner : "MAINPID\x7d".toList <+: s := hrest
      exact hb s (hc ▸ rfl) (hinner.subset (by decide))

theorem expandEnvironment_dollar {read : Option Str} (h : Dollar s read rest) :
    expandEnvironment around ('$' :: s) environment =
      read.elim ['$'] (valueOf around environment) ++ expandEnvironment around rest environment :=
  scan_dollar h

theorem expandEnvironment_append {w : Str} (h : '$' ∉ w) :
    expandEnvironment around (w ++ s) environment = w ++ expandEnvironment around s environment :=
  scan_append h s

theorem expand_agreeing {read : Option Str} (h : Dollar s read rest) (ha : AgreesDollar s) :
    expandEnvironment around (expandMainPid ('$' :: s) pid) environment =
      read.elim ['$'] (valueOf around (bound environment pid)) ++
        expandEnvironment around (expandMainPid rest pid) environment := by
  cases h with
  | escape rest =>
    rw [expandMainPid_other (unmarked_escape rest), expandMainPid_other ha]
    exact expandEnvironment_dollar around environment (.escape _)
  | braces name rest hb =>
    by_cases hname : name = mainPidName
    · subst hname
      change expandEnvironment around (expandMainPid (braced ++ rest) pid) environment = _
      rw [expandMainPid_braced, expandEnvironment_append _ _ (notMem_printUnsigned (by decide)),
        Option.elim_some, valueOf_bound_self]
    · have hu := ((agreesDollar_braces hb).mp ha).resolve_left hname
      rw [expandMainPid_other (unmarked_braces hb hname), expandMainPid_other (unmarked_of_ne (by decide)),
        expandMainPid_untouched hb hu, Option.elim_some, valueOf_bound around environment hname]
      exact expandEnvironment_dollar around environment (.braces name _ hb)
  | name start more rest hs hm hr =>
    by_cases hname : start :: more = mainPidName
    · have htext : '$' :: start :: (more ++ rest) = bare ++ rest := by
        rw [← List.cons_append, hname]
        rfl
      rw [htext, expandMainPid_bare,
        expandEnvironment_append _ _ (notMem_printUnsigned (by decide)), Option.elim_some, hname,
        valueOf_bound_self]
    · obtain ⟨hpre, hmark⟩ := ((agreesDollar_name hs hm hr).mp ha).resolve_left hname
      rw [expandMainPid_other (unmarked_name hs hr hpre), ← List.cons_append,
        expandMainPid_append (notMem_name hs hm), Option.elim_some,
        valueOf_bound around environment hname]
      rw [← head_expandMainPid pid hmark] at hr
      exact expandEnvironment_dollar around environment (.name start more _ hs hm hr)
  | lone s hs hb =>
    have hhead : Unmarked s := by
      cases s with
      | nil => exact ⟨by decide, by decide⟩
      | cons c s => exact unmarked_of_ne (hs c rfl).1
    rw [expandMainPid_other (unmarked_lone hs hb)]
    refine expandEnvironment_dollar around environment (.lone _ ?_ ?_)
    · rwa [head_expandMainPid pid hhead]
    · intro inner hinner hmem
      cases s with
      | nil => exact absurd hinner.symm (List.cons_ne_nil _ _)
      | cons c s =>
        rw [expandMainPid_other hhead] at hinner
        cases hinner
        exact hb s rfl (mem_expandMainPid (by decide) hmem)

/-- Variables that tell two names apart. -/
def apart (a b : Str) : Environment := (empty.insert a ['!']).insert b ['?']

theorem valueOf_apart_right (a b : Str) : valueOf around (apart a b) b = ['?'] := by
  rw [valueOf, apart, get_insert_self]
  rfl

theorem valueOf_apart_left {a b : Str} (h : a ≠ b) : valueOf around (apart a b) a = ['!'] := by
  rw [valueOf, apart, get_insert_of_ne _ h, get_insert_self]
  rfl

theorem marked_dollar (h : ¬ Unmarked ('$' :: s)) :
    ∃ m more, s = m :: more ∧ m ≠ '$' ∧ m.isDigit = false := by
  obtain hb | hb := not_and_or.mp h
  · obtain ⟨more, hmore⟩ := not_not.mp hb
    exact ⟨'M', "AINPID".toList ++ more, (List.cons.inj hmore).2.symm, by decide, by decide⟩
  · obtain ⟨more, hmore⟩ := not_not.mp hb
    exact ⟨'{', "MAINPID\x7d".toList ++ more, (List.cons.inj hmore).2.symm, by decide, by decide⟩

theorem expandEnvironment_plain {c : Char} (h : c ≠ '$') :
    expandEnvironment around (c :: s) environment = c :: expandEnvironment around s environment :=
  scan_plain h s

theorem startsName_digit {d : Char} (h : d.isDigit = true) : startsName d = false := by
  have hhigh : d.toNat ≤ 57 := (Char.isDigit_iff_toNat.mp h).2
  have hline : d ≠ '_' := by
    rintro rfl
    exact absurd hhigh (by decide)
  have hupper : d.isUpper = false := by
    refine decide_eq_false fun hA => ?_
    have hA : 65 ≤ d.toNat := UInt32.le_iff_toNat_le.mp hA.1
    omega
  have hlower : d.isLower = false := by
    refine Bool.and_eq_false_iff.mpr (.inl (decide_eq_false fun ha => ?_))
    have ha : 97 ≤ d.toNat := UInt32.le_iff_toNat_le.mp ha
    omega
  rw [startsName, Machine.Text.isAlpha_eq, hupper, hlower, decide_eq_false hline]
  rfl

theorem continuesName_digit {d : Char} (h : d.isDigit = true) : continuesName d = true := by
  rw [continuesName, Char.isAlphanum, h, Bool.or_true, Bool.true_or]

theorem dollar_digit {d : Char} (h : d.isDigit = true) : Dollar (d :: s) none (d :: s) := by
  have hdigit (c : Char) (hc : c.isDigit = false) : d ≠ c := by
    rintro rfl
    rw [h] at hc
    exact absurd hc (by decide)
  apply Dollar.lone
  · rintro c ⟨⟩
    exact ⟨hdigit '$' (by decide), startsName_digit h⟩
  · rintro inner ⟨⟩
    exact absurd rfl (hdigit '{' (by decide))

variable (pid) in
theorem expand_differs {read : Option Str} (h : Dollar s read rest) (ha : ¬ AgreesDollar s) :
    ∃ environment, expandEnvironment around (expandMainPid ('$' :: s) pid) environment ≠
      expandEnvironment around ('$' :: s) (bound environment pid) := by
  obtain ⟨d, digits, hpid, hdigit⟩ := exists_digit pid
  have hd : ∀ c, c.isDigit = false → d ≠ c := by
    rintro c hc rfl
    rw [hdigit] at hc
    exact absurd hc (by decide)
  cases h with
  | escape rest =>
    obtain ⟨out, hout⟩ := expandMainPid_marked pid ha
    obtain ⟨m, more, rfl, hm, hmdigit⟩ := marked_dollar ha
    refine ⟨empty, ?_⟩
    rw [expandMainPid_other (unmarked_escape _), hout, hpid, List.cons_append,
      expandEnvironment_dollar _ _ (dollar_digit hdigit),
      expandEnvironment_dollar _ _ (.escape (m :: more)), expandEnvironment_plain _ _ hm,
      expandEnvironment_plain _ _ (hd '$' (by decide))]
    intro he
    exact hd m hmdigit (List.cons.inj (List.cons.inj he).2).1
  | braces name rest hb =>
    obtain ⟨hname, htouched⟩ := not_or.mp ((agreesDollar_braces hb).not.mp ha)
    have hchanged := mt (untouched_of_kept rest pid hb) htouched
    rw [expandMainPid_other (unmarked_braces hb hname),
      expandMainPid_other (unmarked_of_ne (by decide))]
    by_cases hin : '}' ∈ expandMainPid (name ++ '}' :: rest) pid
    · obtain ⟨name', rest', hsplit, hb'⟩ := List.eq_append_cons_of_mem hin
      have hne : name ≠ name' := by
        rintro rfl
        exact hchanged ⟨'}' :: rest', hsplit.symm⟩
      refine ⟨apart name name', ?_⟩
      rw [hsplit, expandEnvironment_dollar _ _ (.braces name' rest' hb'),
        expandEnvironment_dollar _ _ (.braces name rest hb), Option.elim_some, Option.elim_some,
        valueOf_bound _ _ hname, valueOf_apart_left _ hne, valueOf_apart_right]
      exact fun he => absurd (List.cons.inj he).1 (by decide)
    · have hlone : Dollar ('{' :: expandMainPid (name ++ '}' :: rest) pid) none
          ('{' :: expandMainPid (name ++ '}' :: rest) pid) := by
        apply Dollar.lone
        · rintro c ⟨⟩
          exact ⟨by decide, by decide⟩
        · rintro inner ⟨⟩
          exact hin
      refine ⟨apart name ('}' :: name), ?_⟩
      rw [expandEnvironment_dollar _ _ hlone, expandEnvironment_dollar _ _ (.braces name rest hb),
        Option.elim_some, valueOf_bound _ _ hname, valueOf_apart_left _ (by simp)]
      exact fun he => absurd (List.cons.inj he).1 (by decide)
  | name start more rest hs hm hr =>
    obtain ⟨hname, hdiffers⟩ := not_or.mp ((agreesDollar_name hs hm hr).not.mp ha)
    by_cases hpre : mainPidName <+: start :: more
    · obtain ⟨longer, hlonger⟩ := hpre
      refine ⟨apart (start :: more) [], ?_⟩
      have htext : '$' :: start :: (more ++ rest) = bare ++ (longer ++ rest) := by
        rw [← List.cons_append, ← hlonger, List.append_assoc]
        rfl
      rw [expandEnvironment_dollar _ _ (.name start more rest hs hm hr), htext, expandMainPid_bare,
        hpid, List.cons_append, expandEnvironment_plain _ _ (hd '$' (by decide)), Option.elim_some,
        valueOf_bound _ _ hname, valueOf_apart_left _ (by simp)]
      exact fun he => hd '!' (by decide) (List.cons.inj he).1
    · obtain ⟨out, hout⟩ := expandMainPid_marked pid (not_and.mp hdiffers hpre)
      let longer := more ++ (expandMainPid rest pid).takeWhile continuesName
      have hlonger : Dollar (start :: (longer ++ (expandMainPid rest pid).dropWhile continuesName))
          (some (start :: longer)) ((expandMainPid rest pid).dropWhile continuesName) := by
        apply Dollar.name _ _ _ hs
        · intro c hc
          obtain hc | hc := List.mem_append.mp hc
          · exact hm c hc
          · exact List.mem_takeWhile_imp hc
        · intro c hc
          have hnot := List.head?_dropWhile_not continuesName (expandMainPid rest pid)
          rw [Option.mem_def.mp hc] at hnot
          exact hnot
      have hne : start :: more ≠ start :: longer := by
        intro he
        have hnil := List.self_eq_append_right.mp (List.cons.inj he).2
        rw [hout, hpid, List.cons_append, List.takeWhile_cons, continuesName_digit hdigit] at hnil
        exact absurd hnil (List.cons_ne_nil _ _)
      refine ⟨apart (start :: more) (start :: longer), ?_⟩
      rw [List.append_assoc, List.takeWhile_append_dropWhile] at hlonger
      rw [expandEnvironment_dollar _ _ (.name start more rest hs hm hr),
        expandMainPid_other (unmarked_name hs hr hpre), ← List.cons_append,
        expandMainPid_append (notMem_name hs hm), List.cons_append,
        expandEnvironment_dollar _ _ hlonger, Option.elim_some, Option.elim_some,
        valueOf_bound _ _ hname, valueOf_apart_left _ hne, valueOf_apart_right]
      exact fun he => absurd (List.cons.inj he).1 (by decide)
  | lone rest hs hb => exact absurd (agreesDollar_lone hs hb) ha

end

/-- The special handling of the main process id agrees with the expansion of variables, for
all variables, exactly where the two agree on each dollar sign that is read. -/
theorem mainPid_agrees_iff (around : Surroundings) (pid : Nat) (argument : Str) :
    (∀ environment : Environment,
      expandEnvironment around (expandMainPid argument pid) environment =
        expandEnvironment around argument
          (environment.insert mainPidName (printUnsigned pid))) ↔
      Throughout (environmentStep id) Agrees 0 argument := by
  change (∀ environment, _ = expandEnvironment around argument (bound environment pid)) ↔ _
  induction h : argument.length using Nat.strong_induction_on generalizing argument with
  | _ n ih => cases argument with
    | nil => exact iff_of_true (fun _ => rfl) trivial
    | cons c s =>
      by_cases hc : c = '$'
      · subst hc
        obtain ⟨read, rest, hread⟩ := dollar_cases s
        have hrest := (expandDollar_eq id hread).2
        have hlength : rest.length < n := by
          rw [← hrest, List.length_drop, ← h, List.length_cons]
          omega
        have hthroughout : Throughout (environmentStep id) Agrees 0 ('$' :: s) ↔
            AgreesDollar s ∧ Throughout (environmentStep id) Agrees 0 rest := by
          rw [throughout_cons, environmentStep, if_pos rfl, hrest]
          exact and_congr_left' ⟨fun h => h rfl, fun h _ => h⟩
        rw [hthroughout, ← ih _ hlength rest rfl]
        by_cases ha : AgreesDollar s
        · rw [and_iff_right ha]
          refine forall_congr' fun environment => ?_
          rw [expand_agreeing _ _ hread ha, expandEnvironment_dollar _ _ hread,
            List.append_cancel_left_eq]
        · obtain ⟨environment, hdiffers⟩ := expand_differs around pid hread ha
          exact iff_of_false (fun h => hdiffers (h environment)) fun h => ha h.1
      · have hlength : s.length < n := by
          rw [← h, List.length_cons]
          omega
        have hplain : Agrees c s := fun h => absurd h hc
        rw [throughout_cons, and_iff_right hplain, environmentStep, if_neg hc, List.drop_zero,
          ← ih _ hlength s rfl]
        refine forall_congr' fun environment => ?_
        rw [expandMainPid_other (unmarked_of_ne hc), expandEnvironment_plain _ _ hc,
          expandEnvironment_plain _ _ hc, List.cons_inj_right]

/-- The dollar sign of an escaped name is taken with the name, and so is the beginning of a
longer name. -/
theorem escaped_mainPid_expanded :
    expandEnvironment ⟨fun _ => none, 1000, fun _ => none⟩
        (expandMainPid "$$MAINPID".toList 123) empty = "$123".toList ∧
      expandEnvironment ⟨fun _ => none, 1000, fun _ => none⟩
          (expandMainPid "$$MAINPID".toList 123) empty ≠
        expandEnvironment ⟨fun _ => none, 1000, fun _ => none⟩ "$$MAINPID".toList
          (empty.insert mainPidName (printUnsigned 123)) ∧
      expandEnvironment ⟨fun _ => none, 1000, fun _ => none⟩
          (expandMainPid "$MAINPIDS".toList 123) empty ≠
        expandEnvironment ⟨fun _ => none, 1000, fun _ => none⟩ "$MAINPIDS".toList
          (empty.insert mainPidName (printUnsigned 123)) := by
  decide +kernel

end FractalD.Supervisor.MainPid
