import FractalD.Core.Spec
import FractalD.Machine.Scan

namespace FractalD.Config.Words

open FractalD.Core.Spec FractalD.Machine.CString FractalD.Machine.Scan FractalD.Machine.Text

structure ConfigError where
  line : Option Nat
  message : Str
  deriving DecidableEq, Repr

namespace ConfigError

def atLine (line : Nat) (message : String) : ConfigError := ⟨some line, message.toList⟩

def ofMessage (message : Str) : ConfigError := ⟨none, message⟩

end ConfigError

def hexValue (c : Char) : Option Nat :=
  if '0' ≤ c ∧ c ≤ '9' then some (c.toNat - '0'.toNat)
  else if 'a' ≤ c ∧ c ≤ 'f' then some (c.toNat - 'a'.toNat + 10)
  else if 'A' ≤ c ∧ c ≤ 'F' then some (c.toNat - 'A'.toNat + 10)
  else none

/-- What has been read of a value. -/
structure Reading where
  words : List Str := []
  current : Str := []
  quote : Option Char := none
  escaped : Bool := false
  started : Bool := false

namespace Reading

variable (r : Reading)

def push (c : Char) : Reading := { r with current := r.current ++ [c], started := true }

/-- Read a character that does not follow a backslash. -/
def read (c : Char) : Reading :=
  if c = '\\' then { r with escaped := true, started := true }
  else match r.quote with
  | some active => if c = active then { r with quote := none, started := true } else r.push c
  | none =>
    if c = '\'' ∨ c = '"' then { r with quote := some c, started := true }
    else if isWhitespace c then
      if r.started then { r with words := r.words ++ [r.current], current := [], started := false }
      else r
    else r.push c

end Reading

def splitFrom (line : Nat) : Str → Reading → Except ConfigError (List Str)
  | [], r =>
    if r.escaped then .error (.atLine line "value ends with an escape")
    else if r.quote.isSome then .error (.atLine line "value has an unterminated quote")
    else .ok (if r.started then r.words ++ [r.current] else r.words)
  | c :: cs, r =>
    if r.escaped then
      if c = 'x' then
        match cs with
        | high :: low :: rest =>
          match hexValue high, hexValue low with
          | some h, some l =>
            splitFrom line rest { r.push (Char.ofNat (16 * h + l)) with escaped := false }
          | _, _ => .error (.atLine line "invalid hexadecimal escape")
        | _ => .error (.atLine line "invalid hexadecimal escape")
      else splitFrom line cs { r.push (unescapeChar c) with escaped := false }
    else splitFrom line cs (r.read c)

def splitWords (value : Str) (line : Nat) : Except ConfigError (List Str) :=
  splitFrom line value {}

/-- `str::split_once`. -/
def splitOnce (c : Char) (s : Str) : Option (Str × Str) :=
  if c ∈ s then some (s.takeWhile (· ≠ c), (s.dropWhile (· ≠ c)).tail) else none

theorem splitOnce_append {c : Char} {a : Str} (h : c ∉ a) (b : Str) :
    splitOnce c (a ++ c :: b) = some (a, b) := by
  have hne : ∀ x ∈ a, decide (x ≠ c) = true := by
    intro x hx
    rw [decide_eq_true_eq]
    rintro rfl
    exact h hx
  rw [splitOnce, if_pos (by simp), List.takeWhile_append_of_pos hne, List.dropWhile_append_of_pos hne,
    List.takeWhile_cons_of_neg (by simp), List.dropWhile_cons_of_neg (by simp), List.append_nil]
  rfl

/-- `str::parse::<i32>`. -/
def parseI32 (s : Str) : Option Int :=
  match s with
  | '-' :: digits =>
    if digits ≠ [] ∧ digits.all Char.isDigit ∧ decimalValue digits ≤ 2 ^ 31 then
      some (-(decimalValue digits : Int))
    else none
  | _ =>
    let digits := if s.head? = some '+' then s.tail else s
    if digits ≠ [] ∧ digits.all Char.isDigit ∧ decimalValue digits < 2 ^ 31 then
      some (decimalValue digits)
    else none

def errnoNames : List (Str × Int) :=
  [("KILL".toList, 0), ("EPERM".toList, 1), ("ENOENT".toList, 2), ("ESRCH".toList, 3),
    ("EINTR".toList, 4), ("EIO".toList, 5), ("E2BIG".toList, 7), ("EACCES".toList, 13),
    ("EFAULT".toList, 14), ("EBUSY".toList, 16), ("EEXIST".toList, 17), ("ENODEV".toList, 19),
    ("EINVAL".toList, 22), ("ENOSYS".toList, 38), ("ENOTEMPTY".toList, 39),
    ("ELOOP".toList, 40), ("EPIPE".toList, 32), ("ECANCELED".toList, 125)]

def parseErrno (value key : Str) : Except ConfigError Int :=
  match errnoNames.lookup (value.map Char.toUpper) with
  | some errno => .ok errno
  | none =>
    match (parseI32 value).filter fun n => 1 ≤ n ∧ n ≤ 4095 with
    | some errno => .ok errno
    | none => .error (.ofMessage ("invalid ".toList ++ key ++ "=".toList ++ value))

/-- A character of a value that stands for itself. -/
def Literal (c : Char) : Prop := isWhitespace c = false ∧ c ≠ '\\' ∧ c ≠ '\'' ∧ c ≠ '"'

instance literalDecidable : DecidablePred Literal := fun _ => instDecidableAnd

/-- A word stands for another, which has a character for each hexadecimal escape. -/
inductive Spells : Str → Str → Prop
  | nil : Spells [] []
  | literal {c : Char} {word read : Str} (h : Literal c) (rest : Spells word read) :
      Spells (c :: word) (c :: read)
  | escape {high low : Char} {m n : Nat} {word read : Str} (hhigh : hexValue high = some m)
      (hlow : hexValue low = some n) (rest : Spells word read) :
      Spells ('\\' :: 'x' :: high :: low :: word) (Char.ofNat (16 * m + n) :: read)

/-- Words each of which stands for another. -/
abbrev SpellsAll (words reads : List Str) : Prop :=
  List.Forall₂ (fun word read => word ≠ [] ∧ Spells word read) words reads

section

variable {c : Char} {word read rest : Str} {words reads : List Str} {line : Nat} {r : Reading}

theorem spells_literal (h : ∀ c ∈ word, Literal c) : Spells word word := by
  induction word with
  | nil => exact .nil
  | cons c word ih =>
    obtain ⟨hc, hword⟩ := List.forall_mem_cons.mp h
    exact .literal hc (ih hword)

theorem Spells.append {word' read' : Str} (h : Spells word read) (h' : Spells word' read') :
    Spells (word ++ word') (read ++ read') := by
  induction h with
  | nil => exact h'
  | literal hc _ ih => exact .literal hc ih
  | escape hhigh hlow _ ih => exact .escape hhigh hlow ih

theorem Spells.length_le (h : Spells word read) : read.length ≤ word.length := by
  induction h with
  | nil => exact le_rfl
  | literal _ _ ih => exact Nat.succ_le_succ ih
  | escape _ _ _ ih =>
    simp only [List.length_cons]
    omega

theorem hexValue_literal {n : Nat} (h : hexValue c = some n) : Literal c := by
  have hbound : c.toNat < 103 := by
    unfold hexValue at h
    split_ifs at h with hdigit hsmall hlarge
    · exact lt_of_le_of_lt hdigit.2 (by decide)
    · exact lt_of_le_of_lt hsmall.2 (by decide)
    · exact lt_of_le_of_lt hlarge.2 (by decide)
  have hall : ∀ n < 103, hexValue (Char.ofNat n) ≠ none → Literal (Char.ofNat n) := by decide +kernel
  rw [← Char.ofNat_toNat c] at h ⊢
  exact hall _ hbound (ne_of_eq_of_ne h (Option.some_ne_none n))

theorem Spells.solid (h : Spells word read) : ∀ c ∈ word, isWhitespace c = false := by
  induction h with
  | nil => simp
  | literal hc _ ih => exact List.forall_mem_cons.mpr ⟨hc.1, ih⟩
  | escape hhigh hlow _ ih =>
    simp only [List.forall_mem_cons]
    exact ⟨by decide, by decide, (hexValue_literal hhigh).1, (hexValue_literal hlow).1, ih⟩

theorem Spells.last (h : Spells word read) : ∀ c ∈ word.getLast?, c ≠ '\\' := by
  have hcons {c : Char} {word : Str} (hc : c ≠ '\\') (hword : ∀ c ∈ word.getLast?, c ≠ '\\') :
      ∀ d ∈ (c :: word).getLast?, d ≠ '\\' := by
    intro d hd
    by_cases hempty : word = []
    · subst hempty
      obtain rfl := Option.some.inj hd
      exact hc
    · rw [List.getLast?_cons_of_ne_nil hempty] at hd
      exact hword d hd
  induction h with
  | nil => simp
  | literal hc _ ih => exact hcons hc.2.1 ih
  | @escape high low m n word read hhigh hlow _ ih =>
    have hword := hcons (hexValue_literal hlow).2.1 ih
    rw [List.getLast?_cons_of_ne_nil (by simp), List.getLast?_cons_of_ne_nil (by simp),
      List.getLast?_cons_of_ne_nil (by simp)]
    exact hword

theorem Spells.of_literal (h : Spells (word ++ rest) read) (hword : ∀ c ∈ word, Literal c) :
    ∃ found, read = word ++ found ∧ Spells rest found := by
  induction word generalizing read with
  | nil => exact ⟨read, rfl, h⟩
  | cons c word ih =>
    obtain ⟨hc, hword⟩ := List.forall_mem_cons.mp hword
    generalize hwhole : c :: word ++ rest = whole at h
    cases h with
    | nil => cases hwhole
    | literal _ htail =>
      obtain ⟨rfl, rfl⟩ := List.cons.inj hwhole
      obtain ⟨found, rfl, hfound⟩ := ih htail hword
      exact ⟨found, rfl, hfound⟩
    | escape => exact absurd (List.cons.inj hwhole).1 hc.2.1

theorem spells_of_all {w : Str}
    (h : (decide (w ≠ []) && w.all fun c => decide (Literal c)) = true) :
    w ≠ [] ∧ Spells w w := by
  rw [Bool.and_eq_true, decide_eq_true_eq] at h
  exact ⟨h.1, spells_literal (forall_of_all h.2)⟩

/-- Words of characters that stand for themselves are read as they are. -/
theorem spellsAll_of_all
    (h : (words.all fun word => decide (word ≠ []) && word.all fun c => decide (Literal c)) = true) :
    SpellsAll words words := by
  rw [SpellsAll, List.forall₂_same]
  exact fun word hword => spells_of_all (List.all_eq_true.mp h word hword)

theorem SpellsAll.right (h : SpellsAll words reads) (hread : read ∈ reads) :
    ∃ word ∈ words, word ≠ [] ∧ Spells word read := exists_of_forall₂ h.flip hread

theorem splitFrom_cons (hescaped : r.escaped = false) :
    splitFrom line (c :: rest) r = splitFrom line rest (r.read c) := by
  conv_lhs => unfold splitFrom
  rw [if_neg (by simp [hescaped])]

theorem read_literal (h : Literal c) (hquote : r.quote = none) : r.read c = r.push c := by
  obtain ⟨hspace, hslash, hsingle, hdouble⟩ := h
  rw [Reading.read, if_neg hslash, hquote]
  simp [hsingle, hdouble, hspace]

theorem splitFrom_escape {high low : Char} {m n : Nat} (hhigh : hexValue high = some m)
    (hlow : hexValue low = some n) (hescaped : r.escaped = false) :
    splitFrom line ('\\' :: 'x' :: high :: low :: rest) r =
      splitFrom line rest (r.push (Char.ofNat (16 * m + n))) := by
  rw [splitFrom_cons hescaped, Reading.read, if_pos rfl]
  conv_lhs => unfold splitFrom
  rw [if_pos rfl, if_pos rfl]
  simp only [hhigh, hlow, Reading.push, ← hescaped]

theorem splitFrom_pushed (hword : Spells word read)
    (h : word ≠ [] → splitFrom line (word ++ rest) (r.push c) =
      splitFrom line rest { r.push c with current := (r.push c).current ++ read, started := true }) :
    splitFrom line (word ++ rest) (r.push c) =
      splitFrom line rest { r with current := r.current ++ c :: read, started := true } := by
  by_cases hempty : word = []
  · subst hempty
    cases hword
    rfl
  · rw [h hempty]
    simp [Reading.push]

theorem splitFrom_spells (h : Spells word read) (hne : word ≠ []) (hescaped : r.escaped = false)
    (hquote : r.quote = none) :
    splitFrom line (word ++ rest) r =
      splitFrom line rest { r with current := r.current ++ read, started := true } := by
  induction h generalizing r with
  | nil => exact absurd rfl hne
  | literal hc hword ih =>
    rw [List.cons_append, splitFrom_cons hescaped, read_literal hc hquote]
    exact splitFrom_pushed hword fun hne => ih hne hescaped hquote
  | escape hhigh hlow hword ih =>
    simp only [List.cons_append]
    rw [splitFrom_escape hhigh hlow hescaped]
    exact splitFrom_pushed hword fun hne => ih hne hescaped hquote

theorem splitWords_join (h : SpellsAll words reads) :
    splitWords (join [' '] words) line = .ok reads := by
  have hall (done : List Str) :
      splitFrom line (join [' '] words) { words := done } = .ok (done ++ reads) := by
    induction h generalizing done with
    | nil => simp [join, splitFrom]
    | @cons word read words reads hword hwords ih =>
      obtain ⟨hne, hword⟩ := hword
      cases words with
      | nil =>
        cases hwords
        have hjoin : join [' '] [word] = word ++ [] := by simp [join]
        rw [hjoin, splitFrom_spells hword hne rfl rfl]
        simp [splitFrom]
      | cons next words =>
        have hjoin : join [' '] (word :: next :: words) =
            word ++ ' ' :: join [' '] (next :: words) := by
          rw [join, List.intercalate_cons_cons, List.append_assoc]
          rfl
        rw [hjoin, splitFrom_spells hword hne rfl rfl, splitFrom_cons rfl]
        have hread : ({ words := done, current := [] ++ read, started := true } : Reading).read ' ' =
            { words := done ++ [read] } := rfl
        rw [hread, ih, List.append_assoc]
        rfl
  exact hall []

end

end FractalD.Config.Words
