import FractalD.Machine.CString
import Mathlib.Data.List.Basic

namespace FractalD.Machine.Text

open FractalD.Machine.CString

/-- `char::is_whitespace`. -/
def isWhitespace (c : Char) : Bool :=
  isSpace c || c.toNat ∈ [0x85, 0xa0, 0x1680, 0x2028, 0x2029, 0x202f, 0x205f, 0x3000] ||
    (0x2000 ≤ c.toNat && c.toNat ≤ 0x200a)

def splitWhitespace (s : Str) : List Str := (s.splitOnP isWhitespace).filter (· ≠ [])

/-- Drop what satisfies a predicate from the end of a text. -/
def trimEnd (p : Char → Bool) (s : Str) : Str := (s.reverse.dropWhile p).reverse

def trim (s : Str) : Str := trimEnd isWhitespace (s.dropWhile isWhitespace)

/-- `str::lines`. A carriage return before the end of a line is no part of it. -/
def textLines (s : Str) : List Str :=
  let parts := s.splitOn '\n'
  (parts.dropLast.map fun line => if line.getLast? = some '\r' then line.dropLast else line) ++
    parts.getLast?.toList.filter (· ≠ [])

theorem isAlpha_eq (c : Char) : c.isAlpha = (c.isUpper || c.isLower) := rfl

theorem isUpper_eq (c : Char) :
    c.isUpper = (decide ('A'.val ≤ c.val) && decide (c.val ≤ 'Z'.val)) :=
  Bool.decide_and _ _

theorem isLower_eq (c : Char) :
    c.isLower = (decide ('a'.val ≤ c.val) && decide (c.val ≤ 'z'.val)) := rfl

def utf8Length (s : Str) : Nat := (s.map Char.utf8Size).sum

/-- `str::parse::<u64>`. -/
def parseU64 (s : Str) : Option Nat :=
  let digits := if s.head? = some '+' then s.tail else s
  if digits ≠ [] ∧ digits.all Char.isDigit ∧ decimalValue digits ≤ ulongMax then
    some (decimalValue digits)
  else none

/-- `str::parse` for an unsigned number of so many bits. -/
def parseUnsigned (bits : Nat) (s : Str) : Option Nat := (parseU64 s).filter (· < 2 ^ bits)

/-- `str::as_bytes`. -/
def asBytes (s : Str) : List UInt8 := s.flatMap String.utf8EncodeChar

def byteChars (s : Str) : Str := (asBytes s).map fun b => Char.ofNat b.toNat

/-- `to_ascii_lowercase`. -/
def lowercase (s : Str) : Str := s.map Char.toLower

def unescapeChar (c : Char) : Char :=
  if c = 'n' then '\n' else if c = 'r' then '\r' else if c = 't' then '\t' else c

def join (separator : Str) (l : List Str) : Str := List.intercalate separator l

def removeSuffix (suffix s : Str) : Option Str :=
  if suffix.isSuffixOf s then some (s.take (s.length - suffix.length)) else none

def removePrefix (start s : Str) : Option Str :=
  if start.isPrefixOf s then some (s.drop start.length) else none

/-- `trim_end_matches`; each match takes a character. -/
def trimMatches (suffix : Str) : Nat → Str → Str
  | 0, s => s
  | n + 1, s =>
    match removeSuffix suffix s with
    | some t => trimMatches suffix n t
    | none => s

def trimEndMatches (suffix s : Str) : Str := trimMatches suffix s.length s

theorem removeSuffix_some {suffix s t : Str} : removeSuffix suffix s = some t ↔ s = t ++ suffix := by
  unfold removeSuffix
  by_cases h : suffix.isSuffixOf s
  · obtain ⟨u, rfl⟩ := List.isSuffixOf_iff_suffix.mp h
    simp [h, eq_comm]
  · simp only [h, Bool.false_eq_true, if_false, reduceCtorEq, false_iff]
    rintro rfl
    exact h (List.isSuffixOf_iff_suffix.mpr (List.suffix_append t suffix))

theorem removeSuffix_none {suffix s : Str} : removeSuffix suffix s = none ↔ ¬ suffix <:+ s := by
  simp [removeSuffix]

@[simp]
theorem removeSuffix_append (suffix s : Str) : removeSuffix suffix (s ++ suffix) = some s :=
  removeSuffix_some.mpr rfl

theorem trimMatches_ends {suffix : Str} (hne : suffix ≠ []) {n : Nat} {s : Str} (hn : s.length ≤ n) :
    ¬ suffix <:+ trimMatches suffix n s := by
  induction n generalizing s with
  | zero =>
    obtain rfl := List.length_eq_zero_iff.mp (Nat.le_zero.mp hn)
    simpa [trimMatches] using hne
  | succ n ih =>
    unfold trimMatches
    cases h : removeSuffix suffix s with
    | none => exact removeSuffix_none.mp h
    | some t =>
      have hs := removeSuffix_some.mp h
      have hpos := List.length_pos_iff.mpr hne
      apply ih
      simp only [hs, List.length_append] at hn
      omega

theorem trimEndMatches_ends {suffix : Str} (hne : suffix ≠ []) (s : Str) :
    ¬ suffix <:+ trimEndMatches suffix s := trimMatches_ends hne (Nat.le_refl _)

theorem trimEndMatches_append {suffix : Str} (hne : suffix ≠ []) {s : Str} (h : ¬ suffix <:+ s) :
    trimEndMatches suffix (s ++ suffix) = s := by
  have hpos := List.length_pos_iff.mpr hne
  obtain ⟨n, hn⟩ : ∃ n, (s ++ suffix).length = n + 1 :=
    ⟨(s ++ suffix).length - 1, by rw [List.length_append]; omega⟩
  have hrest : trimMatches suffix n s = s := by
    cases n with
    | zero => rfl
    | succ n => rw [trimMatches, removeSuffix_none.mpr h]
  rw [trimEndMatches, hn, trimMatches, removeSuffix_append]
  exact hrest

end FractalD.Machine.Text
