import FractalD.Machine.CString
import Mathlib.Data.List.Basic

namespace FractalD.Machine.Shell

/-- The characters of a word, each with whether it is quoted. What is not quoted can still be
expanded, or make the word a reserved one. -/
abbrev Word := List (Char × Bool)

def literal (s : List Char) : Word := s.map (·, true)

def unquoted (s : List Char) : Word := s.map (·, false)

inductive Token
  | word (w : Word)
  | operator (text : List Char)
  deriving DecidableEq, Repr

def operators : List (List Char) :=
  ["\n", "&", "&&", "|", "||", ";", ";;", "(", ")", "<", "<&", "<>", ">", ">>", ">&", ">|"].map
    String.toList

def backquote : Char := Char.ofNat 0x60

/-- Where the reading of a text stands. Outside of quotes there may be a word that has begun. -/
inductive Mode
  | plain (w : Option Word)
  | escaped (w : Option Word)
  | single (w : Word)
  | double (w : Word)
  | doubleEscaped (w : Word)
  | comment
  | operator (text : List Char)
  deriving DecidableEq, Repr

def delimit (w : Option Word) : List Token := w.toList.map .word

/-- The rules for a character that is not quoted. Where the result of an expansion would be part
of a word there is none. -/
def stepPlain (w : Option Word) (c : Char) : Option (List Token × Mode) :=
  if c = '\\' then some ([], .escaped w)
  else if c = '\'' then some ([], .single (w.getD []))
  else if c = '"' then some ([], .double (w.getD []))
  else if c ∈ ['$', backquote] then none
  else if [c] ∈ operators then some (delimit w, .operator [c])
  else if c ∈ [' ', '\t'] then some (delimit w, .plain none)
  else if c = '#' ∧ w = none then some ([], .comment)
  else some ([], .plain (some (w.getD [] ++ [(c, false)])))

def step : Mode → Char → Option (List Token × Mode)
  | .plain w, c => stepPlain w c
  | .escaped w, c =>
    some ([], .plain (if c = '\n' then w else some (w.getD [] ++ [(c, true)])))
  | .single w, c => some ([], if c = '\'' then .plain (some w) else .single (w ++ [(c, true)]))
  | .double w, c =>
    if c = '"' then some ([], .plain (some w))
    else if c = '\\' then some ([], .doubleEscaped w)
    else if c ∈ ['$', backquote] then none
    else some ([], .double (w ++ [(c, true)]))
  | .doubleEscaped w, c =>
    if c = '\n' then some ([], .double w)
    else if c ∈ ['$', backquote, '"', '\\'] then some ([], .double (w ++ [(c, true)]))
    else some ([], .double (w ++ [('\\', true), (c, true)]))
  | .comment, c => some ([], if c = '\n' then .operator [c] else .comment)
  | .operator text, c =>
    -- the text after a here-document is not read
    if text ++ [c] = ['<', '<'] then none
    else if text ++ [c] ∈ operators then some ([], .operator (text ++ [c]))
    else (stepPlain none c).map fun (out, mode) => (.operator text :: out, mode)

def finish : Mode → Option (List Token)
  | .plain w => some (delimit w)
  | .comment => some []
  | .operator text => some [.operator text]
  | _ => none

def tokensFrom : Mode → List Char → Option (List Token)
  | mode, [] => finish mode
  | mode, c :: s =>
    (step mode c).bind fun (out, mode) => (tokensFrom mode s).map (out ++ ·)

/-- The tokens of a text, by the rules of the shell. -/
def tokens (s : List Char) : Option (List Token) := tokensFrom (.plain none) s

example : tokens "echo 'a b'\\''c' \"d\" # e".toList =
    some [.word (unquoted "echo".toList), .word (literal "a b'c".toList),
      .word (literal "d".toList)] := by decide +kernel

section

variable {s t : List Char} {w : Option Word}

theorem tokensFrom_cons {mode next : Mode} {c : Char} {out : List Token}
    (h : step mode c = some (out, next)) :
    tokensFrom mode (c :: s) = (tokensFrom next s).map (out ++ ·) := by
  rw [tokensFrom, h, Option.bind_some]

theorem tokensFrom_quiet {mode next : Mode} {c : Char} (h : step mode c = some ([], next)) :
    tokensFrom mode (c :: s) = tokensFrom next s := by
  rw [tokensFrom_cons h]
  exact Option.map_id'

theorem tokensFrom_blank (c : Char) (hc : c ∈ [' ', '\t']) :
    tokensFrom (.plain w) (c :: s) = (tokensFrom (.plain none) s).map (delimit w ++ ·) := by
  apply tokensFrom_cons
  obtain rfl | rfl := by simpa using hc
  · rfl
  · rfl

theorem tokensFrom_operator {text : List Char}
    (h : ∀ c, text ++ [c] ∉ operators ∧ text ++ [c] ≠ ['<', '<']) :
    tokensFrom (.operator text) s =
      (tokensFrom (.plain none) s).map (.operator text :: ·) := by
  cases s with
  | nil => rfl
  | cons c s =>
    have hstep : step (.operator text) c =
        (stepPlain none c).map fun (out, mode) => (.operator text :: out, mode) := by
      rw [step, if_neg (h c).2, if_neg (h c).1]
    rw [tokensFrom, hstep, tokensFrom, step]
    cases stepPlain none c with
    | none => rfl
    | some next =>
      rw [Option.map_some, Option.bind_some, Option.bind_some, Option.map_map]
      rfl

theorem tokensFrom_newline :
    tokensFrom (.plain w) ('\n' :: s) =
      (tokensFrom (.plain none) s).map ((delimit w ++ [.operator ['\n']]) ++ ·) := by
  have hend : ∀ c, ['\n'] ++ [c] ∉ operators ∧ ['\n'] ++ [c] ≠ ['<', '<'] := by
    intro c
    simp [operators]
  have hstep : step (.plain w) '\n' = some (delimit w, .operator ['\n']) := rfl
  rw [tokensFrom_cons hstep, tokensFrom_operator hend,
    Option.map_map]
  congr 1
  funext out
  exact (List.append_assoc _ [_] out).symm

/-- A character that means nothing to the shell. -/
def Ordinary (c : Char) : Prop :=
  c ∉ ['\\', '\'', '"', '$', backquote, ' ', '\t', '#'] ∧ [c] ∉ operators

instance : DecidablePred Ordinary := fun c =>
  inferInstanceAs (Decidable (c ∉ ['\\', '\'', '"', '$', backquote, ' ', '\t', '#'] ∧ [c] ∉ operators))

theorem step_ordinary {c : Char} (h : Ordinary c) :
    step (.plain w) c = some ([], .plain (some (w.getD [] ++ [(c, false)]))) := by
  obtain ⟨hc, hop⟩ := h
  simp only [List.mem_cons, not_or, List.not_mem_nil, not_false_eq_true, and_true] at hc
  obtain ⟨hescape, hsingle, hdouble, hdollar, hback, hspace, htab, hhash⟩ := hc
  simp [step, stepPlain, hescape, hsingle, hdouble, hdollar, hback, hspace, htab, hhash, hop]

theorem tokensFrom_ordinary (hne : s ≠ []) (h : ∀ c ∈ s, Ordinary c) :
    tokensFrom (.plain w) (s ++ t) =
      tokensFrom (.plain (some (w.getD [] ++ unquoted s))) t := by
  induction s generalizing w with
  | nil => exact absurd rfl hne
  | cons c s ih =>
    obtain ⟨hc, hs⟩ := List.forall_mem_cons.mp h
    rw [List.cons_append, tokensFrom_quiet (step_ordinary hc)]
    cases s with
    | nil => rfl
    | cons d s =>
      rw [ih (List.cons_ne_nil d s) hs, Option.getD_some, List.append_assoc]
      rfl

end

end FractalD.Machine.Shell
