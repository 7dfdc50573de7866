import FractalD.Machine.Result
import FractalD.Machine.Text

namespace FractalD.Tmpfiles.Rules

open FractalD.Machine.CString FractalD.Machine.Text

/-- The age is in nanoseconds. -/
structure Rule where
  kind : Char
  force : Bool
  path : Str
  mode : Option Nat
  user : Option Str
  group : Option Str
  age : Option Nat
  argument : Option Str
  deriving DecidableEq

/-- The duration that a decimal number, times a factor, stands for as a `f64`, if it is a
finite one. -/
abbrev Durations := Str → Nat → Option Nat

structure Words where
  words : List Str
  current : Str
  quote : Option Char
  escaped : Bool
  started : Bool

def wordStep (w : Words) (c : Char) : Words :=
  if w.escaped then
    { w with current := w.current ++ [unescapeChar c], escaped := false, started := true }
  else if c = '\\' then { w with escaped := true, started := true }
  else
    match w.quote with
    | some active =>
      if c = active then { w with quote := none, started := true }
      else { w with current := w.current ++ [c], started := true }
    | none =>
      if c = '\'' ∨ c = '"' then { w with quote := some c, started := true }
      else if isWhitespace c then
        if w.started then
          { w with words := w.words ++ [w.current], current := [], started := false }
        else w
      else { w with current := w.current ++ [c], started := true }

def splitWords (value : Str) : Except Str (List Str) :=
  let w := value.foldl wordStep ⟨[], [], none, false, false⟩
  if w.escaped ∨ w.quote.isSome then .error "unterminated tmpfiles escape or quote".toList
  else .ok (if w.started then w.words ++ [w.current] else w.words)

/-- `u32::from_str_radix`, for octal digits. -/
def parseOctal (value : Str) : Option Nat :=
  let digits := if value.head? = some '+' then value.tail else value
  let number := digits.foldl (fun n c => 8 * n + digitValue c) 0
  if digits ≠ [] ∧ (digits.all fun c => '0' ≤ c ∧ c ≤ '7') ∧ number < 2 ^ 32 then some number
  else none

def parseMode (value : Str) : Except Str (Option Nat) :=
  if value = ['-'] then .ok none
  else
    let value := (removePrefix ['~'] value).getD value
    match parseOctal value with
    | some mode => .ok (some mode)
    | none => .error ("invalid mode ".toList ++ value)

def ageUnits : List (Str × Nat) :=
  [("s", 1), ("sec", 1), ("secs", 1), ("m", 60), ("min", 60), ("mins", 60), ("h", 3600),
   ("hour", 3600), ("hours", 3600), ("d", 86400), ("day", 86400), ("days", 86400),
   ("w", 604800), ("week", 604800), ("weeks", 604800), ("M", 2629800), ("month", 2629800),
   ("months", 2629800), ("y", 31557600), ("year", 31557600), ("years", 31557600)].map
    fun (unit, factor) => (unit.toList, factor)

def parseAge (durations : Durations) (value : Str) : Except Str Nat :=
  let value := trim value
  let invalid := "invalid age ".toList ++ value
  if value = [] ∨ value = ['-'] then .error "empty age".toList
  else if value = ['0'] then .ok 0
  else
    let inNumber : Char → Bool := fun c => c.isDigit || c == '.'
    let unit := value.dropWhile inNumber
    if unit = [] then .error invalid
    else
      match ageUnits.lookup unit with
      | none => .error invalid
      | some factor =>
        match durations (value.takeWhile inNumber) factor with
        | none => .error invalid
        | some age => .ok age

def parseRule (durations : Durations) (line : Str) : Except Str (Option Rule) := do
  let line := trim line
  if line = [] ∨ line.head? = some '#' then return none
  let fields ← splitWords line
  match fields with
  | typeField :: path :: rest =>
    match typeField with
    | [] => throw "empty tmpfiles type".toList
    | kind :: _ =>
      let given := fun (i : Nat) => rest[i]?.filter (· ≠ ['-'])
      let mode ← match rest[0]? with
        | some value => parseMode value
        | none => pure none
      let age ← match given 3 with
        | some value => some <$> parseAge durations value
        | none => pure none
      return some
        { kind, force := typeField.contains '!', path, mode, user := given 1, group := given 2,
          age, argument := if rest.length > 4 then some (join [' '] (rest.drop 4)) else none }
  | _ => throw "tmpfiles rule requires a type and path".toList

def wholeNumbers : Durations := fun number factor =>
  (parseU64 number).map fun n => n * factor * 1000000000

example : parseRule wholeNumbers "d /var/lib/example 0750 example example 2d".toList =
    .ok (some ⟨'d', false, "/var/lib/example".toList, some 0o750, some "example".toList,
      some "example".toList, some (172800 * 1000000000), none⟩) := by
  decide +kernel

end FractalD.Tmpfiles.Rules
