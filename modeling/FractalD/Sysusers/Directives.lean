import FractalD.Config.Words
import FractalD.Machine.Text

namespace FractalD.Sysusers.Directives

open FractalD.Config.Words FractalD.Machine.CString FractalD.Machine.Text

inductive DirectiveKind
  | user (locked : Bool)
  | group
  | member
  | range
  deriving DecidableEq, Repr

structure Directive where
  kind : DirectiveKind
  fields : List Str
  deriving DecidableEq, Repr

/-- `char::is_ascii_whitespace`. -/
def isAsciiWhitespace (c : Char) : Bool := c ∈ [' ', '\t', '\n', '\x0c', '\r']

structure Splitting where
  fields : List Str
  current : Str
  quoted : Option Char
  escaped : Bool

namespace Splitting

def start : Splitting := ⟨[], [], none, false⟩

def push (q : Splitting) (c : Char) : Splitting := { q with current := q.current ++ [c] }

def endField (q : Splitting) : Splitting :=
  if q.current = [] then q else { q with fields := q.fields ++ [q.current], current := [] }

def scan (q : Splitting) : Str → Splitting
  | [] => q
  | c :: rest =>
    if q.escaped then scan { q.push (unescapeChar c) with escaped := false } rest
    else if c = '\\' then scan { q with escaped := true } rest
    else
      match q.quoted with
      | some quote => scan (if c = quote then { q with quoted := none } else q.push c) rest
      | none =>
        if c = '\'' ∨ c = '"' then scan { q with quoted := some c } rest
        else if c = '#' then q
        else scan (if isAsciiWhitespace c then q.endField else q.push c) rest

end Splitting

def splitFields (line : Str) : Except Str (List Str) :=
  let q := Splitting.start.scan line
  let q := if q.escaped then q.push '\\' else q
  if q.quoted.isSome then .error "unterminated quoted field".toList else .ok q.endField.fields

section

variable (debug : Str → Str)

def parseDirective (line : Str) : Except Str (Option Directive) := do
  match ← splitFields line with
  | [] => pure none
  | kind :: fields =>
    if kind = "u".toList then pure (some ⟨.user false, fields⟩)
    else if kind = "u!".toList then pure (some ⟨.user true, fields⟩)
    else if kind = "g".toList then pure (some ⟨.group, fields⟩)
    else if kind = "m".toList then pure (some ⟨.member, fields⟩)
    else if kind = "r".toList then pure (some ⟨.range, fields⟩)
    else throw ("unknown directive type ".toList ++ debug kind)

def validateId (value : Nat) : Except Str Unit :=
  if value = 2 ^ 16 - 1 ∨ value = 2 ^ 32 - 1 then
    .error ("ID ".toList ++ printUnsigned value ++ " is reserved".toList)
  else .ok ()

def parseRange (value : Str) : Except Str (Nat × Nat) := do
  let (low, high) := (splitOnce '-' value).getD (value, value)
  let number (text : Str) : Except Str Nat :=
    match parseUnsigned 32 text with
    | some n => .ok n
    | none => .error ("invalid allocation range ".toList ++ debug value)
  let low ← number low
  let high ← number high
  validateId low
  validateId high
  if low > high then
    throw ("allocation range ".toList ++ debug value ++ " is reversed".toList)
  pure (low, high)

def validateName (name : Str) : Except Str Unit :=
  match name with
  | [] => .error "account name is empty".toList
  | first :: rest =>
    if utf8Length name > 31 ∨ !(first.isAlpha || first = '_') ∨
        !rest.all fun c => c.isAlphanum || c ∈ ['_', '-'] then
      .error ("invalid user or group name ".toList ++ debug name)
    else .ok ()

end

/-- A field that is given. A dash stands for none. -/
def optionalField (value : Option Str) : Option Str := value.filter (· ≠ "-".toList)

def numericField (fields : List Str) (index : Nat) (kind : String) (name : Str) : Except Str Nat :=
  let described (what : String) : Str := kind.toList ++ " ".toList ++ name ++ what.toList
  match fields[index]? with
  | none => .error (described " has no numeric ID")
  | some field =>
    match parseUnsigned 32 field with
    | none => .error (described " has an invalid numeric ID")
    | some value => .ok value

def expectFields (fields : List Str) (count : Nat) (kind : String) : Except Str Unit :=
  if fields.length ≠ count then
    .error (kind.toList ++ " directives require exactly ".toList ++ printUnsigned count ++
      " fields".toList)
  else .ok ()

def expectGroupFields (fields : List Str) : Except Str Unit :=
  if fields = [] ∨ fields.length > 4 then
    .error "g directives require a name and up to three optional fields".toList
  else .ok ()

example : splitFields "u demo - \"Demo User\" /srv/demo # comment".toList =
    .ok ["u".toList, "demo".toList, "-".toList, "Demo User".toList, "/srv/demo".toList] := by
  decide

end FractalD.Sysusers.Directives
