import Mathlib.Data.List.Basic
import Mathlib.Algebra.Group.Int.Defs
import Mathlib.Algebra.Group.Nat.Defs
import Mathlib.Algebra.GroupWithZero.Nat

namespace FractalD.Machine.CString

/-- The characters of a C string, without the terminating NUL. -/
abbrev Str := List Char

instance lawfulStr : LawfulBEq Str := inferInstance

def isSpace (c : Char) : Bool := c.toNat == 32 || (9 ≤ c.toNat && c.toNat ≤ 13)

def digitValue (c : Char) : Nat := c.toNat - 48

def decimalValue (ds : List Char) : Nat := ds.foldl (fun n c => 10 * n + digitValue c) 0

def ulongMax : Nat := 2 ^ 64 - 1

/-- The result of `strtoul`: the value, whether `errno` was set to `ERANGE`,
and the text from the end pointer on. -/
structure Parsed where
  value : Nat
  range : Bool
  rest : Str
  deriving DecidableEq, Repr

def takeSign : Str → Bool × Str
  | [] => (false, [])
  | c :: s => if c = '-' then (true, s) else if c = '+' then (false, s) else (false, c :: s)

/-- `strtoul` in base 10; `none` when no digit was read, so that the end
pointer is the start of the text. A minus sign negates the value modulo 2^64. -/
def strtoul (s : Str) : Option Parsed :=
  let (negative, digits) := takeSign (s.dropWhile isSpace)
  let ds := digits.takeWhile Char.isDigit
  let rest := digits.dropWhile Char.isDigit
  if ds = [] then none
  else if decimalValue ds > ulongMax then some ⟨ulongMax, true, rest⟩
  else if negative then some ⟨(2 ^ 64 - decimalValue ds) % 2 ^ 64, false, rest⟩
  else some ⟨decimalValue ds, false, rest⟩

/-- The digits that `%lu` prints. -/
def printUnsigned (n : Nat) : Str := Nat.toDigits 10 n

def printSigned (n : Int) : Str :=
  if n < 0 then '-' :: printUnsigned n.natAbs else printUnsigned n.natAbs

end FractalD.Machine.CString
