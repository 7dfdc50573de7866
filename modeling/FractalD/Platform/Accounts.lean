import FractalD.Machine.CString
import FractalD.Platform.Errno
import Mathlib.Data.BitVec

namespace FractalD.Platform.Accounts

open FractalD.Machine.CString

/-- A `uid_t` or `gid_t`. -/
abbrev Id := BitVec 32

/-- The value `(uid_t)-1`, which the calls below read as "none". -/
def noId : Id := 0xffffffff#32

def uintMax : Nat := 2 ^ 32 - 1
def ngroupsMax : Nat := 65536

/-- An entry of the user database, as far as it is read here. -/
structure Passwd where
  uid : Id
  gid : Id
  deriving DecidableEq, Repr

/-- The account databases of the machine, and what `errno` holds where no call
has set it. -/
structure Database where
  getpwnam : Str → Option Passwd
  getgrnam : Str → Option Id
  staleErrno : Errno

/-- A machine that knows no names. -/
def emptyDatabase : Database := ⟨fun _ => none, fun _ => none, 0⟩

def parseId (value : Str) : Option Nat :=
  if value = [] then none
  else match strtoul value with
    | none => none
    | some parsed => if parsed.range || parsed.rest ≠ [] then none else some parsed.value

def resolveGid (db : Database) (value : Str) : Except Errno Id :=
  match parseId value with
  | some parsed => if parsed > uintMax then .error eInval else .ok (BitVec.ofNat 32 parsed)
  | none =>
    match db.getgrnam value with
    | none => .error eNoEnt
    | some gid => .ok gid

/-- The uid and the primary group; a numeric user has no primary group. -/
def resolveUid (db : Database) (value : Str) : Except Errno (Id × Id) :=
  match parseId value with
  | some parsed => if parsed > uintMax then .error eInval else .ok (BitVec.ofNat 32 parsed, noId)
  | none =>
    match db.getpwnam value with
    | none => .error eNoEnt
    | some entry => .ok (entry.uid, entry.gid)

/-- An array of strings, passed as a pointer and a length. A null pointer is
`none`, also for an entry. -/
structure StringArray where
  entries : Option (Nat → Option Str)
  count : Nat

/-- Resolve the groups of an array in turn; the first that fails decides. -/
def resolveGroups (db : Database) (entry : Nat → Option Str) : Nat → Except Errno (List Id)
  | 0 => .ok []
  | n + 1 => do
    let groups ← resolveGroups db entry n
    match entry n with
    | none => .error db.staleErrno
    | some value =>
      let gid ← resolveGid db value
      return groups ++ [gid]

end FractalD.Platform.Accounts
