import FractalD.Machine.Effect
import FractalD.Machine.OrderedMap
import FractalD.Sysusers.Directives
import Mathlib.Data.Char
import Mathlib.Data.List.Lex

namespace FractalD.Sysusers.Accounts

open FractalD.Config.Words FractalD.Machine.CString FractalD.Machine.OrderedMap
open FractalD.Machine.Text FractalD.Sysusers.Directives

structure TextDatabase where
  lines : List Str
  found : Bool
  changed : Bool
  deriving DecidableEq, Repr

namespace TextDatabase

def load (file : Option Str) : TextDatabase := ⟨textLines (file.getD []), file.isSome, false⟩

variable (db : TextDatabase)

def find (name : Str) : Option (Nat × List Str) :=
  db.lines.zipIdx.findSome? fun (line, index) =>
    let fields := line.splitOn ':'
    if fields.head? = some name ∧ 3 ≤ fields.length then some (index, fields) else none

def append (fields : List Str) : TextDatabase :=
  { db with lines := db.lines ++ [join [':'] fields], changed := true }

def replace (index : Nat) (fields : List Str) : TextDatabase :=
  { db with lines := db.lines.set index (join [':'] fields), changed := true }

def content : Str :=
  let text := join ['\n'] db.lines
  if text = [] then text else text ++ ['\n']

def writeIfChanged : Option Str := if db.changed then some db.content else none

end TextDatabase

/-- The files that are read. -/
structure Etc where
  passwd : Option Str
  group : Option Str
  shadow : Option Str
  gshadow : Option Str
  loginDefs : Option Str
  deriving DecidableEq, Repr

/-- How texts are quoted in errors, and whom the files belong to that IDs are taken from. -/
structure System where
  debug : Str → Str
  metadata : Str → Except Str (Nat × Nat)

structure Database where
  passwd : TextDatabase
  group : TextDatabase
  shadow : TextDatabase
  gshadow : TextDatabase
  ranges : List (Nat × Nat)
  deriving DecidableEq, Repr

def systemRanges (loginDefs : Option Str) : List (Nat × Nat) :=
  let values : BTreeMap Str Nat := (textLines (loginDefs.getD [])).foldl (fun values line =>
    match splitWhitespace line with
    | [key, value] =>
      match parseUnsigned 32 value with
      | some value => values.insert key value
      | none => values
    | _ => values) empty
  let low := [values.get "SYS_UID_MIN".toList, values.get "SYS_GID_MIN".toList].reduceOption
  let high := [values.get "SYS_UID_MAX".toList, values.get "SYS_GID_MAX".toList].reduceOption
  [(low.min?.getD 201, high.max?.getD 999)]

/-- The number of an account that a line is about. -/
def lineId (line : Str) : Option Nat := (line.splitOn ':')[2]?.bind (parseUnsigned 32)

namespace Database

def load (etc : Etc) : Database where
  passwd := .load etc.passwd
  group := .load etc.group
  shadow := .load etc.shadow
  gshadow := .load etc.gshadow
  ranges := systemRanges etc.loginDefs

variable (db : Database)

def usedIds : List Nat := (db.passwd.lines ++ db.group.lines).filterMap lineId

def idInUse (id : Nat) : Bool := id ∈ db.usedIds

def uidInUse (id : Nat) : Bool := db.passwd.lines.any fun line => lineId line = some id

def uidInUseExcept (id : Nat) (allowedGroup : Option Nat) : Bool :=
  db.uidInUse id ||
    db.group.lines.any fun line => lineId line = some id && lineId line ≠ allowedGroup

def allocateId : Except Str Nat :=
  let free := db.ranges.reverse.findSome? fun (low, high) =>
    (List.range' low (high + 1 - low)).reverse.find? (· ∉ db.usedIds)
  match free with
  | some id => .ok id
  | none => .error "no free system UID/GID is available".toList

end Database

/-- An operation on the databases. Nothing is written when one fails. -/
abbrev Op (α : Type) := EStateM Str Database α

def orFail {α : Type} (r : Except Str α) : Op α :=
  match r with
  | .ok a => pure a
  | .error e => throw e

section

variable (sys : System)

def allocateId : Op Nat := do orFail (← get).allocateId

def resolveId (requested : Str) (user : Bool) : Op Nat := do
  if requested = "-".toList then allocateId
  else
    match parseUnsigned 32 requested with
    | some value => do
      orFail (validateId value)
      pure value
    | none => do
      if requested.head? = some '/' then
        let (uid, gid) ← orFail (sys.metadata requested)
        pure (if user then uid else gid)
      else throw ("invalid ID ".toList ++ sys.debug requested)

def createGroup (name : Str) (id : Nat) : Op Unit := do
  if ((← get).group.find name).isNone then
    modify fun db => { db with
      group := db.group.append [name, "x".toList, printUnsigned id, []]
      gshadow :=
        if db.gshadow.found then db.gshadow.append [name, "!*".toList, [], []] else db.gshadow }

/-- What a new account is to be. -/
structure Account where
  name : Str
  uid : Nat
  gid : Nat
  gecos : Str
  home : Str
  shell : Str
  locked : Bool

def createUser (account : Account) : Op Unit := do
  if ((← get).passwd.find account.name).isNone then
    modify fun db => { db with
      passwd := db.passwd.append [account.name, "x".toList, printUnsigned account.uid,
        printUnsigned account.gid, account.gecos, account.home, account.shell]
      shadow :=
        if db.shadow.found then
          db.shadow.append [account.name, "!*".toList, "0".toList, "0".toList, "99999".toList,
            "7".toList, [], [], if account.locked then "1".toList else []]
        else db.shadow }

def ensureGroup (name requested : Str) : Op Nat := do
  match (← get).group.find name with
  | some (_, fields) => orFail (numericField fields 2 "group" name)
  | none => do
    let mut id ← resolveId sys requested false
    if (← get).idInUse id then id ← allocateId
    createGroup name id
    pure id

/-- The numbers of a new user and its primary group, which may be created. -/
def chooseIds (name requested : Str) : Op (Nat × Nat) := do
  let (uidRequest, primaryRequest) :=
    match splitOnce ':' requested with
    | some (uid, primary) => (uid, some primary)
    | none => (requested, none)
  match primaryRequest with
  | some primary => do
    let gid ←
      if primary = "-".toList then allocateId
      else
        match parseUnsigned 32 primary with
        | some value => do
          orFail (validateId value)
          pure value
        | none => do
          match (← get).group.find primary with
          | some (_, fields) => orFail (numericField fields 2 "group" primary)
          | none => throw ("primary group ".toList ++ primary ++ " does not exist".toList)
    let uid ← resolveId sys uidRequest true
    if (← get).uidInUse uid then pure (← allocateId, gid) else pure (uid, gid)
  | none => do
    match (← get).group.find name with
    | some (_, groupFields) => do
      let gid ← orFail (numericField groupFields 2 "group" name)
      let uid ← resolveId sys uidRequest true
      if (← get).uidInUseExcept uid (some gid) then pure (← allocateId, gid) else pure (uid, gid)
    | none => do
      let mut id ← resolveId sys uidRequest true
      if (← get).idInUse id then id ← allocateId
      createGroup name id
      pure (id, id)

/-- What a directive says of a user. -/
structure UserFields where
  name : Str
  requested : Str
  gecos : Option Str
  home : Option Str
  shell : Option Str
  locked : Bool
  deriving DecidableEq, Repr

namespace UserFields

variable (user : UserFields)

/-- The account that is made of the fields of a directive. -/
def account (uid gid : Nat) : Account where
  name := user.name
  uid := uid
  gid := gid
  gecos := (optionalField user.gecos).getD []
  home := (optionalField user.home).getD "/".toList
  shell := (optionalField user.shell).getD
    (if uid = 0 then "/bin/sh".toList else "/usr/sbin/nologin".toList)
  locked := user.locked

end UserFields

def ensureUser (user : UserFields) : Op Nat := do
  match (← get).passwd.find user.name with
  | some (_, fields) => orFail (numericField fields 2 "user" user.name)
  | none => do
    let (uid, gid) ← chooseIds sys user.name user.requested
    createUser (user.account uid gid)
    pure uid

/-- The fields of a group with another member, unless it is one. -/
def addMemberTo (db : TextDatabase) (user group : Str) : TextDatabase :=
  match db.find group with
  | none => db
  | some (index, fields) =>
    let fields := fields ++ List.replicate (4 - fields.length) []
    let members := ofList (((fields.getD 3 []).splitOn ',').filter (· ≠ []))
    if members.contains user then db
    else db.replace index (fields.set 3 (join [','] (members.keys ++ [user])))

def addMember (user group : Str) : Op Unit :=
  modify fun db => { db with
    group := addMemberTo db.group user group
    gshadow := addMemberTo db.gshadow user group }

def userOf (directive : Directive) : Option UserFields :=
  match directive.kind, directive.fields with
  | .user locked, name :: requested :: rest =>
    some ⟨name, requested, rest[0]?, rest[1]?, rest[2]?, locked⟩
  | .member, name :: _ => some ⟨name, "-".toList, none, none, none, false⟩
  | _, _ => none

def apply (directive : Directive) : Op Unit := do
  let fields := directive.fields
  match directive.kind with
  | .range => do
    orFail (expectFields fields 2 "r")
    if fields.getD 0 [] ≠ "-".toList then
      throw "r directives require '-' as the name".toList
    let range ← orFail (parseRange sys.debug (fields.getD 1 []))
    modify ({ · with ranges := [range] })
  | .group => do
    orFail (expectGroupFields fields)
    orFail (validateName sys.debug (fields.getD 0 []))
    let _ ← ensureGroup sys (fields.getD 0 []) (fields.getD 1 "-".toList)
  | .user locked => do
    if fields.length < 2 ∨ fields.length > 5 then
      throw "u directives require name and ID, with at most three optional fields".toList
    orFail (validateName sys.debug (fields.getD 0 []))
    let _ ← ensureUser sys
      ⟨fields.getD 0 [], fields.getD 1 [], fields[2]?, fields[3]?, fields[4]?, locked⟩
  | .member => do
    orFail (expectFields fields 2 "m")
    orFail (validateName sys.debug (fields.getD 0 []))
    orFail (validateName sys.debug (fields.getD 1 []))
    let _ ← ensureUser sys ⟨fields.getD 0 [], "-".toList, none, none, none, false⟩
    let _ ← ensureGroup sys (fields.getD 1 []) "-".toList
    addMember (fields.getD 0 []) (fields.getD 1 [])

structure Source where
  label : Str
  text : Str
  deriving DecidableEq, Repr

/-- Say where an error is. -/
def located {α : Type} (source : Source) (index : Nat) (x : Op α) : Op α :=
  tryCatch x fun e => throw
    (source.label ++ ":".toList ++ printUnsigned (index + 1) ++ ": ".toList ++ e)

def applyLine (source : Source) (line : Str × Nat) : Op Unit := located source line.2 do
  match ← orFail (parseDirective sys.debug line.1) with
  | none => pure ()
  | some directive => apply sys directive

def applySources (sources : List Source) : Op Unit :=
  sources.forM fun source => (textLines source.text).zipIdx.forM (applyLine sys source)

end

end FractalD.Sysusers.Accounts
