import FractalD.Machine.Result
import FractalD.Platform.Accounts

namespace FractalD.Platform.PrivateUsers

open FractalD.Machine.CString FractalD.Machine.Result FractalD.Platform.Accounts

inductive ProcFile
  | setgroups
  | uidMap
  | gidMap
  deriving DecidableEq, Repr

/-- What a process has done to its user namespace. -/
inductive Effect
  | unshareUser
  | writeProc (file : ProcFile) (text : Str)
  deriving DecidableEq, Repr

/-- The answers of the C library and the kernel. -/
structure System where
  calloc : Nat → Nat → Bool
  unshare : Except Errno Unit
  writeProc : ProcFile → Str → Except Errno Unit

def snprintf (text : Str) : Int := text.length

def nextLine (text : Str) : Option Str :=
  match text.dropWhile (· ≠ '\n') with
  | [] => none
  | _ :: rest => some rest

/-- The scan for an identifier that a line of the map already starts with. It
makes at most one turn for each character. -/
def listed (identifier : Nat) : Nat → Str → Bool
  | 0, _ => false
  | turns + 1, text =>
    if text = [] then false
    else match strtoul text with
      | none => false
      | some existing =>
        if existing.value = identifier then true
        else match nextLine existing.rest with
          | none => false
          | some rest => listed identifier turns rest

def mapLine (inside outside length : Nat) : Str :=
  printUnsigned inside ++ ' ' :: printUnsigned outside ++ ' ' :: printUnsigned length ++ ['\n']

def appendPrivateUserMapping (bufferSize : Nat) (text : Str) (identifier : Nat) :
    Except Errno Str :=
  if identifier = 0 then .ok text
  else if listed identifier text.length text then .ok text
  else
    let mapping := mapLine identifier identifier 1
    if mapping.length ≥ 96 ∨ text.length > bufferSize - mapping.length then .error e2Big
    else .ok (text ++ mapping)

def appendPrivateGroupMapping (bufferSize : Nat) (text : Str) (identifier : Nat) :
    Except Errno Str :=
  appendPrivateUserMapping bufferSize text identifier

/-- The local variables that the maps are built in. -/
structure Build where
  result : Int
  errno : Errno
  uidMapping : Str
  gidMapping : Str
  deriving DecidableEq, Repr

def Build.fail (b : Build) (e : Errno) : Build := { b with result := -1, errno := e }

def uidMappingSize : Nat := 256
def gidMappingSize : Nat := 65536

def appendGroups : List Id → Build → Build
  | [], b => b
  | gid :: gids, b =>
    match appendPrivateGroupMapping gidMappingSize b.gidMapping gid.toNat with
    | .error e => b.fail e
    | .ok text => appendGroups gids { b with gidMapping := text }

def appendIds (uid gid : Id) (b : Build) : Build :=
  match appendPrivateUserMapping uidMappingSize b.uidMapping uid.toNat with
  | .error e => b.fail e
  | .ok uidText =>
    match appendPrivateGroupMapping gidMappingSize b.gidMapping gid.toNat with
    | .error e => { b with uidMapping := uidText }.fail e
    | .ok gidText => { b with uidMapping := uidText, gidMapping := gidText }

def appendRootGroup (gids : List Id) (b : Build) : Build :=
  let b := { b with result := snprintf (mapLine 0 0 1) }
  if b.result < 0 ∨ b.gidMapping.length + b.result ≥ (gidMappingSize : Int) then b.fail e2Big
  else appendGroups gids { b with gidMapping := b.gidMapping ++ mapLine 0 0 1 }

def buildSelf (uid gid : Id) (gids : List Id) (b : Build) : Build :=
  let b := { b with result := snprintf (mapLine 0 0 1) }
  if b.result < 0 ∨ b.result ≥ (uidMappingSize : Int) then b.fail e2Big
  else
    let b := appendIds uid gid { b with uidMapping := mapLine 0 0 1 }
    if b.result = 0 then appendRootGroup gids b else b

def buildRange (b : Build) : Build :=
  let b := { b with result := snprintf (mapLine 0 0 65536) }
  if b.result < 0 ∨ b.result ≥ (uidMappingSize : Int) then b.fail e2Big
  else
    let b := { b with uidMapping := mapLine 0 0 65536, result := snprintf (mapLine 0 0 65536) }
    if b.result < 0 ∨ b.result ≥ (gidMappingSize : Int) then b.fail e2Big
    else { b with gidMapping := mapLine 0 0 65536 }

def buildMaps (mode : Int) (uid gid : Id) (gids : List Id) : Build :=
  let b : Build := ⟨0, 0, [], []⟩
  if mode = 1 then buildSelf uid gid gids b else buildRange b

/-- The effects of a call, in order, and its answer. -/
structure Outcome where
  effects : List Effect
  answer : Except Errno Unit

section

variable (db : Database) (sys : System)

def writeSetgroups (o : List Effect × Build) : List Effect × Build :=
  let (effects, b) := o
  if b.result = 0 then
    match sys.writeProc .setgroups "allow\n".toList with
    | .error e => if e ≠ eNoEnt then (effects, b.fail e) else (effects, b)
    | .ok () => (effects ++ [.writeProc .setgroups "allow\n".toList], b)
  else (effects, b)

def writeMaps (o : List Effect × Build) : List Effect × Build :=
  let (effects, b) := o
  if b.result = 0 then
    match sys.writeProc .uidMap b.uidMapping with
    | .error e => (effects, b.fail e)
    | .ok () =>
      let effects := effects ++ [.writeProc .uidMap b.uidMapping]
      match sys.writeProc .gidMap b.gidMapping with
      | .error e => (effects, b.fail e)
      | .ok () => (effects ++ [.writeProc .gidMap b.gidMapping], b)
  else (effects, b)

def finish (o : List Effect × Build) : Outcome :=
  ⟨o.1, if o.2.result < 0 then .error o.2.errno else .ok ()⟩

/-- The user and the group of the service, root for what is not given. -/
def serviceIds (user group : Option Str) : Except Errno (Id × Id) := do
  let (uid, primaryGroup) ← (match user with
    | none => .ok (0, noId)
    | some user => resolveUid db user)
  let gid ← (match group with
    | none => .ok (if primaryGroup = noId then 0 else primaryGroup)
    | some group => resolveGid db group)
  return (uid, gid)

def additionalGroups (groups : StringArray) : Except Errno (List Id) :=
  match groups.entries with
  | none => .ok []
  | some entry =>
    if groups.count > 0 ∧ sys.calloc groups.count 4 = false then .error eNoMem
    else resolveGroups db entry groups.count

/-- The checks and lookups before the namespace is entered. -/
def privateUsersRequest (mode : Int) (user group : Option Str) (groups : StringArray) :
    Except Errno (Id × Id × List Id) :=
  if mode < 1 ∨ mode > 3 ∨ (groups.count ≠ 0 ∧ groups.entries.isNone) then .error eInval
  else if groups.count > ngroupsMax then .error e2Big
  else do
    let (uid, gid) ← serviceIds db user group
    let gids ← additionalGroups db sys groups
    return (uid, gid, gids)

def enterPrivateUsers (mode : Int) (user group : Option Str) (groups : StringArray) : Outcome :=
  match privateUsersRequest db sys mode user group groups with
  | .error e => ⟨[], .error e⟩
  | .ok (uid, gid, gids) =>
    match sys.unshare with
    | .error e => ⟨[], .error e⟩
    | .ok () =>
      if sys.calloc gidMappingSize 1 = false then ⟨[.unshareUser], .error eNoMem⟩
      else finish (writeMaps sys (writeSetgroups sys
        ([.unshareUser], buildMaps mode uid gid gids)))

end

/-- A map text denotes a list of ranges, each with its first id inside, its
first id outside and its length. -/
def Denotes (text : Str) (ranges : List (Nat × Nat × Nat)) : Prop :=
  text = ranges.flatMap (fun r => mapLine r.1 r.2.1 r.2.2)

/-- The text maps the ids of a set to themselves, each once, and nothing else. -/
def DenotesIdentity (text : Str) (ids : Set Nat) : Prop :=
  ∃ is : List Nat, is.Nodup ∧ (∀ i, i ∈ is ↔ i ∈ ids) ∧
    Denotes text (is.map (fun i => (i, i, 1)))

/-- The process has put the maps of its mode in place. -/
def TakesEffect (mode : Int) (uid gid : Id) (gids : List Id) (effects : List Effect) : Prop :=
  ∃ uidText gidText, Effect.writeProc .uidMap uidText ∈ effects ∧
    Effect.writeProc .gidMap gidText ∈ effects ∧
    if mode = 1 then
      DenotesIdentity uidText {0, uid.toNat} ∧
        DenotesIdentity gidText ({0, gid.toNat} ∪ {i | ∃ g ∈ gids, g.toNat = i})
    else Denotes uidText [(0, 0, 65536)] ∧ Denotes gidText [(0, 0, 65536)]

@[simp]
theorem Build.fail_result (b : Build) (e : Errno) : (b.fail e).result = -1 := rfl

theorem snprintf_mapLine_pos (inside outside length : Nat) :
    0 < snprintf (mapLine inside outside length) := by
  simp [snprintf, mapLine]
  omega

/-- Appending to a map leaves `result` a count of characters or makes it an
error, never the zero that the writes wait for. -/
theorem appendIds_result (uid gid : Id) (b : Build) :
    (appendIds uid gid b).result = b.result ∨ (appendIds uid gid b).result = -1 := by
  unfold appendIds
  split
  · exact .inr rfl
  · split
    · exact .inr rfl
    · exact .inl rfl

theorem buildSelf_result (uid gid : Id) (gids : List Id) (b : Build) :
    (buildSelf uid gid gids b).result ≠ 0 := by
  have hp := snprintf_mapLine_pos 0 0 1
  simp only [buildSelf]
  split
  · simp
  · obtain h | h := appendIds_result uid gid
      { b with result := snprintf (mapLine 0 0 1), uidMapping := mapLine 0 0 1 }
    · have hne : snprintf (mapLine 0 0 1) ≠ 0 := hp.ne'
      simp [h, hne]
    · simp [h]

theorem buildRange_result (b : Build) : (buildRange b).result ≠ 0 := by
  have hp := snprintf_mapLine_pos 0 0 65536
  simp only [buildRange]
  split_ifs
  · simp
  · simp
  · exact hp.ne'

theorem buildMaps_result (mode : Int) (uid gid : Id) (gids : List Id) :
    (buildMaps mode uid gid gids).result ≠ 0 := by
  unfold buildMaps
  split
  · exact buildSelf_result uid gid gids _
  · exact buildRange_result _

theorem writes_skipped (sys : System) {o : List Effect × Build} (h : o.2.result ≠ 0) :
    writeMaps sys (writeSetgroups sys o) = o := by
  have hs : writeSetgroups sys o = o := by simp [writeSetgroups, h]
  rw [hs]
  simp [writeMaps, h]

theorem enterPrivateUsers_effects {db : Database} {sys : System} {mode : Int}
    {user group : Option Str} {groups : StringArray}
    (h : (enterPrivateUsers db sys mode user group groups).answer = .ok ()) :
    (enterPrivateUsers db sys mode user group groups).effects = [.unshareUser] := by
  unfold enterPrivateUsers at h ⊢
  cases hr : privateUsersRequest db sys mode user group groups with
  | error e => simp [hr] at h
  | ok request =>
    obtain ⟨uid, gid, gids⟩ := request
    cases hu : sys.unshare with
    | error e => simp [hr, hu] at h
    | ok _ =>
      have hw := writes_skipped sys
        (o := ([.unshareUser], buildMaps mode uid gid gids)) (buildMaps_result mode uid gid gids)
      simp only [hw, finish]
      split <;> rfl

/-- A call that reports success has entered a new user namespace and written
none of its maps, whatever the mode and the ids. -/
theorem enterPrivateUsers_takes_no_effect (db : Database) (sys : System) (mode : Int)
    (user group : Option Str) (groups : StringArray)
    (h : (enterPrivateUsers db sys mode user group groups).answer = .ok ()) :
    (enterPrivateUsers db sys mode user group groups).effects = [.unshareUser] ∧
      ∀ uid gid gids, ¬ TakesEffect mode uid gid gids
        (enterPrivateUsers db sys mode user group groups).effects := by
  have he := enterPrivateUsers_effects h
  refine ⟨he, ?_⟩
  rintro uid gid gids ⟨uidText, gidText, hm, -⟩
  simp [he] at hm

/-- A machine on which every call succeeds. -/
def willingSystem : System := ⟨fun _ _ => true, .ok (), fun _ _ => .ok ()⟩

theorem enterPrivateUsers_takes_no_effect_full :
    (enterPrivateUsers emptyDatabase willingSystem 2 none none ⟨none, 0⟩).effects =
        [.unshareUser] ∧
      ∀ uid gid gids, ¬ TakesEffect 2 uid gid gids
        (enterPrivateUsers emptyDatabase willingSystem 2 none none ⟨none, 0⟩).effects :=
  enterPrivateUsers_takes_no_effect _ _ _ _ _ _ (by rfl)

/-- With mode 1 and user 1000 the call reports success without any map. -/
theorem enterPrivateUsers_loses_maps :
    (enterPrivateUsers emptyDatabase willingSystem 1 (some ['1', '0', '0', '0']) none
        ⟨none, 0⟩).answer = .ok () ∧
      ¬ TakesEffect 1 1000 0 []
        (enterPrivateUsers emptyDatabase willingSystem 1 (some ['1', '0', '0', '0']) none
          ⟨none, 0⟩).effects := by
  have h : (enterPrivateUsers emptyDatabase willingSystem 1 (some ['1', '0', '0', '0']) none
      ⟨none, 0⟩).answer = .ok () := by rfl
  refine ⟨h, ?_⟩
  rintro ⟨uidText, gidText, hm, -⟩
  simp [enterPrivateUsers_effects h] at hm

end FractalD.Platform.PrivateUsers
