import FractalD.Machine.Result
import FractalD.Platform.Accounts

namespace FractalD.Platform.Identity

open FractalD.Machine.CString FractalD.Machine.Result FractalD.Platform.Accounts

/-- The real, effective and saved id of a process. None of them is ever the
value that stands for "none". -/
structure ProcessIds where
  real : Id
  effective : Id
  saved : Id
  valid : real ≠ noId ∧ effective ≠ noId ∧ saved ≠ noId
  deriving DecidableEq

def ProcessIds.all (i : Id) (h : i ≠ noId) : ProcessIds := ⟨i, i, i, h, h, h⟩

def ProcessIds.Are (ids : ProcessIds) (i : Id) : Prop :=
  ids.real = i ∧ ids.effective = i ∧ ids.saved = i

structure Credentials where
  user : ProcessIds
  group : ProcessIds
  groups : List Id

/-- The answers of the C library and the kernel to a privileged process that
changes its identity. `initgroups` answers with the groups that it installs. -/
structure Kernel where
  calloc : Nat → Bool
  initgroups : Str → Id → Except Errno (List Id)
  setgroups : List Id → Except Errno Unit
  setgid : Id → Except Errno Unit
  setuid : Id → Except Errno Unit

section

variable (db : Database) (k : Kernel)

def initgroups (user : Str) (gid : Id) (c : Credentials) : Except Errno Credentials := do
  let groups ← k.initgroups user gid
  return { c with groups := groups }

def setgroups (groups : List Id) (c : Credentials) : Except Errno Credentials := do
  k.setgroups groups
  return { c with groups := groups }

def setgid (gid : Id) (c : Credentials) : Except Errno Credentials :=
  if h : gid ≠ noId then do
    k.setgid gid
    return { c with group := .all gid h }
  else .error eInval

def setuid (uid : Id) (c : Credentials) : Except Errno Credentials :=
  if h : uid ≠ noId then do
    k.setuid uid
    return { c with user := .all uid h }
  else .error eInval

/-- The uid, the primary group and the gid of a request, with `noId` for what
it leaves open. -/
def resolveIdentity (user group : Option Str) : Except Errno (Id × Id × Id) := do
  let (uid, primaryGroup) ← (match user with
    | none => .ok (noId, noId)
    | some user => resolveUid db user)
  let gid ← (match group with
    | none => .ok primaryGroup
    | some group => resolveGid db group)
  return (uid, primaryGroup, gid)

def setSupplementary (supplementaryGroups : StringArray) (c : Credentials) :
    Except Errno Credentials :=
  match supplementaryGroups.entries with
  | none => .ok c
  | some entry =>
    if supplementaryGroups.count > ngroupsMax then .error eInval
    else if supplementaryGroups.count > 0 ∧ k.calloc supplementaryGroups.count = false then
      .error eNoMem
    else do
      let groups ← resolveGroups db entry supplementaryGroups.count
      setgroups k groups c

/-- The early return: nothing seems left to change. -/
def alreadyEqual (uid gid : Id) (c : Credentials) : Prop :=
  uid ≠ noId ∧ uid = c.user.effective ∧ (gid = noId ∨ gid = c.group.effective)

instance (uid gid : Id) (c : Credentials) : Decidable (alreadyEqual uid gid c) :=
  inferInstanceAs (Decidable (_ ∧ _))

def takeUserGroups (user : Option Str) (primaryGroup gid : Id) (c : Credentials) :
    Except Errno Credentials :=
  match user with
  | none => .ok c
  | some user => if primaryGroup ≠ noId then initgroups k user gid c else .ok c

def takeGid (gid : Id) (c : Credentials) : Except Errno Credentials :=
  if gid ≠ noId then setgid k gid c else .ok c

def takeUid (uid : Id) (c : Credentials) : Except Errno Credentials :=
  if uid ≠ noId then setuid k uid c else .ok c

def changeIdentity (user : Option Str) (supplementaryGroups : StringArray)
    (uid primaryGroup gid : Id) (c : Credentials) : Except Errno Credentials :=
  takeUserGroups k user primaryGroup gid c >>= setSupplementary db k supplementaryGroups >>=
    takeGid k gid >>= takeUid k uid

def setIdentity (user group : Option Str) (supplementaryGroups : StringArray) (c : Credentials) :
    Except Errno Credentials :=
  if user = none ∧ group = none ∧ supplementaryGroups.count = 0 then .ok c
  else if supplementaryGroups.count > 0 ∧ supplementaryGroups.entries.isNone then .error eInval
  else do
    let (uid, primaryGroup, gid) ← resolveIdentity db user group
    (if alreadyEqual uid gid c then .ok c
      else if c.user.effective ≠ 0 then .error ePerm
      else changeIdentity db k user supplementaryGroups uid primaryGroup gid c)

variable {db k}

theorem setSupplementary_ok {groups : StringArray} {c c' : Credentials}
    (h : setSupplementary db k groups c = .ok c') :
    (groups.entries = none ∧ c' = c) ∨ ∃ entry gids, groups.entries = some entry ∧
      resolveGroups db entry groups.count = .ok gids ∧ c' = { c with groups := gids } := by
  unfold setSupplementary at h
  cases he : groups.entries with
  | none => exact .inl ⟨rfl, by simpa [he] using h.symm⟩
  | some entry =>
    simp only [he] at h
    split_ifs at h
    obtain ⟨gids, hg, h⟩ := bind_eq_ok.mp h
    obtain ⟨-, -, h⟩ := bind_eq_ok.mp h
    exact .inr ⟨entry, gids, rfl, hg, (pure_eq_ok.mp h).symm⟩

theorem initgroups_ok {user : Str} {gid : Id} {c c' : Credentials}
    (h : initgroups k user gid c = .ok c') :
    ∃ groups, k.initgroups user gid = .ok groups ∧ c' = { c with groups := groups } := by
  obtain ⟨groups, hg, h⟩ := bind_eq_ok.mp h
  exact ⟨groups, hg, (pure_eq_ok.mp h).symm⟩

theorem setgid_ok {gid : Id} {c c' : Credentials} (h : setgid k gid c = .ok c') :
    ∃ hn : gid ≠ noId, c' = { c with group := .all gid hn } := by
  unfold setgid at h
  split_ifs at h with hn
  obtain ⟨-, -, h⟩ := bind_eq_ok.mp h
  exact ⟨hn, (pure_eq_ok.mp h).symm⟩

theorem setuid_ok {uid : Id} {c c' : Credentials} (h : setuid k uid c = .ok c') :
    ∃ hn : uid ≠ noId, c' = { c with user := .all uid hn } := by
  unfold setuid at h
  split_ifs at h with hn
  obtain ⟨-, -, h⟩ := bind_eq_ok.mp h
  exact ⟨hn, (pure_eq_ok.mp h).symm⟩

theorem takeUserGroups_ok {user : Option Str} {primaryGroup gid : Id} {c c' : Credentials}
    (h : takeUserGroups k user primaryGroup gid c = .ok c') :
    ((user = none ∨ primaryGroup = noId) ∧ c' = c) ∨ ∃ name groups, user = some name ∧
      primaryGroup ≠ noId ∧ k.initgroups name gid = .ok groups ∧
        c' = { c with groups := groups } := by
  unfold takeUserGroups at h
  cases user with
  | none => exact .inl ⟨.inl rfl, by simpa using h.symm⟩
  | some name =>
    simp only at h
    split_ifs at h with hp
    · obtain ⟨groups, hg, rfl⟩ := initgroups_ok h
      exact .inr ⟨name, groups, rfl, hp, hg, rfl⟩
    · exact .inl ⟨.inr (by simpa using hp), by simpa using h.symm⟩

theorem takeGid_ok {gid : Id} {c c' : Credentials} (h : takeGid k gid c = .ok c') :
    (gid = noId ∧ c' = c) ∨ ∃ hn : gid ≠ noId, c' = { c with group := .all gid hn } := by
  unfold takeGid at h
  split_ifs at h with hn
  · exact .inr (setgid_ok h)
  · exact .inl ⟨by simpa using hn, by simpa using h.symm⟩

theorem takeUid_ok {uid : Id} {c c' : Credentials} (h : takeUid k uid c = .ok c') :
    (uid = noId ∧ c' = c) ∨ ∃ hn : uid ≠ noId, c' = { c with user := .all uid hn } := by
  unfold takeUid at h
  split_ifs at h with hn
  · exact .inr (setuid_ok h)
  · exact .inl ⟨by simpa using hn, by simpa using h.symm⟩

@[simp]
theorem ProcessIds.all_are (i : Id) (h : i ≠ noId) : (ProcessIds.all i h).Are i := ⟨rfl, rfl, rfl⟩

theorem ProcessIds.Are.ne_noId {ids : ProcessIds} {i : Id} (h : ids.Are i) : i ≠ noId :=
  h.1 ▸ ids.valid.1

theorem takeUserGroups_group {user : Option Str} {primaryGroup gid : Id} {c c' : Credentials}
    (h : takeUserGroups k user primaryGroup gid c = .ok c') : c'.group = c.group := by
  obtain ⟨-, rfl⟩ | ⟨_, _, -, -, -, rfl⟩ := takeUserGroups_ok h <;> rfl

theorem setSupplementary_group {groups : StringArray} {c c' : Credentials}
    (h : setSupplementary db k groups c = .ok c') : c'.group = c.group := by
  obtain ⟨-, rfl⟩ | ⟨_, _, -, -, rfl⟩ := setSupplementary_ok h <;> rfl

theorem takeGid_groups {gid : Id} {c c' : Credentials} (h : takeGid k gid c = .ok c') :
    c'.groups = c.groups := by
  obtain ⟨-, rfl⟩ | ⟨_, rfl⟩ := takeGid_ok h <;> rfl

theorem takeUid_frame {uid : Id} {c c' : Credentials} (h : takeUid k uid c = .ok c') :
    c'.group = c.group ∧ c'.groups = c.groups := by
  obtain ⟨-, rfl⟩ | ⟨_, rfl⟩ := takeUid_ok h <;> exact ⟨rfl, rfl⟩

section

variable {user : Option Str} {groups : StringArray} {uid primaryGroup gid : Id}
  {c final : Credentials}

theorem changeIdentity_user
    (h : changeIdentity db k user groups uid primaryGroup gid c = .ok final) (hu : uid ≠ noId) :
    final.user.Are uid := by
  obtain ⟨c₃, -, h⟩ := bind_eq_ok.mp h
  obtain ⟨he, -⟩ | ⟨hn, rfl⟩ := takeUid_ok h
  · exact absurd he hu
  · exact ProcessIds.all_are uid hn

theorem changeIdentity_group
    (h : changeIdentity db k user groups uid primaryGroup gid c = .ok final) :
    (gid = noId ∧ final.group = c.group) ∨ final.group.Are gid := by
  obtain ⟨c₃, h, hu⟩ := bind_eq_ok.mp h
  obtain ⟨c₂, h, hg⟩ := bind_eq_ok.mp h
  obtain ⟨c₁, hi, hs⟩ := bind_eq_ok.mp h
  rw [(takeUid_frame hu).1]
  obtain ⟨he, rfl⟩ | ⟨hn, rfl⟩ := takeGid_ok hg
  · exact .inl ⟨he, (setSupplementary_group hs).trans (takeUserGroups_group hi)⟩
  · exact .inr (ProcessIds.all_are gid hn)

theorem changeIdentity_groups
    (h : changeIdentity db k user groups uid primaryGroup gid c = .ok final) :
    (∃ entry, groups.entries = some entry ∧
        resolveGroups db entry groups.count = .ok final.groups) ∨
      (groups.entries = none ∧ ∃ name, user = some name ∧ primaryGroup ≠ noId ∧
        k.initgroups name gid = .ok final.groups) ∨
      (groups.entries = none ∧ (user = none ∨ primaryGroup = noId) ∧
        final.groups = c.groups) := by
  obtain ⟨c₃, h, hu⟩ := bind_eq_ok.mp h
  obtain ⟨c₂, h, hg⟩ := bind_eq_ok.mp h
  obtain ⟨c₁, hi, hs⟩ := bind_eq_ok.mp h
  rw [(takeUid_frame hu).2, takeGid_groups hg]
  obtain ⟨he, rfl⟩ | ⟨entry, gids, he, hr, rfl⟩ := setSupplementary_ok hs
  · obtain ⟨hn, rfl⟩ | ⟨name, gids, rfl, hp, hk, rfl⟩ := takeUserGroups_ok hi
    · exact .inr (.inr ⟨he, hn, rfl⟩)
    · exact .inr (.inl ⟨he, name, rfl, hp, hk⟩)
  · exact .inl ⟨entry, he, hr⟩

end

/-- A user string names an id itself; such a user has no primary group and no
groups of its own in the databases. -/
def numeric (user : Str) : Prop := (parseId user).isSome

instance (user : Str) : Decidable (numeric user) := inferInstanceAs (Decidable (_ = _))

theorem resolveUid_numeric {user : Str} {uid primaryGroup : Id} (hn : numeric user)
    (h : resolveUid db user = .ok (uid, primaryGroup)) : primaryGroup = noId := by
  obtain ⟨parsed, hp⟩ := Option.isSome_iff_exists.mp hn
  simp only [resolveUid, hp] at h
  split_ifs at h
  injection h with h
  injection h with _ h
  exact h.symm

theorem resolveIdentity_ok {user : Str} {group : Option Str} {uid primaryGroup gid : Id}
    (h : resolveIdentity db (some user) group = .ok (uid, primaryGroup, gid)) :
    resolveUid db user = .ok (uid, primaryGroup) ∧ (group = none → gid = primaryGroup) := by
  obtain ⟨⟨uid', primaryGroup'⟩, hu, h⟩ := bind_eq_ok.mp h
  obtain ⟨gid', hg, h⟩ := bind_eq_ok.mp h
  simp only [pure_eq_ok, Prod.mk.injEq] at h
  obtain ⟨rfl, rfl, rfl⟩ := h
  refine ⟨hu, ?_⟩
  rintro rfl
  simpa using hg.symm

/-- The manager's gid is gone: the process has the requested group or the
user's primary group, and a numeric user without a group has at least not kept
the old one, root apart. -/
def GroupDropped (user : Str) (group : Option Str) (uid gid : Id) (start final : Credentials) :
    Prop :=
  if group = none ∧ numeric user then
    uid ≠ 0 → final.group.effective ≠ start.group.effective
  else final.group.Are gid

/-- The manager's supplementary groups are gone: the process has the requested
ones if there is a list, or else those of the user. -/
def GroupsDropped (db : Database) (k : Kernel) (user : Str) (groups : StringArray) (gid : Id)
    (start final : Credentials) : Prop :=
  match groups.entries with
  | some entry => ∃ gids, resolveGroups db entry groups.count = .ok gids ∧
      ∀ g, g ∈ final.groups ↔ g ∈ gids
  | none =>
    if numeric user then ∀ g ∈ start.groups, g ∉ final.groups
    else ∃ gids, k.initgroups user gid = .ok gids ∧ ∀ g, g ∈ final.groups ↔ g ∈ gids

/-- A drop from the credentials `start` to `final` is complete. -/
structure IdentityDropped (db : Database) (k : Kernel) (user : Str) (group : Option Str)
    (groups : StringArray) (uid gid : Id) (start final : Credentials) : Prop where
  dropsUser : final.user.Are uid
  dropsGroup : GroupDropped user group uid gid start final
  dropsGroups : GroupsDropped db k user groups gid start final

/-- The request leaves nothing of the manager's identity in place: on the early
return the process has the identity already, and otherwise the user and the group
both denote an id and the groups are listed or known from the user database. -/
def NothingKept (db : Database) (k : Kernel) (user : Str) (group : Option Str)
    (groups : StringArray) (uid primaryGroup gid : Id) (start : Credentials) : Prop :=
  if alreadyEqual uid gid start then
    IdentityDropped db k user group groups uid gid start start
  else uid ≠ noId ∧ gid ≠ noId ∧ (groups.entries.isSome ∨ primaryGroup ≠ noId ∨
    GroupsDropped db k user groups gid start start)

section

variable {user : Str} {group : Option Str} {groups : StringArray} {uid primaryGroup gid : Id}
  {start final : Credentials}

theorem setIdentity_ok (h : setIdentity db k (some user) group groups start = .ok final) :
    ∃ uid primaryGroup gid, resolveIdentity db (some user) group = .ok (uid, primaryGroup, gid) ∧
      ((alreadyEqual uid gid start ∧ final = start) ∨ (¬ alreadyEqual uid gid start ∧
        changeIdentity db k (some user) groups uid primaryGroup gid start = .ok final)) := by
  unfold setIdentity at h
  rw [if_neg (by simp)] at h
  split at h
  · cases h
  obtain ⟨⟨uid, primaryGroup, gid⟩, hr, h⟩ := bind_eq_ok.mp h
  refine ⟨uid, primaryGroup, gid, hr, ?_⟩
  simp only at h
  split_ifs at h with ha
  · exact .inl ⟨ha, by simpa using h.symm⟩
  · exact .inr ⟨ha, h⟩

theorem groupDropped_change_iff (hroot : start.user.effective = 0) (hu : uid ≠ noId)
    (hr : resolveIdentity db (some user) group = .ok (uid, primaryGroup, gid))
    (ha : ¬ alreadyEqual uid gid start)
    (h : changeIdentity db k (some user) groups uid primaryGroup gid start = .ok final) :
    GroupDropped user group uid gid start final ↔ gid ≠ noId := by
  obtain ⟨hr, hg⟩ := resolveIdentity_ok hr
  unfold GroupDropped
  split_ifs with hn
  · have hgid : gid = noId := (hg hn.1).trans (resolveUid_numeric hn.2 hr)
    have hu0 : uid ≠ 0 := fun h0 => ha ⟨hu, h0.trans hroot.symm, .inl hgid⟩
    obtain ⟨-, he⟩ | he := changeIdentity_group h
    · simpa [hgid, he] using hu0
    · exact absurd hgid he.ne_noId
  · refine ⟨ProcessIds.Are.ne_noId, fun hgid => ?_⟩
    exact (changeIdentity_group h).resolve_left (fun he => hgid he.1)

theorem groupsDropped_change_iff
    (hr : resolveIdentity db (some user) group = .ok (uid, primaryGroup, gid))
    (h : changeIdentity db k (some user) groups uid primaryGroup gid start = .ok final) :
    GroupsDropped db k user groups gid start final ↔ groups.entries.isSome ∨
      primaryGroup ≠ noId ∨ GroupsDropped db k user groups gid start start := by
  obtain ⟨entry, he, hg⟩ | ⟨he, name, hname, hp, hg⟩ | ⟨he, hp, hg⟩ := changeIdentity_groups h
  · simp [GroupsDropped, he, hg]
  · injection hname with hname
    have hn : ¬ numeric user := fun hn => hp (resolveUid_numeric hn (resolveIdentity_ok hr).1)
    subst hname
    simp [GroupsDropped, he, hp, hn, hg]
  · have hp : primaryGroup = noId := hp.resolve_left (by simp)
    simp [GroupsDropped, he, hp, hg]

/-- A successful change of identity to a user is complete exactly for a request
that leaves nothing of the manager's identity in place. -/
theorem setIdentity_drops_iff (hroot : start.user.effective = 0)
    (h : setIdentity db k (some user) group groups start = .ok final) :
    ∃ uid primaryGroup gid, resolveIdentity db (some user) group = .ok (uid, primaryGroup, gid) ∧
      (IdentityDropped db k user group groups uid gid start final ↔
        NothingKept db k user group groups uid primaryGroup gid start) := by
  obtain ⟨uid, primaryGroup, gid, hr, ⟨ha, rfl⟩ | ⟨ha, hc⟩⟩ := setIdentity_ok h
  · exact ⟨uid, primaryGroup, gid, hr, by rw [NothingKept, if_pos ha]⟩
  · refine ⟨uid, primaryGroup, gid, hr, ?_⟩
    rw [NothingKept, if_neg ha]
    constructor
    · rintro ⟨hu, hg, hs⟩
      exact ⟨hu.ne_noId, (groupDropped_change_iff hroot hu.ne_noId hr ha hc).mp hg,
        (groupsDropped_change_iff hr hc).mp hs⟩
    · rintro ⟨hu, hg, hs⟩
      exact ⟨changeIdentity_user hc hu, (groupDropped_change_iff hroot hu hr ha hc).mpr hg,
        (groupsDropped_change_iff hr hc).mpr hs⟩

end

end

def permissiveKernel : Kernel :=
  ⟨fun _ => true, fun _ gid => .ok [gid], fun _ => .ok (), fun _ => .ok (), fun _ => .ok ()⟩

def managerCredentials : Credentials := ⟨.all 0 (by decide), .all 0 (by decide), [0, 10]⟩

/-- A numeric user without a group keeps the manager's group and its groups. -/
theorem setIdentity_keeps_groups :
    setIdentity emptyDatabase permissiveKernel (some ['1', '0', '0', '0']) none ⟨none, 0⟩
        managerCredentials = .ok { managerCredentials with user := .all 1000 (by decide) } ∧
      ¬ ∃ uid primaryGroup gid,
        resolveIdentity emptyDatabase (some ['1', '0', '0', '0']) none =
          .ok (uid, primaryGroup, gid) ∧
        IdentityDropped emptyDatabase permissiveKernel ['1', '0', '0', '0'] none ⟨none, 0⟩ uid gid
          managerCredentials { managerCredentials with user := .all 1000 (by decide) } := by
  refine ⟨rfl, ?_⟩
  rintro ⟨uid, primaryGroup, gid, -, h⟩
  have hg := h.dropsGroups
  rw [GroupsDropped, if_pos (by decide)] at hg
  exact hg 0 (by decide) (by decide)

theorem setIdentity_drops_iff_numeric :
    ∃ uid primaryGroup gid,
      resolveIdentity emptyDatabase (some ['1', '0', '0', '0']) (some ['1', '0', '0']) =
        .ok (uid, primaryGroup, gid) ∧
      (IdentityDropped emptyDatabase permissiveKernel ['1', '0', '0', '0'] (some ['1', '0', '0'])
          ⟨some fun _ => some ['2', '7'], 1⟩ uid gid managerCredentials
          ⟨.all 1000 (by decide), .all 100 (by decide), [27]⟩ ↔
        NothingKept emptyDatabase permissiveKernel ['1', '0', '0', '0'] (some ['1', '0', '0'])
          ⟨some fun _ => some ['2', '7'], 1⟩ uid primaryGroup gid managerCredentials) :=
  setIdentity_drops_iff rfl rfl

end FractalD.Platform.Identity
