import FractalD.Machine.Logs
import FractalD.Machine.Result
import FractalD.Sysusers.Steps
import Mathlib.Data.List.ReduceOption

namespace FractalD.Sysusers.Allocation

open FractalD.Config.Words FractalD.Machine.CString FractalD.Machine.Effect FractalD.Machine.Logs
open FractalD.Machine.OrderedMap FractalD.Machine.Result FractalD.Machine.Text FractalD.Machine.Wire
open FractalD.Sysusers.Accounts FractalD.Sysusers.Directives FractalD.Sysusers.Integrity
open FractalD.Sysusers.Steps

/-- What comes of asking the allocator for an ID, with the databases that it looks at. -/
structure Answer where
  db : Database
  outcome : Except Str Nat

/-- An operation that notes each allocation. -/
abbrev Traced (α : Type) := Logged Answer Str Database α

def tracedAllocateId : Traced Nat := do
  let db := (← get).1
  note [⟨db, db.allocateId⟩]
  quiet allocateId

section

variable (sys : System)

def tracedResolveId (requested : Str) (user : Bool) : Traced Nat :=
  if requested = "-".toList then tracedAllocateId else quiet (resolveId sys requested user)

def tracedEnsureGroup (name requested : Str) : Traced Nat := do
  match (← get).1.group.find name with
  | some (_, fields) => quiet (orFail (numericField fields 2 "group" name))
  | none => do
    let mut id ← tracedResolveId sys requested false
    if (← get).1.idInUse id then id ← tracedAllocateId
    quiet (createGroup name id)
    pure id

def tracedChooseIds (name requested : Str) : Traced (Nat × Nat) := do
  let (uidRequest, primaryRequest) :=
    match splitOnce ':' requested with
    | some (uid, primary) => (uid, some primary)
    | none => (requested, none)
  match primaryRequest with
  | some primary => do
    let gid ←
      if primary = "-".toList then tracedAllocateId
      else
        match parseUnsigned 32 primary with
        | some value => do
          quiet (orFail (validateId value))
          pure value
        | none => do
          match (← get).1.group.find primary with
          | some (_, fields) => quiet (orFail (numericField fields 2 "group" primary))
          | none => throw ("primary group ".toList ++ primary ++ " does not exist".toList)
    let uid ← tracedResolveId sys uidRequest true
    if (← get).1.uidInUse uid then pure (← tracedAllocateId, gid) else pure (uid, gid)
  | none => do
    match (← get).1.group.find name with
    | some (_, groupFields) => do
      let gid ← quiet (orFail (numericField groupFields 2 "group" name))
      let uid ← tracedResolveId sys uidRequest true
      if (← get).1.uidInUseExcept uid (some gid) then pure (← tracedAllocateId, gid)
      else pure (uid, gid)
    | none => do
      let mut id ← tracedResolveId sys uidRequest true
      if (← get).1.idInUse id then id ← tracedAllocateId
      quiet (createGroup name id)
      pure (id, id)

def tracedEnsureUser (user : UserFields) : Traced Nat := do
  match (← get).1.passwd.find user.name with
  | some (_, fields) => quiet (orFail (numericField fields 2 "user" user.name))
  | none => do
    let (uid, gid) ← tracedChooseIds sys user.name user.requested
    quiet (createUser (user.account uid gid))
    pure uid

/-- Apply a directive, noting each allocation. -/
def tracedApply (directive : Directive) : Traced Unit := do
  let fields := directive.fields
  match directive.kind with
  | .range => quiet (apply sys directive)
  | .group => do
    quiet (orFail (expectGroupFields fields))
    quiet (orFail (validateName sys.debug (fields.getD 0 [])))
    let _ ← tracedEnsureGroup sys (fields.getD 0 []) (fields.getD 1 "-".toList)
  | .user locked => do
    if fields.length < 2 ∨ fields.length > 5 then
      throw "u directives require name and ID, with at most three optional fields".toList
    quiet (orFail (validateName sys.debug (fields.getD 0 [])))
    let _ ← tracedEnsureUser sys
      ⟨fields.getD 0 [], fields.getD 1 [], fields[2]?, fields[3]?, fields[4]?, locked⟩
  | .member => do
    quiet (orFail (expectFields fields 2 "m"))
    quiet (orFail (validateName sys.debug (fields.getD 0 [])))
    quiet (orFail (validateName sys.debug (fields.getD 1 [])))
    let _ ← tracedEnsureUser sys ⟨fields.getD 0 [], "-".toList, none, none, none, false⟩
    let _ ← tracedEnsureGroup sys (fields.getD 1 []) "-".toList
    quiet (addMember (fields.getD 0 []) (fields.getD 1 []))

end

section

variable {α β : Type}

theorem notes_get {g : Database × List Answer → Traced β} {f : Database → Op β}
    (h : ∀ s, Notes (g s) (f s.1)) : Notes (get >>= g) (get >>= f) := fun s => h s s

theorem tracedAllocateId_eq (s : Database × List Answer) :
    tracedAllocateId s = quiet allocateId (s.1, s.2 ++ [⟨s.1, s.1.allocateId⟩]) := rfl

theorem notes_allocateId : Notes tracedAllocateId allocateId := fun s => by
  rw [tracedAllocateId_eq]
  exact notes_quiet allocateId _

variable (sys : System)

theorem notes_resolveId (requested : Str) (user : Bool) :
    Notes (tracedResolveId sys requested user) (resolveId sys requested user) := by
  rw [tracedResolveId]
  split
  next h =>
    rw [resolveId, if_pos h]
    exact notes_allocateId
  next => exact notes_quiet _

theorem notes_ensureGroup (name requested : Str) :
    Notes (tracedEnsureGroup sys name requested) (ensureGroup sys name requested) := by
  refine notes_get fun s => ?_
  cases s.1.group.find name with
  | some found => exact notes_quiet _
  | none =>
    refine notes_bind (notes_resolveId sys requested false) fun id => notes_get fun s => ?_
    have hlast : ∀ id, Notes (do quiet (createGroup name id); pure id : Traced Nat)
        (do createGroup name id; pure id) := fun id =>
      notes_bind (notes_quiet _) fun _ => notes_pure id
    exact notes_ite (notes_bind notes_allocateId hlast) (hlast id)

theorem notes_chooseIds (name requested : Str) :
    Notes (tracedChooseIds sys name requested) (chooseIds sys name requested) := by
  rw [tracedChooseIds, chooseIds]
  have hagain : ∀ (p : Prop) [Decidable p] (uid gid : Nat),
      Notes (if p then do pure (← tracedAllocateId, gid) else pure (uid, gid) : Traced (Nat × Nat))
        (if p then do pure (← allocateId, gid) else pure (uid, gid)) := fun _ _ _ _ =>
    notes_ite (notes_bind notes_allocateId fun _ => notes_pure _) (notes_pure _)
  cases splitOnce ':' requested with
  | some parts =>
    obtain ⟨uidRequest, primary⟩ := parts
    dsimp only
    have hrest : ∀ gid, Notes (do
        let uid ← tracedResolveId sys uidRequest true
        if (← get).1.uidInUse uid then pure (← tracedAllocateId, gid) else pure (uid, gid))
        (do
          let uid ← resolveId sys uidRequest true
          if (← get).uidInUse uid then pure (← allocateId, gid) else pure (uid, gid)) := fun gid =>
      notes_bind (notes_resolveId sys uidRequest true) fun uid =>
        notes_get fun s => hagain (s.1.uidInUse uid) uid gid
    split
    · exact notes_bind notes_allocateId hrest
    · cases parseUnsigned 32 primary with
      | some value => exact notes_bind (notes_quiet _) fun _ => notes_bind (notes_pure _) hrest
      | none =>
        refine notes_get fun s => ?_
        cases s.1.group.find primary with
        | some found => exact notes_bind (notes_quiet _) hrest
        | none => exact notes_bind (notes_throw _) hrest
  | none =>
    refine notes_get fun s => ?_
    cases s.1.group.find name with
    | some found =>
      exact notes_bind (notes_quiet _) fun gid =>
        notes_bind (notes_resolveId sys requested true) fun uid =>
          notes_get fun s => hagain (s.1.uidInUseExcept uid (some gid)) uid gid
    | none =>
      refine notes_bind (notes_resolveId sys requested true) fun id => notes_get fun s => ?_
      have hlast : ∀ id, Notes (do quiet (createGroup name id); pure (id, id) : Traced (Nat × Nat))
          (do createGroup name id; pure (id, id)) := fun id =>
        notes_bind (notes_quiet _) fun _ => notes_pure _
      exact notes_ite (notes_bind notes_allocateId hlast) (hlast id)

theorem notes_ensureUser (user : UserFields) :
    Notes (tracedEnsureUser sys user) (ensureUser sys user) := by
  refine notes_get fun s => ?_
  cases s.1.passwd.find user.name with
  | some found => exact notes_quiet _
  | none =>
    exact notes_bind (notes_chooseIds sys user.name user.requested) fun _ =>
      notes_bind (notes_quiet _) fun _ => notes_pure _

theorem notes_apply (directive : Directive) :
    Notes (tracedApply sys directive) (apply sys directive) := by
  obtain ⟨kind, fields⟩ := directive
  cases kind with
  | range => exact notes_quiet _
  | group =>
    exact notes_bind (notes_quiet _) fun _ => notes_bind (notes_quiet _) fun _ =>
      notes_bind (notes_ensureGroup sys _ _) fun _ => notes_pure _
  | user locked =>
    rw [tracedApply, apply]
    dsimp only
    split
    · exact notes_throw _
    · exact notes_bind (notes_quiet _) fun _ =>
        notes_bind (notes_ensureUser sys _) fun _ => notes_pure _
  | member =>
    exact notes_bind (notes_quiet _) fun _ => notes_bind (notes_quiet _) fun _ =>
      notes_bind (notes_quiet _) fun _ => notes_bind (notes_ensureUser sys _) fun _ =>
        notes_bind (notes_ensureGroup sys _ _) fun _ => notes_quiet _

end

/-- There is one range of IDs, and it is such a one. -/
def Within (p : Nat × Nat → Prop) (db : Database) : Prop := ∃ range, db.ranges = [range] ∧ p range

/-- There is one range of IDs, and they fit in 32 bits. -/
abbrev Ranged : Database → Prop := Within fun range => range.2 < 2 ^ 32

section

variable (p : Nat × Nat → Prop)

/-- The allocator has been asked with such a range, and it has answered what it answers. -/
def Honest (answers : List Answer) : Prop :=
  ∀ a ∈ answers, Within p a.db ∧ a.outcome = a.db.allocateId

/-- An operation keeps such a range when it succeeds. -/
def Keeps {α : Type} (x : Op α) : Prop := Leads (Within p) x (fun _ => Within p) (fun _ => True)

/-- An operation keeps such a range when it succeeds, and all that it notes is honest. -/
def Tracks {α : Type} (r : Traced α) : Prop :=
  Leads (fun s => Within p s.1 ∧ Honest p s.2) r (fun _ s => Within p s.1 ∧ Honest p s.2)
    (Honest p ·.2)

end

section

variable {α β : Type} {x : Op α} {r : Traced α} {g : α → Traced β} {p : Nat × Nat → Prop}

theorem keeps_of_reads (h : Reads x) : Keeps p x := fun s hs =>
  ends_mono (fun _ _ ht => ht ▸ hs) (fun _ _ he => he) (h s)

theorem keeps_modify {f : Database → Database} (h : ∀ db, (f db).ranges = db.ranges) :
    Keeps p (modify f : Op Unit) := fun s hs => by
  obtain ⟨range, hrange, hlast⟩ := hs
  exact ⟨range, (h s).trans hrange, hlast⟩

theorem tracks_quiet (h : Keeps p x) : Tracks p (quiet x) := fun s hs =>
  ends_mono (fun _ _ ht => ⟨ht.1, ht.2 ▸ hs.2⟩) (fun _ _ he => he.2 ▸ hs.2)
    (ends_quiet (h s.1 hs.1))

theorem tracks_bind (hr : Tracks p r) (hg : ∀ a, Tracks p (g a)) : Tracks p (r >>= g) := leads_bind hr hg

theorem tracks_pure (a : α) : Tracks p (pure a : Traced α) := leads_pure fun _ hs => hs

theorem tracks_throw (e : Str) : Tracks p (throw e : Traced α) := leads_throw fun _ hs => hs.2

theorem tracks_get {g : Database × List Answer → Traced β} (hg : ∀ s, Tracks p (g s)) :
    Tracks p (get >>= g) := fun s => hg s s

theorem tracks_ite {c : Prop} [Decidable c] {r' : Traced α} (hr : Tracks p r) (hr' : Tracks p r') :
    Tracks p (if c then r else r') := leads_ite (fun _ => hr) fun _ => hr'

theorem tracks_orFail (a : Except Str α) : Tracks p (quiet (orFail a)) :=
  tracks_quiet (keeps_of_reads (reads_orFail a))

theorem tracks_allocateId : Tracks p tracedAllocateId := by
  intro s hs
  rw [tracedAllocateId_eq]
  refine tracks_quiet (keeps_of_reads allocateId_reads) _ ⟨hs.1, ?_⟩
  exact List.forall_mem_append.mpr ⟨hs.2, List.forall_mem_singleton.mpr ⟨hs.1, rfl⟩⟩

theorem keeps_createGroup (name : Str) (id : Nat) : Keeps p (createGroup name id) := fun s hs => by
  change Ends _ _ ((if (s.group.find name).isNone then _ else pure () : Op Unit) s)
  split
  · exact keeps_modify (fun _ => rfl) s hs
  · exact hs

theorem keeps_createUser (account : Account) : Keeps p (createUser account) := fun s hs => by
  change Ends _ _ ((if (s.passwd.find account.name).isNone then _ else pure () : Op Unit) s)
  split
  · exact keeps_modify (fun _ => rfl) s hs
  · exact hs

variable (sys : System)

theorem tracks_resolveId (requested : Str) (user : Bool) :
    Tracks p (tracedResolveId sys requested user) :=
  tracks_ite tracks_allocateId (tracks_quiet (keeps_of_reads (resolveId_reads sys requested user)))

theorem tracks_ensureGroup (name requested : Str) :
    Tracks p (tracedEnsureGroup sys name requested) := by
  refine tracks_get fun s => ?_
  cases s.1.group.find name with
  | some found => exact tracks_orFail _
  | none =>
    refine tracks_bind (tracks_resolveId sys requested false) fun id => tracks_get fun s => ?_
    have hlast : ∀ id, Tracks p (do quiet (createGroup name id); pure id : Traced Nat) := fun id =>
      tracks_bind (tracks_quiet (keeps_createGroup name id)) fun _ => tracks_pure id
    exact tracks_ite (tracks_bind tracks_allocateId hlast) (hlast id)

theorem tracks_chooseIds (name requested : Str) : Tracks p (tracedChooseIds sys name requested) := by
  rw [tracedChooseIds]
  have hagain : ∀ (c : Prop) [Decidable c] (uid gid : Nat), Tracks p
      (if c then do pure (← tracedAllocateId, gid) else pure (uid, gid) : Traced (Nat × Nat)) :=
    fun _ _ _ _ => tracks_ite (tracks_bind tracks_allocateId fun _ => tracks_pure _) (tracks_pure _)
  cases splitOnce ':' requested with
  | some parts =>
    obtain ⟨uidRequest, primary⟩ := parts
    dsimp only
    have hrest : ∀ gid, Tracks p (do
        let uid ← tracedResolveId sys uidRequest true
        if (← get).1.uidInUse uid then pure (← tracedAllocateId, gid) else pure (uid, gid)) :=
      fun gid => tracks_bind (tracks_resolveId sys uidRequest true) fun uid =>
        tracks_get fun s => hagain (s.1.uidInUse uid) uid gid
    split
    · exact tracks_bind tracks_allocateId hrest
    · cases parseUnsigned 32 primary with
      | some value => exact tracks_bind (tracks_orFail _) fun _ => tracks_bind (tracks_pure _) hrest
      | none =>
        refine tracks_get fun s => ?_
        cases s.1.group.find primary with
        | some found => exact tracks_bind (tracks_orFail _) hrest
        | none => exact tracks_bind (tracks_throw _) hrest
  | none =>
    refine tracks_get fun s => ?_
    cases s.1.group.find name with
    | some found =>
      exact tracks_bind (tracks_orFail _) fun gid =>
        tracks_bind (tracks_resolveId sys requested true) fun uid =>
          tracks_get fun s => hagain (s.1.uidInUseExcept uid (some gid)) uid gid
    | none =>
      refine tracks_bind (tracks_resolveId sys requested true) fun id => tracks_get fun s => ?_
      have hlast : ∀ id, Tracks p (do quiet (createGroup name id); pure (id, id)) := fun id =>
        tracks_bind (tracks_quiet (keeps_createGroup name id)) fun _ => tracks_pure _
      exact tracks_ite (tracks_bind tracks_allocateId hlast) (hlast id)

theorem tracks_ensureUser (user : UserFields) : Tracks p (tracedEnsureUser sys user) := by
  refine tracks_get fun s => ?_
  cases s.1.passwd.find user.name with
  | some found => exact tracks_orFail _
  | none =>
    exact tracks_bind (tracks_chooseIds sys user.name user.requested) fun _ =>
      tracks_bind (tracks_quiet (keeps_createUser _)) fun _ => tracks_pure _

theorem parseRange_lt {debug : Str → Str} {value : Str} {range : Nat × Nat}
    (h : parseRange debug value = .ok range) : range.2 < 2 ^ 32 := by
  rw [parseRange] at h
  generalize (splitOnce '-' value).getD (value, value) = ends at h
  obtain ⟨low, high⟩ := ends
  obtain ⟨first, -, h⟩ := bind_eq_ok.mp h
  obtain ⟨last, hlast, h⟩ := bind_eq_ok.mp h
  obtain ⟨_, -, h⟩ := bind_eq_ok.mp h
  obtain ⟨_, -, h⟩ := bind_eq_ok.mp h
  have hrange : range = (first, last) := by
    split at h
    · cases h
    · cases h
      rfl
  cases hhigh : parseUnsigned 32 high with
  | none =>
    simp only [hhigh] at hlast
    cases hlast
  | some n =>
    simp only [hhigh] at hlast
    cases hlast
    rw [hrange]
    exact parseUnsigned_lt hhigh

def Asks (sys : System) (p : Nat × Nat → Prop) (directive : Directive) : Prop :=
  directive.kind = .range → ∀ range,
    parseRange sys.debug (directive.fields.getD 1 []) = .ok range → p range

theorem tracks_apply {directive : Directive} (h : Asks sys p directive) :
    Tracks p (tracedApply sys directive) := by
  obtain ⟨kind, fields⟩ := directive
  cases kind with
  | range =>
    refine tracks_quiet fun s hs => ends_bind (orFail_ends _ s) fun _ t ht => ?_
    dsimp only
    split
    · trivial
    · refine ends_bind (orFail_ends _ t) fun range u hrange => ?_
      exact ⟨range, rfl, h rfl range hrange.2⟩
  | group =>
    exact tracks_bind (tracks_orFail _) fun _ => tracks_bind (tracks_orFail _) fun _ =>
      tracks_bind (tracks_ensureGroup sys _ _) fun _ => tracks_pure _
  | user locked =>
    rw [tracedApply]
    dsimp only
    split
    · exact tracks_throw _
    · exact tracks_bind (tracks_orFail _) fun _ =>
        tracks_bind (tracks_ensureUser sys _) fun _ => tracks_pure _
  | member =>
    exact tracks_bind (tracks_orFail _) fun _ => tracks_bind (tracks_orFail _) fun _ =>
      tracks_bind (tracks_orFail _) fun _ => tracks_bind (tracks_ensureUser sys _) fun _ =>
        tracks_bind (tracks_ensureGroup sys _ _) fun _ =>
          tracks_quiet (keeps_modify fun _ => rfl)

end

theorem apply_keeps (sys : System) (directive : Directive) :
    Keeps (fun range => range.2 < 2 ^ 32) (apply sys directive) := by
  intro s hs
  have hnotes := notes_apply sys directive (s, [])
  have htracks := @tracks_apply _ sys directive (fun _ _ => parseRange_lt) (s, []) ⟨hs, nofun⟩
  rw [← hnotes]
  cases hrun : tracedApply sys directive (s, []) with
  | ok a t =>
    rw [hrun] at htracks
    exact htracks.1
  | error e t => trivial

/-- The numbers of the table fit in 32 bits. -/
def Fits (values : BTreeMap Str Nat) : Prop := ∀ k n, values.get k = some n → n < 2 ^ 32

theorem fits_insert {values : BTreeMap Str Nat} {k : Str} {n : Nat} (h : Fits values)
    (hn : n < 2 ^ 32) : Fits (values.insert k n) := by
  intro k' n' hget
  rw [get_insert] at hget
  split at hget
  · cases hget
    exact hn
  · exact h k' n' hget

theorem fits_foldl (lines : List Str) {values : BTreeMap Str Nat} (h : Fits values) :
    Fits (lines.foldl (fun values line =>
      match splitWhitespace line with
      | [key, value] =>
        match parseUnsigned 32 value with
        | some value => values.insert key value
        | none => values
      | _ => values) values) := by
  induction lines generalizing values with
  | nil => exact h
  | cons line lines ih =>
    refine ih ?_
    dsimp only
    split
    · split
      next hn => exact fits_insert h (parseUnsigned_lt hn)
      next => exact h
    · exact h

theorem load_ranged (etc : Etc) : Ranged (.load etc) := by
  refine ⟨_, rfl, ?_⟩
  have hempty : Fits empty := by
    intro k n h
    cases h
  have hfits := fits_foldl (textLines (etc.loginDefs.getD [])) hempty
  generalize (textLines (etc.loginDefs.getD [])).foldl _ (empty : BTreeMap Str Nat) = values
    at hfits ⊢
  cases hmax : ([values.get "SYS_UID_MAX".toList, values.get "SYS_GID_MAX".toList].reduceOption).max? with
  | none => exact (by decide : 999 < 2 ^ 32)
  | some n =>
    obtain hn | hn := List.mem_cons.mp (List.reduceOption_mem_iff.mp (List.max?_mem hmax))
    · exact hfits _ _ hn.symm
    · exact hfits _ _ (List.mem_singleton.mp hn).symm

section

variable {db : Database} {low high id : Nat}

theorem find_descending {p : Nat → Bool} {n : Nat} :
    (List.range' low n).reverse.find? p = some id ↔
      low ≤ id ∧ id < low + n ∧ p id ∧ ∀ other, id < other → other < low + n → ¬ p other := by
  induction n with
  | zero =>
    refine iff_of_false (by simp) fun h => ?_
    omega
  | succ n ih =>
    rw [List.range'_concat, List.reverse_append, List.reverse_singleton, List.singleton_append,
      Nat.one_mul]
    by_cases hlast : p (low + n)
    · rw [List.find?_cons_of_pos hlast]
      constructor
      · intro h
        cases h
        exact ⟨by omega, by omega, hlast, fun other hmore hless => by omega⟩
      · rintro ⟨-, hless, -, hmax⟩
        have : ¬ id < low + n := fun h => hmax _ h (by omega) hlast
        congr
        omega
    · rw [List.find?_cons_of_neg hlast, ih]
      constructor
      · rintro ⟨hlow, hless, hid, hmax⟩
        refine ⟨hlow, by omega, hid, fun other hmore hother => ?_⟩
        by_cases heq : other = low + n
        · rwa [heq]
        · exact hmax other hmore (by omega)
      · rintro ⟨hlow, hless, hid, hmax⟩
        have hne : id ≠ low + n := fun h => hlast (h ▸ hid)
        exact ⟨hlow, by omega, hid, fun other hmore hother => hmax other hmore (by omega)⟩

theorem allocateId_eq (h : db.ranges = [(low, high)]) : db.allocateId =
    match (List.range' low (high + 1 - low)).reverse.find? (· ∉ db.usedIds) with
    | some id => .ok id
    | none => .error "no free system UID/GID is available".toList := by
  rw [Database.allocateId, h, List.reverse_singleton, List.findSome?_cons, List.findSome?_nil]
  dsimp only
  cases (List.range' low (high + 1 - low)).reverse.find? (· ∉ db.usedIds) with
  | some id => rfl
  | none => rfl

theorem allocateId_ok_iff (h : db.ranges = [(low, high)]) : db.allocateId = .ok id ↔
    low ≤ id ∧ id ≤ high ∧ id ∉ db.usedIds ∧
      ∀ other, id < other → other ≤ high → other ∈ db.usedIds := by
  have hfind : db.allocateId = .ok id ↔
      (List.range' low (high + 1 - low)).reverse.find? (· ∉ db.usedIds) = some id := by
    rw [allocateId_eq h]
    cases (List.range' low (high + 1 - low)).reverse.find? (· ∉ db.usedIds) with
    | some other => simp
    | none => simp
  rw [hfind, find_descending]
  simp only [decide_eq_true_eq, not_not]
  constructor
  · rintro ⟨hlow, hless, hid, hmax⟩
    exact ⟨hlow, by omega, hid, fun other hmore hother => hmax other hmore (by omega)⟩
  · rintro ⟨hlow, hhigh, hid, hmax⟩
    exact ⟨hlow, by omega, hid, fun other hmore hother => hmax other hmore (by omega)⟩

theorem allocateId_error {e : Str} (h : db.ranges = [(low, high)]) (he : db.allocateId = .error e)
    (hlow : low ≤ id) (hhigh : id ≤ high) : id ∈ db.usedIds := by
  rw [allocateId_eq h] at he
  cases hfind : (List.range' low (high + 1 - low)).reverse.find? (· ∉ db.usedIds) with
  | some other =>
    rw [hfind] at he
    cases he
  | none =>
    have hid : id ∈ (List.range' low (high + 1 - low)).reverse := by
      rw [List.mem_reverse, List.mem_range'_1]
      omega
    simpa using List.find?_eq_none.mp hfind id hid

end

/-- The IDs that stand for no account. -/
def reserved : List Nat := [2 ^ 16 - 1, 2 ^ 32 - 1]

/-- The allocator gives no ID that is reserved or in use, and it fails only where no other is left. -/
structure Safe (a : Answer) : Prop where
  sound : ∀ id, a.outcome = .ok id → id ∉ reserved ∧ id ∉ a.db.usedIds
  complete : ∀ e, a.outcome = .error e → ∀ range ∈ a.db.ranges, ∀ id, range.1 ≤ id → id ≤ range.2 →
    id ∈ a.db.usedIds ∨ id ∈ reserved

/-- A reserved ID in a range is in use, or a higher ID of the range is free. -/
def Clear (db : Database) : Prop :=
  ∀ range ∈ db.ranges, ∀ id ∈ reserved, range.1 ≤ id → id ≤ range.2 →
    id ∈ db.usedIds ∨ ∃ other, id < other ∧ other ≤ range.2 ∧ other ∉ db.usedIds

theorem safe_iff {a : Answer} (hrange : Ranged a.db) (h : a.outcome = a.db.allocateId) :
    Safe a ↔ Clear a.db := by
  obtain ⟨⟨low, high⟩, hrange, -⟩ := hrange
  constructor
  · intro hsafe range hmem id hid hlow hhigh
    rw [hrange, List.mem_singleton] at hmem
    subst hmem
    by_contra hnot
    obtain ⟨hfree, hmax⟩ := not_or.mp hnot
    have hok : a.outcome = .ok id := by
      refine h.trans ((allocateId_ok_iff hrange).mpr ⟨hlow, hhigh, hfree, fun other hmore hother => ?_⟩)
      by_contra hother'
      exact hmax ⟨other, hmore, hother, hother'⟩
    exact (hsafe.sound id hok).1 hid
  · intro hclear
    refine ⟨fun id hok => ?_, fun e he range hmem id hlow hhigh => .inl ?_⟩
    · obtain ⟨hlow, hhigh, hfree, hmax⟩ := (allocateId_ok_iff hrange).mp (h.symm.trans hok)
      refine ⟨fun hid => ?_, hfree⟩
      have hmem : (low, high) ∈ a.db.ranges := hrange ▸ List.mem_singleton_self _
      obtain hused | ⟨other, hmore, hother, hother'⟩ := hclear _ hmem id hid hlow hhigh
      · exact hfree hused
      · exact hother' (hmax other hmore hother)
    · rw [hrange, List.mem_singleton] at hmem
      subst hmem
      exact allocateId_error hrange (h.symm.trans he) hlow hhigh

/-- The allocations that some directives make. -/
def allocations (sys : System) (etc : Etc) (ds : List Directive) : List Answer :=
  (final (ds.forM (tracedApply sys)) (.load etc, [])).2

theorem allocations_honest {p : Nat × Nat → Prop} {sys : System} {etc : Etc} {ds : List Directive}
    (hload : Within p (.load etc)) (hds : ∀ d ∈ ds, Asks sys p d) :
    Honest p (allocations sys etc ds) := by
  have hrun : Ends (fun _ s => Within p s.1 ∧ Honest p s.2) (fun _ s => Honest p s.2)
      (ds.forM (tracedApply sys) (.load etc, [])) :=
    ends_forM (fun d hd => tracks_apply sys (hds d hd)) ⟨hload, nofun⟩
  rw [allocations, final]
  cases hds : ds.forM (tracedApply sys) (.load etc, []) with
  | ok a t =>
    rw [hds] at hrun
    exact hrun.2
  | error e t =>
    rw [hds] at hrun
    exact hrun

/-- The allocations are safe exactly if each is made where no reserved ID is the last free one. -/
theorem allocations_safe_iff (sys : System) (etc : Etc) (ds : List Directive) :
    (∀ a ∈ allocations sys etc ds, Safe a) ↔ ∀ a ∈ allocations sys etc ds, Clear a.db := by
  refine forall₂_congr fun a ha => ?_
  obtain ⟨hrange, houtcome⟩ :=
    allocations_honest (load_ranged etc) (fun d _ _ _ => parseRange_lt) a ha
  exact safe_iff hrange houtcome

theorem allocations_clear (sys : System) (etc : Etc) (ds : List Directive)
    (hload : Within (fun range => ∀ id ∈ reserved, range.1 ≤ id → ¬ id ≤ range.2) (.load etc))
    (hds : ∀ d ∈ ds, Asks sys (fun range => ∀ id ∈ reserved, range.1 ≤ id → ¬ id ≤ range.2) d) :
    ∀ a ∈ allocations sys etc ds, Clear a.db := by
  intro a ha range hmem id hid hlow hhigh
  obtain ⟨⟨only, honly, hfree⟩, -⟩ := allocations_honest hload hds a ha
  rw [honly, List.mem_singleton] at hmem
  subst hmem
  exact absurd hhigh (hfree id hid hlow)

/-- Two users whose IDs come from a range around a reserved one. -/
def aroundReserved : List Directive :=
  [⟨.range, ["-".toList, "65534-65536".toList]⟩, ⟨.user false, ["first".toList, "-".toList]⟩,
    ⟨.user false, ["second".toList, "-".toList]⟩]

/-- The second user gets the reserved ID. -/
theorem reserved_allocated :
    succeeds (aroundReserved.forM (apply plainSystem)) (.load rootOnly) ∧
    ¬ ∀ a ∈ allocations plainSystem rootOnly aroundReserved, Safe a := by
  refine ⟨by decide, fun h => ?_⟩
  obtain ⟨a, ha, houtcome⟩ : ∃ a ∈ allocations plainSystem rootOnly aroundReserved,
      a.outcome = .ok (2 ^ 16 - 1) := by
    have hmem : .ok (2 ^ 16 - 1) ∈
        (allocations plainSystem rootOnly aroundReserved).map (·.outcome) := by decide
    exact List.mem_map.mp hmem
  exact ((h a ha).sound _ houtcome).1 (List.mem_cons_self)

end FractalD.Sysusers.Allocation
