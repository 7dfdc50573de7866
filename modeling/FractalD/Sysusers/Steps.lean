import FractalD.Sysusers.Integrity

namespace FractalD.Sysusers.Steps

open FractalD.Config.Words FractalD.Machine.CString FractalD.Machine.Delimited
open FractalD.Machine.Effect FractalD.Machine.OrderedMap FractalD.Machine.Text
open FractalD.Machine.Wire
open FractalD.Sysusers.Accounts FractalD.Sysusers.Directives FractalD.Sysusers.Integrity

def Named (name line : Str) : Prop :=
  (line.splitOn ':').head? = some name ∧ 3 ≤ (line.splitOn ':').length

instance (name line : Str) : Decidable (Named name line) := inferInstanceAs (Decidable (_ ∧ _))

/-- The first record of a name. -/
def entry (db : TextDatabase) (name : Str) : Option Str := db.lines.find? fun line => Named name line

/-- The databases after a group has been made. -/
def withGroup (db : Database) (name : Str) (id : Nat) : Database :=
  { db with
    group := db.group.append [name, "x".toList, printUnsigned id, []]
    gshadow :=
      if db.gshadow.found then db.gshadow.append [name, "!*".toList, [], []] else db.gshadow }

/-- The databases after a user has been made. -/
def withUser (db : Database) (account : Account) : Database :=
  { db with
    passwd := db.passwd.append [account.name, "x".toList, printUnsigned account.uid,
      printUnsigned account.gid, account.gecos, account.home, account.shell]
    shadow :=
      if db.shadow.found then
        db.shadow.append [account.name, "!*".toList, "0".toList, "0".toList, "99999".toList,
          "7".toList, [], [], if account.locked then "1".toList else []]
      else db.shadow }

def members (line : Str) : List Str := ((line.splitOn ':').getD 3 []).splitOn ','

def memberSet (fields : List Str) : BTreeSet Str :=
  ofList (((fields.getD 3 []).splitOn ',').filter (· ≠ []))

def withMember (user : Str) (fields : List Str) : List Str :=
  (fields ++ List.replicate (4 - fields.length) []).set 3
    (join [','] ((memberSet fields).keys ++ [user]))

section

variable {db : TextDatabase} {name line : Str} {fields : List Str} {i : Nat}

theorem find_iff : db.find name = some (i, fields) ↔ ∃ before after, ∃ line,
    db.lines = before ++ line :: after ∧ before.length = i ∧ line.splitOn ':' = fields ∧
      Named name line ∧ ∀ other ∈ before, ¬ Named name other := by
  have hstart : ∀ (lines : List Str) (k : Nat),
      ((lines.zipIdx k).findSome? fun entry =>
        let fields := entry.1.splitOn ':'
        if fields.head? = some name ∧ 3 ≤ fields.length then some (entry.2, fields) else none) =
        some (i, fields) ↔ ∃ before after, ∃ line, lines = before ++ line :: after ∧
          before.length + k = i ∧ line.splitOn ':' = fields ∧ Named name line ∧
            ∀ other ∈ before, ¬ Named name other := by
    intro lines
    induction lines with
    | nil => simp
    | cons line lines ih =>
      intro k
      rw [List.zipIdx_cons, List.findSome?_cons]
      dsimp only
      by_cases hline : Named name line
      · have hfields : (line.splitOn ':').head? = some name ∧ 3 ≤ (line.splitOn ':').length := hline
        rw [if_pos hfields]
        constructor
        · intro h
          cases h
          exact ⟨[], lines, line, rfl, Nat.zero_add _, rfl, hline, by simp⟩
        · rintro ⟨before, after, line', hlines, hi, rfl, hnamed, hbefore⟩
          cases before with
          | nil =>
            cases hlines
            rw [← hi, List.length_nil, Nat.zero_add]
          | cons other before =>
            cases hlines
            exact absurd hline (hbefore _ List.mem_cons_self)
      · have hfields : ¬ ((line.splitOn ':').head? = some name ∧ 3 ≤ (line.splitOn ':').length) := hline
        rw [if_neg hfields]
        refine (ih (k + 1)).trans ⟨?_, ?_⟩
        · rintro ⟨before, after, line', rfl, hi, hfields, hnamed, hbefore⟩
          refine ⟨line :: before, after, line', rfl, by simp only [List.length_cons]; omega, hfields,
            hnamed, List.forall_mem_cons.mpr ⟨hline, hbefore⟩⟩
        · rintro ⟨before, after, line', hlines, hi, hfields, hnamed, hbefore⟩
          cases before with
          | nil =>
            cases hlines
            exact absurd hnamed hline
          | cons other before =>
            cases hlines
            refine ⟨before, after, line', rfl, by simp only [List.length_cons] at hi; omega, hfields,
              hnamed, (List.forall_mem_cons.mp hbefore).2⟩
  exact hstart db.lines 0

theorem entry_append (lines after : List Str) (hbefore : ∀ other ∈ lines, ¬ Named name other)
    (hline : Named name line) (hlines : db.lines = lines ++ line :: after) :
    entry db name = some line := by
  rw [entry, hlines, List.find?_append, List.find?_eq_none.mpr (by simpa using hbefore)]
  simp [hline]

theorem entry_of_find (h : db.find name = some (i, fields)) :
    ∃ line, entry db name = some line ∧ line.splitOn ':' = fields := by
  obtain ⟨before, after, line, hlines, -, hfields, hnamed, hbefore⟩ := find_iff.mp h
  exact ⟨line, entry_append before after hbefore hnamed hlines, hfields⟩

theorem entry_eq_none : entry db name = none ↔ db.find name = none := by
  have hsome : (db.find name).isSome ↔ (entry db name).isSome := by
    rw [find_isSome, entry, List.find?_isSome]
    refine exists_congr fun line => and_congr Iff.rfl ?_
    rw [decide_eq_true_eq, Named]
  rw [← Option.not_isSome_iff_eq_none, ← hsome, Option.not_isSome_iff_eq_none]

theorem mem_of_entry (h : entry db name = some line) : line ∈ db.lines ∧ Named name line :=
  ⟨List.mem_of_find?_eq_some h, by simpa using List.find?_some h⟩

theorem numericField_ok {index id : Nat} {kind : String} :
    numericField fields index kind name = .ok id ↔
      fields[index]?.bind (parseUnsigned 32) = some id := by
  rw [numericField]
  cases hfield : fields[index]? with
  | none => simp
  | some field => cases hparse : parseUnsigned 32 field <;> simp [hparse]

theorem getD_padded (fields : List Str) (n i : Nat) :
    (fields ++ List.replicate n []).getD i [] = fields.getD i [] := by
  rw [List.getD_eq_getElem?_getD, List.getD_eq_getElem?_getD]
  by_cases hi : i < fields.length
  · rw [List.getElem?_append_left hi]
  · rw [List.getElem?_append_right (not_lt.mp hi), List.getElem?_eq_none (not_lt.mp hi),
      List.getElem?_replicate]
    split <;> rfl

theorem contains_memberSet {user : Str} (hne : user ≠ []) :
    (memberSet (line.splitOn ':')).contains user ↔ user ∈ members line := by
  rw [← mem_keys, memberSet, mem_ofList, List.mem_filter, members]
  simp [hne]

theorem addMemberTo_eq {user group : Str} (h : db.find group = some (i, fields)) :
    addMemberTo db user group = if (memberSet fields).contains user then db
      else db.replace i (withMember user fields) := by
  rw [addMemberTo, h]
  simp only [getD_padded]
  rfl

theorem addMemberTo_joined {user group : Str} (hne : user ≠ [])
    (h : ∀ line, entry db group = some line → user ∈ members line) :
    addMemberTo db user group = db := by
  cases hfind : db.find group with
  | none => rw [addMemberTo, hfind]
  | some found =>
    obtain ⟨i, fields⟩ := found
    obtain ⟨line, hline, rfl⟩ := entry_of_find hfind
    rw [addMemberTo_eq hfind, if_pos ((contains_memberSet hne).mpr (h line hline))]

theorem splitOn_withMember {user : Str} (h : ValidName user) :
    (join [':'] (withMember user (line.splitOn ':'))).splitOn ':' =
      withMember user (line.splitOn ':') := by
  have hmember : ∀ member ∈ (memberSet (line.splitOn ':')).keys, ':' ∉ member := by
    intro member hmem hc
    rw [memberSet, mem_ofList, List.mem_filter] at hmem
    have hmem := hmem.1
    rw [List.splitOn_eq_splitOnP] at hmem
    have hc := (mem_of_mem_splitOnP hmem ':' hc).1
    rw [List.getD_eq_getElem?_getD] at hc
    cases hfield : (line.splitOn ':')[3]? with
    | none =>
      rw [hfield] at hc
      cases hc
    | some field =>
      rw [hfield] at hc
      exact not_mem_splitOn (List.mem_of_getElem? hfield) hc
  refine List.splitOn_intercalate ':' (fun field hfield hc => ?_) ?_
  · obtain hfield | rfl := List.mem_or_eq_of_mem_set hfield
    · obtain hfield | hfield := List.mem_append.mp hfield
      · exact not_mem_splitOn hfield hc
      · rw [List.eq_of_mem_replicate hfield] at hc
        cases hc
    · obtain ⟨member, hmem, hc⟩ := (mem_join (by decide)).mp hc
      obtain hmem | hmem := List.mem_append.mp hmem
      · exact hmember member hmem hc
      · rw [List.mem_singleton.mp hmem] at hc
        exact (validName_plain h).1.1 hc
  · intro hnil
    have hlength := congrArg List.length hnil
    simp [withMember, List.splitOn_ne_nil] at hlength

theorem addMemberTo_cases {user group : Str} (h : ValidName user) (hne : user ≠ []) :
    (addMemberTo db user group = db ∧ ∀ line, entry db group = some line → user ∈ members line) ∨
    ∃ before after line line', db.lines = before ++ line :: after ∧
      addMemberTo db user group = ⟨before ++ line' :: after, db.found, true⟩ ∧
      Named group line ∧ (∀ other ∈ before, ¬ Named group other) ∧
      line'.splitOn ':' = withMember user (line.splitOn ':') := by
  cases hfind : db.find group with
  | none =>
    refine .inl ⟨by rw [addMemberTo, hfind], fun line hline => ?_⟩
    rw [entry_eq_none.mpr hfind] at hline
    cases hline
  | some found =>
    obtain ⟨i, fields⟩ := found
    obtain ⟨before, after, line, hlines, hbefore, rfl, hnamed, hfirst⟩ := find_iff.mp hfind
    rw [addMemberTo_eq hfind]
    by_cases hmember : (memberSet (line.splitOn ':')).contains user
    · refine .inl ⟨if_pos hmember, fun line' hline' => ?_⟩
      rw [entry_append before after hfirst hnamed hlines] at hline'
      cases hline'
      exact (contains_memberSet hne).mp hmember
    · refine .inr ⟨before, after, line, _, hlines, ?_, hnamed, hfirst, splitOn_withMember h⟩
      rw [if_neg hmember, TextDatabase.replace, hlines, ← hbefore, List.set_append_right _ _ le_rfl,
        Nat.sub_self, List.set_cons_zero]

theorem getElem?_withMember {user : Str} {k : Nat} (hk : k < 3) (hlength : 3 ≤ fields.length) :
    (withMember user fields)[k]? = fields[k]? := by
  rw [withMember, List.getElem?_set_ne (by omega), List.getElem?_append_left (by omega)]

theorem named_withMember {user line' : Str} (h : Named name line)
    (hline' : line'.splitOn ':' = withMember user (line.splitOn ':')) : Named name line' := by
  refine ⟨?_, ?_⟩
  · rw [hline', List.head?_eq_getElem?, getElem?_withMember (by decide) h.2,
      ← List.head?_eq_getElem?]
    exact h.1
  · rw [hline', withMember, List.length_set, List.length_append]
    have := h.2
    omega

theorem lineId_withMember {user line' : Str} (h : Named name line)
    (hline' : line'.splitOn ':' = withMember user (line.splitOn ':')) : lineId line' = lineId line := by
  rw [lineId, hline', getElem?_withMember (by decide) h.2, lineId]

theorem members_withMember {user line' : Str} (h : ValidName user)
    (hline' : line'.splitOn ':' = withMember user (line.splitOn ':')) :
    members line' = (memberSet (line.splitOn ':')).keys ++ [user] := by
  rw [members, hline', withMember, List.getD_eq_getElem?_getD, List.getElem?_set_self (by simp; omega),
    Option.getD_some]
  refine List.splitOn_intercalate ',' (fun member hmem hc => ?_) (by simp)
  obtain hmem | hmem := List.mem_append.mp hmem
  · rw [memberSet, mem_ofList, List.mem_filter] at hmem
    exact not_mem_splitOn hmem.1 hc
  · rw [List.mem_singleton.mp hmem] at hc
    exact absurd (h _ hc) (by decide)

theorem named_created {second third : Str} {rest : List Str} (hname : ValidName name)
    (hsecond : ':' ∉ second) : Named name (join [':'] (name :: second :: third :: rest)) := by
  have hsplit := splitOn_join_cons (validName_plain hname).1.1 (List.cons_ne_nil second (third :: rest))
  rw [splitOn_join_cons hsecond (List.cons_ne_nil third rest)] at hsplit
  refine ⟨by rw [hsplit]; rfl, ?_⟩
  have := List.length_pos_of_ne_nil (List.splitOn_ne_nil ':' (join [':'] (third :: rest)))
  rw [hsplit, List.length_cons, List.length_cons]
  omega

theorem lineId_created {second : Str} {rest : List Str} {id : Nat} (hname : ValidName name)
    (hsecond : ':' ∉ second) (hne : rest ≠ []) :
    lineId (join [':'] (name :: second :: printUnsigned id :: rest)) =
      parseUnsigned 32 (printUnsigned id) := by
  have hid := (validName_plain (printUnsigned_valid id)).1.1
  rw [lineId, splitOn_join_cons (validName_plain hname).1.1 (List.cons_ne_nil _ _),
    splitOn_join_cons hsecond (List.cons_ne_nil _ _), splitOn_join_cons hid hne]
  rfl

end

section

variable {α : Type} {s t : Database} {id : Nat} {name requested : Str}

theorem orFail_ok {r : Except Str α} {a : α} : orFail r s = .ok a t ↔ r = .ok a ∧ s = t := by
  cases r with
  | ok b => simp [orFail]
  | error e => simp [orFail]

theorem get_ok {u : Database} : (get : Op Database) s = .ok u t ↔ s = u ∧ s = t := by
  change EStateM.Result.ok s s = .ok u t ↔ _
  simp

theorem of_reads {x : Op α} (hx : Reads x) {a : α} (h : x s = .ok a t) : s = t := by
  have hend := hx s
  rw [h] at hend
  exact hend

theorem allocateId_ok : allocateId s = .ok id t ↔ s.allocateId = .ok id ∧ s = t := by
  rw [allocateId, bind_ok]
  simp only [get_ok, orFail_ok]
  constructor
  · rintro ⟨u, v, ⟨rfl, rfl⟩, h⟩
    exact h
  · intro h
    exact ⟨s, s, ⟨rfl, rfl⟩, h⟩

theorem createGroup_ok (h : s.group.find name = none) :
    createGroup name id s = .ok () (withGroup s name id) := by
  change (if (s.group.find name).isNone then _ else pure () : Op Unit) s = _
  rw [h]
  rfl

theorem createUser_ok {account : Account} (h : s.passwd.find account.name = none) :
    createUser account s = .ok () (withUser s account) := by
  change (if (s.passwd.find account.name).isNone then _ else pure () : Op Unit) s = _
  rw [h]
  rfl

variable (sys : System)

/-- Where the number of a new account comes from. -/
inductive Taken (s : Database) (requested : Str) (user : Bool) (id : Nat) : Prop
  | allocated (hid : s.allocateId = .ok id)
  | resolved (hid : resolveId sys requested user s = .ok id s)

theorem ensureGroup_cases (h : ensureGroup sys name requested s = .ok id t) :
    (∃ found, s.group.find name = some found ∧ numericField found.2 2 "group" name = .ok id ∧
      t = s) ∨ s.group.find name = none ∧ Taken sys s requested false id ∧
        t = withGroup s name id := by
  obtain ⟨u, v, hget, h⟩ := bind_ok.mp h
  obtain ⟨rfl, rfl⟩ := get_ok.mp hget
  cases hfind : s.group.find name with
  | some found =>
    rw [hfind] at h
    obtain ⟨hid, rfl⟩ := orFail_ok.mp h
    exact .inl ⟨found, rfl, hid, rfl⟩
  | none =>
    rw [hfind] at h
    obtain ⟨first, u, hfirst, h⟩ := bind_ok.mp h
    obtain rfl := of_reads (resolveId_reads sys requested false) hfirst
    obtain ⟨u, v, hget, h⟩ := bind_ok.mp h
    obtain ⟨rfl, rfl⟩ := get_ok.mp hget
    have hlast : ∀ other, (do createGroup name other; pure other : Op Nat) s = .ok id t →
        other = id ∧ t = withGroup s name id := by
      intro other hother
      obtain ⟨_, u, hcreate, hpure⟩ := bind_ok.mp hother
      rw [createGroup_ok hfind] at hcreate
      cases hcreate
      obtain ⟨rfl, rfl⟩ := pure_ok.mp hpure
      exact ⟨rfl, rfl⟩
    split at h
    · obtain ⟨other, u, hallocate, h⟩ := bind_ok.mp h
      obtain ⟨hid, rfl⟩ := allocateId_ok.mp hallocate
      obtain ⟨rfl, ht⟩ := hlast other h
      exact .inr ⟨rfl, .allocated hid, ht⟩
    · obtain ⟨rfl, ht⟩ := hlast first h
      exact .inr ⟨rfl, .resolved hfirst, ht⟩

/-- Where the number of a primary group comes from that is given with that of the user. -/
inductive Primary (s : Database) (primary : Str) (gid : Nat) : Prop
  | allocated (hdash : primary = "-".toList) (hid : s.allocateId = .ok gid)
  | given (hid : parseUnsigned 32 primary = some gid)
  | found {found : Nat × List Str} (hdash : primary ≠ "-".toList)
      (hnumber : parseUnsigned 32 primary = none) (hfound : s.group.find primary = some found)
      (hid : numericField found.2 2 "group" primary = .ok gid)

/-- Where the numbers of a user come from. -/
inductive Chosen (s : Database) (name requested : Str) : Nat → Nat → Database → Prop
  | split {uidRequest primary : Str} {uid gid : Nat}
      (hsplit : splitOnce ':' requested = some (uidRequest, primary)) (hgid : Primary s primary gid)
      (huid : Taken sys s uidRequest true uid) : Chosen s name requested uid gid s
  | joined {found : Nat × List Str} {uid gid : Nat} (hsplit : splitOnce ':' requested = none)
      (hfound : s.group.find name = some found)
      (hid : numericField found.2 2 "group" name = .ok gid)
      (huid : Taken sys s requested true uid) : Chosen s name requested uid gid s
  | made {id : Nat} (hsplit : splitOnce ':' requested = none) (hnone : s.group.find name = none)
      (huid : Taken sys s requested true id) : Chosen s name requested id id (withGroup s name id)

theorem chooseIds_cases {uid gid : Nat} (h : chooseIds sys name requested s = .ok (uid, gid) t) :
    Chosen sys s name requested uid gid t := by
  have htake : ∀ {p : Prop} [Decidable p] {request : Str} {first group : Nat},
      resolveId sys request true s = .ok first s → (do
        if p then pure (← allocateId, group) else pure (first, group) : Op (Nat × Nat)) s =
          .ok (uid, gid) t → Taken sys s request true uid ∧ group = gid ∧ s = t := by
    intro p _ request first group hfirst h
    split at h
    · obtain ⟨other, u, hallocate, h⟩ := bind_ok.mp h
      obtain ⟨hid, rfl⟩ := allocateId_ok.mp hallocate
      cases h
      exact ⟨.allocated hid, rfl, rfl⟩
    · cases h
      exact ⟨.resolved hfirst, rfl, rfl⟩
  rw [chooseIds] at h
  cases hsplit : splitOnce ':' requested with
  | some parts =>
    obtain ⟨uidRequest, primary⟩ := parts
    rw [hsplit] at h
    dsimp only at h
    have hrest : ∀ {group : Nat}, (do
        let uid ← resolveId sys uidRequest true
        if (← get).uidInUse uid then pure (← allocateId, group) else pure (uid, group)) s =
          .ok (uid, gid) t → Taken sys s uidRequest true uid ∧ group = gid ∧ s = t := by
      intro group h
      obtain ⟨first, u, hfirst, h⟩ := bind_ok.mp h
      obtain rfl := of_reads (resolveId_reads sys uidRequest true) hfirst
      obtain ⟨u, v, hget, h⟩ := bind_ok.mp h
      obtain ⟨rfl, rfl⟩ := get_ok.mp hget
      exact htake hfirst h
    split at h
    next hdash =>
      obtain ⟨group, u, hallocate, h⟩ := bind_ok.mp h
      obtain ⟨hid, rfl⟩ := allocateId_ok.mp hallocate
      obtain ⟨huid, rfl, rfl⟩ := hrest h
      exact .split hsplit (.allocated hdash hid) huid
    next hdash =>
      cases hnumber : parseUnsigned 32 primary with
      | some value =>
        rw [hnumber] at h
        obtain ⟨_, u, hvalid, h⟩ := bind_ok.mp h
        obtain ⟨-, rfl⟩ := orFail_ok.mp hvalid
        obtain ⟨group, u, hpure, h⟩ := bind_ok.mp h
        obtain ⟨rfl, rfl⟩ := pure_ok.mp hpure
        obtain ⟨huid, rfl, rfl⟩ := hrest h
        exact .split hsplit (.given hnumber) huid
      | none =>
        rw [hnumber] at h
        obtain ⟨u, v, hget, h⟩ := bind_ok.mp h
        obtain ⟨rfl, rfl⟩ := get_ok.mp hget
        cases hfound : s.group.find primary with
        | some found =>
          rw [hfound] at h
          obtain ⟨group, u, hread, h⟩ := bind_ok.mp h
          obtain ⟨hid, rfl⟩ := orFail_ok.mp hread
          obtain ⟨huid, rfl, rfl⟩ := hrest h
          exact .split hsplit (.found hdash hnumber hfound hid) huid
        | none =>
          rw [hfound] at h
          obtain ⟨group, u, hthrow, h⟩ := bind_ok.mp h
          cases hthrow
  | none =>
    rw [hsplit] at h
    dsimp only at h
    obtain ⟨u, v, hget, h⟩ := bind_ok.mp h
    obtain ⟨rfl, rfl⟩ := get_ok.mp hget
    cases hfound : s.group.find name with
    | some found =>
      rw [hfound] at h
      obtain ⟨group, u, hread, h⟩ := bind_ok.mp h
      obtain ⟨hid, rfl⟩ := orFail_ok.mp hread
      obtain ⟨first, u, hfirst, h⟩ := bind_ok.mp h
      obtain rfl := of_reads (resolveId_reads sys requested true) hfirst
      obtain ⟨u, v, hget, h⟩ := bind_ok.mp h
      obtain ⟨rfl, rfl⟩ := get_ok.mp hget
      obtain ⟨huid, rfl, rfl⟩ := htake hfirst h
      exact .joined hsplit hfound hid huid
    | none =>
      rw [hfound] at h
      obtain ⟨first, u, hfirst, h⟩ := bind_ok.mp h
      obtain rfl := of_reads (resolveId_reads sys requested true) hfirst
      obtain ⟨u, v, hget, h⟩ := bind_ok.mp h
      obtain ⟨rfl, rfl⟩ := get_ok.mp hget
      have hlast : ∀ id, Taken sys s requested true id →
          (do createGroup name id; pure (id, id) : Op (Nat × Nat)) s = .ok (uid, gid) t →
          Chosen sys s name requested uid gid t := by
        intro id huid hid
        obtain ⟨_, u, hcreate, hpure⟩ := bind_ok.mp hid
        rw [createGroup_ok hfound] at hcreate
        cases hcreate
        cases hpure
        exact .made hsplit hfound huid
      split at h
      · obtain ⟨other, u, hallocate, h⟩ := bind_ok.mp h
        obtain ⟨hid, rfl⟩ := allocateId_ok.mp hallocate
        exact hlast other (.allocated hid) h
      · exact hlast first (.resolved hfirst) h

theorem ensureUser_cases {user : UserFields} (h : ensureUser sys user s = .ok id t) :
    (∃ found, s.passwd.find user.name = some found ∧
      numericField found.2 2 "user" user.name = .ok id ∧ t = s) ∨
    s.passwd.find user.name = none ∧ ∃ gid mid, Chosen sys s user.name user.requested id gid mid ∧
      t = withUser mid (user.account id gid) := by
  obtain ⟨u, v, hget, h⟩ := bind_ok.mp h
  obtain ⟨rfl, rfl⟩ := get_ok.mp hget
  cases hfind : s.passwd.find user.name with
  | some found =>
    rw [hfind] at h
    obtain ⟨hid, rfl⟩ := orFail_ok.mp h
    exact .inl ⟨found, rfl, hid, rfl⟩
  | none =>
    rw [hfind] at h
    obtain ⟨⟨uid, gid⟩, mid, hchoose, h⟩ := bind_ok.mp h
    have hchosen := chooseIds_cases sys hchoose
    have hmid : mid.passwd.find user.name = none := by cases hchosen <;> exact hfind
    obtain ⟨_, u, hcreate, h⟩ := bind_ok.mp h
    rw [createUser_ok hmid] at hcreate
    cases hcreate
    obtain ⟨rfl, rfl⟩ := pure_ok.mp h
    exact .inr ⟨rfl, gid, mid, hchosen, rfl⟩

/-- What a directive has done that has been applied. -/
inductive Applied (s : Database) : Directive → Database → Prop
  | range {fields : List Str} {range : Nat × Nat} (hfields : expectFields fields 2 "r" = .ok ())
      (hdash : fields.getD 0 [] = "-".toList)
      (hrange : parseRange sys.debug (fields.getD 1 []) = .ok range) :
      Applied s ⟨.range, fields⟩ { s with ranges := [range] }
  | group {fields : List Str} {id : Nat} {t : Database}
      (hfields : expectGroupFields fields = .ok ())
      (hname : validateName sys.debug (fields.getD 0 []) = .ok ())
      (hgroup : ensureGroup sys (fields.getD 0 []) (fields.getD 1 "-".toList) s = .ok id t) :
      Applied s ⟨.group, fields⟩ t
  | user {locked : Bool} {name requested : Str} {rest : List Str} {id : Nat} {t : Database}
      (hlength : rest.length ≤ 3) (hname : validateName sys.debug name = .ok ())
      (huser : ensureUser sys ⟨name, requested, rest[0]?, rest[1]?, rest[2]?, locked⟩ s = .ok id t) :
      Applied s ⟨.user locked, name :: requested :: rest⟩ t
  | member {user group : Str} {uid gid : Nat} {t u : Database}
      (hname : validateName sys.debug user = .ok ())
      (hgroup : validateName sys.debug group = .ok ())
      (huser : ensureUser sys ⟨user, "-".toList, none, none, none, false⟩ s = .ok uid t)
      (hensure : ensureGroup sys group "-".toList t = .ok gid u) :
      Applied s ⟨.member, [user, group]⟩ { u with
        group := addMemberTo u.group user group
        gshadow := addMemberTo u.gshadow user group }

theorem apply_cases {directive : Directive} (h : apply sys directive s = .ok () t) :
    Applied sys s directive t := by
  obtain ⟨kind, fields⟩ := directive
  cases kind with
  | range =>
    obtain ⟨_, u, hrun, h⟩ := bind_ok.mp h
    obtain ⟨hfields, rfl⟩ := orFail_ok.mp hrun
    dsimp only at h
    split at h
    next => cases h
    next hdash =>
      obtain ⟨range, u, hrun, h⟩ := bind_ok.mp h
      obtain ⟨hrange, rfl⟩ := orFail_ok.mp hrun
      cases h
      exact .range hfields (not_not.mp hdash) hrange
  | group =>
    obtain ⟨_, u, hrun, h⟩ := bind_ok.mp h
    obtain ⟨hfields, rfl⟩ := orFail_ok.mp hrun
    obtain ⟨_, u, hrun, h⟩ := bind_ok.mp h
    obtain ⟨hname, rfl⟩ := orFail_ok.mp hrun
    obtain ⟨id, u, hgroup, h⟩ := bind_ok.mp h
    cases h
    exact .group hfields hname hgroup
  | user locked =>
    rw [apply] at h
    dsimp only at h
    split at h
    next => cases h
    next hlength =>
      obtain ⟨hlow, hhigh⟩ := not_or.mp hlength
      obtain _ | ⟨name, _ | ⟨requested, rest⟩⟩ := fields
      · simp at hlow
      · simp at hlow
      obtain ⟨_, u, hrun, h⟩ := bind_ok.mp h
      obtain ⟨hname, rfl⟩ := orFail_ok.mp hrun
      obtain ⟨id, u, huser, h⟩ := bind_ok.mp h
      cases h
      simp only [List.length_cons, not_lt] at hhigh
      exact .user (by omega) hname huser
  | member =>
    obtain ⟨_, u, hrun, h⟩ := bind_ok.mp h
    obtain ⟨hfields, rfl⟩ := orFail_ok.mp hrun
    obtain ⟨user, group, rfl⟩ := List.length_eq_two.mp (expectFields_ok hfields)
    obtain ⟨_, u, hrun, h⟩ := bind_ok.mp h
    obtain ⟨hname, rfl⟩ := orFail_ok.mp hrun
    obtain ⟨_, u, hrun, h⟩ := bind_ok.mp h
    obtain ⟨hgroup, rfl⟩ := orFail_ok.mp hrun
    obtain ⟨uid, u, huser, h⟩ := bind_ok.mp h
    obtain ⟨gid, v, hensure, h⟩ := bind_ok.mp h
    cases h
    exact .member hname hgroup huser hensure

end

end FractalD.Sysusers.Steps
