import FractalD.Sysusers.Allocation

namespace FractalD.Sysusers.Idempotence

open FractalD.Config.Words FractalD.Machine.CString FractalD.Machine.Delimited
open FractalD.Machine.Effect FractalD.Machine.Logs FractalD.Machine.OrderedMap
open FractalD.Machine.Text FractalD.Machine.Wire
open FractalD.Sysusers.Accounts FractalD.Sysusers.Allocation FractalD.Sysusers.Directives
open FractalD.Sysusers.Integrity FractalD.Sysusers.Steps

/-- A line says of an account what another one says. -/
structure Confirms (line line' : Str) : Prop where
  id : ∀ n, lineId line = some n → lineId line' = some n
  members : ∀ user ≠ [], ValidName user → user ∈ members line → user ∈ members line'

/-- A database has the records of another one. -/
def Extends (a b : TextDatabase) : Prop :=
  ∀ name line, entry a name = some line → ∃ line', entry b name = some line' ∧ Confirms line line'

/-- All that some databases say of users and groups is said by others. No group gets a password. -/
structure Grows (s t : Database) : Prop where
  passwd : Extends s.passwd t.passwd
  group : Extends s.group t.group
  gshadow : Extends s.gshadow t.gshadow
  fresh : ∀ name, (entry s.group name).isSome → entry s.gshadow name = none →
    entry t.gshadow name = none

/-- An account has a number. -/
def Known (db : TextDatabase) (name : Str) : Prop :=
  ∃ line, entry db name = some line ∧ (lineId line).isSome

def Joined (db : TextDatabase) (user group : Str) : Prop :=
  ∀ line, entry db group = some line → user ∈ members line

section

variable {line line' line'' name : Str} {a b c : TextDatabase} {s t u : Database}

theorem confirms_refl (line : Str) : Confirms line line := ⟨fun _ h => h, fun _ _ _ h => h⟩

theorem confirms_trans (h : Confirms line line') (h' : Confirms line' line'') :
    Confirms line line'' :=
  ⟨fun n hn => h'.id n (h.id n hn), fun user hne hv hu =>
    h'.members user hne hv (h.members user hne hv hu)⟩

theorem extends_refl (a : TextDatabase) : Extends a a :=
  fun _ line h => ⟨line, h, confirms_refl line⟩

theorem extends_trans (h : Extends a b) (h' : Extends b c) : Extends a c := by
  intro name line hline
  obtain ⟨line', hline', hconfirms⟩ := h name line hline
  obtain ⟨line'', hline'', hconfirms'⟩ := h' name line' hline'
  exact ⟨line'', hline'', confirms_trans hconfirms hconfirms'⟩

theorem isSome_of_extends (h : Extends a b) (ha : (entry a name).isSome) :
    (entry b name).isSome := by
  obtain ⟨line, hline⟩ := Option.isSome_iff_exists.mp ha
  obtain ⟨line', hline', -⟩ := h name line hline
  exact Option.isSome_iff_exists.mpr ⟨line', hline'⟩

theorem known_extends (h : Known a name) (hab : Extends a b) : Known b name := by
  obtain ⟨line, hline, hid⟩ := h
  obtain ⟨n, hn⟩ := Option.isSome_iff_exists.mp hid
  obtain ⟨line', hline', hconfirms⟩ := hab name line hline
  exact ⟨line', hline', Option.isSome_iff_exists.mpr ⟨n, hconfirms.id n hn⟩⟩

theorem grows_refl (s : Database) : Grows s s :=
  ⟨extends_refl _, extends_refl _, extends_refl _, fun _ _ h => h⟩

theorem grows_trans (h : Grows s t) (h' : Grows t u) : Grows s u where
  passwd := extends_trans h.passwd h'.passwd
  group := extends_trans h.group h'.group
  gshadow := extends_trans h.gshadow h'.gshadow
  fresh name hgroup hnone :=
    h'.fresh name (isSome_of_extends h.group hgroup) (h.fresh name hgroup hnone)

end

section

theorem named_unreturned (name line : Str) : Named name (unreturned line) ↔ Named name line := by
  obtain hline | hline := unreturned_cases line
  · rw [hline]
  · obtain ⟨before, last, hbefore, hend⟩ :=
      splitOn_concat (c := ':') (x := '\r') (by decide) (unreturned line)
    rw [← hline] at hend
    rw [Named, Named, hbefore, hend]
    cases before with
    | nil => simp
    | cons first before => simp

theorem confirms_unreturned (line : Str) : Confirms line (unreturned line) := by
  refine ⟨fun n hn => ?_, fun user _ hvalid huser => ?_⟩
  · rw [lineId] at hn ⊢
    obtain ⟨field, hfield, hnumber⟩ := Option.bind_eq_some_iff.mp hn
    have hfree : '\r' ∉ field := fun hmem => absurd (parseUnsigned_chars hnumber _ hmem) (by decide)
    rw [splitOn_unreturned (by decide) hfield hfree]
    exact hnumber
  · have hfree : '\r' ∉ user := fun hmem => absurd (hvalid _ hmem) (by decide)
    obtain hline | hline := unreturned_cases line
    · rwa [hline]
    · obtain ⟨before, last, hbefore, hend⟩ :=
        splitOn_concat (c := ':') (x := '\r') (by decide) (unreturned line)
      rw [← hline] at hend
      rw [members, hend, List.getD_eq_getElem?_getD] at huser
      rw [members, hbefore, List.getD_eq_getElem?_getD]
      obtain hlt | heq | hgt := Nat.lt_trichotomy 3 before.length
      · rwa [List.getElem?_append_left hlt] at huser ⊢
      · rw [heq, List.getElem?_concat_length, Option.getD_some] at huser ⊢
        obtain ⟨before', last', hlast, hlast'⟩ :=
          splitOn_concat (c := ',') (x := '\r') (by decide) last
        rw [hlast', List.mem_append, List.mem_singleton] at huser
        rw [hlast]
        obtain huser | rfl := huser
        · exact List.mem_append_left _ huser
        · exact absurd (List.mem_append_right last' List.mem_cons_self) hfree
      · rw [List.getElem?_eq_none (by simp; omega)] at huser ⊢
        exact huser

def Unbroken (db : TextDatabase) : Prop := ∀ line ∈ db.lines, '\n' ∉ line

theorem entry_content {db : TextDatabase} (h : Unbroken db) (name : Str) :
    entry (.load (some db.content)) name = (entry db name).map unreturned := by
  have hmap : ∀ lines : List Str, (lines.map unreturned).find? (fun line => Named name line) =
      (lines.find? fun line => Named name line).map unreturned := by
    intro lines
    rw [List.find?_map]
    congr 2
    funext line
    exact decide_eq_decide.mpr (named_unreturned name line)
  rw [entry, entry, ← hmap]
  change (textLines db.content).find? _ = _
  by_cases hempty : join ['\n'] db.lines = []
  · have hlines : db.lines = [] ∨ db.lines = [[]] := by
      cases hlines : db.lines with
      | nil => exact .inl rfl
      | cons line lines =>
        rw [hlines] at hempty
        by_cases hnil : lines = []
        · rw [hnil, join_singleton] at hempty
          exact .inr (by rw [hnil, hempty])
        · rw [join_cons hnil] at hempty
          exact absurd hempty (by simp)
    rw [TextDatabase.content, if_pos hempty]
    have hnone : ¬ Named name (unreturned []) := fun hnamed =>
      absurd hnamed.2 (by decide)
    obtain hlines | hlines := hlines
    · rw [hempty, hlines]
      rfl
    · rw [hempty, hlines, List.map_singleton, List.find?_cons_of_neg (by simpa using hnone)]
      rfl
  · have hne : db.lines ≠ [] := fun hnil => hempty (by rw [hnil]; rfl)
    rw [TextDatabase.content, if_neg hempty, join_newline hne, textLines_unreturned h]

end

section

variable {db : TextDatabase} {fields : List Str} {name user group : Str} {file : Option Str}

theorem entry_append (db : TextDatabase) (fields : List Str) (name : Str) :
    entry (db.append fields) name =
      (entry db name).or
        (if Named name (join [':'] fields) then some (join [':'] fields) else none) := by
  rw [entry, TextDatabase.append, List.find?_append, List.find?_singleton, entry]
  simp only [decide_eq_true_eq]

theorem extends_append (db : TextDatabase) (fields : List Str) : Extends db (db.append fields) := by
  intro name line hline
  exact ⟨line, by rw [entry_append, hline, Option.some_or], confirms_refl line⟩

theorem confirms_withMember {line line' : Str} (h : ValidName user) (hnamed : Named name line)
    (hline' : line'.splitOn ':' = withMember user (line.splitOn ':')) : Confirms line line' := by
  refine ⟨fun n hn => ?_, fun other hne _ hother => ?_⟩
  · rw [lineId_withMember hnamed hline']
    exact hn
  · rw [members_withMember h hline']
    exact List.mem_append_left _ (mem_keys.mpr ((contains_memberSet hne).mpr hother))

theorem addMemberTo_grows (h : ValidName user) (hne : user ≠ []) (db : TextDatabase) (group : Str) :
    Extends db (addMemberTo db user group) ∧ Joined (addMemberTo db user group) user group ∧
      ∀ name, entry db name = none → entry (addMemberTo db user group) name = none := by
  obtain ⟨hsame, hjoined⟩ | ⟨before, after, line, line', hlines, hdb, hnamed, hbefore, hline'⟩ :=
    @addMemberTo_cases db _ group h hne
  · rw [hsame]
    exact ⟨extends_refl db, hjoined, fun _ hnone => hnone⟩
  have hnamed' := named_withMember hnamed hline'
  have hself : entry (addMemberTo db user group) group = some line' := by
    rw [hdb]
    exact Steps.entry_append before after hbefore hnamed' rfl
  have hother : ∀ name ≠ group, entry (addMemberTo db user group) name = entry db name := by
    intro name hname
    have hnot : ∀ line : Str, Named group line → ¬ Named name line := fun line hgroup hline =>
      hname (Option.some_inj.mp (hline.1.symm.trans hgroup.1))
    rw [hdb, entry, entry, hlines, List.find?_append, List.find?_append,
      List.find?_cons_of_neg (by simpa using hnot line' hnamed'),
      List.find?_cons_of_neg (by simpa using hnot line hnamed)]
  refine ⟨fun name old hold => ?_, fun old hold => ?_, fun name hnone => ?_⟩
  · by_cases hname : name = group
    · subst hname
      rw [Steps.entry_append before after hbefore hnamed hlines] at hold
      cases hold
      exact ⟨line', hself, confirms_withMember h hnamed hline'⟩
    · exact ⟨old, (hother name hname).trans hold, confirms_refl old⟩
  · rw [hself] at hold
    cases hold
    rw [members_withMember h hline']
    exact List.mem_append_right _ (List.mem_singleton_self user)
  · have hname : name ≠ group := by
      rintro rfl
      rw [Steps.entry_append before after hbefore hnamed hlines] at hnone
      cases hnone
    exact (hother name hname).trans hnone

/-- What is in memory can be told from the file that it is written to. -/
structure Readable (file : Option Str) (db : TextDatabase) : Prop where
  unbroken : Unbroken db
  kept : db.changed = false → db.lines = textLines (file.getD [])

theorem readable_load (file : Option Str) : Readable file (.load file) :=
  ⟨fun _ hline => newline_not_mem hline, fun _ => rfl⟩

theorem readable_append (h : Readable file db) (hfields : ∀ field ∈ fields, '\n' ∉ field) :
    Readable file (db.append fields) := by
  refine ⟨List.forall_mem_append.mpr ⟨h.unbroken, List.forall_mem_singleton.mpr fun hmem => ?_⟩,
    nofun⟩
  obtain ⟨field, hfield, hmem⟩ := (mem_join (by decide)).mp hmem
  exact hfields field hfield hmem

theorem newline_withMember {line line' : Str} (hvalid : ValidName user) (h : '\n' ∉ line)
    (hline' : line'.splitOn ':' = withMember user (line.splitOn ':')) : '\n' ∉ line' := by
  have hfields : ∀ field ∈ line.splitOn ':', '\n' ∉ field := fun field hfield hmem =>
    h (mem_of_mem_splitOn hfield hmem)
  have hjoin : join [':'] (line'.splitOn ':') = line' := List.intercalate_splitOn ':'
  rw [← hjoin, hline']
  intro hmem
  obtain ⟨field, hfield, hmem⟩ := (mem_join (by decide)).mp hmem
  obtain hfield | rfl := List.mem_or_eq_of_mem_set hfield
  · obtain hfield | hfield := List.mem_append.mp hfield
    · exact hfields field hfield hmem
    · rw [List.eq_of_mem_replicate hfield] at hmem
      cases hmem
  · obtain ⟨member, hmember, hmem⟩ := (mem_join (by decide)).mp hmem
    obtain hmember | hmember := List.mem_append.mp hmember
    · rw [memberSet, mem_ofList, List.mem_filter] at hmember
      have hmem := mem_of_mem_splitOn hmember.1 hmem
      rw [List.getD_eq_getElem?_getD] at hmem
      cases hfield : (line.splitOn ':')[3]? with
      | none =>
        rw [hfield] at hmem
        cases hmem
      | some field =>
        rw [hfield] at hmem
        exact hfields field (List.mem_of_getElem? hfield) hmem
    · rw [List.mem_singleton.mp hmember] at hmem
      exact (validName_plain hvalid).1.2 hmem

theorem readable_addMemberTo (h : Readable file db) (hvalid : ValidName user) (hne : user ≠ []) :
    Readable file (addMemberTo db user group) := by
  obtain ⟨hsame, -⟩ | ⟨before, after, line, line', hlines, hdb, hnamed, -, hline'⟩ :=
    @addMemberTo_cases db _ group hvalid hne
  · rwa [hsame]
  · rw [hdb]
    refine ⟨?_, nofun⟩
    have hold := h.unbroken
    rw [Unbroken, hlines] at hold
    obtain ⟨hbefore, hline, hafter⟩ := List.forall_mem_append.mp hold |>.imp id List.forall_mem_cons.mp
    refine List.forall_mem_append.mpr ⟨hbefore, List.forall_mem_cons.mpr
      ⟨newline_withMember hvalid hline hline', hafter⟩⟩

/-- What is read after a database has been written has the records of it. -/
theorem entry_reload (h : Readable file db) (name : Str) :
    entry (.load (db.writeIfChanged <|> file)) name = entry db name ∨
      entry (.load (db.writeIfChanged <|> file)) name = (entry db name).map unreturned := by
  rw [TextDatabase.writeIfChanged]
  cases hchanged : db.changed with
  | true => exact .inr (entry_content h.unbroken name)
  | false =>
    left
    rw [entry, entry, h.kept hchanged]
    rfl

end

/-- A system where a file belongs to accounts whose numbers fit in 32 bits. -/
def ofOwners (debug : Str → Str) (owner : Str → Except Str (UInt32 × UInt32)) : System where
  debug := debug
  metadata path := (owner path).map fun ids => (ids.1.toNat, ids.2.toNat)

/-- The databases can be told from the files that they are written to. -/
structure Recorded (etc : Etc) (s : Database) : Prop where
  passwd : Readable etc.passwd s.passwd
  group : Readable etc.group s.group
  gshadow : Readable etc.gshadow s.gshadow
  ranged : Ranged s

/-- There is nothing left to do for a directive. -/
inductive Settled (sys : System) (s : Database) : Directive → Prop
  | range {fields : List Str} {range : Nat × Nat} (hfields : expectFields fields 2 "r" = .ok ())
      (hdash : fields.getD 0 [] = "-".toList)
      (hrange : parseRange sys.debug (fields.getD 1 []) = .ok range) : Settled sys s ⟨.range, fields⟩
  | group {fields : List Str} (hfields : expectGroupFields fields = .ok ())
      (hname : validateName sys.debug (fields.getD 0 []) = .ok ())
      (hgroup : Known s.group (fields.getD 0 [])) : Settled sys s ⟨.group, fields⟩
  | user {locked : Bool} {name requested : Str} {rest : List Str} (hlength : rest.length ≤ 3)
      (hname : validateName sys.debug name = .ok ()) (huser : Known s.passwd name) :
      Settled sys s ⟨.user locked, name :: requested :: rest⟩
  | member {user group : Str} (hname : validateName sys.debug user = .ok ())
      (hgroup : validateName sys.debug group = .ok ()) (huser : Known s.passwd user)
      (hknown : Known s.group group) (hjoined : Joined s.group user group)
      (hshadow : Joined s.gshadow user group) : Settled sys s ⟨.member, [user, group]⟩

section

variable {debug : Str → Str} {owner : Str → Except Str (UInt32 × UInt32)} {etc : Etc}
variable {s t : Database} {name requested : Str} {id : Nat}

theorem allocateId_lt (hs : Ranged s) (h : s.allocateId = .ok id) : id < 2 ^ 32 := by
  obtain ⟨⟨low, high⟩, hrange, hlast⟩ := hs
  exact ((allocateId_ok_iff hrange).mp h).2.1.trans_lt hlast

theorem taken_lt {user : Bool} (hs : Ranged s)
    (h : Taken (ofOwners debug owner) s requested user id) : id < 2 ^ 32 := by
  cases h with
  | allocated hid => exact allocateId_lt hs hid
  | resolved hid =>
    rw [resolveId] at hid
    split at hid
    · exact allocateId_lt hs (allocateId_ok.mp hid).1
    · cases hnumber : parseUnsigned 32 requested with
      | some value =>
        rw [hnumber] at hid
        obtain ⟨_, u, -, hid⟩ := bind_ok.mp hid
        cases hid
        exact parseUnsigned_lt hnumber
      | none =>
        rw [hnumber] at hid
        dsimp only at hid
        split at hid
        · obtain ⟨ids, u, howner, hid⟩ := bind_ok.mp hid
          obtain ⟨howner, -⟩ := orFail_ok.mp howner
          rw [ofOwners] at howner
          dsimp only at howner
          cases howner' : owner requested with
          | error e =>
            rw [howner'] at howner
            cases howner
          | ok numbers =>
            rw [howner'] at howner
            cases howner
            cases hid
            split
            · exact numbers.1.toNat_lt
            · exact numbers.2.toNat_lt
        · cases hid

theorem known_append {db : TextDatabase} {rest : List Str} (hname : ValidName name)
    (hid : id < 2 ^ 32) (hne : rest ≠ []) (hnone : db.find name = none) :
    Known (db.append (name :: "x".toList :: printUnsigned id :: rest)) name := by
  have hnamed := @named_created _ _ (printUnsigned id) rest hname
    (by decide : ':' ∉ "x".toList)
  refine ⟨join [':'] (name :: "x".toList :: printUnsigned id :: rest), ?_, ?_⟩
  · rw [entry_append, entry_eq_none.mpr hnone, Option.none_or, if_pos hnamed]
  · rw [lineId_created hname (by decide) hne, parseUnsigned_print.mpr ⟨rfl, hid⟩]
    rfl

theorem withGroup_settles (hs : Recorded etc s) (hname : ValidName name) (hid : id < 2 ^ 32)
    (hnone : s.group.find name = none) : Recorded etc (withGroup s name id) ∧
      Grows s (withGroup s name id) ∧ Known (withGroup s name id).group name := by
  have hfree : ∀ field ∈ [name, "x".toList, printUnsigned id, []], '\n' ∉ field := by
    simp [(validName_plain hname).1.2, (validName_plain (printUnsigned_valid id)).1.2]
  have hfree' : ∀ field ∈ [name, "!*".toList, [], []], '\n' ∉ field := by
    simp [(validName_plain hname).1.2]
  have hshadow := @named_created _ _ [] [[]] hname (by decide : ':' ∉ "!*".toList)
  refine ⟨⟨hs.passwd, readable_append hs.group hfree, ?_, hs.ranged⟩,
    ⟨extends_refl _, extends_append _ _, ?_, fun other hother hnone' => ?_⟩, ?_⟩
  · change Readable etc.gshadow (if s.gshadow.found then _ else _)
    split
    · exact readable_append hs.gshadow hfree'
    · exact hs.gshadow
  · change Extends s.gshadow (if s.gshadow.found then _ else _)
    split
    · exact extends_append _ _
    · exact extends_refl _
  · change entry (if s.gshadow.found then _ else _) other = none
    split
    · rw [entry_append, hnone', Option.none_or, if_neg]
      intro hnamed
      obtain rfl : other = name := Option.some_inj.mp (hnamed.1.symm.trans hshadow.1)
      rw [entry_eq_none.mpr hnone] at hother
      cases hother
    · exact hnone'
  · exact known_append hname hid (by simp) hnone

theorem ensureGroup_settles (hs : Recorded etc s) (hname : ValidName name)
    (h : ensureGroup (ofOwners debug owner) name requested s = .ok id t) :
    Recorded etc t ∧ Grows s t ∧ Known t.group name := by
  obtain ⟨found, hfound, hid, rfl⟩ | ⟨hnone, hid, rfl⟩ := ensureGroup_cases _ h
  · obtain ⟨i, fields⟩ := found
    obtain ⟨line, hline, rfl⟩ := entry_of_find hfound
    exact ⟨hs, grows_refl _, line, hline,
      Option.isSome_iff_exists.mpr ⟨id, numericField_ok.mp hid⟩⟩
  · exact withGroup_settles hs hname (taken_lt hs.ranged hid) hnone

theorem withUser_settles {account : Account} (hs : Recorded etc s) (hname : ValidName account.name)
    (hid : account.uid < 2 ^ 32) (hnone : s.passwd.find account.name = none)
    (hfree : ∀ field ∈ [account.gecos, account.home, account.shell], '\n' ∉ field) :
    Recorded etc (withUser s account) ∧ Grows s (withUser s account) ∧
      Known (withUser s account).passwd account.name := by
  have hfields : ∀ field ∈ [account.name, "x".toList, printUnsigned account.uid,
      printUnsigned account.gid, account.gecos, account.home, account.shell], '\n' ∉ field := by
    simp only [List.forall_mem_cons] at hfree ⊢
    exact ⟨(validName_plain hname).1.2, by decide, (validName_plain (printUnsigned_valid _)).1.2,
      (validName_plain (printUnsigned_valid _)).1.2, hfree⟩
  exact ⟨⟨readable_append hs.passwd hfields, hs.group, hs.gshadow, hs.ranged⟩,
    ⟨extends_append _ _, extends_refl _, extends_refl _, fun _ _ h => h⟩,
    known_append hname hid (by simp) hnone⟩

theorem ensureUser_settles {user : UserFields} (hs : Recorded etc s) (hname : ValidName user.name)
    (hfree : ∀ field, user.gecos = some field ∨ user.home = some field ∨ user.shell = some field →
      '\n' ∉ field)
    (h : ensureUser (ofOwners debug owner) user s = .ok id t) :
    Recorded etc t ∧ Grows s t ∧ Known t.passwd user.name := by
  obtain ⟨found, hfound, hid, rfl⟩ | ⟨hnone, gid, mid, hchosen, rfl⟩ := ensureUser_cases _ h
  · obtain ⟨i, fields⟩ := found
    obtain ⟨line, hline, rfl⟩ := entry_of_find hfound
    exact ⟨hs, grows_refl _, line, hline,
      Option.isSome_iff_exists.mpr ⟨id, numericField_ok.mp hid⟩⟩
  have hmid : Recorded etc mid ∧ Grows s mid ∧ id < 2 ^ 32 ∧
      mid.passwd.find user.name = none := by
    cases hchosen with
    | split _ _ huid => exact ⟨hs, grows_refl _, taken_lt hs.ranged huid, hnone⟩
    | joined _ _ _ huid => exact ⟨hs, grows_refl _, taken_lt hs.ranged huid, hnone⟩
    | made _ hgroup huid =>
      have hid := taken_lt hs.ranged huid
      obtain ⟨hrecorded, hgrows, -⟩ := withGroup_settles hs hname hid hgroup
      exact ⟨hrecorded, hgrows, hid, hnone⟩
  obtain ⟨hrecorded, hgrows, hid, hnone⟩ := hmid
  have hgecos : '\n' ∉ (user.account id gid).gecos :=
    (optionalField_iff (p := ('\n' ∉ ·)) (by decide) (by decide)).mpr fun field hfield =>
      hfree field (.inl hfield)
  have hhome : '\n' ∉ (user.account id gid).home :=
    (optionalField_iff (p := ('\n' ∉ ·)) (by decide) (by decide)).mpr fun field hfield =>
      hfree field (.inr (.inl hfield))
  have hshell : '\n' ∉ (user.account id gid).shell :=
    (optionalField_iff (p := ('\n' ∉ ·)) (by split <;> decide) (by decide)).mpr fun field hfield =>
      hfree field (.inr (.inr hfield))
  obtain ⟨hrecorded', hgrows', hknown⟩ := @withUser_settles _ _ (user.account id gid)
    hrecorded hname hid hnone (by simp [hgecos, hhome, hshell])
  exact ⟨hrecorded', grows_trans hgrows hgrows', hknown⟩

theorem validateName_ne {name : Str} (h : validateName debug name = .ok ()) : name ≠ [] := by
  rintro rfl
  cases h

theorem applied_settles {d : Directive} (hs : Recorded etc s) (hfree : ∀ field ∈ d.fields, '\n' ∉ field)
    (h : Applied (ofOwners debug owner) s d t) :
    Recorded etc t ∧ Grows s t ∧ Settled (ofOwners debug owner) t d := by
  cases h with
  | range hfields hdash hrange =>
    exact ⟨⟨hs.passwd, hs.group, hs.gshadow, _, rfl, parseRange_lt hrange⟩,
      ⟨extends_refl _, extends_refl _, extends_refl _, fun _ _ h => h⟩,
      .range hfields hdash hrange⟩
  | group hfields hname hgroup =>
    obtain ⟨hrecorded, hgrows, hknown⟩ := ensureGroup_settles hs (validName_ok hname) hgroup
    exact ⟨hrecorded, hgrows, .group hfields hname hknown⟩
  | user hlength hname huser =>
    obtain ⟨hrecorded, hgrows, hknown⟩ := ensureUser_settles hs (validName_ok hname)
      (fun field hfield => hfree field (by
        refine List.mem_cons_of_mem _ (List.mem_cons_of_mem _ ?_)
        obtain hfield | hfield | hfield := hfield
        · exact List.mem_of_getElem? hfield
        · exact List.mem_of_getElem? hfield
        · exact List.mem_of_getElem? hfield)) huser
    exact ⟨hrecorded, hgrows, .user hlength hname hknown⟩
  | @member user group uid gid u t hname hgroup huser hensure =>
    obtain ⟨hrecorded, hgrows, hknown⟩ := ensureUser_settles hs (validName_ok hname) (by simp) huser
    obtain ⟨hrecorded', hgrows', hknown'⟩ :=
      ensureGroup_settles hrecorded (validName_ok hgroup) hensure
    have hvalid := validName_ok hname
    have hne := validateName_ne hname
    obtain ⟨hextends, hjoined, hnone⟩ := addMemberTo_grows hvalid hne t.group group
    obtain ⟨hextends', hjoined', hnone'⟩ := addMemberTo_grows hvalid hne t.gshadow group
    refine ⟨⟨hrecorded'.passwd, readable_addMemberTo hrecorded'.group hvalid hne,
      readable_addMemberTo hrecorded'.gshadow hvalid hne, hrecorded'.ranged⟩,
      grows_trans (grows_trans hgrows hgrows') ⟨extends_refl _, hextends, hextends',
        fun name _ h => hnone' name h⟩,
      .member hname hgroup (known_extends hknown hgrows'.passwd) (known_extends hknown' hextends)
        hjoined hjoined'⟩

theorem joined_extends {a b : TextDatabase} {user group : Str} (hvalid : ValidName user)
    (hne : user ≠ []) (h : Joined a user group) (hab : Extends a b)
    (hnone : entry a group = none → entry b group = none) : Joined b user group := by
  intro line hline
  cases hold : entry a group with
  | none =>
    rw [hnone hold] at hline
    cases hline
  | some old =>
    obtain ⟨line', hline', hconfirms⟩ := hab group old hold
    cases hline.symm.trans hline'
    exact hconfirms.members user hne hvalid (h old hold)

theorem settled_grows {sys : System} {d : Directive} (h : Settled sys s d) (hst : Grows s t) :
    Settled sys t d := by
  cases h with
  | range hfields hdash hrange => exact .range hfields hdash hrange
  | group hfields hname hgroup => exact .group hfields hname (known_extends hgroup hst.group)
  | user hlength hname huser => exact .user hlength hname (known_extends huser hst.passwd)
  | member hname hgroup huser hknown hjoined hshadow =>
    have hvalid := validName_ok hname
    have hne := validateName_ne hname
    have hsome : ∃ line, entry s.group _ = some line := hknown.imp fun _ h => h.1
    exact .member hname hgroup (known_extends huser hst.passwd) (known_extends hknown hst.group)
      (joined_extends hvalid hne hjoined hst.group fun hnone => by
        obtain ⟨line, hline⟩ := hsome
        cases hline.symm.trans hnone)
      (joined_extends hvalid hne hshadow hst.gshadow
        (hst.fresh _ (Option.isSome_iff_exists.mpr hsome)))

end

/-- The files after the databases have been written. -/
def written (etc : Etc) (db : Database) : Etc where
  passwd := db.passwd.writeIfChanged <|> etc.passwd
  group := db.group.writeIfChanged <|> etc.group
  shadow := db.shadow.writeIfChanged <|> etc.shadow
  gshadow := db.gshadow.writeIfChanged <|> etc.gshadow
  loginDefs := etc.loginDefs

section

variable {debug : Str → Str} {owner : Str → Except Str (UInt32 × UInt32)} {etc : Etc}
variable {s t : Database} {ds : List Directive}

theorem extends_reload {db : TextDatabase} {file : Option Str} (h : Readable file db) :
    Extends db (.load (db.writeIfChanged <|> file)) := by
  intro name line hline
  obtain hsame | hmap := entry_reload h name
  · exact ⟨line, hsame.trans hline, confirms_refl line⟩
  · exact ⟨unreturned line, by rw [hmap, hline, Option.map_some], confirms_unreturned line⟩

theorem reload_grows (h : Recorded etc s) : Grows s (.load (written etc s)) where
  passwd := extends_reload h.passwd
  group := extends_reload h.group
  gshadow := extends_reload h.gshadow
  fresh name _ hnone := by
    obtain hsame | hmap := entry_reload h.gshadow name
    · exact hsame.trans hnone
    · exact hmap.trans (by rw [hnone, Option.map_none])

theorem run_settles (hs : Recorded etc s) (hfree : ∀ d ∈ ds, ∀ field ∈ d.fields, '\n' ∉ field)
    (h : ds.forM (apply (ofOwners debug owner)) s = .ok () t) :
    Recorded etc t ∧ Grows s t ∧ ∀ d ∈ ds, Settled (ofOwners debug owner) t d := by
  induction ds generalizing s with
  | nil =>
    cases h
    exact ⟨hs, grows_refl _, nofun⟩
  | cons d ds ih =>
    obtain ⟨hd, hds⟩ := List.forall_mem_cons.mp hfree
    obtain ⟨_, mid, hmid, h⟩ := bind_ok.mp h
    obtain ⟨hrecorded, hgrows, hsettled⟩ := applied_settles hs hd (apply_cases _ hmid)
    obtain ⟨hrecorded', hgrows', hsettled'⟩ := ih hrecorded hds h
    exact ⟨hrecorded', grows_trans hgrows hgrows',
      List.forall_mem_cons.mpr ⟨settled_grows hsettled hgrows', hsettled'⟩⟩

variable {sys : System} {s' : Database × List Answer}

theorem known_found {db : TextDatabase} {name : Str} (h : Known db name) : ∃ found id,
    db.find name = some found ∧ ∀ kind, numericField found.2 2 kind name = .ok id := by
  obtain ⟨line, hline, hid⟩ := h
  obtain ⟨id, hid⟩ := Option.isSome_iff_exists.mp hid
  cases hfound : db.find name with
  | none =>
    rw [entry_eq_none.mpr hfound] at hline
    cases hline
  | some found =>
    obtain ⟨i, fields⟩ := found
    obtain ⟨line', hline', rfl⟩ := entry_of_find hfound
    cases hline.symm.trans hline'
    exact ⟨_, id, rfl, fun kind => numericField_ok.mpr hid⟩

theorem get_of : (get : Traced (Database × List Answer)) s' = .ok s' s' := rfl

theorem ensureGroup_known {name : Str} (h : Known s'.1.group name) (requested : Str) :
    ∃ id, tracedEnsureGroup sys name requested s' = .ok id s' := by
  obtain ⟨found, id, hfound, hid⟩ := known_found h
  refine ⟨id, ?_⟩
  rw [tracedEnsureGroup, bind_of_ok get_of]
  dsimp only
  rw [hfound]
  exact quiet_ok (orFail_ok.mpr ⟨hid "group", rfl⟩)

theorem ensureUser_known {user : UserFields} (h : Known s'.1.passwd user.name) :
    ∃ id, tracedEnsureUser sys user s' = .ok id s' := by
  obtain ⟨found, id, hfound, hid⟩ := known_found h
  refine ⟨id, ?_⟩
  rw [tracedEnsureUser, bind_of_ok get_of]
  dsimp only
  rw [hfound]
  exact quiet_ok (orFail_ok.mpr ⟨hid "user", rfl⟩)

theorem quiet_orFail {r : Except Str Unit} (h : r = .ok ()) :
    (quiet (orFail r) : Traced Unit) s' = .ok () s' := quiet_ok (orFail_ok.mpr ⟨h, rfl⟩)

theorem settled_idle {d : Directive} (h : Settled sys s'.1 d) :
    ∃ ranges, tracedApply sys d s' = .ok () ({ s'.1 with ranges := ranges }, s'.2) := by
  cases h with
  | @range fields range hfields hdash hrange =>
    refine ⟨[range], ?_⟩
    have hrun : apply sys ⟨.range, fields⟩ s'.1 = .ok () { s'.1 with ranges := [range] } := by
      rw [apply]
      dsimp only
      rw [bind_of_ok (orFail_ok.mpr ⟨hfields, rfl⟩), if_neg (not_not_intro hdash)]
      exact bind_of_ok (orFail_ok.mpr ⟨hrange, rfl⟩)
    change quiet (apply sys ⟨.range, fields⟩) s' = _
    rw [quiet, hrun]
  | group hfields hname hgroup =>
    obtain ⟨id, hid⟩ := @ensureGroup_known sys _ _ hgroup _
    exact ⟨s'.1.ranges, (bind_of_ok (quiet_orFail hfields)).trans
      ((bind_of_ok (quiet_orFail hname)).trans (bind_of_ok hid))⟩
  | @user locked name requested rest hlength hname huser =>
    obtain ⟨id, hid⟩ := @ensureUser_known sys _
      ⟨name, requested, rest[0]?, rest[1]?, rest[2]?, locked⟩ huser
    refine ⟨s'.1.ranges, ?_⟩
    rw [tracedApply]
    dsimp only
    rw [if_neg (by simp; omega)]
    exact (bind_of_ok (quiet_orFail hname)).trans (bind_of_ok hid)
  | @member user group hname hgroup huser hknown hjoined hshadow =>
    obtain ⟨uid, huid⟩ := @ensureUser_known sys _
      ⟨user, "-".toList, none, none, none, false⟩ huser
    obtain ⟨gid, hgid⟩ := @ensureGroup_known sys _ _ hknown "-".toList
    have hne := validateName_ne hname
    have hadd : addMember user group s'.1 = .ok () s'.1 := by
      change EStateM.Result.ok () { s'.1 with
        group := addMemberTo s'.1.group user group
        gshadow := addMemberTo s'.1.gshadow user group } = _
      rw [addMemberTo_joined hne hjoined, addMemberTo_joined hne hshadow]
    exact ⟨s'.1.ranges, (bind_of_ok (quiet_orFail rfl)).trans
      ((bind_of_ok (quiet_orFail hname)).trans ((bind_of_ok (quiet_orFail hgroup)).trans
        ((bind_of_ok huid).trans ((bind_of_ok hgid).trans (quiet_ok hadd)))))⟩

theorem settled_ranges {d : Directive} (h : Settled sys s d) (ranges : List (Nat × Nat)) :
    Settled sys { s with ranges := ranges } d :=
  settled_grows h ⟨extends_refl _, extends_refl _, extends_refl _, fun _ _ h => h⟩

theorem run_idle (h : ∀ d ∈ ds, Settled sys s'.1 d) : ∃ ranges,
    ds.forM (tracedApply sys) s' = .ok () ({ s'.1 with ranges := ranges }, s'.2) := by
  induction ds generalizing s' with
  | nil => exact ⟨s'.1.ranges, rfl⟩
  | cons d ds ih =>
    obtain ⟨hd, hds⟩ := List.forall_mem_cons.mp h
    obtain ⟨ranges, hrun⟩ := settled_idle hd
    obtain ⟨ranges', hrun'⟩ := @ih ({ s'.1 with ranges := ranges }, s'.2) fun d hmem =>
      settled_ranges (hds d hmem) ranges
    exact ⟨ranges', (bind_of_ok hrun).trans hrun'⟩

/-- Directives that have been applied change no database when they are applied to the files that
have been written, and they allocate nothing. -/
theorem apply_idempotent (hfree : ∀ d ∈ ds, ∀ field ∈ d.fields, '\n' ∉ field)
    (h : ds.forM (apply (ofOwners debug owner)) (.load etc) = .ok () t) :
    (∃ ranges, ds.forM (apply (ofOwners debug owner)) (.load (written etc t)) =
      .ok () { Database.load (written etc t) with ranges := ranges }) ∧
    allocations (ofOwners debug owner) (written etc t) ds = [] := by
  have hload : Recorded etc (.load etc) :=
    ⟨readable_load _, readable_load _, readable_load _, load_ranged etc⟩
  obtain ⟨hrecorded, -, hsettled⟩ := run_settles hload hfree h
  obtain ⟨ranges, hrun⟩ := @run_idle _ _ (.load (written etc t), []) fun d hd =>
    settled_grows (hsettled d hd) (reload_grows hrecorded)
  refine ⟨⟨ranges, ?_⟩, ?_⟩
  · have hnotes := notes_forM (notes_apply (ofOwners debug owner)) ds (.load (written etc t), [])
    rw [hrun] at hnotes
    exact hnotes.symm
  · rw [allocations, final_of_ok hrun]

end

/-- A user who gets an ID of a range and joins a group. -/
def joining : List Directive :=
  [⟨.range, ["-".toList, "500-501".toList]⟩, ⟨.user false, ["demo".toList, "-".toList]⟩,
    ⟨.member, ["demo".toList, "root".toList]⟩]

/-- A system without files to take an ID from. -/
def noOwners : System := ofOwners id fun _ => .error "no such file".toList

theorem apply_idempotent_joining :
    (∃ ranges, joining.forM (apply noOwners)
      (.load (written rootOnly (final (joining.forM (apply noOwners)) (.load rootOnly)))) =
      .ok () { Database.load
        (written rootOnly (final (joining.forM (apply noOwners)) (.load rootOnly))) with
        ranges := ranges }) ∧
    allocations noOwners (written rootOnly (final (joining.forM (apply noOwners)) (.load rootOnly)))
      joining = [] :=
  apply_idempotent (by decide) (ok_final (by decide))

end FractalD.Sysusers.Idempotence
