import FractalD.Machine.Delimited
import FractalD.Sysusers.Accounts
import Mathlib.Data.List.GetD

namespace FractalD.Sysusers.Integrity

open FractalD.Config.Words FractalD.Machine.CString FractalD.Machine.Delimited
open FractalD.Machine.Effect
open FractalD.Machine.OrderedMap FractalD.Machine.Text FractalD.Machine.Wire
open FractalD.Sysusers.Accounts FractalD.Sysusers.Directives

def records (lines : List Str) : List (List Str) := lines.map (·.splitOn ':')

/-- What is written is read back as the records in memory, which have the right number
of fields. -/
structure Intact (n : Nat) (db : TextDatabase) : Prop where
  reparsed : ∀ text, db.writeIfChanged = some text → records (textLines text) = records db.lines
  fields : ∀ r ∈ records db.lines, r.length = n

/-- All databases are read back as they are in memory. -/
structure AllIntact (db : Database) : Prop where
  passwd : Intact 7 db.passwd
  group : Intact 4 db.group
  shadow : Intact 9 db.shadow
  gshadow : Intact 4 db.gshadow

def Wellformed (n : Nat) (db : TextDatabase) : Prop := ∀ line ∈ db.lines, IsRecord ':' n line

instance (n : Nat) (db : TextDatabase) : Decidable (Wellformed n db) := List.decidableBAll _ _

/-- The databases are well-formed, except perhaps that of the users. -/
structure OthersWellformed (db : Database) : Prop where
  group : Wellformed 4 db.group
  shadow : Wellformed 9 db.shadow
  gshadow : Wellformed 4 db.gshadow

section

variable {n : Nat} {db : TextDatabase} {lines lines' : List Str}

theorem records_inj (h : records lines = records lines') : lines = lines' := by
  have hback : ∀ lines : List Str, (records lines).map (join [':']) = lines := by
    intro lines
    rw [records, List.map_map]
    exact (List.map_congr_left fun line _ => List.intercalate_splitOn ':').trans (List.map_id _)
  rw [← hback lines, h, hback]

theorem join_newline (hne : lines ≠ []) :
    join ['\n'] lines ++ ['\n'] = lines.flatMap (· ++ ['\n']) := by
  induction lines with
  | nil => exact absurd rfl hne
  | cons line lines ih =>
    by_cases hnil : lines = []
    · subst hnil
      simp [join_singleton]
    · rw [join_cons hnil, List.flatMap_cons, ← ih hnil]
      simp

/-- A database is read back exactly if each line is one line. -/
theorem content_iff (h : ∀ line ∈ db.lines, line ≠ []) :
    textLines db.content = db.lines ↔ ∀ line ∈ db.lines, OneLine line := by
  have hcontent : db.content = db.lines.flatMap (· ++ ['\n']) := by
    rw [TextDatabase.content]
    cases hlines : db.lines with
    | nil => rfl
    | cons line lines =>
      have hne : join ['\n'] (line :: lines) ≠ [] := by
        have hline := h line (hlines ▸ List.mem_cons_self)
        by_cases hnil : lines = []
        · rwa [hnil, join_singleton]
        · rw [join_cons hnil]
          simp
      simp only [hne, if_false]
      exact join_newline (List.cons_ne_nil _ _)
  rw [hcontent, textLines_ended_iff]

theorem intact_of_wellformed (hn : 1 < n) (h : Wellformed n db) : Intact n db where
  reparsed text htext := by
    rw [TextDatabase.writeIfChanged] at htext
    split at htext
    · cases htext
      refine congrArg records ((content_iff fun line hline hnil => ?_).mpr fun line hline =>
        (h line hline).oneLine)
      have hfields := (h line hline).fields
      rw [hnil, List.splitOn_nil, List.length_singleton] at hfields
      omega
    · cases htext
  fields r hr := by
    obtain ⟨line, hline, rfl⟩ := List.mem_map.mp hr
    exact (h line hline).fields

theorem wellformed_of_intact (hn : 1 < n) (h : Intact n db) (hchanged : db.changed = true) :
    Wellformed n db := by
  have hfields : ∀ line ∈ db.lines, (line.splitOn ':').length = n := fun line hline =>
    h.fields _ (List.mem_map_of_mem hline)
  have hsame := records_inj (h.reparsed db.content (if_pos hchanged))
  intro line hline
  refine ⟨hfields line hline, (content_iff fun line hline hnil => ?_).mp hsame line hline⟩
  have := hfields line hline
  rw [hnil, List.splitOn_nil, List.length_singleton] at this
  omega

end

def ValidName (name : Str) : Prop := ∀ c ∈ name, c.isAlphanum ∨ c = '_' ∨ c = '-'

/-- A field that may be anywhere in a record. -/
def Plain (field : Str) : Prop := (':' ∉ field ∧ '\n' ∉ field) ∧ field.getLast? ≠ some '\r'

instance : DecidablePred Plain := fun field =>
  inferInstanceAs (Decidable ((':' ∉ field ∧ '\n' ∉ field) ∧ field.getLast? ≠ some '\r'))

/-- No field of a user holds a separator, and the last one does not end like a line. -/
structure Harmless (user : UserFields) : Prop where
  fields : ∀ field, user.gecos = some field ∨ user.home = some field ∨ user.shell = some field →
    ':' ∉ field ∧ '\n' ∉ field
  shell : ∀ shell, user.shell = some shell → shell.getLast? ≠ some '\r'

def userLine (user : UserFields) (uid gid : Nat) : Str :=
  let account := user.account uid gid
  join [':'] [account.name, "x".toList, printUnsigned uid, printUnsigned gid, account.gecos,
    account.home, account.shell]

section

variable {name : Str} {user : UserFields} {uid gid : Nat}

theorem validName_ok {debug : Str → Str} (h : validateName debug name = .ok ()) :
    ValidName name := by
  intro c hc
  cases name with
  | nil => cases hc
  | cons first rest =>
    rw [validateName] at h
    split at h
    next => cases h
    next hnot =>
      simp only [not_or, Bool.not_eq_true', Bool.not_eq_false, List.all_eq_true, Bool.or_eq_true,
        decide_eq_true_eq, List.mem_cons, List.not_mem_nil, or_false] at hnot
      obtain ⟨-, hfirst, hrest⟩ := hnot
      obtain rfl | hc := List.mem_cons.mp hc
      · refine hfirst.imp (fun hc => ?_) .inl
        rw [Char.isAlphanum, hc, Bool.true_or]
      · exact hrest c hc

theorem validName_plain {s : Str} (h : ValidName s) : Plain s := by
  refine ⟨⟨fun hc => ?_, fun hc => ?_⟩, fun hc => ?_⟩
  · exact absurd (h _ hc) (by decide)
  · exact absurd (h _ hc) (by decide)
  · exact absurd (h _ (List.mem_of_getLast? hc)) (by decide)

theorem printUnsigned_valid (n : Nat) : ValidName (printUnsigned n) := fun c hc => by
  have hdigit := Nat.isDigit_of_mem_toDigits (by decide) (by decide) hc
  left
  rw [Char.isAlphanum, hdigit, Bool.or_true]

theorem optionalField_iff {p : Str → Prop} {value : Option Str} {default : Str}
    (hdefault : p default) (hdash : p "-".toList) :
    p ((optionalField value).getD default) ↔ ∀ field, value = some field → p field := by
  cases value with
  | none => exact iff_of_true hdefault nofun
  | some given =>
    have hgiven : (∀ field, some given = some field → p field) ↔ p given := by simp
    rw [hgiven, optionalField, Option.filter_some]
    by_cases hd : given = "-".toList
    · rw [hd]
      exact iff_of_true hdefault hdash
    · rw [if_pos (decide_eq_true hd), Option.getD_some]

theorem userLine_isRecord (hname : ValidName user.name) :
    IsRecord ':' 7 (userLine user uid gid) ↔ Harmless user := by
  have hjoin : IsRecord ':' 7 (userLine user uid gid) ↔ _ :=
    isRecord_join rfl (by decide) (by decide) (by decide)
  let Clean (f : Str) : Prop := ':' ∉ f ∧ '\n' ∉ f
  have hgecos : Clean (user.account uid gid).gecos ↔ ∀ f, user.gecos = some f → Clean f :=
    optionalField_iff (p := Clean) (by decide) (by decide)
  have hhome : Clean (user.account uid gid).home ↔ ∀ f, user.home = some f → Clean f :=
    optionalField_iff (p := Clean) (by decide) (by decide)
  have hshell : Clean (user.account uid gid).shell ↔ ∀ f, user.shell = some f → Clean f :=
    optionalField_iff (p := Clean) (by split <;> decide) (by decide)
  have hlast : (user.account uid gid).shell.getLast? ≠ some '\r' ↔
      ∀ f, user.shell = some f → f.getLast? ≠ some '\r' :=
    optionalField_iff (p := (·.getLast? ≠ some '\r')) (by split <;> decide) (by decide)
  refine hjoin.trans ?_
  have huid := (validName_plain (printUnsigned_valid uid)).1
  have hgid := (validName_plain (printUnsigned_valid gid)).1
  have hx : Clean "x".toList := by decide
  simp only [List.forall_mem_cons, List.getLast?_cons_cons, List.getLast?_singleton,
    Option.mem_some_iff, forall_eq']
  constructor
  · rintro ⟨⟨-, -, -, -, hg, hh, hs, -⟩, hr⟩
    refine ⟨fun f => ?_, hlast.mp hr⟩
    rintro (hf | hf | hf)
    · exact hgecos.mp hg f hf
    · exact hhome.mp hh f hf
    · exact hshell.mp hs f hf
  · rintro ⟨hfields, hr⟩
    exact ⟨⟨(validName_plain hname).1, hx, huid, hgid,
      hgecos.mpr fun f hf => hfields f (.inl hf), hhome.mpr fun f hf => hfields f (.inr (.inl hf)),
      hshell.mpr fun f hf => hfields f (.inr (.inr hf)), by simp⟩, hlast.mpr hr⟩

end

/-- The line of a user with some numbers. -/
def entryLine (entry : UserFields × Nat × Nat) : Str := userLine entry.1 entry.2.1 entry.2.2

/-- Users have been entered, one line each. -/
structure Adds (users : List UserFields) (before after : TextDatabase) : Prop where
  lines : ∃ entries : List (UserFields × Nat × Nat), entries.map Prod.fst = users ∧ (∀ user ∈ users, ValidName user.name) ∧
    after.lines = before.lines ++ entries.map entryLine
  changed : after.changed = (before.changed || users ≠ [])

/-- Users have been entered, and the other databases are still well-formed if they were. -/
structure Enters (users : List UserFields) (before after : Database) : Prop where
  passwd : Adds users before.passwd after.passwd
  others : OthersWellformed before → OthersWellformed after

section

variable {users users' : List UserFields} {a b c : TextDatabase} {db db' db'' : Database}

theorem adds_refl (a : TextDatabase) : Adds [] a a where
  lines := ⟨[], rfl, by simp, by simp⟩
  changed := by simp

theorem adds_trans (h : Adds users a b) (h' : Adds users' b c) : Adds (users ++ users') a c where
  lines := by
    obtain ⟨entries, rfl, hnames, hb⟩ := h.lines
    obtain ⟨entries', rfl, hnames', hc⟩ := h'.lines
    refine ⟨entries ++ entries', List.map_append, List.forall_mem_append.mpr ⟨hnames, hnames'⟩, ?_⟩
    rw [hc, hb, List.append_assoc, List.map_append]
  changed := by
    rw [h'.changed, h.changed]
    cases users <;> cases users' <;> simp

theorem enters_refl (db : Database) : Enters [] db db := ⟨adds_refl _, id⟩

theorem enters_trans (h : Enters users db db') (h' : Enters users' db' db'') :
    Enters (users ++ users') db db'' :=
  ⟨adds_trans h.passwd h'.passwd, fun hdb => h'.others (h.others hdb)⟩

end

section

variable {n : Nat} {db : TextDatabase} {line name : Str} {fields : List Str} {i : Nat}

theorem wellformed_append (h : Wellformed n db) (hline : IsRecord ':' n (join [':'] fields)) :
    Wellformed n (db.append fields) := by
  intro line hmem
  obtain hmem | hmem := List.mem_append.mp hmem
  · exact h line hmem
  · rwa [List.mem_singleton.mp hmem]

theorem wellformed_replace (h : Wellformed n db) (hline : IsRecord ':' n (join [':'] fields)) :
    Wellformed n (db.replace i fields) := by
  intro line hmem
  obtain hmem | rfl := List.mem_or_eq_of_mem_set hmem
  · exact h line hmem
  · exact hline

theorem find_some (h : db.find name = some (i, fields)) : ∃ line ∈ db.lines,
    fields = line.splitOn ':' ∧ fields.head? = some name := by
  obtain ⟨⟨line, j⟩, hmem, hline⟩ := List.exists_of_findSome?_eq_some h
  dsimp only at hline
  split at hline
  next hfound =>
    cases hline
    exact ⟨line, (List.mem_zipIdx' hmem).2 ▸ List.getElem_mem _, rfl, hfound.1⟩
  next => cases hline

theorem find_isSome : (db.find name).isSome ↔ ∃ line ∈ db.lines,
    (line.splitOn ':').head? = some name ∧ 3 ≤ (line.splitOn ':').length := by
  rw [TextDatabase.find, List.findSome?_isSome_iff]
  constructor
  · rintro ⟨⟨line, j⟩, hmem, hline⟩
    dsimp only at hline
    split at hline
    next hfound => exact ⟨line, (List.mem_zipIdx' hmem).2 ▸ List.getElem_mem _, hfound⟩
    next => cases hline
  · rintro ⟨line, hline, hfound⟩
    obtain ⟨j, hj, rfl⟩ := List.mem_iff_getElem.mp hline
    refine ⟨(db.lines[j], j), List.mem_zipIdx_iff_getElem?.mpr (by simp [hj]), ?_⟩
    dsimp only
    rw [if_pos hfound]
    rfl

end

section

variable {n : Nat} {db : TextDatabase} {line name user group : Str} {fields : List Str}

theorem plain_isRecord (hn : fields.length = n) (hpos : 0 < n) (h : ∀ f ∈ fields, Plain f) :
    IsRecord ':' n (join [':'] fields) :=
  (isRecord_join hn hpos (by decide) (by decide)).mpr
    ⟨fun f hf => (h f hf).1, fun f hf => (h f (List.mem_of_getLast? hf)).2⟩

theorem fields_clean (h : IsRecord ':' n line) {f : Str} (hf : f ∈ line.splitOn ':') :
    ':' ∉ f ∧ '\n' ∉ f := by
  refine ⟨not_mem_splitOn hf, fun hmem => h.oneLine.1 ?_⟩
  have hjoin : join [':'] (line.splitOn ':') = line := List.intercalate_splitOn ':'
  rw [← hjoin]
  exact (mem_join (by decide)).mpr ⟨f, hf, hmem⟩

theorem addMemberTo_wellformed (h : Wellformed 4 db) (huser : ValidName user) :
    Wellformed 4 (addMemberTo db user group) := by
  rw [addMemberTo]
  cases hfind : db.find group with
  | none => exact h
  | some found =>
    obtain ⟨i, fields⟩ := found
    obtain ⟨line, hline, hfields, -⟩ := find_some hfind
    have hrecord := h line hline
    have hlength : fields.length = 4 := by rw [hfields, hrecord.fields]
    dsimp only
    rw [hlength, Nat.sub_self, List.replicate_zero, List.append_nil]
    split
    · exact h
    have hold : ∀ f ∈ fields, ':' ∉ f ∧ '\n' ∉ f := fun f hf => fields_clean hrecord (hfields ▸ hf)
    have hthird : fields.getD 3 [] ∈ fields := by
      rw [List.getD_eq_getElem _ _ (by omega)]
      exact List.getElem_mem _
    -- The new member comes last, and all others have been in the field before.
    generalize hkeys :
      (ofList (((fields.getD 3 []).splitOn ',').filter (· ≠ []))).keys = members
    have hmember : ∀ m ∈ members, ∀ c ∈ m, c ∈ fields.getD 3 [] := by
      intro m hm c hc
      rw [← hkeys, mem_ofList, List.mem_filter] at hm
      have hm := hm.1
      rw [List.splitOn_eq_splitOnP] at hm
      exact (mem_of_mem_splitOnP hm c hc).1
    have hmem : ∀ c, c ≠ ',' → c ∈ join [','] (members ++ [user]) →
        c ∈ fields.getD 3 [] ∨ c ∈ user := by
      intro c hne hc
      obtain ⟨m, hm, hc⟩ := (mem_join hne).mp hc
      obtain hm | hm := List.mem_append.mp hm
      · exact .inl (hmember m hm c hc)
      · exact .inr (List.mem_singleton.mp hm ▸ hc)
    have hplain := validName_plain huser
    have hnew : ':' ∉ join [','] (members ++ [user]) ∧ '\n' ∉ join [','] (members ++ [user]) :=
      ⟨fun hc => (hmem _ (by decide) hc).elim (hold _ hthird).1 hplain.1.1,
        fun hc => (hmem _ (by decide) hc).elim (hold _ hthird).2 hplain.1.2⟩
    refine wellformed_replace h ((isRecord_join (by rw [List.length_set, hlength]) (by decide)
      (by decide) (by decide)).mpr ⟨fun f hf => ?_, fun f hf => ?_⟩)
    · obtain hf | rfl := List.mem_or_eq_of_mem_set hf
      · exact hold f hf
      · exact hnew
    · rw [List.getLast?_eq_getElem?, List.length_set, hlength, List.getElem?_set_self (by omega)] at hf
      cases hf
      rw [Ne, getLast_join_iff (by decide), List.getLast?_concat]
      simpa using hplain.2

end

def known (db : Database) (name : Str) : Bool := (db.passwd.find name).isSome

def newUsers (known : Str → Bool) (directive : Directive) : List UserFields :=
  (userOf directive).toList.filter fun user => !known user.name

/-- The users that some directives make one after the other. -/
def created (known : Str → Bool) : List Directive → List UserFields
  | [] => []
  | directive :: rest =>
    let users := newUsers known directive
    users ++ created (fun name => known name || users.any (·.name = name)) rest

section

variable {users : List UserFields} {db db' : Database}

theorem known_adds (h : Adds users db.passwd db'.passwd) (name : Str) :
    known db' name = (known db name || users.any (·.name = name)) := by
  obtain ⟨entries, rfl, hnames, hlines⟩ := h.lines
  have hline : ∀ e ∈ entries, ((entryLine e).splitOn ':').head? = some e.1.name ∧
      3 ≤ ((entryLine e).splitOn ':').length := by
    rintro ⟨user, uid, gid⟩ he
    have hfree := (validName_plain (hnames user (List.mem_map_of_mem he))).1.1
    have hcount : (entryLine (user, uid, gid)).count ':' + 1 = _ :=
      count_join (List.cons_ne_nil _ _)
    simp only [List.length_cons, List.length_nil] at hcount
    constructor
    · rw [entryLine, userLine, join_cons (List.cons_ne_nil _ _)]
      change (List.splitOn ':' (user.name ++ _)).head? = _
      rw [List.splitOn_append_cons_self_of_not_mem hfree]
      rfl
    · rw [length_splitOn]
      omega
  rw [Bool.eq_iff_iff, Bool.or_eq_true, known, known, find_isSome, find_isSome, hlines,
    List.any_eq_true]
  simp only [List.mem_append, or_and_right, exists_or, decide_eq_true_eq]
  refine or_congr_right ?_
  constructor
  · rintro ⟨line, hmem, hhead, -⟩
    obtain ⟨e, he, rfl⟩ := List.mem_map.mp hmem
    rw [(hline e he).1] at hhead
    exact ⟨e.1, List.mem_map_of_mem he, Option.some.inj hhead⟩
  · rintro ⟨user, huser, rfl⟩
    obtain ⟨e, he, rfl⟩ := List.mem_map.mp huser
    exact ⟨_, List.mem_map_of_mem he, hline e he⟩

end

/-- An operation that changes nothing. -/
def Reads {α : Type} (x : Op α) : Prop := ∀ s, Ends (fun _ t => s = t) (fun _ _ => True) (x s)

/-- An operation enters some users when it succeeds. -/
def Entering {α : Type} (users : Database → List UserFields) (x : Op α) : Prop :=
  ∀ s, Ends (fun _ t => Enters (users s) s t) (fun _ _ => True) (x s)

section

variable {α β : Type} {x : Op α} {f : α → Op β} {users : Database → List UserFields}

theorem reads_pure (a : α) : Reads (pure a : Op α) := fun _ => rfl

theorem reads_throw (e : Str) : Reads (throw e : Op α) := fun _ => trivial

theorem reads_get : Reads (get : Op Database) := fun _ => rfl

theorem reads_orFail (r : Except Str α) : Reads (orFail r) := by
  cases r with
  | ok a => exact reads_pure a
  | error e => exact reads_throw e

theorem reads_bind (hx : Reads x) (hf : ∀ a, Reads (f a)) : Reads (x >>= f) := fun s =>
  ends_bind (hx s) fun a t ht => by
    subst ht
    exact hf a s

theorem reads_ite {p : Prop} [Decidable p] {y : Op α} (hx : Reads x) (hy : Reads y) :
    Reads (if p then x else y) := by
  split
  · exact hx
  · exact hy

theorem entering_of_reads (hx : Reads x) : Entering (fun _ => []) x := fun s =>
  ends_mono (fun _ _ ht => ht ▸ enters_refl s) (fun _ _ h => h) (hx s)

theorem entering_reads_bind (hx : Reads x) (hf : ∀ a, Entering users (f a)) :
    Entering users (x >>= f) := fun s =>
  ends_bind (hx s) fun a t ht => by
    subst ht
    exact hf a s

theorem entering_then (hx : Entering users x) (hf : ∀ a, Entering (fun _ => []) (f a)) :
    Entering users (x >>= f) := fun s =>
  ends_bind (hx s) fun a t ht => by
    refine ends_mono (fun _ u hu => ?_) (fun _ _ h => h) (hf a t)
    rw [← List.append_nil (users s)]
    exact enters_trans ht hu

theorem entering_then_reads (hx : Entering users x) (hf : ∀ a, Reads (f a)) :
    Entering users (x >>= f) :=
  entering_then hx fun a => entering_of_reads (hf a)

end

section

variable (sys : System) {name : Str}

theorem allocateId_reads : Reads allocateId := reads_bind reads_get fun _ => reads_orFail _

theorem resolveId_reads (requested : Str) (user : Bool) : Reads (resolveId sys requested user) := by
  rw [resolveId]
  refine reads_ite allocateId_reads ?_
  cases parseUnsigned 32 requested with
  | some value => exact reads_bind (reads_orFail _) fun _ => reads_pure _
  | none =>
    exact reads_ite (reads_bind (reads_orFail _) fun _ => reads_pure _) (reads_throw _)

theorem createGroup_entering (hname : ValidName name) (id : Nat) :
    Entering (fun _ => []) (createGroup name id) := by
  intro s
  change Ends _ _ ((if (s.group.find name).isNone then _ else pure () : Op Unit) s)
  split
  · refine ⟨adds_refl _, fun h => ⟨?_, h.shadow, ?_⟩⟩
    · refine wellformed_append h.group (plain_isRecord rfl (by decide) ?_)
      simp only [List.forall_mem_cons]
      exact ⟨validName_plain hname, by decide, validName_plain (printUnsigned_valid id), by decide,
        by simp⟩
    · dsimp only
      split
      · refine wellformed_append h.gshadow (plain_isRecord rfl (by decide) ?_)
        simp only [List.forall_mem_cons]
        exact ⟨validName_plain hname, by decide, by decide, by decide, by simp⟩
      · exact h.gshadow
  · exact enters_refl s

theorem ensureGroup_entering (hname : ValidName name) (requested : Str) :
    Entering (fun _ => []) (ensureGroup sys name requested) := by
  have hlast : ∀ id, Entering (fun _ => []) (do createGroup name id; pure id) := fun id =>
    entering_then_reads (createGroup_entering hname id) fun _ => reads_pure _
  refine entering_reads_bind reads_get fun db => ?_
  cases db.group.find name with
  | some found => exact entering_of_reads (reads_orFail _)
  | none =>
    refine entering_reads_bind (resolveId_reads sys requested false) fun id => ?_
    refine entering_reads_bind reads_get fun db => ?_
    split
    · exact entering_reads_bind allocateId_reads fun id => hlast id
    · exact hlast id

theorem chooseIds_entering (hname : ValidName name) (requested : Str) :
    Entering (fun _ => []) (chooseIds sys name requested) := by
  have htake : ∀ {p : Prop} [Decidable p] (uid gid : Nat), Reads (do
      if p then pure (← allocateId, gid) else pure (uid, gid) : Op (Nat × Nat)) := fun _ _ =>
    reads_ite (reads_bind allocateId_reads fun _ => reads_pure _) (reads_pure _)
  rw [chooseIds]
  generalize splitOnce ':' requested = split
  cases split with
  | some parts =>
    have hrest : ∀ gid, Reads (do
        let uid ← resolveId sys parts.1 true
        if (← get).uidInUse uid then pure (← allocateId, gid) else pure (uid, gid)) := fun gid =>
      reads_bind (resolveId_reads sys _ true) fun uid => reads_bind reads_get fun db => htake uid gid
    refine entering_of_reads (reads_ite (reads_bind allocateId_reads hrest) ?_)
    cases parseUnsigned 32 parts.2 with
    | some value => exact reads_bind (reads_orFail _) fun _ => reads_bind (reads_pure _) hrest
    | none =>
      refine reads_bind reads_get fun db => ?_
      cases db.group.find parts.2 with
      | some found => exact reads_bind (reads_orFail _) hrest
      | none => exact reads_bind (reads_throw _) hrest
  | none =>
    refine entering_reads_bind reads_get fun db => ?_
    dsimp only
    cases db.group.find name with
    | some found =>
      refine entering_of_reads (reads_bind (reads_orFail _) fun gid => ?_)
      refine reads_bind (resolveId_reads sys _ true) fun uid => reads_bind reads_get fun db => ?_
      exact htake uid gid
    | none =>
      have hlast : ∀ id, Entering (fun _ => []) (do createGroup name id; pure (id, id)) := fun id =>
        entering_then_reads (createGroup_entering hname id) fun _ => reads_pure _
      refine entering_reads_bind (resolveId_reads sys requested true) fun id => ?_
      refine entering_reads_bind reads_get fun db => ?_
      split
      · exact entering_reads_bind allocateId_reads fun id => hlast id
      · exact hlast id

theorem createUser_enters {user : UserFields} (hname : ValidName user.name) (uid gid : Nat)
    {s : Database} (hnew : known s user.name = false) :
    Ends (fun _ t => Enters [user] s t) (fun _ _ => True)
      (createUser (user.account uid gid) s) := by
  have hnone : (s.passwd.find user.name).isNone := by
    rw [known] at hnew
    rw [← Option.not_isSome, hnew]
    rfl
  change Ends _ _ ((if (s.passwd.find user.name).isNone then _ else pure () : Op Unit) s)
  rw [if_pos hnone]
  refine ⟨⟨⟨[(user, uid, gid)], rfl, by simpa using hname, rfl⟩, by simp [TextDatabase.append]⟩,
    fun h => ⟨h.group, ?_, h.gshadow⟩⟩
  dsimp only
  split
  · refine wellformed_append h.shadow (plain_isRecord rfl (by decide) ?_)
    simp only [List.forall_mem_cons]
    exact ⟨validName_plain hname, by decide, by decide, by decide, by decide, by decide, by decide,
      by decide, by split <;> decide, by simp⟩
  · exact h.shadow

theorem ensureUser_entering {user : UserFields} (hname : ValidName user.name) :
    Entering (fun db => if known db user.name then [] else [user]) (ensureUser sys user) := by
  intro s
  refine ends_bind (p := fun db t => s = db ∧ s = t) ⟨rfl, rfl⟩ ?_
  rintro _ _ ⟨rfl, rfl⟩
  change Ends (fun _ t => Enters (if known s user.name then [] else [user]) s t) _ _
  cases hfind : s.passwd.find user.name with
  | some found =>
    have hold : known s user.name = true := by rw [known, hfind, Option.isSome_some]
    rw [hold, if_pos rfl]
    exact entering_of_reads (reads_orFail _) s
  | none =>
    have hnew : known s user.name = false := by rw [known, hfind, Option.isSome_none]
    rw [hnew, if_neg Bool.false_ne_true]
    refine ends_bind (chooseIds_entering sys hname user.requested s) fun ids t ht => ?_
    have hnew' : known t user.name = false := by
      rw [known_adds ht.passwd, hnew]
      rfl
    refine ends_bind (createUser_enters hname ids.1 ids.2 hnew') fun _ u hu => ?_
    exact enters_trans ht hu

theorem addMember_entering {user : Str} (huser : ValidName user) (group : Str) :
    Entering (fun _ => []) (addMember user group) := fun _ =>
  ⟨adds_refl _, fun h => ⟨addMemberTo_wellformed h.group huser, h.shadow,
    addMemberTo_wellformed h.gshadow huser⟩⟩

theorem orFail_ends {α : Type} (r : Except Str α) (s : Database) :
    Ends (fun a t => s = t ∧ r = .ok a) (fun _ _ => True) (orFail r s) := by
  cases r with
  | ok a => exact ⟨rfl, rfl⟩
  | error e => trivial

theorem entering_validated {α : Type} {users : Database → List UserFields} {x : Op α}
    (hx : ValidName name → Entering users x) :
    Entering users (orFail (validateName sys.debug name) >>= fun _ => x) := fun s =>
  ends_bind (orFail_ends _ s) fun _ _ ht => by
    obtain ⟨rfl, hok⟩ := ht
    exact hx (validName_ok hok) s

theorem newUsers_some {directive : Directive} {user : UserFields}
    (h : userOf directive = some user) (known : Str → Bool) :
    newUsers known directive = if known user.name then [] else [user] := by
  rw [newUsers, h, Option.toList_some, List.filter_cons, List.filter_nil]
  cases known user.name <;> rfl

theorem expectFields_ok {fields : List Str} {count : Nat} {kind : String}
    (h : expectFields fields count kind = .ok ()) : fields.length = count := by
  rw [expectFields] at h
  split at h
  next => cases h
  next heq => exact not_not.mp heq

theorem apply_entering (directive : Directive) :
    Entering (fun db => newUsers (known db) directive) (apply sys directive) := by
  have hnone : userOf directive = none → (fun db => newUsers (known db) directive) = fun _ => [] :=
    fun h => funext fun db => by rw [newUsers, h]; rfl
  obtain ⟨kind, fields⟩ := directive
  cases kind with
  | range =>
    rw [hnone (by cases fields <;> rfl)]
    refine entering_reads_bind (reads_orFail _) fun _ => ?_
    split
    · exact fun _ => trivial
    · refine entering_reads_bind (reads_orFail _) fun range _ => ?_
      exact ⟨adds_refl _, fun h => ⟨h.group, h.shadow, h.gshadow⟩⟩
  | group =>
    rw [hnone (by cases fields <;> rfl)]
    refine entering_reads_bind (reads_orFail _) fun _ => entering_validated sys fun hname => ?_
    exact entering_then_reads (ensureGroup_entering sys hname _) fun _ => reads_pure _
  | user locked =>
    rw [apply]
    dsimp only
    split
    · exact fun _ => trivial
    next hlength =>
      obtain ⟨hlow, -⟩ := not_or.mp hlength
      obtain _ | ⟨name, _ | ⟨requested, rest⟩⟩ := fields
      · simp at hlow
      · simp at hlow
      refine entering_validated sys fun hname => ?_
      have huser : userOf ⟨.user locked, name :: requested :: rest⟩ =
        some ⟨name, requested, rest[0]?, rest[1]?, rest[2]?, locked⟩ := rfl
      simp only [newUsers_some huser]
      exact entering_then_reads (ensureUser_entering sys hname) fun _ => reads_pure _
  | member =>
    intro s
    refine ends_bind (orFail_ends _ s) fun _ t ht => ?_
    obtain ⟨rfl, hlength⟩ := ht
    obtain ⟨name, group, rfl⟩ := List.length_eq_two.mp (expectFields_ok hlength)
    have huser : userOf ⟨.member, [name, group]⟩ = some ⟨name, "-".toList, none, none, none, false⟩ :=
      rfl
    dsimp only
    rw [newUsers_some huser]
    have hrest : ValidName name → Entering (fun db => if known db name then []
        else [⟨name, "-".toList, none, none, none, false⟩]) (do
          orFail (validateName sys.debug group)
          let _ ← ensureUser sys ⟨name, "-".toList, none, none, none, false⟩
          let _ ← ensureGroup sys group "-".toList
          addMember name group) := fun hname => entering_validated sys fun hgroup =>
      entering_then (ensureUser_entering sys hname) fun _ =>
        entering_then (ensureGroup_entering sys hgroup _) fun _ => addMember_entering hname group
    exact entering_validated sys hrest s

def lineDirectives (debug : Str → Str) (line : Str) : List Directive :=
  match parseDirective debug line with
  | .ok (some directive) => [directive]
  | .ok none | .error _ => []

def directives (debug : Str → Str) (sources : List Source) : List Directive :=
  sources.flatMap fun source => (textLines source.text).flatMap (lineDirectives debug)

theorem created_append (known : Str → Bool) (ds ds' : List Directive) :
    created known (ds ++ ds') = created known ds ++
      created (fun name => known name || (created known ds).any (·.name = name)) ds' := by
  induction ds generalizing known with
  | nil => simp [created]
  | cons d ds ih => simp only [List.cons_append, created, ih, List.append_assoc, List.any_append,
      Bool.or_assoc]

theorem located_entering {users : Database → List UserFields} {source : Source} {index : Nat}
    {x : Op Unit} (hx : Entering users x) : Entering users (located source index x) := by
  intro s
  have hend := hx s
  change Ends _ _ (EStateM.tryCatch x _ s)
  rw [EStateM.tryCatch]
  cases hr : x s with
  | ok a t =>
    rw [hr] at hend
    exact hend
  | error e t => trivial

theorem applyLine_entering (source : Source) (line : Str × Nat) :
    Entering (fun db => created (known db) (lineDirectives sys.debug line.1))
      (applyLine sys source line) := by
  apply located_entering
  intro s
  refine ends_bind (orFail_ends _ s) fun parsed t ht => ?_
  obtain ⟨rfl, hparsed⟩ := ht
  cases parsed with
  | none =>
    rw [lineDirectives, hparsed]
    exact enters_refl s
  | some directive =>
    rw [lineDirectives, hparsed]
    dsimp only [created]
    rw [List.append_nil]
    exact apply_entering sys directive s

theorem forM_entering {γ : Type} {g : γ → Op Unit} {ds : γ → List Directive} {l : List γ}
    (hg : ∀ c, Entering (fun db => created (known db) (ds c)) (g c)) :
    Entering (fun db => created (known db) (l.flatMap ds)) (l.forM g) := by
  induction l with
  | nil => exact fun s => enters_refl s
  | cons c l ih =>
    intro s
    refine ends_bind (hg c s) fun _ t ht => ?_
    refine ends_mono (fun _ u hu => ?_) (fun _ _ h => h) (ih t)
    have hknown := funext (known_adds ht.passwd)
    change Enters (created (known s) ((c :: l).flatMap ds)) s u
    rw [List.flatMap_cons, created_append, ← hknown]
    exact enters_trans ht hu

theorem applySources_entering (sources : List Source) :
    Entering (fun db => created (known db) (directives sys.debug sources))
      (applySources sys sources) := by
  refine forM_entering fun source => ?_
  have hlines : (textLines source.text).flatMap (lineDirectives sys.debug) =
      (textLines source.text).zipIdx.flatMap fun line => lineDirectives sys.debug line.1 := by
    conv_lhs => rw [← List.zipIdx_map_fst 0 (textLines source.text)]
    exact List.flatMap_map ..
  rw [hlines]
  exact forM_entering (applyLine_entering sys source)

/-- The databases are well-formed. -/
structure AllWellformed (db : Database) : Prop extends OthersWellformed db where
  passwd : Wellformed 7 db.passwd

/-- The databases are read back as they are in memory exactly if all users that are made
have harmless fields. -/
theorem intact_iff_harmless {etc : Etc} {sources : List Source} {db : Database}
    (hstart : AllWellformed (.load etc)) (h : applySources sys sources (.load etc) = .ok () db) :
    AllIntact db ↔
      ∀ user ∈ created (known (.load etc)) (directives sys.debug sources), Harmless user := by
  have henters := applySources_entering sys sources (.load etc)
  rw [h] at henters
  obtain ⟨hpasswd, hothers⟩ : Enters (created (known (.load etc)) (directives sys.debug sources))
    (.load etc) db := henters
  have hothers := hothers hstart.toOthersWellformed
  obtain ⟨entries, husers, hnames, hlines⟩ := hpasswd.lines
  constructor
  · intro hintact user huser
    have hchanged : db.passwd.changed = true := by
      rw [hpasswd.changed, Bool.or_eq_true, decide_eq_true_eq]
      exact .inr (List.ne_nil_of_mem huser)
    have hwell := wellformed_of_intact (by decide) hintact.passwd hchanged
    rw [← husers] at huser
    obtain ⟨e, he, rfl⟩ := List.mem_map.mp huser
    have hline := hwell (entryLine e) (by
      rw [hlines]
      exact List.mem_append_right _ (List.mem_map_of_mem he))
    exact (userLine_isRecord (hnames e.1 (husers ▸ List.mem_map_of_mem he))).mp hline
  · intro hharmless
    refine ⟨intact_of_wellformed (by decide) fun line hline => ?_,
      intact_of_wellformed (by decide) hothers.group,
      intact_of_wellformed (by decide) hothers.shadow,
      intact_of_wellformed (by decide) hothers.gshadow⟩
    rw [hlines] at hline
    obtain hline | hline := List.mem_append.mp hline
    · exact hstart.passwd line hline
    · obtain ⟨e, he, rfl⟩ := List.mem_map.mp hline
      have huser : e.1 ∈ created (known (.load etc)) (directives sys.debug sources) :=
        husers ▸ List.mem_map_of_mem he
      exact (userLine_isRecord (hnames e.1 huser)).mpr (hharmless e.1 huser)

end

/-- A system without files to take an ID from. -/
def plainSystem : System := ⟨id, fun _ => .error "no such file".toList⟩

def rootOnly : Etc where
  passwd := some "root:x:0:0::/root:/bin/sh\n".toList
  group := some "root:x:0:\n".toList
  shadow := none
  gshadow := none
  loginDefs := none

theorem rootOnly_wellformed : AllWellformed (.load rootOnly) where
  passwd := by decide +kernel
  group := by decide +kernel
  shadow := by decide +kernel
  gshadow := by decide +kernel

def described (line : String) : List Source := [⟨"demo.conf".toList, line.toList⟩]

theorem intact_iff_harmless_demo :
    AllIntact (final (applySources plainSystem (described "u demo - \"Demo User\" /srv/demo"))
      (.load rootOnly)) ↔
    ∀ user ∈ created (known (.load rootOnly))
      (directives plainSystem.debug (described "u demo - \"Demo User\" /srv/demo")), Harmless user :=
  intact_iff_harmless plainSystem rootOnly_wellformed (ok_final (by decide +kernel))

/-- A description that ends its record and begins another one. -/
def forging : List Source :=
  described "u demo - \"Demo:/:/bin/sh\\nroot2:x:0:0:\" /root /bin/sh"

/-- The description of a user makes another user with all rights. -/
theorem description_forges_root :
    succeeds (applySources plainSystem forging) (.load rootOnly) ∧
    ["root2".toList, "x".toList, "0".toList, "0".toList, [], "/root".toList, "/bin/sh".toList] ∈
      records (textLines (final (applySources plainSystem forging) (.load rootOnly)).passwd.content) ∧
    ¬ AllIntact (final (applySources plainSystem forging) (.load rootOnly)) := by
  refine ⟨by decide +kernel, by decide +kernel, fun h => ?_⟩
  have hsame := congrArg List.length (h.passwd.reparsed _ (if_pos (by decide +kernel)))
  revert hsame
  decide +kernel

end FractalD.Sysusers.Integrity
