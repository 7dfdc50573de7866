import FractalD.Sysusers.Allocation

namespace FractalD.Sysusers.PrimaryGroups

open FractalD.Config.Words FractalD.Machine.CString FractalD.Machine.Delimited
open FractalD.Machine.Effect FractalD.Machine.Text FractalD.Machine.Wire
open FractalD.Sysusers.Accounts FractalD.Sysusers.Allocation FractalD.Sysusers.Directives
open FractalD.Sysusers.Integrity FractalD.Sysusers.Steps

/-- The number of the primary group of a user. -/
def lineGid (line : Str) : Option Nat := (line.splitOn ':')[3]?.bind (parseUnsigned 32)

def HasGroup (db : Database) (gid : Nat) : Prop := ∃ line ∈ db.group.lines, lineId line = some gid

/-- The primary group of each user is there. -/
def Anchored (db : Database) : Prop :=
  ∀ line ∈ db.passwd.lines, ∀ gid, lineGid line = some gid → HasGroup db gid

/-- If a directive makes a user and names its primary group, it is by a group that is there: neither
with a dash nor with a number that no group has. -/
def Rooted (db : Database) (directive : Directive) : Prop :=
  ∀ user, userOf directive = some user → db.passwd.find user.name = none →
    ∀ uid primary, splitOnce ':' user.requested = some (uid, primary) →
      primary ≠ "-".toList ∧ ∀ gid, parseUnsigned 32 primary = some gid → HasGroup db gid

/-- The databases after some of the directives have been applied. -/
def stateAfter (sys : System) (etc : Etc) (ds : List Directive) (n : Nat) : Database :=
  final ((ds.take n).forM (apply sys)) (.load etc)

section

variable {sys : System} {s t : Database} {name : Str} {id gid : Nat}

theorem hasGroup_iff : HasGroup s gid ↔ some gid ∈ s.group.lines.map lineId := by
  rw [HasGroup, List.mem_map]

/-- A group that has been made is the only one that has been added. -/
theorem hasGroup_withGroup (hname : ValidName name) : HasGroup (withGroup s name id) gid ↔
    HasGroup s gid ∨ parseUnsigned 32 (printUnsigned id) = some gid := by
  have hlines : (withGroup s name id).group.lines.map lineId =
      s.group.lines.map lineId ++ [parseUnsigned 32 (printUnsigned id)] := by
    change (s.group.lines ++ [join [':'] [name, "x".toList, printUnsigned id, []]]).map lineId = _
    rw [List.map_append, List.map_singleton, lineId_created hname (by decide) (by simp)]
  rw [hasGroup_iff, hlines, List.mem_append, List.mem_singleton, hasGroup_iff, eq_comm (a := some gid)]

theorem ids_addMemberTo {user group : Str} (h : ValidName user) (hne : user ≠ [])
    (db : TextDatabase) : (addMemberTo db user group).lines.map lineId = db.lines.map lineId := by
  obtain ⟨hsame, -⟩ | ⟨before, after, line, line', hlines, hdb, hnamed, -, hline'⟩ :=
    @addMemberTo_cases db _ group h hne
  · rw [hsame]
  · rw [hdb, hlines, List.map_append, List.map_append, List.map_cons, List.map_cons,
      lineId_withMember hnamed hline']

theorem hasGroup_of_find {i : Nat} {fields : List Str} {kind : String}
    (h : s.group.find name = some (i, fields)) (hid : numericField fields 2 kind name = .ok gid) :
    HasGroup s gid := by
  obtain ⟨line, hline, rfl⟩ := entry_of_find h
  exact ⟨line, (mem_of_entry hline).1, numericField_ok.mp hid⟩

/-- The line of a user tells its primary group. -/
theorem lineGid_created {account : Account} (hname : ValidName account.name) :
    lineGid (join [':'] [account.name, "x".toList, printUnsigned account.uid,
      printUnsigned account.gid, account.gecos, account.home, account.shell]) =
        parseUnsigned 32 (printUnsigned account.gid) := by
  have hid (n : Nat) := (validName_plain (printUnsigned_valid n)).1.1
  rw [lineGid, splitOn_join_cons (validName_plain hname).1.1 (List.cons_ne_nil _ _),
    splitOn_join_cons (by decide) (List.cons_ne_nil _ _),
    splitOn_join_cons (hid _) (List.cons_ne_nil _ _), splitOn_join_cons (hid _) (List.cons_ne_nil _ _)]
  rfl

theorem anchored_withUser {account : Account} (hname : ValidName account.name) (hs : Anchored s) :
    Anchored (withUser s account) ↔
      ∀ gid, parseUnsigned 32 (printUnsigned account.gid) = some gid → HasGroup s gid := by
  have hlines : (withUser s account).passwd.lines = s.passwd.lines ++ [join [':'] [account.name,
      "x".toList, printUnsigned account.uid, printUnsigned account.gid, account.gecos, account.home,
      account.shell]] := rfl
  rw [Anchored, hlines, List.forall_mem_append, List.forall_mem_singleton, lineGid_created hname]
  exact and_iff_right hs

theorem anchored_mono (hs : Anchored s) (hpasswd : t.passwd.lines = s.passwd.lines)
    (hgroup : ∀ gid, HasGroup s gid → HasGroup t gid) : Anchored t := by
  intro line hline gid hgid
  rw [hpasswd] at hline
  exact hgroup gid (hs line hline gid hgid)

theorem ensureGroup_anchored {requested : Str} (hname : ValidName name) (hs : Anchored s)
    (h : ensureGroup sys name requested s = .ok id t) : Anchored t := by
  obtain ⟨_, _, _, rfl⟩ | ⟨-, -, rfl⟩ := ensureGroup_cases sys h
  · exact hs
  · exact anchored_mono hs rfl fun gid hgid => (hasGroup_withGroup hname).mpr (.inl hgid)

theorem not_hasGroup_allocated (hs : Ranged s) (h : s.allocateId = .ok id) : ¬ HasGroup s id := by
  rintro ⟨line, hline, hid⟩
  obtain ⟨⟨low, high⟩, hrange, -⟩ := hs
  refine ((allocateId_ok_iff hrange).mp h).2.2.1 (List.mem_filterMap.mpr ⟨line, ?_, hid⟩)
  exact List.mem_append_right _ hline

theorem ensureUser_anchored {user : UserFields} (hname : ValidName user.name) (hr : Ranged s)
    (hs : Anchored s) (h : ensureUser sys user s = .ok id t) : Anchored t ↔
      (s.passwd.find user.name = none → ∀ uid primary,
        splitOnce ':' user.requested = some (uid, primary) →
        primary ≠ "-".toList ∧ ∀ gid, parseUnsigned 32 primary = some gid → HasGroup s gid) := by
  obtain ⟨found, hfound, hid, rfl⟩ | ⟨hnone, gid, mid, hchosen, rfl⟩ := ensureUser_cases sys h
  · refine iff_of_true hs fun hnone => ?_
    cases hfound.symm.trans hnone
  cases hchosen with
  | @split uidRequest primary _ _ hsplit hgid _ =>
    rw [anchored_withUser hname hs]
    have hrooted : (s.passwd.find user.name = none → ∀ uid primary',
        splitOnce ':' user.requested = some (uid, primary') → primary' ≠ "-".toList ∧
          ∀ gid, parseUnsigned 32 primary' = some gid → HasGroup s gid) ↔
        primary ≠ "-".toList ∧ ∀ gid, parseUnsigned 32 primary = some gid → HasGroup s gid := by
      refine ⟨fun h => h hnone _ _ hsplit, fun h _ uid primary' hsplit' => ?_⟩
      cases hsplit.symm.trans hsplit'
      exact h
    rw [hrooted]
    cases hgid with
    | allocated hdash hid =>
      refine iff_of_false (fun h => ?_) fun h => h.1 hdash
      obtain ⟨⟨low, high⟩, hrange, hlast⟩ := hr
      have hlt := ((allocateId_ok_iff hrange).mp hid).2.1.trans_lt hlast
      exact not_hasGroup_allocated ⟨_, hrange, hlast⟩ hid
        (h gid (parseUnsigned_print.mpr ⟨rfl, hlt⟩))
    | given hid =>
      have hdash : primary ≠ "-".toList := by
        rintro rfl
        cases hid
      rw [and_iff_right hdash]
      constructor
      · intro h other hother
        exact h other (parseUnsigned_print.mpr
          ⟨Option.some_inj.mp (hid.symm.trans hother), parseUnsigned_lt hid⟩)
      · intro h other hother
        obtain ⟨rfl, -⟩ := parseUnsigned_print.mp hother
        exact h gid hid
    | found hdash hnumber hfound hid =>
      refine iff_of_true (fun other hother => ?_) ⟨hdash, fun other hother => ?_⟩
      · obtain ⟨rfl, -⟩ := parseUnsigned_print.mp hother
        exact hasGroup_of_find hfound hid
      · cases hnumber.symm.trans hother
  | joined hsplit hfound hid _ =>
    refine iff_of_true ((anchored_withUser hname hs).mpr fun other hother => ?_) ?_
    · obtain ⟨rfl, -⟩ := parseUnsigned_print.mp hother
      exact hasGroup_of_find hfound hid
    · intro _ uid primary hsplit'
      cases hsplit.symm.trans hsplit'
  | made hsplit _ _ =>
    have hmid : Anchored (withGroup s user.name id) :=
      anchored_mono hs rfl fun gid hgid => (hasGroup_withGroup hname).mpr (.inl hgid)
    refine iff_of_true ((anchored_withUser hname hmid).mpr fun other hother => ?_) ?_
    · exact (hasGroup_withGroup hname).mpr (.inr hother)
    · intro _ uid primary hsplit'
      cases hsplit.symm.trans hsplit'

/-- A directive keeps the primary groups exactly if it names one that is there, or none. -/
theorem applied_anchored {d : Directive} (hr : Ranged s) (hs : Anchored s) (h : Applied sys s d t) :
    Anchored t ↔ Rooted s d := by
  cases h with
  | @range fields range hfields hdash hrange =>
    refine iff_of_true hs fun user huser => ?_
    have hnone : userOf ⟨.range, fields⟩ = none := by cases fields <;> rfl
    cases hnone.symm.trans huser
  | @group fields id t hfields hname hgroup =>
    refine iff_of_true (ensureGroup_anchored (validName_ok hname) hs hgroup) fun user huser => ?_
    have hnone : userOf ⟨.group, fields⟩ = none := by cases fields <;> rfl
    cases hnone.symm.trans huser
  | @user locked name requested rest id t hlength hname huser =>
    refine (ensureUser_anchored (validName_ok hname) hr hs huser).trans ?_
    constructor
    · intro h user huser
      cases huser
      exact h
    · exact fun h => h _ rfl
  | @member user group uid gid t u hname hgroup huser hensure =>
    have hsplit : splitOnce ':' "-".toList = none := rfl
    have ht : Anchored t := (ensureUser_anchored (validName_ok hname) hr hs huser).mpr
      fun _ uid primary h => by cases h
    have hu : Anchored u := ensureGroup_anchored (validName_ok hgroup) ht hensure
    have hvalid := validName_ok hname
    have hne : user ≠ [] := by
      rintro rfl
      cases hname
    refine iff_of_true (anchored_mono hu rfl fun gid hgid => ?_) fun other hother _ uid primary h => ?_
    · rw [hasGroup_iff] at hgid ⊢
      rwa [ids_addMemberTo hvalid hne]
    · cases hother
      cases h

variable {etc : Etc} {ds : List Directive}

theorem run_anchored (hr : Ranged s) (hs : Anchored s)
    (h : ds.forM (apply sys) s = .ok () t) :
    (∀ n, Anchored (final ((ds.take n).forM (apply sys)) s)) ↔
      ∀ n d, ds[n]? = some d → Rooted (final ((ds.take n).forM (apply sys)) s) d := by
  induction ds generalizing s with
  | nil => exact iff_of_true (fun n => by rw [List.take_nil]; exact hs) (by simp)
  | cons d ds ih =>
    obtain ⟨_, mid, hmid, h⟩ := bind_ok.mp h
    have hstep := applied_anchored hr hs (apply_cases sys hmid)
    have hmid' : Ranged mid := by
      have hkeeps := apply_keeps sys d s hr
      rw [hmid] at hkeeps
      exact hkeeps
    have hrest : ∀ n, final (((d :: ds).take (n + 1)).forM (apply sys)) s =
        final ((ds.take n).forM (apply sys)) mid := by
      intro n
      have hrun : ((d :: ds).take (n + 1)).forM (apply sys) s = (ds.take n).forM (apply sys) mid :=
        bind_of_ok hmid
      rw [final, final, hrun]
    constructor
    · intro hall
      have hanchored : Anchored mid := by
        have := hall 1
        rwa [hrest 0] at this
      have hnext := (ih hmid' hanchored h).mp fun n => hrest n ▸ hall (n + 1)
      intro n d' hd'
      cases n with
      | zero =>
        cases hd'
        exact hstep.mp hanchored
      | succ n =>
        rw [hrest]
        exact hnext n d' hd'
    · intro hall
      have hanchored := hstep.mpr (hall 0 d rfl)
      have hnext := (ih hmid' hanchored h).mpr fun n d' hd' => hrest n ▸ hall (n + 1) d' hd'
      intro n
      cases n with
      | zero => exact hs
      | succ n =>
        rw [hrest]
        exact hnext n

/-- In a run that succeeds, the primary groups are always there exactly if each directive that makes
a user and names its primary group names one that is there. -/
theorem anchored_iff_rooted (hs : Anchored (.load etc))
    (h : succeeds (ds.forM (apply sys)) (.load etc)) :
    (∀ n, Anchored (stateAfter sys etc ds n)) ↔
      ∀ n d, ds[n]? = some d → Rooted (stateAfter sys etc ds n) d :=
  run_anchored (load_ranged etc) hs (ok_final h)

end

/-- A user whose primary group is that of root. -/
def inRoot : List Directive := [⟨.user false, ["demo".toList, "500:0".toList]⟩]

theorem rootOnly_anchored : Anchored (.load rootOnly) := by
  intro line hline gid hgid
  rw [List.mem_singleton.mp (show line ∈ ["root:x:0:0::/root:/bin/sh".toList] from hline)] at hgid
  cases hgid
  exact ⟨"root:x:0:".toList, List.mem_cons_self, rfl⟩

theorem anchored_iff_rooted_inRoot : (∀ n, Anchored (stateAfter plainSystem rootOnly inRoot n)) ↔
    ∀ n d, inRoot[n]? = some d → Rooted (stateAfter plainSystem rootOnly inRoot n) d :=
  anchored_iff_rooted rootOnly_anchored (by decide)

/-- A user whose primary group has a number that no group has. -/
def inNone : List Directive := [⟨.user false, ["demo".toList, "500:600".toList]⟩]

/-- The group is not made. -/
theorem primary_group_dangles : Anchored (.load rootOnly) ∧
    succeeds (inNone.forM (apply plainSystem)) (.load rootOnly) ∧
    ¬ Anchored (final (inNone.forM (apply plainSystem)) (.load rootOnly)) := by
  refine ⟨rootOnly_anchored, by decide, fun h => ?_⟩
  have hline : "demo:x:500:600::/:/usr/sbin/nologin".toList ∈
      (final (inNone.forM (apply plainSystem)) (.load rootOnly)).passwd.lines := by decide
  obtain ⟨line, hmem, hid⟩ := h _ hline 600 (by decide)
  have hgroups : (final (inNone.forM (apply plainSystem)) (.load rootOnly)).group.lines =
    ["root:x:0:".toList] := by decide
  rw [hgroups, List.mem_singleton] at hmem
  rw [hmem] at hid
  cases hid

end FractalD.Sysusers.PrimaryGroups
