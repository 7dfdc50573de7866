import FractalD.Tmpfiles.Journal

namespace FractalD.Tmpfiles.Sparing

open FractalD.Machine.CString FractalD.Machine.FileTree FractalD.Machine.PathWalk
open FractalD.Machine.FileCalls FractalD.Machine.FileRemoval FractalD.Machine.Effect
open FractalD.Machine.Text FractalD.Platform FractalD.Platform.Accounts FractalD.Tmpfiles.Globs FractalD.Tmpfiles.Rules FractalD.Tmpfiles.Executor
open FractalD.Tmpfiles.Expansion FractalD.Tmpfiles.Journal

/-- What a call takes away is the node at a match of the pattern, and has nothing below it. -/
def Spared (cwd : Location) (pattern : Path) (c : Change) : Prop :=
  ∀ l, Gone c l → Matched pattern c.path ∧ found cwd false c.path c.before = .ok l ∧
    ∀ n, c.before.lookup (l ++ [n]) = none

section

variable {os : Os} {pattern p : Path} {t t₀ : Node} {i : World → Prop}

theorem spared_of_takesLeaf {operation : Operation} {after : Node}
    (hm : Matched pattern p) (h : TakesLeaf os.cwd p t after) :
    Spared os.cwd pattern ⟨operation, p, t, after⟩ := by
  rintro l ⟨hbefore, hafter⟩
  refine ⟨hm, ?_⟩
  rcases h with h | ⟨l', n, hf, hl, hempty, h⟩
  · exact absurd (h ▸ hafter) hbefore
  · have hprefix : l' <+: l := by
      by_contra hl'
      exact h.stays l hl' hbefore hafter
    obtain ⟨q, rfl⟩ := hprefix
    cases q with
    | nil =>
      rw [List.append_nil]
      exact ⟨hf, fun c => lookup_below_leaf hl hempty []⟩
    | cons c q => exact absurd (lookup_below_leaf hl hempty q) hbefore

/-- A removal that is not recursive takes nothing but matches with nothing below them. -/
theorem ends_nonrecursive :
    Ends (fun _ => Journaled (fun _ => True) (Spared os.cwd p))
      (fun _ => Journaled (fun _ => True) (Spared os.cwd p))
      (removeMatches os p false (fresh t)) := by
  apply ends_removeMatches (journaled_fresh trivial)
  intro ms hms m hm
  apply preserves_removeOne
  intro w operation after hw hr
  rcases hr with h | ⟨h, -⟩
  · exact journaled_record hw trivial (spared_of_takesLeaf (removalPaths_matched hms m hm) h)
  · cases h

/-- The path itself, not what a link there points to, is a directory with entries. -/
def FullDir (cwd : Location) (p : Path) (t : Node) : Prop :=
  ∃ n, lstat cwd p t = .ok n ∧ n.entries ≠ []

theorem removeDirAll_takesLeaf {stamp : Int} {l : Location} {n : Node}
    (hf : found os.cwd false p t = .ok l) (hl : t.lookup l = some n) (hempty : n.entries = []) :
    TakesLeaf os.cwd p t (final (removeDirAll os.cwd stamp p) t) := by
  cases n with
  | dir a es =>
    obtain rfl : es = [] := hempty
    have hself : t.update (clear stamp) l = t := Node.update_self hl rfl
    have hfinal : final (removeDirAll os.cwd stamp p) t =
        final (removeDir os.cwd stamp p) t := by
      simp only [final, removeDirAll, hf, hl, hself]
    rw [hfinal]
    exact removeDir_takesLeaf os.cwd stamp p t
  | link a target =>
    have hfinal : final (removeDirAll os.cwd stamp p) t =
        final (removeFile os.cwd stamp p) t := by
      simp only [final, removeDirAll, hf, hl]
    rw [hfinal]
    exact removeFile_takesLeaf os.cwd stamp p t
  | file | special => exact .inl (by simp only [final, removeDirAll, hf, hl])

theorem lookup_entry {n : Node} {l : Location} {c : Name} {k : Node} {es : List (Name × Node)}
    (hl : t.lookup l = some n) (hn : n.entries = (c, k) :: es) : t.lookup (l ++ [c]) = some k := by
  rw [Node.lookup_append, hl]
  cases n with
  | dir a es' =>
    obtain rfl : es' = (c, k) :: es := hn
    simp [Node.lookup_dir_cons]
  | file | link | special => cases hn

/-- In what is left of a tree where a path is no directory with entries, it is none either. -/
theorem takesLeaf_of_removes {recursive : Bool} {after : Node} (hrem : Remains t t₀)
    (hfull : ¬ FullDir os.cwd p t₀) (h : Removes os recursive p t after) :
    TakesLeaf os.cwd p t after := by
  rcases h with h | ⟨-, rfl, n, hn, -⟩
  · exact h
  · obtain ⟨l, hf, hl⟩ := lstat_ok.mp hn
    have hempty : n.entries = [] := by
      cases hes : n.entries with
      | nil => rfl
      | cons e es =>
        obtain ⟨m, hm, -⟩ := hrem l n hl
        obtain ⟨k, hk, -⟩ := hrem _ _ (lookup_entry hl hes)
        have hnone : m.entries = [] := by
          by_contra hne
          exact hfull ⟨m, lstat_ok.mpr ⟨l, found_remains hrem hf, hm⟩, hne⟩
        rw [lookup_below_leaf hm hnone []] at hk
        cases hk
    exact removeDirAll_takesLeaf hf hl hempty

theorem remains_of_takesLeaf {after : Node} (h : TakesLeaf os.cwd p t after) : Remains after t := by
  rcases h with rfl | ⟨_, _, -, -, -, h⟩
  · exact Remains.refl _
  · exact h.remains

theorem ends_recursive
    (hfull : ∀ ms, removalPaths os p t = .ok ms → ∀ m ∈ ms, ¬ FullDir os.cwd m t) :
    Ends (fun _ => Journaled (Remains · t) (Spared os.cwd p))
      (fun _ => Journaled (Remains · t) (Spared os.cwd p))
      (removeMatches os p true (fresh t)) := by
  have hfresh : Journaled (Remains · t) (Spared os.cwd p) (fresh t) :=
    journaled_fresh (Remains.refl t)
  apply ends_removeMatches hfresh
  intro ms hms m hm
  apply preserves_removeOne
  intro w operation after hw hr
  have hleaf := takesLeaf_of_removes hw.1 (hfull ms hms m hm) hr
  exact journaled_record hw ((remains_of_takesLeaf hleaf).trans hw.1)
    (spared_of_takesLeaf (removalPaths_matched hms m hm) hleaf)

theorem pathIsDir_iff : pathIsDir os.cwd p t = true ↔ ∃ n, stat os.cwd p t = .ok n ∧ n.isDir := by
  unfold pathIsDir
  cases stat os.cwd p t <;> simp

theorem readDir_of_pathIsDir (h : pathIsDir os.cwd p t = true) :
    ∃ entries, readDir os.cwd p t = .ok entries := by
  obtain ⟨n, hs, hn⟩ := pathIsDir_iff.mp h
  exact ⟨_, by rw [readDir, hs]; exact if_pos hn⟩

theorem takesLeaf_of_noDir {recursive : Bool} {after : Node} (hdir : pathIsDir os.cwd p t = false)
    (h : Removes os recursive p t after) : TakesLeaf os.cwd p t after := by
  rcases h with h | ⟨-, -, n, hn, hndir⟩
  · exact h
  · obtain ⟨l, hf, hl⟩ := lstat_ok.mp hn
    have hstat := stat_ok.mpr ⟨l, found_follow hf hl (Node.isLink_of_isDir hndir), hl⟩
    rw [pathIsDir_iff.mpr ⟨n, hstat, hndir⟩] at hdir
    cases hdir

theorem ends_cleanOne {options : Options} {age : Nat} (hdir : pathIsDir os.cwd p t = false) :
    Ends (fun _ => Journaled (fun _ => True) (Spared os.cwd p))
      (fun _ => Journaled (fun _ => True) (Spared os.cwd p))
      (cleanOne options os age p (fresh t)) := by
  have hfresh : Journaled (fun _ => True) (Spared os.cwd p) (fresh t) := journaled_fresh trivial
  unfold cleanOne
  rw [query_bind]
  split
  · apply ends_removing (silent_journaled _ _) hfresh
    intro _
    apply ends_of_final
    rcases final_removeOne os true p (fresh t) with h | ⟨operation, after, h, hr⟩
    · rw [h]
      exact hfresh
    · rw [h]
      exact journaled_record hfresh trivial
        (spared_of_takesLeaf (matched_refl p) (takesLeaf_of_noDir hdir hr))
  · exact hfresh

theorem ends_cleanEntries {options : Options} {age : Nat} {names : List Name}
    (hold : options.dryRun = false → ∀ c ∈ names, olderThan os (p.child c) age t = false) :
    Ends (fun _ => Journaled (· = t) (Spared os.cwd p))
      (fun _ => Journaled (· = t) (Spared os.cwd p))
      (names.forM (fun c => cleanOne options os age (p.child c)) (fresh t)) := by
  refine ends_forM (fun c hc w hw => ?_) (journaled_fresh rfl)
  unfold cleanOne
  rw [query_bind]
  split
  next h =>
    refine ends_removing (silent_journaled _ _) hw fun hdry => ?_
    rw [hw.1, hold hdry c hc] at h
    cases h
  · exact hw

theorem exists_entry {n : Node} (h : n.entries ≠ []) : ∃ c k es, n.entries = (c, k) :: es := by
  cases hes : n.entries with
  | nil => exact absurd hes h
  | cons e es => exact ⟨e.1, e.2, es, rfl⟩

theorem gone_of_full (os : Os) (operation : Operation) {n : Node} (hn : lstat os.cwd p t = .ok n)
    (hfull : n.entries ≠ []) :
    ∃ l c, found os.cwd false p t = .ok l ∧
      Gone ⟨operation, p, t, removed os p n t⟩ (l ++ [c]) := by
  obtain ⟨l, hf, hl⟩ := lstat_ok.mp hn
  obtain ⟨c, k, es, hes⟩ := exists_entry hfull
  refine ⟨l, c, hf, by rw [lookup_entry hl hes]; simp, ?_⟩
  cases n with
  | dir a es' => exact removeDirAll_below hf hl []
  | file | link | special => cases hes

theorem lstat_of_entry {d : Location} {c : Name} {n : Node}
    (he : entryOf os.cwd p t = .ok (d, c, n)) : lstat os.cwd p t = .ok n := by
  obtain ⟨hf, hl⟩ := entryOf_ok he
  exact lstat_ok.mpr ⟨_, hf, hl⟩

/-- The removal of a node of a directory takes something. -/
theorem gone_of_entry (os : Os) (operation : Operation) {d : Location} {c : Name} {n : Node}
    (he : entryOf os.cwd p t = .ok (d, c, n)) :
    ∃ l, Gone ⟨operation, p, t, removed os p n t⟩ l := by
  obtain ⟨-, hl⟩ := entryOf_ok he
  by_cases hempty : n.entries = []
  · refine ⟨d ++ [c], by simp [hl], ?_⟩
    have hafter : removed os p n t = t.update (removeEntry (os.stamp p) c) d := by
      cases n with
      | dir a es =>
        obtain rfl : es = [] := hempty
        exact final_of_ok (removeDirAll_empty he)
      | file | link | special => exact final_of_ok (unlink_of_entry he rfl)
    change (removed os p n t).lookup (d ++ [c]) = none
    rw [hafter]
    exact lookup_removed t d []
  · obtain ⟨l, c, -, hgone⟩ := gone_of_full os operation (lstat_of_entry he) hempty
    exact ⟨l ++ [c], hgone⟩

theorem entry_of_listed {entries : List Name} {c : Name}
    (hr : readDir os.cwd p t = .ok entries) (hc : c ∈ entries) (hnul : (p.child c).hasNul = false) :
    ∃ d n, found os.cwd true p t = .ok d ∧ entryOf os.cwd (p.child c) t = .ok (d, c, n) := by
  obtain ⟨a, es, hs, rfl⟩ := readDir_ok.mp hr
  obtain ⟨d, hf, hd⟩ := stat_ok.mp hs
  obtain ⟨⟨c', k⟩, hmem, rfl⟩ := List.mem_map.mp hc
  have hlook : es.lookup c' ≠ none := by
    rw [Ne, List.lookup_eq_none_iff]
    intro h
    simpa using h _ hmem
  obtain ⟨n, hn⟩ := Option.ne_none_iff_exists'.mp hlook
  have hlookup : t.lookup (d ++ [c']) = some n := by
    rw [Node.lookup_append, hd]
    simp [Node.lookup_dir_cons, hn]
  exact ⟨d, n, hf, entryOf_child hf hlookup hnul⟩

theorem hasNul_of_found {follow : Bool} {l : Location} (h : found os.cwd follow p t = .ok l) :
    p.hasNul = false := by
  by_contra hnul
  unfold found locate at h
  rw [if_pos (by simpa using hnul)] at h
  cases h

theorem entry_of_old {entries : List Name} {c : Name} {age : Nat}
    (hr : readDir os.cwd p t = .ok entries) (hc : c ∈ entries)
    (hold : olderThan os (p.child c) age t = true) :
    ∃ d n, found os.cwd true p t = .ok d ∧ entryOf os.cwd (p.child c) t = .ok (d, c, n) := by
  cases hs : stat os.cwd (p.child c) t with
  | ok n =>
    obtain ⟨l, hl, -⟩ := stat_ok.mp hs
    exact entry_of_listed hr hc (hasNul_of_found hl)
  | error e => simp [olderThan, hs] at hold

end

/-- The system, where directories list their entries in another order. -/
def arranged (os : Os) (arrange : Arrangement) : Os := { os with arrange := arrange }

@[simp]
theorem cwd_arranged (os : Os) (arrange : Arrangement) : (arranged os arrange).cwd = os.cwd := rfl

theorem removalPaths_arranged (arrange : Arrangement) {os : Os} {p : Path} {t : Node}
    {ms : List Path} (h : removalPaths os p t = .ok ms) :
    ∃ ms', removalPaths (arranged os arrange) p t = .ok ms' ∧ ∀ m, m ∈ ms' ↔ m ∈ ms := by
  unfold removalPaths at h ⊢
  split
  next hw =>
    rw [if_pos hw] at h
    exact expandGlob_arrange arrange h
  next hw =>
    rw [if_neg hw] at h
    exact ⟨ms, h, fun _ => .rfl⟩

theorem removalPaths_first {os : Os} {p m : Path} {t : Node} {ms : List Path}
    (h : removalPaths os p t = .ok ms) (hm : m ∈ ms) :
    ∃ arrange rest, removalPaths (arranged os arrange) p t = .ok (m :: rest) := by
  by_cases hw : hasWildcard p
  · rw [removalPaths, if_pos hw] at h
    obtain ⟨ns, rfl, -⟩ := expandGlob_fits h m hm
    obtain ⟨ms', hms', hsame⟩ := expandGlob_arrange (favouring ns) h
    have hhead := expandGlob_favouring hms' ((hsame _).mpr hm)
    obtain ⟨rest, rfl⟩ := List.head?_eq_some_iff.mp hhead
    exact ⟨favouring ns, rest, by rw [removalPaths, if_pos hw]; exact hms'⟩
  · rw [removalPaths, if_neg hw] at h
    cases h
    rw [List.mem_singleton.mp hm]
    exact ⟨.plain, [], by rw [removalPaths, if_neg hw]⟩

def target (a : Application) : Except Str Path :=
  resolvePath a.options (expandSpecifiers a.os.specifiers a.rule.path)

/-- What the rule does if directories list their entries in another order. -/
def changesIn (arrange : Arrangement) (a : Application) : List Change :=
  changes (apply a.options (arranged a.os arrange) a.rule a.action) a.tree

/-- In whatever order directories list their entries, the rule takes away nothing but matches
of its path, and none that has something below it. -/
def SparesContents (a : Application) : Prop :=
  ∀ arrange p, target a = .ok p → ∀ c ∈ changesIn arrange a, Spared a.os.cwd p c

/-- Nothing that the rule is to remove is a directory with entries, and nothing in a directory
that it is to clean is old. -/
def NothingBelow (a : Application) : Prop :=
  a.options.dryRun = true ∨ ∀ p, target a = .ok p →
    match a.action with
    | .remove => ∀ ms, removalPaths a.os p a.tree = .ok ms → ∀ m ∈ ms, ¬ FullDir a.os.cwd m a.tree
    | .clean =>
      ∀ age entries, a.rule.age = some age → readDir a.os.cwd p a.tree = .ok entries →
        ∀ c ∈ entries, olderThan a.os (p.child c) age a.tree = false
    | .create | .purge | .catConfig | .tldr => True

section

variable {a : Application} {p : Path} {arrange : Arrangement}

theorem changesIn_of_target (hkind : a.rule.kind ∉ idleKinds) (hp : target a = .ok p) :
    changesIn arrange a =
      changes (act a.options (arranged a.os arrange) a.rule a.action p) a.tree := by
  have hp' : resolvePath a.options
      (expandSpecifiers (arranged a.os arrange).specifiers a.rule.path) = .ok p := hp
  unfold changesIn apply
  rw [if_neg hkind, hp']

theorem changesIn_create (hkind : a.rule.kind = 'r') (haction : a.action = .create)
    (hp : target a = .ok p) :
    changesIn arrange a =
      changes (removing a.options (arranged a.os arrange) "remove" p
        (removeMatches (arranged a.os arrange) p false)) a.tree := by
  rw [changesIn_of_target (by rw [hkind]; decide) hp, haction]
  simp [act, create, hkind]

theorem changesIn_remove (hkind : a.rule.kind = 'r') (haction : a.action = .remove)
    (hp : target a = .ok p) :
    changesIn arrange a =
      changes (removing a.options (arranged a.os arrange) "remove" p
        (removeMatches (arranged a.os arrange) p true)) a.tree := by
  rw [changesIn_of_target (by rw [hkind]; decide) hp, haction]
  simp [act, remove, hkind]

theorem changesIn_clean (hkind : a.rule.kind = 'r') (haction : a.action = .clean)
    (hp : target a = .ok p) :
    changesIn arrange a = changes (clean a.options (arranged a.os arrange) a.rule p) a.tree := by
  rw [changesIn_of_target (by rw [hkind]; decide) hp, haction]
  rfl

theorem spares_clean {options : Options} {os : Os} {rule : Rule} {t : Node}
    (hold : options.dryRun = false → ∀ age entries, rule.age = some age →
      readDir os.cwd p t = .ok entries → ∀ c ∈ entries, olderThan os (p.child c) age t = false) :
    ∀ c ∈ changes (clean options os rule p) t, Spared os.cwd p c := by
  cases hage : rule.age with
  | none =>
    have hclean : clean options os rule p = pure ⟨⟩ := by simp [clean, hage]
    rw [hclean]
    exact fun c hc => absurd hc List.not_mem_nil
  | some age =>
    cases hdir : pathIsDir os.cwd p t with
    | false =>
      apply journaled_changes
      rw [clean_other (w := fresh t) hage hdir]
      exact ends_cleanOne hdir
    | true =>
      obtain ⟨entries, hr⟩ := readDir_of_pathIsDir hdir
      apply journaled_changes
      rw [clean_dir (w := fresh t) hage hr]
      refine ends_cleanEntries fun hdry c hc => hold hdry age entries hage hr c ?_
      exact (os.arrange.perm p entries).mem_iff.mp hc

theorem spares_of_nothingBelow (hkind : a.rule.kind = 'r') (h : NothingBelow a) :
    SparesContents a := by
  intro arrange p hp
  have hcondition := fun (hdry : a.options.dryRun = false) =>
    h.resolve_left (by simp [hdry]) p hp
  cases haction : a.action with
  | create =>
    rw [changesIn_create hkind haction hp]
    apply journaled_changes
    exact ends_removing (silent_journaled _ _) (journaled_fresh trivial) fun _ => ends_nonrecursive
  | remove =>
    rw [haction] at hcondition
    rw [changesIn_remove hkind haction hp]
    apply journaled_changes
    have hfresh : Journaled (Remains · a.tree) (Spared a.os.cwd p) (fresh a.tree) :=
      journaled_fresh (Remains.refl a.tree)
    refine ends_removing (silent_journaled _ _) hfresh fun hdry => ?_
    apply ends_recursive
    intro ms hms m hm
    obtain ⟨ms', hms', hsame⟩ := removalPaths_arranged a.os.arrange hms
    exact hcondition hdry ms' hms' m ((hsame m).mpr hm)
  | clean =>
    rw [haction] at hcondition
    rw [changesIn_clean hkind haction hp]
    exact spares_clean hcondition
  | purge =>
    rw [changesIn_of_target (by rw [hkind]; decide) hp, haction]
    have hact : act a.options (arranged a.os arrange) a.rule .purge p = pure ⟨⟩ := by
      simp [act, purge, hkind]
    rw [hact]
    exact fun c hc => absurd hc List.not_mem_nil
  | catConfig | tldr =>
    rw [changesIn_of_target (by rw [hkind]; decide) hp, haction]
    exact fun c hc => absurd hc List.not_mem_nil

/-- If directories list first what is on the way to a directory with entries, its removal is
the first call. -/
theorem not_spares_full {ms : List Path} {m : Path} (hkind : a.rule.kind = 'r')
    (haction : a.action = .remove) (hp : target a = .ok p) (hdry : a.options.dryRun = false)
    (hms : removalPaths a.os p a.tree = .ok ms) (hm : m ∈ ms)
    (hfull : FullDir a.os.cwd m a.tree) : ¬ SparesContents a := by
  intro h
  obtain ⟨arrange, rest, hfirst⟩ := removalPaths_first hms hm
  obtain ⟨n, hn, hentries⟩ := hfull
  obtain ⟨operation, hone⟩ := records_removeOne (w := fresh a.tree) hn
  have hrecords := records_removeMatches (w := fresh a.tree) hfirst hone
  obtain ⟨l, c, hf, hgone⟩ := gone_of_full (arranged a.os arrange) operation hn hentries
  have hmem : (⟨operation, m, a.tree, removed (arranged a.os arrange) m n a.tree⟩ : Change) ∈
      changesIn arrange a := by
    rw [changesIn_remove hkind haction hp]
    exact mem_changes (records_removing hdry hrecords)
  obtain ⟨-, hl, -⟩ := h arrange p hp _ hmem _ hgone
  have heq : l = l ++ [c] := Except.ok.inj (hf.symm.trans hl)
  simp at heq

theorem not_spares_old {age : Nat} {entries : List Name} {c : Name} (hkind : a.rule.kind = 'r')
    (haction : a.action = .clean) (hp : target a = .ok p) (hdry : a.options.dryRun = false)
    (hage : a.rule.age = some age) (hr : readDir a.os.cwd p a.tree = .ok entries)
    (hc : c ∈ entries) (hold : olderThan a.os (p.child c) age a.tree = true) :
    ¬ SparesContents a := by
  intro h
  let arrange := favouring (List.replicate (p.segments.length + 1) c)
  have horder : arrange.order p entries = c :: entries.erase c :=
    order_favouring (by simp) hc
  obtain ⟨d, n, -, he⟩ := entry_of_old hr hc hold
  obtain ⟨operation, hmem⟩ :=
    mem_changes_clean (arranged a.os arrange) hdry hage hr horder hold (lstat_of_entry he)
  rw [← changesIn_clean hkind haction hp] at hmem
  obtain ⟨l, hgone⟩ := gone_of_entry (arranged a.os arrange) operation he
  exact not_matched_child c (h arrange p hp _ hmem l hgone).1

theorem sparesContents_iff (hkind : a.rule.kind = 'r') : SparesContents a ↔ NothingBelow a := by
  refine ⟨fun h => ?_, spares_of_nothingBelow hkind⟩
  cases hdry : a.options.dryRun with
  | true => exact .inl hdry
  | false =>
    refine .inr fun p hp => ?_
    cases haction : a.action with
    | remove =>
      intro ms hms m hm hfull
      exact not_spares_full hkind haction hp hdry hms hm hfull h
    | clean =>
      intro age entries hage hr c hc
      by_contra hold
      exact not_spares_old hkind haction hp hdry hage hr hc (by simpa using hold) h
    | create | purge | catConfig | tldr => trivial

/-- The world after some runs of the program, whether they succeed or not. -/
def after (invocations : List Invocation) (w : World) : World :=
  invocations.foldl (fun w i => final (run i) w) w

/-- Of the rules for removal that are applied in the course of any runs, those spare contents
that find nothing below what they are to remove. -/
theorem removals_spare_contents_iff (invocations : List Invocation) (t : Node) :
    (∀ a ∈ (after invocations (fresh t)).applied, a.rule.kind = 'r' → SparesContents a) ↔
      ∀ a ∈ (after invocations (fresh t)).applied, a.rule.kind = 'r' → NothingBelow a :=
  forall₂_congr fun _ _ => imp_congr_right sparesContents_iff

theorem applied_of_line {durations : Durations} {options : Options} {file : ConfigurationFile}
    {source line : Str} {rule : Rule} {t : Node} (hsource : file.source = .ok source)
    (hlines : textLines source = [line]) (hparse : parseRule durations line = .ok (some rule))
    (hforce : rule.force = false) (hselected : selected options rule.path = true)
    (hkeeps : ∀ a, Preserves (fun w => a ∈ w.applied)
      (apply options (file.os 0) rule .remove)) :
    ⟨options, file.os 0, rule, .remove, t⟩ ∈
      (after [⟨durations, options, .remove, [file]⟩] (fresh t)).applied := by
  let w : World := { fresh t with applied := [⟨options, file.os 0, rule, .remove, t⟩] }
  have hline : processLine durations options .remove file 0 line (fresh t) =
      EStateM.adaptExcept (located file 0) (apply options (file.os 0) rule .remove) w := by
    unfold processLine
    rw [hparse]
    simp only [hforce, Bool.false_eq_true, false_and, if_false, hselected, not_true_eq_false]
    rfl
  have hends : Ends (fun _ w => ⟨options, file.os 0, rule, .remove, t⟩ ∈ w.applied)
      (fun _ w => ⟨options, file.os 0, rule, .remove, t⟩ ∈ w.applied)
      (processLine durations options .remove file 0 line (fresh t)) := by
    have h := hkeeps ⟨options, file.os 0, rule, .remove, t⟩ w (List.mem_singleton_self _)
    rw [hline, EStateM.adaptExcept]
    cases hr : apply options (file.os 0) rule .remove w with
    | ok u w' =>
      rw [hr] at h
      exact h
    | error e w' =>
      rw [hr] at h
      exact h
  have hfile : processFile durations options .remove file =
      (processLine durations options .remove file 0 line >>= fun _ => pure ⟨⟩) := by
    unfold processFile
    rw [hsource]
    change List.forM (textLines source).zipIdx _ = _
    rw [hlines]
    rfl
  have hrun : run ⟨durations, options, .remove, [file]⟩ =
      (processFile durations options .remove file >>= fun _ => pure ⟨⟩) := rfl
  change _ ∈ (final (run ⟨durations, options, .remove, [file]⟩) (fresh t)).applied
  rw [hrun, hfile]
  exact ends_final (ends_alone (ends_alone hends))

theorem keeps_remove {options : Options} {os : Os} {rule : Rule} (hkind : rule.kind = 'r')
    (a : Application) : Preserves (fun w => a ∈ w.applied) (apply options os rule .remove) := by
  unfold apply
  refine preserves_ite (fun _ => preserves_pure _) fun _ => ?_
  cases resolvePath options (expandSpecifiers os.specifiers rule.path) with
  | error message => exact preserves_throw message
  | ok p =>
    have hact : act options os rule .remove p =
        removing options os "remove" p (removeMatches os p true) := by
      simp [act, remove, hkind]
    intro w hw
    dsimp only
    rw [hact]
    refine ends_removing (fun _ _ ha => ha) hw fun _ => ends_removeMatches hw fun _ _ m _ => ?_
    exact preserves_removeOne fun _ _ _ ha _ => ha

end

def data : Name := ⟨"data".toList, by decide⟩
def kept : Name := ⟨"kept".toList, by decide⟩

def since (modified : Int) : Attributes := ⟨modified, 0o755, none, none⟩

/-- A directory with a file. -/
def demoTree : Node :=
  .dir (since 0) [(srv, .dir (since 0) [(data, .dir (since 0) [(kept, .file (since 50) [])])])]

def demoOptions : Options := ⟨none, [], [], false, false, false⟩

def demoRule : Rule := ⟨'r', false, "/srv/data".toList, none, none, none, none, none⟩

def demoFile : ConfigurationFile :=
  ⟨"demo.conf".toList, .ok "r /srv/data\n".toList, fun _ => plainOs⟩

/-- A run that removes what a rule of the kind that is not recursive names. -/
def demoRun : Invocation := ⟨wholeNumbers, demoOptions, .remove, [demoFile]⟩

def demoPath : Path := ⟨true, [.name srv, .name data], false⟩

/-- The directory is removed with the file in it. -/
theorem removal_takes_contents :
    ((after [demoRun] (fresh demoTree)).tree.lookup [srv, data]).isNone ∧
    ∃ a ∈ (after [demoRun] (fresh demoTree)).applied, a.rule.kind = 'r' ∧ ¬ SparesContents a := by
  refine ⟨by decide +kernel, ⟨demoOptions, plainOs, demoRule, .remove, demoTree⟩, ?_, rfl, ?_⟩
  · have hparse : parseRule wholeNumbers "r /srv/data".toList = .ok (some demoRule) := by
      decide +kernel
    have hlines : textLines "r /srv/data\n".toList = ["r /srv/data".toList] := by
      decide +kernel
    have hselected : selected demoOptions demoRule.path = true := by decide +kernel
    exact applied_of_line rfl hlines hparse rfl hselected (keeps_remove rfl)
  · have hp : target ⟨demoOptions, plainOs, demoRule, .remove, demoTree⟩ = .ok demoPath := by
      decide +kernel
    have hms : removalPaths plainOs demoPath demoTree = .ok [demoPath] := by decide +kernel
    refine not_spares_full rfl rfl hp rfl hms (List.mem_singleton_self _) ?_
    exact ⟨.dir (since 0) [(kept, .file (since 50) [])], by rfl, by simp [Node.entries]⟩

end FractalD.Tmpfiles.Sparing
