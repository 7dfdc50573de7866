import FractalD.Tmpfiles.Sparing

namespace FractalD.Tmpfiles.Aging

open FractalD.Machine.CString FractalD.Machine.FileTree FractalD.Machine.PathWalk
open FractalD.Machine.FileCalls FractalD.Machine.FileRemoval FractalD.Machine.Effect
open FractalD.Platform FractalD.Tmpfiles.Globs FractalD.Tmpfiles.Rules FractalD.Tmpfiles.Executor
open FractalD.Tmpfiles.Expansion FractalD.Tmpfiles.Journal FractalD.Tmpfiles.Sparing

/-- At that time the node has not been modified for so long. -/
def Aged (age : Nat) (now : Int) (a : Attributes) : Prop := a.modified + age ≤ now

/-- The regular files that a call takes away are old when its path is tested. -/
def TakesAged (os : Os) (age : Nat) (c : Change) : Prop :=
  ∀ l a contents, c.before.lookup l = some (.file a contents) → c.after.lookup l = none →
    Aged age (os.now c.path) a

section

variable {os : Os} {p : Path} {t : Node} {age : Nat}

theorem olderThan_iff :
    olderThan os p age t = true ↔ ∃ n, stat os.cwd p t = .ok n ∧ Aged age (os.now p) n.attributes := by
  unfold olderThan Aged
  cases stat os.cwd p t with
  | error e => simp
  | ok n =>
    simp only [decide_eq_true_eq, Except.ok.injEq, exists_eq_left']
    omega

theorem aged_of_old {l : Location} {n : Node} (hold : olderThan os p age t = true)
    (hf : found os.cwd false p t = .ok l) (hl : t.lookup l = some n) (hlink : n.isLink = false) :
    Aged age (os.now p) n.attributes := by
  obtain ⟨m, hm, haged⟩ := olderThan_iff.mp hold
  have hs := stat_ok.mpr ⟨l, found_follow hf hl hlink, hl⟩
  obtain rfl := Except.ok.inj (hm.symm.trans hs)
  exact haged

theorem takesAged_of_leaf {operation : Operation} {after : Node}
    (hold : olderThan os p age t = true) (h : TakesLeaf os.cwd p t after) :
    TakesAged os age ⟨operation, p, t, after⟩ := by
  intro l a contents hbefore hafter
  have hgone : Gone ⟨operation, p, t, after⟩ l := ⟨by simp [hbefore], hafter⟩
  obtain ⟨-, hf, -⟩ := spared_of_takesLeaf (matched_refl p) h l hgone
  exact aged_of_old hold hf hbefore rfl

/-- What is left while the entries of a directory are removed: only the directory itself, and
directories with nothing in them, may have another time stamp. -/
structure Cleared (d : Location) (before t : Node) : Prop where
  remains : Remains t before
  steady : ∀ l n, l ≠ d → t.lookup l = some n → n.entries ≠ [] →
    (before.lookup l).map Node.face = some n.face

theorem Cleared.refl (d : Location) (t : Node) : Cleared d t t :=
  ⟨Remains.refl t, fun l n _ hn _ => by rw [hn]; rfl⟩

theorem entries_of_below {l : Location} {n : Node} {c : Name} {q : Location}
    (hl : t.lookup l = some n) (h : t.lookup (l ++ c :: q) ≠ none) : n.entries ≠ [] :=
  fun hempty => h (lookup_below_leaf hl hempty q)

theorem below_of_entries {l : Location} {n : Node} (hl : t.lookup l = some n)
    (h : n.entries ≠ []) : ∃ c, t.lookup (l ++ [c]) ≠ none := by
  obtain ⟨c, k, es, hes⟩ := exists_entry h
  exact ⟨c, by rw [lookup_entry hl hes]; simp⟩

theorem Cleared.step {d : Location} {c : Name} {before after : Node} (h : Cleared d before t)
    (hs : Shrinks (d ++ [c]) t after)
    (hbelow : ∀ e q, after.lookup ((d ++ [c]) ++ e :: q) = none) : Cleared d before after := by
  refine ⟨hs.remains.trans h.remains, fun l n hne hl hentries => ?_⟩
  obtain ⟨e, he⟩ := below_of_entries hl hentries
  have hprefix : ¬ d ++ [c] <+: l := by
    rintro ⟨q, rfl⟩
    cases q with
    | nil =>
      rw [List.append_nil] at he
      exact he (hbelow e [])
    | cons f q =>
      rw [List.append_assoc (d ++ [c])] at he
      exact he (hbelow f (q ++ [e]))
  have hface := hs.outside l hprefix (by rwa [List.dropLast_concat])
  rw [hl] at hface
  obtain ⟨m, hm, hmn⟩ := Option.map_eq_some_iff.mp hface.symm
  have hstill : t.lookup (l ++ [e]) ≠ none := by
    obtain ⟨k, hk⟩ := Option.ne_none_iff_exists'.mp he
    obtain ⟨k', hk', -⟩ := hs.remains _ k hk
    simp [hk']
  rw [h.steady l m hne hm (entries_of_below hm hstill), hmn]

variable {t₀ : Node} {d : Location} {c : Name} {entries : List Name}

theorem found_listed (hr : readDir os.cwd p t₀ = .ok entries) (hc : c ∈ entries)
    (hf : found os.cwd true p t₀ = .ok d) (hrem : Remains t t₀) {l : Location}
    (hl : found os.cwd false (p.child c) t = .ok l) : l = d ++ [c] := by
  have hl₀ := found_remains hrem hl
  obtain ⟨d', n, hf', he⟩ := entry_of_listed hr hc (hasNul_of_found hl₀)
  obtain rfl : d' = d := Except.ok.inj (hf'.symm.trans hf)
  exact Except.ok.inj (hl₀.symm.trans (entryOf_ok he).1)

/-- If what is below a directory is old whenever the directory is, its removal takes old files
only. -/
theorem takesAged_of_dir {operation : Operation} {n : Node}
    (hr : readDir os.cwd p t₀ = .ok entries) (hc : c ∈ entries)
    (hf : found os.cwd true p t₀ = .ok d) (h : Cleared d t₀ t)
    (haged : olderThan os (p.child c) age t₀ = true → ∀ e q a contents,
      t₀.lookup ((d ++ [c]) ++ e :: q) = some (.file a contents) →
      Aged age (os.now (p.child c)) a)
    (hold : olderThan os (p.child c) age t = true) (hn : lstat os.cwd (p.child c) t = .ok n)
    (hdir : n.isDir) :
    TakesAged os age
      ⟨operation, p.child c, t, final (removeDirAll os.cwd (os.stamp (p.child c)) (p.child c)) t⟩ := by
  intro l a contents hbefore hafter
  obtain ⟨l', hl', hlookup⟩ := lstat_ok.mp hn
  obtain rfl := found_listed hr hc hf h.remains hl'
  have hs := removeDirAll_shrinks (os.stamp (p.child c)) hl'
  obtain ⟨q, rfl⟩ : d ++ [c] <+: l := by
    by_contra hprefix
    exact hs.stays l hprefix (by simp [hbefore]) hafter
  cases q with
  | nil =>
    rw [List.append_nil] at hbefore
    obtain rfl := Option.some.inj (hlookup.symm.trans hbefore)
    cases hdir
  | cons e q =>
    have hthere : t.lookup ((d ++ [c]) ++ e :: q) = some (.file a contents) := hbefore
    have hentries := entries_of_below hlookup (hthere ▸ Option.some_ne_none _)
    have hface := h.steady (d ++ [c]) n (by simp) hlookup hentries
    obtain ⟨m, hm, hmn⟩ := Option.map_eq_some_iff.mp hface
    have hl₀ := found_remains h.remains hl'
    rcases face_eq_iff hmn with ⟨hmdir, -, hattributes⟩ | ⟨hmdir, rfl⟩
    · have hstat : stat os.cwd (p.child c) t₀ = .ok m :=
        stat_ok.mpr ⟨_, found_follow hl₀ hm (Node.isLink_of_isDir hmdir), hm⟩
      have hagedDir := aged_of_old hold hl' hlookup (Node.isLink_of_isDir hdir)
      have hold₀ := olderThan_iff.mpr ⟨m, hstat, hattributes ▸ hagedDir⟩
      obtain ⟨k, hk, hkf⟩ := h.remains _ _ hthere
      rcases hkf with ⟨hfile, -⟩ | ⟨-, rfl⟩
      · cases hfile
      · exact haged hold₀ e q a contents hk
    · rw [hdir] at hmdir
      cases hmdir

theorem preserves_cleanEntry {options : Options}
    (hr : readDir os.cwd p t₀ = .ok entries) (hc : c ∈ entries)
    (hf : found os.cwd true p t₀ = .ok d)
    (haged : options.dryRun = false → olderThan os (p.child c) age t₀ = true →
      ∀ e q a contents, t₀.lookup ((d ++ [c]) ++ e :: q) = some (.file a contents) →
      Aged age (os.now (p.child c)) a) :
    Preserves (Journaled (Cleared d t₀) (TakesAged os age))
      (cleanOne options os age (p.child c)) := by
  intro w hw
  unfold cleanOne
  rw [query_bind]
  split
  next hold =>
    refine ends_removing (silent_journaled _ _) hw fun hdry => ?_
    apply ends_of_final
    rcases final_removeOne os true (p.child c) w with h | ⟨operation, after, h, hremoves⟩
    · rw [h]
      exact hw
    · rw [h]
      rcases hremoves with hleaf | ⟨-, rfl, n, hn, hdir⟩
      · refine journaled_record hw ?_ (takesAged_of_leaf hold hleaf)
        rcases hleaf with rfl | ⟨l, n, hl, hlookup, hempty, hs⟩
        · exact hw.1
        · obtain rfl := found_listed hr hc hf hw.1.remains hl
          refine hw.1.step hs fun e q => ?_
          cases hafter : after.lookup ((d ++ [c]) ++ e :: q) with
          | none => rfl
          | some k =>
            obtain ⟨m, hm, -⟩ := hs.remains _ k hafter
            rw [lookup_below_leaf hlookup hempty] at hm
            cases hm
      · obtain ⟨l, hl, hlookup⟩ := lstat_ok.mp hn
        obtain rfl := found_listed hr hc hf hw.1.remains hl
        refine journaled_record hw ?_
          (takesAged_of_dir hr hc hf hw.1 (haged hdry) hold hn hdir)
        cases n with
        | dir a es =>
          exact hw.1.step (removeDirAll_shrinks _ hl) fun e q => removeDirAll_below hl hlookup q
        | file | link | special => cases hdir
  · exact hw

end

/-- In whatever order the directory lists its entries, cleaning takes away old files only. -/
def CleansAged (options : Options) (os : Os) (rule : Rule) (p : Path) (t : Node) : Prop :=
  ∀ age, rule.age = some age → ∀ arrange,
    ∀ c ∈ changes (clean options (arranged os arrange) rule p) t, TakesAged os age c

/-- The regular files in an old entry of the directory are old too, at the time at which the
entry is tested. -/
def EntriesAged (options : Options) (os : Os) (rule : Rule) (p : Path) (t : Node) : Prop :=
  options.dryRun = true ∨ ∀ age, rule.age = some age →
    ∀ entries, readDir os.cwd p t = .ok entries → ∀ c ∈ entries,
    olderThan os (p.child c) age t = true → ∀ d, found os.cwd true p t = .ok d →
    ∀ e q a contents, t.lookup ((d ++ [c]) ++ e :: q) = some (.file a contents) →
    Aged age (os.now (p.child c)) a

section

variable {options : Options} {os : Os} {rule : Rule} {p : Path} {t : Node}

theorem ends_cleanOther {age : Nat} (hdir : pathIsDir os.cwd p t = false) :
    Ends (fun _ => Journaled (fun _ => True) (TakesAged os age))
      (fun _ => Journaled (fun _ => True) (TakesAged os age))
      (cleanOne options os age p (fresh t)) := by
  have hfresh : Journaled (fun _ => True) (TakesAged os age) (fresh t) := journaled_fresh trivial
  unfold cleanOne
  rw [query_bind]
  split
  next hold =>
    refine ends_removing (silent_journaled _ _) hfresh fun _ => ?_
    apply ends_of_final
    rcases final_removeOne os true p (fresh t) with h | ⟨operation, after, h, hr⟩
    · rw [h]
      exact hfresh
    · rw [h]
      exact journaled_record hfresh trivial
        (takesAged_of_leaf hold (takesLeaf_of_noDir hdir hr))
  · exact hfresh

theorem takesAged_of_entriesAged {age : Nat} (h : EntriesAged options os rule p t)
    (hage : rule.age = some age) :
    ∀ c ∈ changes (clean options os rule p) t, TakesAged os age c := by
  cases hdir : pathIsDir os.cwd p t with
  | false =>
    apply journaled_changes
    rw [clean_other (w := fresh t) hage hdir]
    exact ends_cleanOther hdir
  | true =>
    obtain ⟨entries, hr⟩ := readDir_of_pathIsDir hdir
    obtain ⟨a, es, hs, -⟩ := readDir_ok.mp hr
    obtain ⟨d, hf, -⟩ := stat_ok.mp hs
    have hfresh : Journaled (Cleared d t) (TakesAged os age) (fresh t) :=
      journaled_fresh (Cleared.refl d t)
    apply journaled_changes
    rw [clean_dir (w := fresh t) hage hr]
    refine ends_forM (fun c hc w hw => ?_) hfresh
    have hlisted : c ∈ entries := (os.arrange.perm p entries).mem_iff.mp hc
    refine preserves_cleanEntry hr hlisted hf (fun hdry hold => ?_) w hw
    exact h.resolve_left (by simp [hdry]) age hage entries hr c hlisted hold d hf

theorem cleansAged_of_entriesAged (h : EntriesAged options os rule p t) :
    CleansAged options os rule p t := by
  intro age hage arrange
  have harranged : EntriesAged options (arranged os arrange) rule p t := h
  exact takesAged_of_entriesAged harranged hage

theorem entriesAged_of_cleansAged (h : CleansAged options os rule p t) :
    EntriesAged options os rule p t := by
  cases hdry : options.dryRun with
  | true => exact .inl hdry
  | false =>
    refine .inr fun age hage entries hr c hc hold d hf e q a contents hfile => ?_
    let arrange := favouring (List.replicate (p.segments.length + 1) c)
    have horder : arrange.order p entries = c :: entries.erase c :=
      order_favouring (by simp) hc
    obtain ⟨d', n, hf', he⟩ := entry_of_old hr hc hold
    obtain rfl : d' = d := Except.ok.inj (hf'.symm.trans hf)
    obtain ⟨operation, hmem⟩ :=
      mem_changes_clean (arranged os arrange) hdry hage hr horder hold (lstat_of_entry he)
    obtain ⟨hl, hlookup⟩ := entryOf_ok he
    refine h age hage arrange _ hmem _ a contents hfile ?_
    cases n with
    | dir b es => exact removeDirAll_below hl hlookup q
    | file | link | special =>
      rw [lookup_below_leaf hlookup rfl] at hfile
      cases hfile

theorem cleansAged_iff (options : Options) (os : Os) (rule : Rule) (p : Path) (t : Node) :
    CleansAged options os rule p t ↔ EntriesAged options os rule p t :=
  ⟨entriesAged_of_cleansAged, cleansAged_of_entriesAged⟩

end

def agingRule : Rule := ⟨'d', false, "/srv".toList, none, none, none, some 20, none⟩

def agingPath : Path := ⟨true, [.name srv], false⟩

/-- The directory has not changed for so long, the file in it has; it is removed with the
directory. -/
theorem cleaning_takes_young : ¬ CleansAged demoOptions plainOs agingRule agingPath demoTree := by
  intro h
  have hcondition := (entriesAged_of_cleansAged h).resolve_left (by decide) 20 rfl
  have hr : readDir plainOs.cwd agingPath demoTree = .ok [data] := by decide +kernel
  have hold : olderThan plainOs (agingPath.child data) 20 demoTree = true := by decide +kernel
  have hf : found plainOs.cwd true agingPath demoTree = .ok [srv] := by decide +kernel
  have haged := hcondition [data] hr data (List.mem_singleton_self _) hold [srv] hf kept []
    (since 50) [] rfl
  exact absurd haged (by simp [Aged, since, plainOs])

end FractalD.Tmpfiles.Aging
