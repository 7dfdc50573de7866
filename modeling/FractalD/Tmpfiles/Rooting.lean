import FractalD.Machine.Scan
import FractalD.Tmpfiles.Operands

namespace FractalD.Tmpfiles.Rooting

open FractalD.Machine.CString FractalD.Machine.FileTree FractalD.Machine.PathWalk
open FractalD.Machine.FileCalls FractalD.Machine.Effect FractalD.Machine.Result
open FractalD.Machine.Scan FractalD.Machine.Text FractalD.Platform FractalD.Platform.Accounts FractalD.Tmpfiles.Globs
open FractalD.Tmpfiles.Rules FractalD.Tmpfiles.Executor
open FractalD.Tmpfiles.Expansion FractalD.Tmpfiles.Journal FractalD.Tmpfiles.Operands
open FractalD.Tmpfiles.Wildcards

def rootOf (options : Options) : Path := options.root.getD ⟨true, [], false⟩

/-- The path along some names from where one is. -/
def ofRelative (ns : List Name) : Path := ⟨false, ns.map .name, false⟩

/-- The names of a rule's path. -/
def patternOf (os : Os) (rule : Rule) : List Name :=
  (Path.parse (expandSpecifiers os.specifiers rule.path)).names

/-- A call is on the root joined with names that fit those of the rule one by one, on something
below that, or makes the directory that is to hold it. -/
def Rooted (root : Path) (pattern : List Name) (operation : Operation) (p : Path) : Prop :=
  ∃ ns, List.Forall₂ Fits pattern ns ∧
    ((∃ below, p.Same (descend (root.join (ofRelative ns)) below)) ∨
      operation = .makeDirs ∧ ∃ q, (root.join (ofRelative ns)).parent = some q ∧ p.Same q)

/-- Whatever the tree, the rule does not leave its root. -/
def StaysBelow (options : Options) (os : Os) (rule : Rule) (action : Action) : Prop :=
  ∀ t, ∀ c ∈ changes (apply options os rule action) t,
    Rooted (rootOf options) (patternOf os rule) c.operation c.path

/-- The root says literally where it is. -/
structure PlainRoot (root : Path) : Prop where
  absolute : root.absolute = true
  down : .up ∉ root.segments
  literal : ∀ n ∈ root.names, wild n.text = false

/-- No pattern is used in which the root is not literal. -/
def RootsPlainly (options : Options) (os : Os) (rule : Rule) (action : Action) : Prop :=
  ∀ p, resolvePath options (expandSpecifiers os.specifiers rule.path) = .ok p →
    options.dryRun = true ∨ p.hasNul = true ∨ ¬ globbing rule action ∨ hasWildcard p = false ∨
      PlainRoot (rootOf options)

section

variable {p root : Path} {ns below : List Name}

theorem descend_eq (p : Path) (ns : List Name) :
    (descend p ns).absolute = p.absolute ∧
      (descend p ns).segments = p.segments ++ ns.map .name := by
  induction ns generalizing p with
  | nil => simp [descend]
  | cons n ns ih =>
    obtain ⟨ha, hs⟩ := ih (p.child n)
    have hsegments : (p.child n).segments = p.segments ++ [.name n] := rfl
    rw [hsegments, List.append_assoc] at hs
    exact ⟨ha, hs⟩

theorem join_ofRelative (root : Path) (ns : List Name) :
    (root.join (ofRelative ns)).absolute = root.absolute ∧
      (root.join (ofRelative ns)).segments = root.segments ++ ns.map .name := by
  unfold Path.join ofRelative
  rw [if_neg (by simp)]
  split
  next h =>
    have hns : ns.map Segment.name = [] := h
    simp [hns]
  · exact ⟨rfl, rfl⟩

theorem filter_map_name (ns : List Name) :
    (ns.map Segment.name).filter (· ≠ .here) = ns.map .name := by
  rw [List.filter_eq_self]
  intro s hs
  obtain ⟨n, -, rfl⟩ := List.mem_map.mp hs
  simp

theorem map_name_inj {l l' : List Name} (h : l.map Segment.name = l'.map Segment.name) : l = l' :=
  List.map_injective_iff.mpr (fun _ _ he => Segment.name.inj he) h

theorem resolvePath_ok {options : Options} {text : Str} (h : resolvePath options text = .ok p) :
    p = (rootOf options).join (ofRelative (Path.parse text).names) := by
  unfold resolvePath at h
  dsimp only at h
  split at h
  · cases h
  next hcond =>
    have hup : .up ∉ (Path.parse text).segments := fun hup => hcond (.inr hup)
    cases h
    rw [filter_names hup]
    rfl

theorem names_join (root : Path) (ns : List Name) :
    (root.join (ofRelative ns)).names = root.names ++ ns := by
  unfold Path.names
  rw [(join_ofRelative root ns).2, List.filterMap_append]
  congr 1
  exact names_ofNames ns

theorem rooted_of_found {pattern : List Name} (hroot : PlainRoot root)
    (h : List.Forall₂ Fits (root.names ++ pattern) ns) :
    ∃ ns', List.Forall₂ Fits pattern ns' ∧
      (ofNames ns).Same (root.join (ofRelative ns')) := by
  have hliteral : ∀ {l l' : List Name}, (∀ n ∈ l, wild n.text = false) →
      List.Forall₂ Fits l l' → l' = l := by
    intro l l' hl hfits
    induction hfits with
    | nil => rfl
    | cons hn _ ih =>
      obtain ⟨hw, hl⟩ := List.forall_mem_cons.mp hl
      rw [Fits, hw] at hn
      rw [ih hl]
      exact congrArg (· :: _) hn
  have htake := (List.forall₂_take_append ns root.names pattern h.flip).flip
  have hdrop := (List.forall₂_drop_append ns root.names pattern h.flip).flip
  have hns := List.take_append_drop root.names.length ns
  rw [hliteral hroot.literal htake] at hns
  obtain ⟨habsolute, hsegments⟩ := join_ofRelative root (ns.drop root.names.length)
  refine ⟨ns.drop root.names.length, hdrop, by rw [habsolute, hroot.absolute]; rfl, ?_⟩
  calc (ofNames ns).components
      = ns.map .name := (components_absolute rfl).trans (filter_map_name ns)
    _ = root.names.map .name ++ (ns.drop root.names.length).map .name := by
      rw [← List.map_append, hns]
    _ = (root.join (ofRelative (ns.drop root.names.length))).components := by
      rw [components_absolute (habsolute.trans hroot.absolute), hsegments, List.filter_append,
        filter_names hroot.down, filter_map_name]
      rfl

theorem same_refl (p : Path) : p.Same p := ⟨rfl, rfl⟩

theorem Path.Same.trans {p q r : Path} (h : p.Same q) (h' : q.Same r) : p.Same r :=
  ⟨h.1.trans h'.1, h.2.trans h'.2⟩

theorem same_descend {p q : Path} (habs : p.absolute = true) (h : p.Same q) (below : List Name) :
    (descend p below).Same (descend q below) := by
  obtain ⟨hpa, hps⟩ := descend_eq p below
  obtain ⟨hqa, hqs⟩ := descend_eq q below
  have hq : q.absolute = true := h.1 ▸ habs
  refine ⟨by rw [hpa, hqa, h.1], ?_⟩
  rw [components_absolute (hpa.trans habs), components_absolute (hqa.trans hq), hps, hqs,
    List.filter_append, List.filter_append, ← components_absolute habs,
    ← components_absolute hq, h.2]

variable {options : Options} {os : Os} {rule : Rule} {action : Action} {pattern : List Name}

theorem permits_join : Permits (Rooted root pattern) (root.join (ofRelative pattern)) where
  below _ below := ⟨pattern, List.forall₂_same.mpr fun n _ => fits_refl n, .inl ⟨below, same_refl _⟩⟩
  parent q hq :=
    ⟨pattern, List.forall₂_same.mpr fun n _ => fits_refl n, .inr ⟨rfl, q, hq, same_refl q⟩⟩

theorem below_of_found (hroot : PlainRoot root)
    (h : List.Forall₂ Fits (root.names ++ pattern) ns) :
    Below (Rooted root pattern) (ofNames ns) := by
  obtain ⟨ns', hns', hsame⟩ := rooted_of_found hroot h
  exact fun _ below => ⟨ns', hns', .inl ⟨below, same_descend rfl hsame below⟩⟩

theorem hasNul_of_fits {m : Path} (h : Matched p m) (hnul : p.hasNul = true) : m.hasNul = true := by
  unfold Path.hasNul at hnul ⊢
  obtain ⟨n, hn, hnul⟩ := List.any_eq_true.mp hnul
  obtain ⟨n', hn', hfit⟩ := exists_of_forall₂ h hn
  refine List.any_eq_true.mpr ⟨n', hn', ?_⟩
  unfold Fits at hfit
  split at hfit
  · have hglob := wildcardMatch_iff.mp hfit
    have hbyte : (0 : UInt8) ∈ bytes n.text :=
      List.mem_flatMap.mpr ⟨Char.ofNat 0, by simpa using hnul, by decide⟩
    have hbyte' := mem_of_glob hglob hbyte (by decide) (by decide)
    simpa using mem_of_mem_bytes (c := Char.ofNat 0) (by decide) rfl hbyte'
  · rwa [hfit]

theorem removeOne_nul {recursive : Bool} {w : World} (h : p.hasNul = true) :
    removeOne os recursive p w = .error eInval w := by
  have herror : lstat os.cwd p w.tree = .error eInval := by
    unfold lstat nodeAt found locate
    rw [if_pos h]
  simp [removeOne, herror, eInval, eNoEnt]

theorem finds_of_rootsPlainly (hp : p = root.join (ofRelative pattern))
    (h : options.dryRun = true ∨ p.hasNul = true ∨ hasWildcard p = false ∨ PlainRoot root) :
    Finds (Rooted root pattern) options os p := by
  intro hdry recursive w hw
  apply ends_removeMatches hw
  intro ms hms m hm
  rcases h with h | h | h | h
  · rw [hdry] at h
    cases h
  · intro w' hw'
    rw [removeOne_nul (hasNul_of_fits (removalPaths_matched hms m hm) h)]
    exact hw'
  · rw [removalPaths, h] at hms
    cases hms
    rw [List.mem_singleton.mp hm, hp]
    exact recorded_removeOne permits_join.below
  · apply recorded_removeOne
    unfold removalPaths at hms
    split at hms
    · obtain ⟨ns, rfl, hns⟩ := expandGlob_fits hms m hm
      rw [hp, names_join] at hns
      exact below_of_found h hns
    · cases hms
      rw [List.mem_singleton.mp hm, hp]
      exact permits_join.below

theorem staysBelow_of_rootsPlainly (h : RootsPlainly options os rule action) :
    StaysBelow options os rule action := by
  intro t
  have hpreserves : Preserves
      (Recorded (Rooted (rootOf options) (patternOf os rule))) (apply options os rule action) := by
    unfold apply
    refine preserves_ite (fun _ => preserves_pure _) fun _ => ?_
    cases hr : resolvePath options (expandSpecifiers os.specifiers rule.path) with
    | error message => exact preserves_throw message
    | ok p =>
      have hp := resolvePath_ok hr
      have hpermits : Permits (Rooted (rootOf options) (patternOf os rule)) p := hp ▸ permits_join
      refine recorded_act hpermits fun hglob => finds_of_rootsPlainly hp ?_
      rcases h p hr with h | h | h | h
      · exact .inl h
      · exact .inr (.inl h)
      · exact absurd hglob h
      · exact .inr (.inr h)
  have hfinal : Recorded (Rooted (rootOf options) (patternOf os rule))
      (final (apply options os rule action) (fresh t)) :=
    ends_final (hpreserves (fresh t) fun _ hc => absurd hc List.not_mem_nil)
  exact hfinal

end

/-- A tree in which one file lies at the end of some names. -/
def chain : List Name → Node
  | [] => .file ⟨0, 0o644, none, none⟩ []
  | c :: cs => .dir ⟨0, 0o755, none, none⟩ [(c, chain cs)]

/-- A name that fits a component of a pattern. -/
def sampleName (n : Name) : Name where
  text := sample n.text
  plain := by
    obtain ⟨hne, hdot, hdots, hslash⟩ := n.plain
    have hback : ∀ {l : Str}, 'x' ∉ l → sample n.text = l → n.text = l := by
      intro l hx h
      rw [← h, eq_comm, sample_eq_iff, ← Bool.not_eq_true, wild_iff]
      intro hwild
      refine hx (h ▸ ?_)
      rcases hwild with hwild | hwild
      · exact List.mem_map.mpr ⟨'*', hwild, by decide⟩
      · exact List.mem_map.mpr ⟨'?', hwild, by decide⟩
    refine ⟨fun h => hne (hback (by decide) h), fun h => hdot (hback (by decide) h),
      fun h => hdots (hback (by decide) h), fun h => ?_⟩
    obtain ⟨c, hc, hcx⟩ := List.mem_map.mp h
    split at hcx
    · exact absurd hcx (by decide)
    · exact hslash (hcx ▸ hc)

theorem Name.text_inj {n m : Name} (h : n.text = m.text) : n = m := by
  cases n
  cases m
  cases h
  rfl

theorem sampleName_eq_iff {n : Name} : sampleName n = n ↔ wild n.text = false := by
  rw [← sample_eq_iff]
  exact ⟨fun h => congrArg Name.text h, fun h => Name.text_inj h⟩

theorem nul_sampleName (n : Name) :
    (sampleName n).text.contains (Char.ofNat 0) = n.text.contains (Char.ofNat 0) := by
  rw [Bool.eq_iff_iff, List.contains_iff_mem, List.contains_iff_mem]
  constructor
  · intro h
    obtain ⟨c, hc, hcx⟩ := List.mem_map.mp h
    split at hcx
    · exact absurd hcx (by decide)
    · exact hcx ▸ hc
  · intro h
    exact List.mem_map.mpr ⟨Char.ofNat 0, h, by decide⟩

section

variable {cwd : Location} {arrange : Arrangement}

theorem lookup_chain (l q : List Name) : (chain (l ++ q)).lookup l = some (chain q) := by
  induction l with
  | nil => exact Node.lookup_nil _
  | cons c l ih =>
    rw [List.cons_append, chain, Node.lookup_dir_cons]
    simpa using ih

theorem advance_chain (follow : Bool) (l q r : List Name) :
    advance (chain (l ++ (q ++ r))) follow l (q.map .name) = .arrived (.found (l ++ q)) := by
  induction q generalizing l with
  | nil =>
    rw [List.append_nil]
    rfl
  | cons c q ih =>
    have hlookup : (chain (l ++ (c :: q ++ r))).lookup (l ++ [c]) = some (chain (q ++ r)) := by
      have h := lookup_chain (l ++ [c]) (q ++ r)
      rwa [List.append_assoc] at h
    have hnext := ih (l ++ [c])
    rw [List.append_assoc, List.append_assoc] at hnext
    rw [List.map_cons, advance_name, hlookup]
    cases hqr : q ++ r with
    | nil =>
      obtain ⟨rfl, rfl⟩ := List.append_eq_nil_iff.mp hqr
      rfl
    | cons d rest => exact hnext

theorem nodeAt_chain {follow : Bool} {l q : List Name} (hnul : (ofNames l).hasNul = false) :
    nodeAt cwd follow (ofNames l) (chain (l ++ q)) = .ok (chain q) := by
  have hwalk : walk (chain (l ++ q)) follow maxLinks [] (ofNames l).walked = .ok (.found l) := by
    have hwalked : (ofNames l).walked = l.map .name := List.append_nil _
    rw [walk, hwalked]
    have h := advance_chain follow [] l q
    rw [List.nil_append, List.nil_append] at h
    rw [h]
  have hfound : found cwd follow (ofNames l) (chain (l ++ q)) = .ok l := by
    have hstart : start cwd (ofNames l) = [] := rfl
    unfold found locate
    rw [if_neg (by simp [hnul]), if_neg (by simp [ofNames]), hstart, hwalk]
  unfold nodeAt
  rw [hfound]
  dsimp only
  rw [lookup_chain]
  rfl

theorem expandBase_chain {pattern : Name} {l q : List Name} (hnul : (ofNames l).hasNul = false) :
    expandBase cwd arrange (chain (l ++ sampleName pattern :: q)) pattern (ofNames l) =
      .ok [(ofNames l).child (sampleName pattern)] := by
  unfold expandBase
  split
  next hw =>
    have hread : readDir cwd (ofNames l) (chain (l ++ sampleName pattern :: q)) =
        .ok [sampleName pattern] := by
      unfold readDir stat
      rw [nodeAt_chain hnul]
      rfl
    have horder : arrange.order (ofNames l) [sampleName pattern] = [sampleName pattern] :=
      List.perm_singleton.mp (arrange.perm _ _)
    have hmatch : wildcardMatch pattern.text (sampleName pattern).text = true :=
      wildcardMatch_iff.mpr (glob_sample pattern.text)
    rw [hread]
    dsimp only
    rw [horder, List.filter_cons_of_pos (by exact hmatch)]
    rfl
  next hw => rw [sampleName_eq_iff.mpr (by simpa using hw)]

theorem foldlM_chain (patterns l : List Name)
    (hnul : (ofNames (l ++ patterns.map sampleName)).hasNul = false) :
    patterns.foldlM (expandStep cwd arrange (chain (l ++ patterns.map sampleName))) [ofNames l] =
      .ok [ofNames (l ++ patterns.map sampleName)] := by
  induction patterns generalizing l with
  | nil =>
    rw [List.map_nil, List.append_nil]
    rfl
  | cons pattern patterns ih =>
    have happend : l ++ (pattern :: patterns).map sampleName =
        (l ++ [sampleName pattern]) ++ patterns.map sampleName := by simp
    have hl : (ofNames l).hasNul = false := by
      unfold Path.hasNul at hnul ⊢
      rw [names_ofNames] at hnul ⊢
      rw [List.any_append] at hnul
      exact (Bool.or_eq_false_iff.mp hnul).1
    have hstep : expandStep cwd arrange (chain (l ++ (pattern :: patterns).map sampleName))
        [ofNames l] pattern = .ok [ofNames (l ++ [sampleName pattern])] := by
      rw [← child_ofNames]
      refine map_eq_ok.mpr ⟨[[(ofNames l).child (sampleName pattern)]], ?_, rfl⟩
      exact mapM_cons_eq_ok.mpr ⟨_, expandBase_chain hl, [], rfl, rfl⟩
    rw [List.foldlM_cons, hstep]
    rw [happend] at hnul ⊢
    exact ih _ hnul

theorem hasNul_sample (p : Path) : (ofNames (p.names.map sampleName)).hasNul = p.hasNul := by
  unfold Path.hasNul
  rw [names_ofNames, List.any_map]
  congr 1
  funext n
  exact nul_sampleName n

/-- In the tree with a sample of the pattern, the sample is found. -/
theorem expandGlob_chain {p : Path} (hnul : p.hasNul = false) :
    expandGlob cwd arrange (chain (p.names.map sampleName)) p =
      .ok [ofNames (p.names.map sampleName)] := by
  have hsample : (ofNames ([] ++ p.names.map sampleName)).hasNul = false := by
    rw [List.nil_append, hasNul_sample]
    exact hnul
  rw [expandGlob]
  exact foldlM_chain p.names [] hsample

theorem records_chain (os : Os) {p : Path} (recursive : Bool) (hnul : p.hasNul = false)
    (hwild : hasWildcard p = true) :
    ∃ after, Records ⟨.removeFile, ofNames (p.names.map sampleName),
      chain (p.names.map sampleName), after⟩
      (removeMatches os p recursive (fresh (chain (p.names.map sampleName)))) := by
  have hpaths : removalPaths os p (chain (p.names.map sampleName)) =
      .ok [ofNames (p.names.map sampleName)] := by
    rw [removalPaths, if_pos hwild]
    exact expandGlob_chain hnul
  have hsample : (ofNames (p.names.map sampleName)).hasNul = false := by
    rw [hasNul_sample]
    exact hnul
  have hnode : lstat os.cwd (ofNames (p.names.map sampleName))
      (chain (p.names.map sampleName)) = .ok (chain []) := by
    have h : nodeAt os.cwd false _ (chain (_ ++ [])) = .ok (chain []) := nodeAt_chain hsample
    rwa [List.append_nil] at h
  exact ⟨_, records_removeMatches (w := fresh _) hpaths
    (records_removeFile (w := fresh _) hnode rfl)⟩

end

variable {options : Options} {os : Os} {rule : Rule} {action : Action} {p root : Path}

/-- The actions that use a pattern remove what it finds. -/
theorem apply_globbing (hp : resolvePath options (expandSpecifiers os.specifiers rule.path) = .ok p)
    (hglob : globbing rule action) :
    ∃ operation recursive, apply options os rule action =
      removing options os operation p (removeMatches os p recursive) := by
  have hact : rule.kind ∉ idleKinds → apply options os rule action = act options os rule action p := by
    intro hkind
    rw [apply, if_neg hkind, hp]
  cases action with
  | create =>
    refine ⟨"remove", rule.kind = 'R', (hact ?_).trans ?_⟩
    · rcases (by simpa [globbing] using hglob : rule.kind = 'r' ∨ rule.kind = 'R') with h | h <;> rw [h] <;> decide
    · rcases (by simpa [globbing] using hglob : rule.kind = 'r' ∨ rule.kind = 'R') with h | h <;> simp [act, create, h]
  | remove =>
    refine ⟨"remove", true, (hact ?_).trans ?_⟩
    · rcases (by simpa [globbing] using hglob : rule.kind = 'R' ∨ rule.kind = 'r') with h | h <;> rw [h] <;> decide
    · rcases (by simpa [globbing] using hglob : rule.kind = 'R' ∨ rule.kind = 'r') with h | h <;> simp [act, remove, h]
  | purge =>
    refine ⟨"purge", rule.kind ∈ ['d', 'D', 'v', 'q', 'Q'], (hact ?_).trans ?_⟩
    · simp only [globbing, List.mem_cons, List.not_mem_nil, or_false] at hglob
      rcases hglob with h | h | h | h | h | h | h | h | h | h | h | h <;> rw [h] <;> decide
    · exact if_pos hglob
  | clean | catConfig | tldr => exact hglob.elim

/-- A path without `..` that is another one says the same names. -/
theorem plainRoot_of_same {pattern ns below : List Name}
    (hsame : (ofNames ((root.names ++ pattern).map sampleName)).Same
      (descend (root.join (ofRelative ns)) below)) : PlainRoot root := by
  obtain ⟨habsolute, hsegments⟩ := descend_eq (root.join (ofRelative ns)) below
  obtain ⟨hjoinAbsolute, hjoinSegments⟩ := join_ofRelative root ns
  have hroot : root.absolute = true := by
    rw [← hjoinAbsolute, ← habsolute, ← hsame.1]
    rfl
  have hcomponents : ((root.names ++ pattern).map sampleName).map Segment.name =
      root.segments.filter (· ≠ .here) ++ (ns ++ below).map .name := by
    have h := hsame.2
    rw [components_absolute rfl, components_absolute (habsolute.trans
      (hjoinAbsolute.trans hroot)), hsegments, hjoinSegments, List.append_assoc,
      ← List.map_append, List.filter_append, filter_map_name] at h
    exact (filter_map_name _).symm.trans h
  have hdown : .up ∉ root.segments := by
    intro hup
    have hmem : Segment.up ∈ ((root.names ++ pattern).map sampleName).map Segment.name := by
      rw [hcomponents]
      exact List.mem_append_left _ (List.mem_filter.mpr ⟨hup, by decide⟩)
    obtain ⟨n, -, hn⟩ := List.mem_map.mp hmem
    cases hn
  have hnames : root.names.map sampleName ++ pattern.map sampleName = root.names ++ (ns ++ below) := by
    rw [filter_names hdown, ← List.map_append] at hcomponents
    rw [← List.map_append]
    exact map_name_inj hcomponents
  have hliteral : root.names.map sampleName = root.names :=
    (List.append_inj hnames (List.length_map _)).1
  refine ⟨hroot, hdown, fun n hn => sampleName_eq_iff.mp ?_⟩
  exact List.map_inj_left.mp (hliteral.trans (List.map_id _).symm) n hn

theorem rootsPlainly_of_staysBelow (h : StaysBelow options os rule action) :
    RootsPlainly options os rule action := by
  intro p hp
  by_contra hneither
  rw [not_or, not_or, not_or, not_or] at hneither
  obtain ⟨hdry, hnul, hglob, hwild, hplain⟩ := hneither
  obtain ⟨operation, recursive, happly⟩ := apply_globbing hp (not_not.mp hglob)
  obtain ⟨after, hrecords⟩ :=
    records_chain os recursive (by simpa using hnul) (by simpa using hwild)
  have hmem := mem_changes (x := removing options os operation p (removeMatches os p recursive))
    (records_removing (by simpa using hdry) hrecords)
  rw [← happly] at hmem
  obtain ⟨ns, -, ⟨below, hsame⟩ | ⟨hmake, -⟩⟩ := h _ _ hmem
  · rw [resolvePath_ok hp, names_join] at hsame
    exact hplain (plainRoot_of_same hsame)
  · cases hmake

/-- What is done stays below the root exactly if no pattern is used in which the root is not
literal. -/
theorem staysBelow_iff (options : Options) (os : Os) (rule : Rule) (action : Action) :
    StaysBelow options os rule action ↔ RootsPlainly options os rule action :=
  ⟨rootsPlainly_of_staysBelow, staysBelow_of_rootsPlainly⟩

/-- A root with a wildcard in its name. -/
def starredOptions : Options :=
  ⟨some (.parse "/srv/a*".toList), [], [], false, false, false⟩

def demoRule : Rule := ⟨'R', false, "/run/b*".toList, none, none, none, none, none⟩

def starred : Name := ⟨"a*".toList, by decide⟩
def axe : Name := ⟨"axe".toList, by decide⟩
def runDir : Name := ⟨"run".toList, by decide⟩
def bin : Name := ⟨"bin".toList, by decide⟩
def binStarred : Name := ⟨"b*".toList, by decide⟩

def shared : Attributes := ⟨0, 0o755, none, none⟩

/-- The root is empty, and a directory beside it is not. -/
def besideTree : Node :=
  .dir shared [(srv, .dir shared [(starred, .dir shared []),
    (axe, .dir shared [(runDir, .dir shared [(bin, .file shared [])])])])]

/-- What is removed need not be below the root. -/
theorem removal_leaves_root :
    (changes (apply starredOptions plainOs demoRule .create) besideTree).map Change.path =
      [⟨true, [.name srv, .name axe, .name runDir, .name bin], false⟩] ∧
    ¬ StaysBelow starredOptions plainOs demoRule .create := by
  refine ⟨by decide +kernel, fun h => ?_⟩
  have hplain := rootsPlainly_of_staysBelow h
    ⟨true, [.name srv, .name starred, .name runDir, .name binStarred], false⟩ (by decide +kernel)
  rcases hplain with hdry | hnul | hglob | hwild | ⟨-, -, hliteral⟩
  · exact absurd hdry (by decide)
  · exact absurd hnul (by decide +kernel)
  · exact hglob (by simp [globbing, demoRule])
  · exact absurd hwild (by decide +kernel)
  · exact absurd (hliteral starred (by decide +kernel)) (by decide +kernel)

end FractalD.Tmpfiles.Rooting
