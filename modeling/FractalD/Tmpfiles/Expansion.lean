import FractalD.Tmpfiles.Wildcards

namespace FractalD.Tmpfiles.Expansion

open FractalD.Machine.FileTree FractalD.Machine.PathWalk FractalD.Machine.Result
open FractalD.Platform FractalD.Tmpfiles.Globs FractalD.Tmpfiles.Wildcards

/-- A name is what a component of a pattern says, or matches it if there is a wildcard in it. -/
def Fits (pattern n : Name) : Prop :=
  if wild pattern.text then wildcardMatch pattern.text n.text = true else n = pattern

theorem fits_refl (n : Name) : Fits n n := by
  unfold Fits
  split
  · exact wildcardMatch_iff.mpr (glob_self _)
  · rfl

/-- A path has the length of the pattern, and its names fit one by one. -/
def Matched (pattern p : Path) : Prop := List.Forall₂ Fits pattern.names p.names

theorem matched_refl (p : Path) : Matched p p := List.forall₂_same.mpr fun n _ => fits_refl n

/-- The path that leads from the root along some names. -/
def ofNames (ns : List Name) : Path := ⟨true, ns.map .name, false⟩

@[simp]
theorem names_ofNames (ns : List Name) : (ofNames ns).names = ns := by
  induction ns with
  | nil => rfl
  | cons n ns ih => exact congrArg (n :: ·) ih

theorem child_ofNames (ns : List Name) (n : Name) : (ofNames ns).child n = ofNames (ns ++ [n]) := by
  simp [ofNames, Path.child]

theorem names_child (p : Path) (n : Name) : (p.child n).names = p.names ++ [n] := by
  simp [Path.names, Path.child, Segment.name?]

theorem not_matched_child {p : Path} (n : Name) : ¬ Matched p (p.child n) := by
  intro h
  have hlength := h.length_eq
  rw [names_child, List.length_append] at hlength
  simp at hlength

variable {cwd : Location} {arrange : Arrangement} {t : Node}

theorem mem_expandBase {pattern : Name} {base p : Path} {ps : List Path}
    (h : expandBase cwd arrange t pattern base = .ok ps) :
    p ∈ ps ↔ ∃ n, p = base.child n ∧
      if wild pattern.text then
        ∃ entries, readDir cwd base t = .ok entries ∧ n ∈ entries ∧
          wildcardMatch pattern.text n.text
      else n = pattern := by
  unfold expandBase at h
  split at h
  next hw =>
    simp only [hw, if_true]
    cases he : readDir cwd base t with
    | ok entries =>
      rw [he] at h
      cases h
      simp only [List.mem_map, List.mem_filter, (arrange.perm base entries).mem_iff]
      constructor
      · rintro ⟨n, ⟨hn, hm⟩, rfl⟩
        exact ⟨n, rfl, entries, rfl, hn, hm⟩
      · rintro ⟨n, rfl, entries', he', hn, hm⟩
        cases he'
        exact ⟨n, ⟨hn, hm⟩, rfl⟩
    | error e =>
      rw [he] at h
      dsimp only at h
      split at h
      · cases h
        simp
      · cases h
  next hw =>
    cases h
    simp [hw]

theorem expandBase_ok (arrange' : Arrangement) {pattern : Name} {base : Path} {ps : List Path}
    (h : expandBase cwd arrange t pattern base = .ok ps) :
    ∃ ps', expandBase cwd arrange' t pattern base = .ok ps' := by
  unfold expandBase at h ⊢
  split_ifs at h ⊢ with hw
  · split at h
    next entries hentries => exact ⟨_, rfl⟩
    next e he =>
      split_ifs at h ⊢ with hno
      exact ⟨_, rfl⟩
  · exact ⟨_, rfl⟩

theorem mem_expandStep {current next : List Path} {pattern : Name}
    (h : expandStep cwd arrange t current pattern = .ok next) {p : Path} :
    p ∈ next ↔ ∃ base ∈ current, ∃ ps,
      expandBase cwd arrange t pattern base = .ok ps ∧ p ∈ ps := by
  obtain ⟨found, hfound, rfl⟩ := map_eq_ok.mp h
  exact mem_flatten_mapM hfound

theorem fits_of_mem {pattern : Name} {base p : Path} {ps : List Path}
    (h : expandBase cwd arrange t pattern base = .ok ps) (hp : p ∈ ps) :
    ∃ n, p = base.child n ∧ Fits pattern n := by
  obtain ⟨n, rfl, hn⟩ := (mem_expandBase h).mp hp
  refine ⟨n, rfl, ?_⟩
  unfold Fits
  split_ifs at hn ⊢
  · obtain ⟨_, _, _, hm⟩ := hn
    exact hm
  · exact hn

/-- What a pattern finds leads from the root, along names that fit one by one. -/
theorem expandGlob_fits {p : Path} {ms : List Path} (h : expandGlob cwd arrange t p = .ok ms) :
    ∀ m ∈ ms, ∃ ns, m = ofNames ns ∧ List.Forall₂ Fits p.names ns := by
  have hstart : ∀ m ∈ [(⟨true, [], false⟩ : Path)], ∃ ns, m = ofNames ns ∧ List.Forall₂ Fits [] ns := by
    intro m hm
    rw [List.mem_singleton.mp hm]
    exact ⟨[], rfl, .nil⟩
  refine foldlM_ok (p := fun done ms => ∀ m ∈ ms, ∃ ns, m = ofNames ns ∧ List.Forall₂ Fits done ns)
    ?_ hstart h
  intro done pattern current next hcurrent hstep m hm
  obtain ⟨base, hbase, ps, hps, hmp⟩ := (mem_expandStep hstep).mp hm
  obtain ⟨ns, rfl, hns⟩ := hcurrent base hbase
  obtain ⟨n, rfl, hn⟩ := fits_of_mem hps hmp
  exact ⟨ns ++ [n], child_ofNames ns n, List.rel_append hns (.cons hn .nil)⟩

theorem expandGlob_matched {p : Path} {ms : List Path} (h : expandGlob cwd arrange t p = .ok ms) :
    ∀ m ∈ ms, Matched p m := by
  intro m hm
  obtain ⟨ns, rfl, hns⟩ := expandGlob_fits h m hm
  simpa [Matched] using hns

theorem foldlM_arrange (arrange' : Arrangement) {patterns : List Name}
    {current current' ms : List Path} (hsame : ∀ m, m ∈ current' ↔ m ∈ current)
    (h : patterns.foldlM (expandStep cwd arrange t) current = .ok ms) :
    ∃ ms', patterns.foldlM (expandStep cwd arrange' t) current' = .ok ms' ∧
      ∀ m, m ∈ ms' ↔ m ∈ ms := by
  induction patterns generalizing current current' with
  | nil =>
    cases h
    exact ⟨current', rfl, hsame⟩
  | cons pattern patterns ih =>
    rw [List.foldlM_cons, bind_eq_ok] at h
    obtain ⟨next, hnext, h⟩ := h
    obtain ⟨found, hfound, -⟩ := map_eq_ok.mp hnext
    have hall := exists_mapM_eq_ok.mp ⟨found, hfound⟩
    have hok : ∀ base ∈ current', ∃ ps, expandBase cwd arrange' t pattern base = .ok ps := by
      intro base hbase
      obtain ⟨ps, hps⟩ := hall base ((hsame base).mp hbase)
      exact expandBase_ok arrange' hps
    obtain ⟨found', hfound'⟩ := exists_mapM_eq_ok.mpr hok
    have hnext' : expandStep cwd arrange' t current' pattern = .ok found'.flatten :=
      map_eq_ok.mpr ⟨found', hfound', rfl⟩
    have hmem : ∀ m, m ∈ found'.flatten ↔ m ∈ next := by
      intro m
      rw [mem_expandStep hnext', mem_expandStep hnext]
      constructor
      · rintro ⟨base, hbase, ps', hps', hm⟩
        obtain ⟨ps, hps⟩ := expandBase_ok arrange hps'
        exact ⟨base, (hsame base).mp hbase, ps, hps,
          (mem_expandBase hps).mpr ((mem_expandBase hps').mp hm)⟩
      · rintro ⟨base, hbase, ps, hps, hm⟩
        obtain ⟨ps', hps'⟩ := expandBase_ok arrange' hps
        exact ⟨base, (hsame base).mpr hbase, ps', hps',
          (mem_expandBase hps').mpr ((mem_expandBase hps).mp hm)⟩
    obtain ⟨ms', hms', hsame'⟩ := ih hmem h
    refine ⟨ms', ?_, hsame'⟩
    rw [List.foldlM_cons, bind_eq_ok]
    exact ⟨_, hnext', hms'⟩

/-- Which paths are found does not depend on the order in which directories list their
entries. -/
theorem expandGlob_arrange (arrange' : Arrangement) {p : Path} {ms : List Path}
    (h : expandGlob cwd arrange t p = .ok ms) :
    ∃ ms', expandGlob cwd arrange' t p = .ok ms' ∧ ∀ m, m ∈ ms' ↔ m ∈ ms :=
  foldlM_arrange arrange' (fun _ => .rfl) h

/-- Each directory lists first the name that the path has below it. -/
def favouring (ns : List Name) : Arrangement where
  order p names :=
    match ns[p.segments.length]? with
    | none => names
    | some c => if c ∈ names then c :: names.erase c else names
  perm p names := by
    split
    · exact .refl _
    · split
      next hc => exact (List.perm_cons_erase hc).symm
      · exact .refl _

theorem order_favouring {ns : List Name} {p : Path} {c : Name} {names : List Name}
    (hc : ns[p.segments.length]? = some c) (hmem : c ∈ names) :
    (favouring ns).order p names = c :: names.erase c := by
  change (match ns[p.segments.length]? with
    | none => names
    | some c => if c ∈ names then c :: names.erase c else names) = _
  rw [hc]
  exact if_pos hmem

theorem head_expandBase {ns : List Name} {pattern c : Name} {base : Path} {ps : List Path}
    (h : expandBase cwd (favouring ns) t pattern base = .ok ps)
    (hc : ns[base.segments.length]? = some c) (hmem : base.child c ∈ ps) :
    ps.head? = some (base.child c) := by
  obtain ⟨n, hn, hcase⟩ := (mem_expandBase h).mp hmem
  obtain rfl : c = n := by simpa [Path.child] using hn
  unfold expandBase at h
  split at hcase
  next hw =>
    obtain ⟨entries, he, hin, hm⟩ := hcase
    rw [if_pos hw, he] at h
    cases h
    rw [order_favouring hc hin]
    simp [hm]
  next hw =>
    rw [if_neg hw] at h
    cases h
    rw [hcase]
    rfl

theorem head_flatten_mapM {ε α β : Type} {f : α → Except ε (List β)} {a : α} {l : List α}
    {r : List (List β)} {bs : List β} {b : β} (h : (a :: l).mapM f = .ok r) (ha : f a = .ok bs)
    (hb : bs.head? = some b) : r.flatten.head? = some b := by
  obtain ⟨bs', hbs', rest, -, rfl⟩ := mapM_cons_eq_ok.mp h
  obtain rfl : bs' = bs := Except.ok.inj (hbs'.symm.trans ha)
  rw [List.flatten_cons, List.head?_append, hb]
  rfl

theorem ofNames_inj {l l' : List Name} (h : ofNames l = ofNames l') : l = l' := by
  have hnames := congrArg Path.names h
  rwa [names_ofNames, names_ofNames] at hnames

/-- The paths found so far have so many names, and the one on the way to a path is the first
of them if it is among them. -/
structure Ahead (ns : List Name) (k : Nat) (current : List Path) : Prop where
  length : ∀ m ∈ current, ∃ l, m = ofNames l ∧ l.length = k
  first : ofNames (ns.take k) ∈ current → current.head? = some (ofNames (ns.take k))

theorem ahead_expandStep {ns : List Name} {k : Nat} {current next : List Path} {pattern : Name}
    (hcurrent : Ahead ns k current)
    (h : expandStep cwd (favouring ns) t current pattern = .ok next) : Ahead ns (k + 1) next := by
  refine ⟨fun m hm => ?_, fun hm => ?_⟩
  · obtain ⟨base, hbase, ps, hps, hmp⟩ := (mem_expandStep h).mp hm
    obtain ⟨l, rfl, hl⟩ := hcurrent.length base hbase
    obtain ⟨n, rfl, -⟩ := fits_of_mem hps hmp
    exact ⟨l ++ [n], child_ofNames l n, by simp [hl]⟩
  · obtain ⟨base, hbase, ps, hps, hmp⟩ := (mem_expandStep h).mp hm
    obtain ⟨l, rfl, hl⟩ := hcurrent.length base hbase
    obtain ⟨n, hn, -⟩ := fits_of_mem hps hmp
    rw [child_ofNames] at hn
    have htake := ofNames_inj hn
    have hk : k < ns.length := by
      have hlength := congrArg List.length htake
      simp only [List.length_take, List.length_append, hl, List.length_singleton] at hlength
      omega
    rw [List.take_succ_eq_append_getElem hk] at htake
    obtain ⟨rfl, hlast⟩ := List.append_inj htake (by simp only [List.length_take, hl]; omega)
    obtain rfl := List.singleton_inj.mp hlast
    obtain ⟨rest, rfl⟩ := List.head?_eq_some_iff.mp (hcurrent.first hbase)
    obtain ⟨found, hfound, rfl⟩ := map_eq_ok.mp h
    have hbelow : ofNames (ns.take (k + 1)) = (ofNames (ns.take k)).child ns[k] := by
      rw [child_ofNames, List.take_succ_eq_append_getElem hk]
    rw [hbelow] at hmp ⊢
    refine head_flatten_mapM hfound hps (head_expandBase hps ?_ hmp)
    have hsegments : (ofNames (ns.take k)).segments.length = k := (List.length_map ..).trans hl
    rw [hsegments]
    exact List.getElem?_eq_getElem hk

/-- A path that is found at all is the first one, if the directories list their entries so. -/
theorem expandGlob_favouring {p : Path} {ns : List Name} {ms : List Path}
    (h : expandGlob cwd (favouring ns) t p = .ok ms) (hmem : ofNames ns ∈ ms) :
    ms.head? = some (ofNames ns) := by
  have hstart : Ahead ns 0 [⟨true, [], false⟩] := by
    refine ⟨fun m hm => ⟨[], ?_, rfl⟩, fun _ => rfl⟩
    rw [List.mem_singleton.mp hm]
    rfl
  have hahead : Ahead ns ([] ++ p.names).length ms := by
    refine foldlM_ok (p := fun done current => Ahead ns done.length current) ?_ hstart h
    intro done pattern current next hcurrent hstep
    rw [List.length_append]
    exact ahead_expandStep hcurrent hstep
  obtain ⟨l, hl, hlength⟩ := hahead.length _ hmem
  have htake : ns.take ([] ++ p.names).length = ns := by
    rw [← hlength, ← ofNames_inj hl, List.take_length]
  have hfirst := hahead.first
  rw [htake] at hfirst
  exact hfirst hmem

end FractalD.Tmpfiles.Expansion
