import FractalD.Machine.Planting

namespace FractalD.Toolbox.Directories

open FractalD.Machine.CString FractalD.Machine.FileTree FractalD.Machine.FileTree.Node
open FractalD.Machine.FileCalls FractalD.Machine.PathWalk FractalD.Machine.Planting
open FractalD.Machine.Effect FractalD.Platform

/-- What `Path::components` yields. -/
inductive Component
  | rootDir
  | segment (s : Segment)
  deriving DecidableEq

def componentsOf (p : Path) : List Component :=
  (if p.absolute then [.rootDir] else []) ++ p.components.map .segment

def emptyPath : Path := ⟨false, [], false⟩

/-- `PathBuf::push` for a component. -/
def push (p : Path) : Component → Path
  | .rootDir => ⟨true, [], false⟩
  | .segment s => ⟨p.absolute, p.segments ++ [s], false⟩

/-- Why no directory is made. -/
inductive Failure
  | call (e : Errno)
  /-- `path component is not a directory`, of the kind `AlreadyExists` -/
  | component
  /-- `{} exists and is not a directory`, of the kind `AlreadyExists` -/
  | present (current : Path)
  /-- `too many directory symlinks while creating {}`, of the kind `Other` -/
  | tooManyLinks (path : Path)
  deriving DecidableEq

abbrev Make := EStateM Failure Node PUnit

variable (cwd : Location) (stamp : Int)

def mkdirOne (mode : Nat) (p : Path) : Make := fun t =>
  match insertNode false (.dir (fresh stamp mode) []) cwd stamp { p with slash := false } t with
  | .ok _ t => .ok ⟨⟩ t
  | .error e t => .error (.call e) t

def mkdirComponents (mode : Nat) : Path → List Component → Make
  | _, [] => pure ⟨⟩
  | current, component :: rest => fun t =>
    match lstat cwd (push current component) t with
    | .ok (.dir _ _) => mkdirComponents mode (push current component) rest t
    | .ok _ => .error .component t
    | .error e =>
      if e = eNoEnt then
        match mkdirOne cwd stamp mode (push current component) t with
        | .ok _ t => mkdirComponents mode (push current component) rest t
        | .error e t => .error e t
      else .error (.call e) t

def mkdirPath (path : Path) (mode : Nat) (parents : Bool) : Make :=
  if parents then mkdirComponents cwd stamp mode emptyPath (componentsOf path)
  else mkdirOne cwd stamp mode path

variable {cwd stamp}

section Standing

variable {new : Location → Prop} {t t' : Node}

/-- The path leads, over directories only, to a directory. -/
structure Standing (t : Node) (p : Path) (l : Location) : Prop where
  absolute : p.absolute
  slash : p.slash = false
  plain : .here ∉ p.segments
  clean : ∀ c, .name c ∈ p.segments → hasNul c = false
  leads : advance t true [] p.segments = .arrived (.found l)
  dir : IsDirAt t l

theorem standing_root (h : t.isDir) : Standing t ⟨true, [], false⟩ [] where
  absolute := rfl
  slash := rfl
  plain := by simp
  clean := by simp
  leads := rfl
  dir := isDirAt_root h

theorem Standing.grows {p : Path} {l : Location} (h : Standing t p l) (hg : Grows new t t') :
    Standing t' p l :=
  { h with
    leads := advance_grows hg h.leads
    dir := hg.isDirAt h.dir }

theorem Standing.onward {p : Path} {l : Location} (h : Standing t p l) (follow : Bool)
    (rest : List Segment) :
    advance t follow [] (p.segments ++ rest) = advance t follow l rest := by
  obtain ⟨n, hn, hdir⟩ := h.dir
  exact advance_append h.leads hn hdir

theorem hasNul_of_clean {p : Path} (h : ∀ c, .name c ∈ p.segments → hasNul c = false) :
    p.hasNul = false := by
  change (p.segments.filterMap Segment.name?).any hasNul = false
  rw [List.any_eq_false]
  intro c hc
  obtain ⟨s, hs, hsc⟩ := List.mem_filterMap.mp hc
  cases s with
  | here | up => cases hsc
  | name d =>
    cases hsc
    simp [h c hs]

theorem hasNul_push {p : Path} (h : p.hasNul = false) (c : Name) :
    (push p (.segment (.name c))).hasNul = hasNul c := by
  change (p.segments.filterMap Segment.name?).any hasNul = false at h
  change ((p.segments ++ [Segment.name c]).filterMap Segment.name?).any hasNul = _
  rw [List.filterMap_append, List.any_append, h, Bool.false_or]
  simp [Segment.name?]

theorem Standing.locate_name {p : Path} {l : Location} {c : Name} (h : Standing t p l) :
    locate cwd false (push p (.segment (.name c))) t =
      if hasNul c then .error eInval
      else if (t.lookup (l ++ [c])).isSome then .ok (.found (l ++ [c])) else .ok (.absent l c) := by
  have hnul := hasNul_push (hasNul_of_clean h.clean) c
  have habs : (push p (.segment (.name c))).absolute = true := h.absolute
  have hstart : start cwd (push p (.segment (.name c))) = [] := if_pos h.absolute
  have hwalked : (push p (.segment (.name c))).walked = p.segments ++ [.name c] := by
    simp [push, Path.walked]
  rw [locate, hnul, hstart, hwalked, habs]
  cases hasNul c with
  | true => rfl
  | false =>
    simp only [Bool.false_eq_true, if_false, Bool.true_eq_false, false_and]
    rw [walk, h.onward, advance_name]
    cases hl : t.lookup (l ++ [c]) with
    | none => simp
    | some n => cases n <;> simp [advance]

theorem Standing.lstat_name {p : Path} {l : Location} {c : Name} (h : Standing t p l) :
    lstat cwd (push p (.segment (.name c))) t =
      if hasNul c then .error eInval else (t.lookup (l ++ [c])).elim (.error eNoEnt) .ok := by
  rw [lstat, nodeAt, found, h.locate_name]
  cases hasNul c with
  | true => rfl
  | false =>
    cases hl : t.lookup (l ++ [c]) with
    | none => simp
    | some n => simp [hl]

theorem Standing.push_name {p : Path} {l : Location} {c : Name} (h : Standing t p l)
    (hc : hasNul c = false) (hd : IsDirAt t (l ++ [c])) :
    Standing t (push p (.segment (.name c))) (l ++ [c]) where
  absolute := h.absolute
  slash := rfl
  plain := by
    have hp := h.plain
    simpa [push] using hp
  clean := by
    intro d hd
    rcases List.mem_append.mp hd with hd | hd
    · exact h.clean d hd
    · obtain rfl : d = c := by simpa using hd
      exact hc
  leads := by
    obtain ⟨n, hn, hdir⟩ := hd
    change advance t true [] (p.segments ++ [.name c]) = _
    rw [h.onward, advance_name, hn]
    cases n with
    | dir a es => rfl
    | file | link | special => cases hdir
  dir := hd

theorem Standing.push_up {p : Path} {l : Location} (h : Standing t p l) :
    Standing t (push p (.segment .up)) l.dropLast where
  absolute := h.absolute
  slash := rfl
  plain := by
    have hp := h.plain
    simpa [push] using hp
  clean := by
    intro c hc
    rcases List.mem_append.mp hc with hc | hc
    · exact h.clean c hc
    · simp at hc
  leads := h.onward true [.up]
  dir := h.dir.dropLast

theorem Standing.lstat_self {p : Path} {l : Location} (h : Standing t p l) :
    ∃ n, lstat cwd p t = .ok n ∧ n.isDir := by
  obtain ⟨n, hn, hdir⟩ := h.dir
  have hnul := hasNul_of_clean h.clean
  have hwalked : p.walked = p.segments := by simp [Path.walked, h.slash]
  have hleads : advance t false [] p.segments = .arrived (.found l) := by
    have honward := h.onward false []
    rwa [List.append_nil] at honward
  refine ⟨n, ?_, hdir⟩
  simp [lstat, nodeAt, found, locate, hnul, h.absolute, start, hwalked, walk, hleads, hn]

theorem Standing.insertNode_ok {p : Path} {l : Location} {c : Name} {n : Node}
    (h : Standing t p l) (hc : hasNul c = false) (hnone : t.lookup (l ++ [c]) = none) :
    insertNode false n cwd stamp (push p (.segment (.name c))) t =
      .ok ⟨⟩ (t.update (addEntry stamp c n) l) := by
  rw [insertNode, h.locate_name, hc, hnone]
  rfl

theorem Standing.mkdirOne_ok {p : Path} {l : Location} {c : Name} {mode : Nat} (h : Standing t p l)
    (hc : hasNul c = false) (hnone : t.lookup (l ++ [c]) = none) :
    mkdirOne cwd stamp mode (push p (.segment (.name c))) t =
      .ok ⟨⟩ (plant stamp mode l c t) := by
  have hslash : ({ push p (.segment (.name c)) with slash := false } : Path) =
      push p (.segment (.name c)) := rfl
  rw [mkdirOne, hslash, h.insertNode_ok hc hnone]
  rfl

theorem Standing.grows_plant {p : Path} {l : Location} {c : Name} {mode : Nat}
    (h : Standing t p l) (hc : hasNul c = false) (hnone : t.lookup (l ++ [c]) = none) :
    Standing (plant stamp mode l c t) (push p (.segment (.name c))) (l ++ [c]) := by
  have hg : Grows (fun _ => True) t (plant stamp mode l c t) := plant_grows h.dir hnone trivial
  exact (h.grows hg).push_name hc (isDirAt_plant h.dir hnone)

end Standing

def named (c : Name) : Component := .segment (.name c)

theorem componentsOf_names {p : Path} (h : p.absolute) (hup : .up ∉ p.segments) :
    componentsOf p = .rootDir :: p.names.map named := by
  rw [componentsOf, if_pos h, components_names h hup, List.map_map]
  rfl

section Mkdir

variable {t t' : Node} {mode : Nat}

theorem mkdirComponents_name {current : Path} {l : Location} {c : Name} {rest : List Component}
    (h : Standing t current l) :
    mkdirComponents cwd stamp mode current (named c :: rest) t =
      if hasNul c then .error (.call eInval) t
      else
        match t.lookup (l ++ [c]) with
        | none =>
          mkdirComponents cwd stamp mode (push current (named c)) rest (plant stamp mode l c t)
        | some (.dir _ _) => mkdirComponents cwd stamp mode (push current (named c)) rest t
        | some _ => .error .component t := by
  rw [mkdirComponents, named]
  dsimp only
  rw [h.lstat_name]
  cases hc : hasNul c with
  | true => rfl
  | false =>
    cases hl : t.lookup (l ++ [c]) with
    | none =>
      simp only [Bool.false_eq_true, if_false, Option.elim, if_true, h.mkdirOne_ok hc hl]
    | some n => cases n <;> rfl

/-- `mkdir -p` makes what is missing. -/
theorem mkdirComponents_ok {current : Path} {l : Location} {cs : List Name}
    (h : Standing t current l) :
    mkdirComponents cwd stamp mode current (cs.map named) t = .ok ⟨⟩ t' ↔
      (∀ c ∈ cs, hasNul c = false) ∧ makeAll stamp mode l cs t = some t' := by
  induction cs generalizing current l t with
  | nil => simp [mkdirComponents, makeAll]
  | cons c cs ih =>
    rw [List.map_cons, mkdirComponents_name h, List.forall_mem_cons, makeAll]
    cases hc : hasNul c with
    | true => simp
    | false =>
      simp only [Bool.false_eq_true, if_false, true_and]
      cases hl : t.lookup (l ++ [c]) with
      | none => exact ih (h.grows_plant hc hl)
      | some n =>
        cases n with
        | dir a es => exact ih (h.push_name hc ⟨_, hl, rfl⟩)
        | file | link | special => simp

theorem hasNul_names {p : Path} : p.hasNul = false ↔ ∀ c ∈ p.names, hasNul c = false := by
  change p.names.any hasNul = false ↔ _
  rw [List.any_eq_false]
  simp

theorem mkdirPath_ok {p : Path} (hp : p.absolute) (hup : .up ∉ p.segments) (ht : t.isDir) :
    mkdirPath cwd stamp p mode true t = .ok ⟨⟩ t' ↔
      p.hasNul = false ∧ makeAll stamp mode [] p.names t = some t' := by
  have hroot : lstat cwd (push emptyPath .rootDir) t = .ok t := by
    simp [lstat, nodeAt, found, locate, push, Path.hasNul, Path.names, start, Path.walked, walk,
      advance]
  have hrest : mkdirComponents cwd stamp mode (push emptyPath .rootDir) (p.names.map named) t =
      .ok ⟨⟩ t' ↔ _ := mkdirComponents_ok (standing_root ht)
  rw [hasNul_names, ← hrest, mkdirPath, if_pos rfl, componentsOf_names hp hup, mkdirComponents]
  dsimp only
  rw [hroot]
  obtain ⟨a, es, rfl⟩ := eq_dir ht
  rfl

end Mkdir

end FractalD.Toolbox.Directories
