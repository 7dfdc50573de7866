import FractalD.Toolbox.Directories

namespace FractalD.Supervisor.Directories

open FractalD.Machine.CString FractalD.Machine.FileTree FractalD.Machine.FileTree.Node
open FractalD.Machine.FileCalls FractalD.Machine.PathWalk FractalD.Machine.Planting
open FractalD.Machine.Effect FractalD.Platform FractalD.Toolbox.Directories

/-- `fs::read_link`. -/
def readLink (cwd : Location) (p : Path) (t : Node) : Except Errno Path :=
  match lstat cwd p t with
  | .ok (.link _ target) => .ok target
  | .ok _ => .error eInval
  | .error e => .error e

def remainderOf (components : List Component) : Path := components.foldl push emptyPath

variable (cwd : Location) (stamp : Int)

/-- The loop of `create`, which `again` restarts. -/
def createFrom (again : Path → Make) (path : Path) : Path → List Component → Make
  | _, [] => pure ⟨⟩
  | current, component :: components => fun t =>
    if component = .rootDir ∨ component = .segment .here then
      createFrom again path current components t
    else
      match lstat cwd (push current component) t with
      | .ok (.dir _ _) => createFrom again path (push current component) components t
      | .ok (.link _ _) =>
        match readLink cwd (push current component) t with
        | .error e => .error (.call e) t
        | .ok target =>
          let base := (push current component).parent.getD emptyPath
          let target := if target.absolute then target else base.join target
          again (target.join (remainderOf components)) t
      | .ok _ => .error (.present (push current component)) t
      | .error e =>
        if e = eNoEnt then
          match makeDir cwd stamp (push current component) t with
          | .ok _ t => createFrom again path (push current component) components t
          | .error e t => if e = eExist then again path t else .error (.call e) t
        else .error (.call e) t

/-- The number is how far `symlink_depth` is from the limit. -/
def create : Nat → Path → Make
  | 0, path => throw (.tooManyLinks path)
  | left + 1, path =>
    createFrom cwd stamp (create left) path (if path.absolute then ⟨true, [], false⟩ else emptyPath)
      (componentsOf path)

def createDirAllFollowingSymlinks (path : Path) : Make := create cwd stamp 40 path

variable {cwd stamp}

section Loop

variable {t t' : Node} {again : Path → Make} {path current : Path} {l : Location}

theorem filter_plain (h : Standing t current l) :
    current.segments.filter (· ≠ .here) = current.segments := by
  rw [List.filter_eq_self]
  intro s hs
  have hne : s ≠ .here := fun he => h.plain (he ▸ hs)
  simpa using hne

theorem parent_push (h : Standing t current l) (c : Name) :
    (push current (named c)).parent = some current := by
  have hc : (push current (named c)).components = current.segments ++ [.name c] := by
    have hp : (push current (named c)).absolute := h.absolute
    rw [components_absolute hp]
    change (current.segments ++ [Segment.name c]).filter (· ≠ .here) = _
    rw [List.filter_append, filter_plain h]
    rfl
  rw [Path.parent, hc, if_neg (by simp), List.dropLast_concat, ← h.slash]
  rfl

theorem createFrom_name {c : Name} {rest : List Component} (h : Standing t current l) :
    createFrom cwd stamp again path current (named c :: rest) t =
      if hasNul c then .error (.call eInval) t
      else
        match t.lookup (l ++ [c]) with
        | none =>
          createFrom cwd stamp again path (push current (named c)) rest (plant stamp 0o777 l c t)
        | some (.dir _ _) => createFrom cwd stamp again path (push current (named c)) rest t
        | some (.link _ target) =>
          again ((if target.absolute then target else current.join target).join (remainderOf rest)) t
        | some _ => .error (.present (push current (named c))) t := by
  have hskip : ¬ (named c = .rootDir ∨ named c = .segment .here) := by
    rintro (h | h) <;> cases h
  have hlstat : lstat cwd (push current (named c)) t = _ := h.lstat_name
  rw [createFrom]
  dsimp only [readLink]
  rw [if_neg hskip, hlstat]
  cases hc : hasNul c with
  | true => rfl
  | false =>
    cases hl : t.lookup (l ++ [c]) with
    | none =>
      have hmake : makeDir cwd stamp (push current (named c)) t =
          .ok ⟨⟩ (plant stamp 0o777 l c t) := h.insertNode_ok hc hl
      simp [hmake]
    | some n => cases n <;> simp [parent_push h]

theorem createFrom_here {component : Component} {rest : List Component}
    (h : component = .rootDir ∨ component = .segment .here) :
    createFrom cwd stamp again path current (component :: rest) t =
      createFrom cwd stamp again path current rest t := by
  rw [createFrom]
  exact if_pos h

theorem createFrom_up {rest : List Component} (h : Standing t current l) :
    createFrom cwd stamp again path current (.segment .up :: rest) t =
      createFrom cwd stamp again path (push current (.segment .up)) rest t := by
  have hlstat : ∃ n, lstat cwd (push current (.segment .up)) t = .ok n ∧ n.isDir :=
    h.push_up.lstat_self
  obtain ⟨n, hn, hdir⟩ := hlstat
  rw [createFrom]
  dsimp only
  rw [if_neg (by simp), hn]
  obtain ⟨a, es, rfl⟩ := eq_dir hdir
  rfl

/-- What becomes of the loop on a way. -/
def Goes (t₀ : Node) (again : Path → Make) (r : EStateM.Result Failure Node PUnit) : Way → Prop
  | .arrived => ∃ t', r = .ok ⟨⟩ t'
  | .blocked => ∃ e t', r = .error e t'
  | .through d target rest => ∃ base t', Standing t' base d ∧ Grows (fun _ => True) t₀ t' ∧
      r = again ((if target.absolute then target else base.join target).join
        (remainderOf (rest.map .segment))) t'

/-- The loop goes the way of the tree as it was before, and makes what is missing on it. -/
theorem createFrom_goes {t₀ : Node} {segments : List Segment} (h : Standing t current l)
    (hg : Grows (fun _ => True) t₀ t) :
    Goes t₀ again (createFrom cwd stamp again path current (segments.map .segment) t)
      (pass t₀ l segments) := by
  induction segments generalizing current l t with
  | nil => exact ⟨t, rfl⟩
  | cons s segments ih =>
    rw [List.map_cons]
    cases s with
    | here =>
      rw [createFrom_here (.inr rfl)]
      exact ih h hg
    | up =>
      rw [createFrom_up h]
      exact ih h.push_up hg
    | name c =>
      rw [← named, createFrom_name h]
      cases hc : hasNul c with
      | true =>
        rw [pass_name, if_pos hc]
        exact ⟨_, _, rfl⟩
      | false =>
        simp only [Bool.false_eq_true, if_false]
        cases hl : t.lookup (l ++ [c]) with
        | none =>
          rw [pass_name_dir hc (.inl (hg.of_none hl))]
          exact ih (h.grows_plant hc hl) (hg.trans (plant_grows h.dir hl trivial))
        | some n =>
          cases n with
          | dir a es =>
            have hd : IsDirAt t (l ++ [c]) := ⟨_, hl, rfl⟩
            rw [pass_name_dir hc (hg.dir_or_none hd)]
            exact ih (h.push_name hc hd) hg
          | link a target =>
            rw [pass_name, hc, hg.of_lookup hl rfl]
            exact ⟨current, t, h, hg, rfl⟩
          | file | special =>
            rw [pass_name, hc, hg.of_lookup hl rfl]
            exact ⟨_, _, rfl⟩

/-- The link of a target, the way on from it and the path that `create` starts again with. -/
theorem segments_join {p q : Path} (h : q.absolute = false) :
    (p.join q).absolute = p.absolute ∧ (p.join q).segments = p.segments ++ q.segments := by
  unfold Path.join
  rw [h, if_neg Bool.false_ne_true]
  split
  next hq => simp [hq]
  next => exact ⟨rfl, rfl⟩

theorem remainderOf_segments (segments : List Segment) :
    remainderOf (segments.map .segment) = ⟨false, segments, false⟩ := by
  have hfold : ∀ done, (segments.map Component.segment).foldl push ⟨false, done, false⟩ =
      ⟨false, done ++ segments, false⟩ := by
    induction segments with
    | nil => simp
    | cons s segments ih =>
      intro done
      rw [List.map_cons, List.foldl_cons]
      exact (ih (done ++ [s])).trans (by simp)
  exact hfold []

theorem arrives_of_pass {t₀ : Node} {l d : Location} {segments rest : List Segment}
    (h : pass t₀ l segments = pass t₀ d rest) (links : Nat) :
    arrives t₀ links l segments = arrives t₀ links d rest := by
  cases links with
  | zero => rfl
  | succ links => rw [arrives, arrives, h]

/-- Where `create` starts again, the way goes on from the link. -/
theorem arrives_again {t₀ : Node} {base next : Path} {d : Location} (target : Path)
    (rest : List Segment)    (h : Standing t base d) (hg : Grows (fun _ => True) t₀ t)
    (hnext : next = (if target.absolute then target else base.join target).join
      (remainderOf (rest.map .segment))) :
    next.absolute ∧ ∀ links, arrives t₀ links [] next.components =
      arrives t₀ links (if target.absolute then [] else d)
        ((target.segments ++ rest).filter (· ≠ .here)) := by
  rw [remainderOf_segments] at hnext
  cases habs : target.absolute with
  | true =>
    rw [habs, if_pos rfl] at hnext
    obtain ⟨hn, hsegments⟩ := segments_join (p := target) (q := ⟨false, rest, false⟩) rfl
    rw [← hnext] at hn hsegments
    refine ⟨hn.trans habs, fun links => ?_⟩
    rw [components_absolute (hn.trans habs), hsegments, if_pos rfl]
  | false =>
    rw [habs, if_neg Bool.false_ne_true] at hnext
    obtain ⟨hn, hsegments⟩ := segments_join (p := base.join target) (q := ⟨false, rest, false⟩) rfl
    obtain ⟨hb, hbase⟩ := segments_join (p := base) habs
    rw [← hnext, hb] at hn
    rw [← hnext, hbase, List.append_assoc] at hsegments
    refine ⟨hn.trans h.absolute, fun links => ?_⟩
    rw [components_absolute (hn.trans h.absolute), hsegments, List.filter_append, filter_plain h]
    exact arrives_of_pass (pass_append hg h.clean h.leads h.dir _) links

theorem succeeds_create {t₀ : Node} {links : Nat} (hp : path.absolute) (ht : t₀.isDir)
    (hg : Grows (fun _ => True) t₀ t) :
    succeeds (create cwd stamp links path) t = arrives t₀ links [] path.components := by
  induction links generalizing path t with
  | zero => rfl
  | succ links ih =>
    have hroot : IsDirAt t [] := hg.isDirAt (isDirAt_root ht)
    obtain ⟨n, hn, hdir⟩ := hroot
    rw [lookup_nil] at hn
    obtain rfl := Option.some.inj hn
    have hgoes : Goes t₀ (create cwd stamp links) (createFrom cwd stamp (create cwd stamp links)
        path ⟨true, [], false⟩ (path.components.map .segment) t) (pass t₀ [] path.components) :=
      createFrom_goes (standing_root hdir) hg
    have hcreate : create cwd stamp (links + 1) path t =
        createFrom cwd stamp (create cwd stamp links) path ⟨true, [], false⟩
          (path.components.map .segment) t := by
      rw [create, if_pos hp, componentsOf, if_pos hp]
      exact createFrom_here (.inl rfl)
    rw [← hcreate] at hgoes
    unfold Machine.Effect.succeeds arrives
    cases hpass : pass t₀ [] path.components with
    | arrived =>
      rw [hpass] at hgoes
      obtain ⟨t', ht'⟩ := hgoes
      rw [ht']
    | blocked =>
      rw [hpass] at hgoes
      obtain ⟨e, t', ht'⟩ := hgoes
      rw [ht']
    | through d target rest =>
      rw [hpass] at hgoes
      obtain ⟨base, t', hbase, hg', ht'⟩ := hgoes
      obtain ⟨hnext, harrives⟩ := arrives_again target rest hbase hg' rfl
      rw [ht']
      exact (ih hnext hg').trans (harrives links)

end Loop

section Clear

variable {t t' : Node}

theorem createFrom_ok {again : Path → Make} {path current : Path} {l : Location} {cs : List Name}
    (h : Standing t current l) (hway : OnWay (·.isLink = false) t l cs) :
    createFrom cwd stamp again path current (cs.map named) t = .ok ⟨⟩ t' ↔
      (∀ c ∈ cs, hasNul c = false) ∧ makeAll stamp 0o777 l cs t = some t' := by
  induction cs generalizing current l t with
  | nil => simp [createFrom, makeAll]
  | cons c cs ih =>
    have hd : ∀ n, t.lookup l = some n → n.isLink = false :=
      fun _ hn => isLink_of_isDir (h.dir.of_lookup hn)
    rw [onWay_cons hd] at hway
    rw [List.map_cons, createFrom_name h, List.forall_mem_cons, makeAll]
    cases hc : hasNul c with
    | true => simp
    | false =>
      simp only [Bool.false_eq_true, if_false, true_and]
      cases hl : t.lookup (l ++ [c]) with
      | none => exact ih (h.grows_plant hc hl) (onWay_plant h.dir hl rfl)
      | some n =>
        cases n with
        | dir a es => exact ih (h.push_name hc ⟨_, hl, rfl⟩) hway
        | link a target => cases hway [] List.nil_prefix _ (by rwa [List.append_nil])
        | file | special => simp

theorem create_ok {p : Path} (hp : p.absolute) (hup : .up ∉ p.segments) (ht : t.isDir)
    (hway : OnWay (·.isLink = false) t [] p.names) :
    createDirAllFollowingSymlinks cwd stamp p t = .ok ⟨⟩ t' ↔
      p.hasNul = false ∧ makeAll stamp 0o777 [] p.names t = some t' := by
  have hloop : createFrom cwd stamp (create cwd stamp 39) p ⟨true, [], false⟩
      (p.names.map named) t = .ok ⟨⟩ t' ↔ _ := createFrom_ok (standing_root ht) hway
  rw [hasNul_names, ← hloop, createDirAllFollowingSymlinks, create, if_pos hp,
    componentsOf_names hp hup, createFrom_here (.inl rfl)]

end Clear

/-- Every prefix of the path that is there resolves to a directory. -/
def Resolves (cwd : Location) (p : Path) (t : Node) : Prop :=
  ∀ s, s <+: p.components → ∀ n, lstat cwd ⟨p.absolute, s, false⟩ t = .ok n →
    pathIsDir cwd ⟨p.absolute, s, false⟩ t

/-- There is a directory for the path, and nothing else is new. -/
structure Made (cwd : Location) (p : Path) (t t' : Node) : Prop where
  dir : pathIsDir cwd p t'
  rest : Grows (· <+: p.names) t t'

/-- The two make directories for the same paths, those of which all that is there resolves to
directories; what they make is what the path is missing, and once it is there they make
nothing. -/
structure Agree (cwd : Location) (stamp : Int) (mode : Nat) (p : Path) (t : Node) : Prop where
  mkdir : succeeds (mkdirPath cwd stamp p mode true) t ↔ Resolves cwd p t
  create : succeeds (createDirAllFollowingSymlinks cwd stamp p) t ↔ Resolves cwd p t
  made : ∀ f ∈ [fun stamp => mkdirPath cwd stamp p mode true,
      fun stamp => createDirAllFollowingSymlinks cwd stamp p],
    ∀ t', f stamp t = .ok ⟨⟩ t' → Made cwd p t t' ∧ ∀ later, f later t' = .ok ⟨⟩ t'

section Agreement

variable {p : Path} {t t' : Node} {mode : Nat}

theorem stat_of_lstat {n : Node} (h : lstat cwd p t = .ok n) (hlink : n.isLink = false) :
    stat cwd p t = .ok n := by
  obtain ⟨l, hl, hn⟩ := lstat_ok.mp h
  exact stat_ok.mpr ⟨l, found_follow hl hn hlink, hn⟩

theorem pathIsDir_of_lstat {n : Node} (h : lstat cwd p t = .ok n) (hdir : n.isDir) :
    pathIsDir cwd p t := by
  rw [pathIsDir, stat_of_lstat h (isLink_of_isDir hdir)]
  exact hdir

theorem standing_names {q : List Name} (hd : IsDirAt t q) (hclean : ∀ c ∈ q, hasNul c = false) :
    Standing t ⟨true, q.map .name, false⟩ q where
  absolute := rfl
  slash := rfl
  plain := by simp
  clean := by
    intro c hc
    obtain ⟨d, hdq, hdc⟩ := List.mem_map.mp hc
    obtain rfl := Segment.name.inj hdc
    exact hclean d hdq
  leads := by
    have hq : (q.map Segment.name).filterMap Segment.name? = q := by
      rw [List.filterMap_map]
      exact List.filterMap_some
    have hup : .up ∉ q.map Segment.name := by simp
    have hleads : advance t true [] (q.map .name) = _ := advance_dirs hup (by rwa [hq])
    rwa [hq] at hleads
  dir := hd

theorem isDirAt_of_lstat {q : List Name} {n : Node} (ht : t.isDir)
    (hway : OnWay (·.isDir) t [] q) (h : lstat cwd ⟨true, q.map .name, false⟩ t = .ok n) :
    IsDirAt t q := by
  have hcases : IsDirAt t q ∨ (∃ d c, advance t false [] (q.map .name) = .arrived (.absent d c)) ∨
      ∃ e, advance t false [] (q.map .name) = .failed e := advance_onWay hway (isDirAt_root ht)
  obtain ⟨l, hl, -⟩ := lstat_ok.mp h
  have hlocate : locate cwd false ⟨true, q.map .name, false⟩ t = .ok (.found l) := by
    unfold found at hl
    split at hl
    · cases hl
      assumption
    · cases hl
    · cases hl
  unfold locate at hlocate
  split_ifs at hlocate
  rcases hcases with hd | ⟨d, c, ha⟩ | ⟨e, ha⟩
  · exact hd
  · simp [walk, start, Path.walked, ha] at hlocate
  · simp [walk, start, Path.walked, ha] at hlocate

theorem resolves_iff (hp : p.absolute) (hup : .up ∉ p.segments) (ht : t.isDir)
    (hclean : ∀ c ∈ p.names, hasNul c = false) (hway : OnWay (·.isLink = false) t [] p.names) :
    Resolves cwd p t ↔ OnWay (·.isDir) t [] p.names := by
  rw [Resolves, hp, components_names hp hup]
  constructor
  · intro h q hq n hn
    have hqclean : ∀ c ∈ q, hasNul c = false := fun c hc => hclean c (hq.subset hc)
    rcases List.eq_nil_or_concat q with rfl | ⟨q', c, rfl⟩
    · rw [List.append_nil, lookup_nil] at hn
      obtain rfl := Option.some.inj hn
      exact ht
    · rw [List.concat_eq_append] at hq hn hqclean
      rw [List.nil_append] at hn
      have hd : IsDirAt t q' := isDir_of_lookup hn
      have hs := standing_names hd fun c hc => hqclean c (List.mem_append_left _ hc)
      have hc : hasNul c = false := hqclean c (by simp)
      have hl : lstat cwd ⟨true, (q' ++ [c]).map .name, false⟩ t = .ok n := by
        rw [List.map_append]
        exact hs.lstat_name.trans (by simp [hc, hn])
      have hdir := h _ (hq.map _) n hl
      rw [pathIsDir, stat_of_lstat hl (hway _ hq n hn)] at hdir
      exact hdir
  · intro h s hs n hn
    obtain ⟨q, hq, rfl⟩ := List.prefix_map_iff.mp hs
    have hd := isDirAt_of_lstat ht (fun q' hq' => h q' (hq'.trans hq)) hn
    have hstanding := standing_names hd fun c hc => hclean c (hq.subset hc)
    have hlstat : ∃ m, lstat cwd ⟨true, q.map .name, false⟩ t = .ok m ∧ m.isDir :=
      hstanding.lstat_self
    obtain ⟨m, hm, hdir⟩ := hlstat
    exact pathIsDir_of_lstat hm hdir

def LinkOnWay (p : Path) (t : Node) : Prop :=
  ∃ l, l <+: p.names ∧ ∃ n, t.lookup l = some n ∧ n.isLink

theorem onWay_of_not_link (h : ¬ LinkOnWay p t) : OnWay (·.isLink = false) t [] p.names := by
  intro q hq n hn
  rw [← Bool.not_eq_true]
  exact fun hlink => h ⟨q, hq, n, hn, hlink⟩

theorem not_mkdir_ok (hp : p.absolute) (hup : .up ∉ p.segments) (ht : t.isDir)
    (h : p.hasNul ∨ LinkOnWay p t) : ¬ succeeds (mkdirPath cwd stamp p mode true) t := by
  intro hok
  obtain ⟨hnul, hmake⟩ := (mkdirPath_ok hp hup ht).mp (ok_final hok)
  rcases h with h | ⟨l, hl, n, hn, hlink⟩
  · rw [hnul] at h
    cases h
  · have hway := (makeAll_isSome (isDirAt_root ht)).mp (Option.isSome_of_mem hmake)
    rw [isLink_of_isDir (hway l hl n hn)] at hlink
    cases hlink

theorem pathIsDir_names (hp : p.absolute) (hup : .up ∉ p.segments) (hclean : p.hasNul = false)
    (hd : IsDirAt t p.names) : pathIsDir cwd p t := by
  have hnames : p.walked.filterMap Segment.name? = p.names := by
    unfold Path.walked
    split <;> simp [Path.names, Segment.name?]
  have hwalked : .up ∉ p.walked := by
    unfold Path.walked
    split <;> simpa using hup
  have hleads : advance t true [] p.walked = _ := advance_dirs hwalked (by rwa [hnames])
  rw [hnames] at hleads
  obtain ⟨n, hn, hdir⟩ := hd
  have hstat : stat cwd p t = .ok n := by
    refine stat_ok.mpr ⟨p.names, ?_, hn⟩
    simp [found, locate, hclean, hp, start, walk, hleads]
  rw [pathIsDir, hstat]
  exact hdir

theorem makes (cwd : Location) (stamp : Int) {f : Int → Make}
    (hf : ∀ stamp t t', t.isDir → OnWay (·.isLink = false) t [] p.names →
      (f stamp t = .ok ⟨⟩ t' ↔
        p.hasNul = false ∧ makeAll stamp mode [] p.names t = some t'))
    (hp : p.absolute) (hup : .up ∉ p.segments) (ht : t.isDir) (hclean : p.hasNul = false)
    (hlink : ¬ LinkOnWay p t) :
    (succeeds (f stamp) t ↔ Resolves cwd p t) ∧
      ∀ t', f stamp t = .ok ⟨⟩ t' → Made cwd p t t' ∧ ∀ later, f later t' = .ok ⟨⟩ t' := by
  have hway := onWay_of_not_link hlink
  constructor
  · have hsome : (makeAll stamp mode [] p.names t).isSome ↔ _ := makeAll_isSome (isDirAt_root ht)
    rw [resolves_iff hp hup ht (hasNul_names.mp hclean) hway, ← hsome]
    constructor
    · intro h
      exact Option.isSome_of_mem ((hf stamp t _ ht hway).mp (ok_final h)).2
    · intro h
      obtain ⟨t', ht'⟩ := Option.isSome_iff_exists.mp h
      rw [Machine.Effect.succeeds, (hf stamp t t' ht hway).mpr ⟨hclean, ht'⟩]
  · intro t' h
    obtain ⟨-, hmake⟩ := (hf stamp t t' ht hway).mp h
    obtain ⟨hg, hdirs⟩ := makeAll_grows (isDirAt_root ht) hmake
    have ht' : t'.isDir := (hdirs [] List.nil_prefix).of_lookup (lookup_nil t')
    have hway' : OnWay (·.isLink = false) t' [] p.names :=
      fun q hq n hn => isLink_of_isDir ((hdirs q hq).of_lookup hn)
    exact ⟨⟨pathIsDir_names hp hup hclean (hdirs p.names List.prefix_rfl), hg⟩,
      fun later => (hf later t' t' ht' hway').mpr ⟨hclean, makeAll_self hdirs⟩⟩

theorem agree_of_clear (hp : p.absolute) (hup : .up ∉ p.segments) (ht : t.isDir)
    (hclean : p.hasNul = false) (hlink : ¬ LinkOnWay p t) : Agree cwd stamp mode p t := by
  obtain ⟨hmkdir, hmade⟩ := makes cwd stamp (f := fun stamp => mkdirPath cwd stamp p mode true)
    (fun _ _ _ ht _ => mkdirPath_ok hp hup ht) hp hup ht hclean hlink
  obtain ⟨hcreate, hmade'⟩ := makes cwd stamp (f := fun stamp => createDirAllFollowingSymlinks cwd stamp p)
    (fun _ _ _ ht hway => create_ok hp hup ht hway) hp hup ht hclean hlink
  exact ⟨hmkdir, hcreate, by simpa using ⟨hmade, hmade'⟩⟩

/-- The two agree on a path if no link is on its way, or if both fail on it. -/
theorem creators_agree_iff (cwd : Location) (stamp : Int) (mode : Nat) (p : Path) (t : Node)
    (hp : p.absolute) (hup : .up ∉ p.segments) (ht : t.isDir) :
    Agree cwd stamp mode p t ↔
      p.hasNul = false ∧ ¬ LinkOnWay p t ∨
        ¬ Resolves cwd p t ∧ arrives t 40 [] p.components = false := by
  by_cases hclear : p.hasNul = false ∧ ¬ LinkOnWay p t
  · exact ⟨fun _ => .inl hclear, fun _ => agree_of_clear hp hup ht hclear.1 hclear.2⟩
  · have hmkdir : ¬ succeeds (mkdirPath cwd stamp p mode true) t := by
      refine not_mkdir_ok hp hup ht ?_
      by_contra hneither
      exact hclear ⟨by simpa using fun h => hneither (.inl h), fun h => hneither (.inr h)⟩
    have hcreate : succeeds (createDirAllFollowingSymlinks cwd stamp p) t =
        arrives t 40 [] p.components := succeeds_create hp ht (Grows.refl _ t)
    constructor
    · intro h
      have hnot := mt h.mkdir.mpr hmkdir
      have harrives := mt h.create.mp hnot
      rw [hcreate] at harrives
      exact .inr ⟨hnot, by simpa using harrives⟩
    · rintro (h | ⟨hnot, harrives⟩)
      · exact absurd h hclear
      · rw [← hcreate] at harrives
        refine ⟨iff_of_false hmkdir hnot, iff_of_false (by simp [harrives]) hnot, ?_⟩
        -- neither makes anything
        intro f hf t' h
        have hok : succeeds (f stamp) t := by rw [Machine.Effect.succeeds, h]
        rcases List.mem_pair.mp hf with rfl | rfl
        · exact absurd hok hmkdir
        · rw [harrives] at hok
          cases hok

def real : Name := ⟨['b'], by decide⟩

def alias_ : Name := ⟨['a'], by decide⟩

def wanted : Name := ⟨['c'], by decide⟩

/-- A directory `b` and a link `a` to it. -/
def demo : Node :=
  .dir (fresh 0 0o755) [(real, .dir (fresh 0 0o755) []),
    (alias_, .link (fresh 0 0o777) ⟨false, [.name real], false⟩)]

theorem agree_real : Agree [] 7 0o755 ⟨true, [.name real, .name wanted], false⟩ demo := by
  refine (creators_agree_iff [] 7 0o755 _ demo rfl (by decide) rfl).mpr (.inl ⟨by decide, ?_⟩)
  rintro ⟨l, hl, n, hn, hlink⟩
  have hmem : l ∈ [real, wanted].inits := (List.mem_inits l _).mpr hl
  have hlookup : ∀ l ∈ [real, wanted].inits, (demo.lookup l).any Node.isLink = false := by decide
  have hfalse := hlookup l hmem
  rw [hn] at hfalse
  exact Bool.false_ne_true (hfalse.symm.trans hlink)

/-- Below the link the one makes a directory, the other refuses. -/
theorem alias_parts : ¬ Agree [] 7 0o755 ⟨true, [.name alias_, .name wanted], false⟩ demo := by
  intro h
  have hcreate : succeeds (createDirAllFollowingSymlinks [] 7
      ⟨true, [.name alias_, .name wanted], false⟩) demo := by decide
  have hmkdir : succeeds (mkdirPath [] 7 ⟨true, [.name alias_, .name wanted], false⟩ 0o755 true)
      demo = false := by decide
  have hok := h.mkdir.mpr (h.create.mp hcreate)
  rw [hmkdir] at hok
  cases hok

end Agreement

end FractalD.Supervisor.Directories
