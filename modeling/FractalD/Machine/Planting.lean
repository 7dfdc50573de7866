import FractalD.Machine.FileCalls

namespace FractalD.Machine.Planting

open FractalD.Machine.CString FractalD.Machine.FileTree FractalD.Machine.FileTree.Node
open FractalD.Machine.FileCalls FractalD.Machine.PathWalk FractalD.Platform

/-- The tree with a new directory in it. -/
def plant (stamp : Int) (mode : Nat) (l : Location) (c : Name) (t : Node) : Node :=
  t.update (addEntry stamp c (.dir (fresh stamp mode) [])) l

/-- The node without what an entry that is added below it changes. -/
def bare : Node → Node
  | .dir a _ => .dir { a with modified := 0 } []
  | n => n

def IsDirAt (t : Node) (l : Location) : Prop := ∃ n, t.lookup l = some n ∧ n.isDir

/-- All that is different in the second tree is that there are directories, at some of these
places, where nothing was. -/
def Grows (new : Location → Prop) (t t' : Node) : Prop :=
  ∀ l, (t'.lookup l).map bare = (t.lookup l).map bare ∨
    new l ∧ t.lookup l = none ∧ IsDirAt t' l

variable {new : Location → Prop} {t t' t'' : Node} {stamp : Int} {mode : Nat}

@[simp]
theorem isDir_bare (n : Node) : (bare n).isDir = n.isDir := by
  cases n <;> rfl

theorem bare_face (n : Node) : bare (face n) = bare n := by
  cases n <;> rfl

theorem eq_of_bare {n m : Node} (h : bare n = bare m) (hdir : n.isDir = false) : n = m := by
  cases n with
  | dir a es => cases hdir
  | file | link | special =>
    cases m with
    | dir a es => cases h
    | file | link | special => exact h

theorem map_bare_eq_none {o : Option Node} {n : Option Node} (h : o.map bare = n.map bare) :
    o = none ↔ n = none := by
  rw [← Option.map_eq_none_iff (f := bare), h, Option.map_eq_none_iff]

theorem Grows.refl (new : Location → Prop) (t : Node) : Grows new t t := fun _ => .inl rfl

theorem IsDirAt.of_bare {l : Location} (h : (t'.lookup l).map bare = (t.lookup l).map bare)
    (hd : IsDirAt t l) : IsDirAt t' l := by
  obtain ⟨n, hn, hdir⟩ := hd
  rw [hn] at h
  obtain ⟨m, hm, hmn⟩ := Option.map_eq_some_iff.mp h
  refine ⟨m, hm, ?_⟩
  rw [← isDir_bare, hmn, isDir_bare]
  exact hdir

theorem Grows.isDirAt (h : Grows new t t') {l : Location} (hd : IsDirAt t l) : IsDirAt t' l := by
  rcases h l with hb | ⟨-, -, hd'⟩
  · exact hd.of_bare hb
  · exact hd'

theorem Grows.trans (h : Grows new t t') (h' : Grows new t' t'') : Grows new t t'' := by
  intro l
  rcases h l with hb | ⟨hnew, hnone, hd⟩
  · rcases h' l with hb' | ⟨hnew', hnone', hd'⟩
    · exact .inl (hb'.trans hb)
    · exact .inr ⟨hnew', (map_bare_eq_none hb).mp hnone', hd'⟩
  · exact .inr ⟨hnew, hnone, h'.isDirAt hd⟩

theorem Grows.mono {new' : Location → Prop} (h : Grows new t t') (hnew : ∀ l, new l → new' l) :
    Grows new' t t' := by
  intro l
  rcases h l with hb | ⟨hl, hnone, hd⟩
  · exact .inl hb
  · exact .inr ⟨hnew l hl, hnone, hd⟩

theorem Grows.of_none (h : Grows new t t') {l : Location} (hnone : t'.lookup l = none) :
    t.lookup l = none := by
  rcases h l with hb | ⟨-, hl, -⟩
  · exact (map_bare_eq_none hb).mp hnone
  · exact hl

theorem Grows.of_lookup (h : Grows new t t') {l : Location} {n : Node}
    (hn : t'.lookup l = some n) (hdir : n.isDir = false) : t.lookup l = some n := by
  rcases h l with hb | ⟨-, -, m, hm, hd⟩
  · rw [hn] at hb
    obtain ⟨m, hm, hmn⟩ := Option.map_eq_some_iff.mp hb.symm
    rw [hm, eq_of_bare hmn.symm hdir]
  · obtain rfl := Option.some.inj (hn.symm.trans hm)
    rw [hdir] at hd
    cases hd

theorem Grows.lookup_eq (h : Grows new t t') {l : Location} {n : Node}
    (hn : t.lookup l = some n) (hdir : n.isDir = false) : t'.lookup l = some n := by
  rcases h l with hb | ⟨-, hnone, -⟩
  · rw [hn] at hb
    obtain ⟨m, hm, hmn⟩ := Option.map_eq_some_iff.mp hb
    rw [hm, eq_of_bare hmn.symm hdir]
  · rw [hn] at hnone
    cases hnone

theorem eq_dir {n : Node} (h : n.isDir) : ∃ a es, n = .dir a es := by
  cases n with
  | dir a es => exact ⟨a, es, rfl⟩
  | file | link | special => cases h

theorem isDirAt_root (h : t.isDir) : IsDirAt t [] := ⟨t, lookup_nil t, h⟩

theorem IsDirAt.dropLast {l : Location} (h : IsDirAt t l) : IsDirAt t l.dropLast := by
  rcases List.eq_nil_or_concat l with rfl | ⟨l', c, rfl⟩
  · exact h
  · obtain ⟨n, hn, -⟩ := h
    rw [List.concat_eq_append] at hn ⊢
    rw [List.dropLast_concat]
    exact isDir_of_lookup hn

theorem lookup_below_none {l : Location} (h : t.lookup l = none) (q : Location) :
    t.lookup (l ++ q) = none := by
  rw [lookup_append, h]
  rfl

section Plant

variable {l : Location} {c : Name}

/-- What a new entry of a directory adds, and what it leaves. -/
theorem lookup_addEntry {a : Attributes} {es : List (Name × Node)} {m : Node}
    (hnone : es.lookup c = none) (d : Name) (q : Location) :
    (addEntry stamp c m (.dir a es)).lookup (d :: q) =
      if d = c then m.lookup q else (Node.dir a es).lookup (d :: q) := by
  rw [addEntry, lookup_dir_cons, lookup_dir_cons, List.lookup_append]
  by_cases hd : d = c
  · subst hd
    simp [hnone]
  · have hdc : (d == c) = false := by simpa using hd
    cases hl : es.lookup d <;> simp [List.lookup_cons, hdc, hd]

theorem lookup_plant_below (hd : IsDirAt t l) (hnone : t.lookup (l ++ [c]) = none)
    (d : Name) (q : Location) :
    (plant stamp mode l c t).lookup (l ++ d :: q) =
      if d = c then (Node.dir (fresh stamp mode) []).lookup q else t.lookup (l ++ d :: q) := by
  obtain ⟨n, hn, hdir⟩ := hd
  cases n with
  | file | link | special => cases hdir
  | dir a es =>
    have hes : es.lookup c = none := by
      rw [lookup_append, hn, Option.bind_some, lookup_dir_cons] at hnone
      cases hc : es.lookup c with
      | none => rfl
      | some m => simp [hc] at hnone
    rw [plant, lookup_update_below, lookup_append, hn, Option.bind_some, Option.bind_some,
      lookup_addEntry hes]

theorem lookup_plant (hd : IsDirAt t l) (hnone : t.lookup (l ++ [c]) = none) (q : Location) :
    (plant stamp mode l c t).lookup (l ++ [c] ++ q) =
      (Node.dir (fresh stamp mode) []).lookup q := by
  rw [List.append_assoc, List.singleton_append, lookup_plant_below hd hnone, if_pos rfl]

theorem isDirAt_plant (hd : IsDirAt t l) (hnone : t.lookup (l ++ [c]) = none) :
    IsDirAt (plant stamp mode l c t) (l ++ [c]) := by
  refine ⟨.dir (fresh stamp mode) [], ?_, rfl⟩
  have h : (plant stamp mode l c t).lookup (l ++ [c] ++ []) = _ := lookup_plant hd hnone []
  rwa [List.append_nil] at h

theorem plant_grows (hd : IsDirAt t l) (hnone : t.lookup (l ++ [c]) = none)
    (hnew : new (l ++ [c])) : Grows new t (plant stamp mode l c t) := by
  intro q
  by_cases hq : l <+: q
  · obtain ⟨s, rfl⟩ := hq
    cases s with
    | nil =>
      refine .inl ?_
      obtain ⟨n, hn, -⟩ := hd
      rw [List.append_nil, plant, lookup_update_at, hn]
      cases n <;> rfl
    | cons d s =>
      by_cases hdc : d = c
      · subst hdc
        cases s with
        | nil => exact .inr ⟨hnew, hnone, isDirAt_plant hd hnone⟩
        | cons e s =>
          refine .inl ?_
          rw [lookup_plant_below hd hnone, if_pos rfl, lookup_dir_cons]
          have h := lookup_below_none hnone (e :: s)
          rw [List.append_assoc, List.singleton_append] at h
          rw [h]
          rfl
      · refine .inl ?_
        rw [lookup_plant_below hd hnone, if_neg hdc]
  · refine .inl ?_
    have h := face_lookup_update (addEntry stamp c (.dir (fresh stamp mode) [])) t hq
    have hb := congrArg (Option.map bare) h
    have hface : bare ∘ face = bare := funext bare_face
    rwa [Option.map_map, Option.map_map, hface] at hb

end Plant

/-- Make what is missing on the way from a place, as long as nothing else stands there. -/
def makeAll (stamp : Int) (mode : Nat) : Location → List Name → Node → Option Node
  | _, [], t => some t
  | l, c :: cs, t =>
    match t.lookup (l ++ [c]) with
    | none => makeAll stamp mode (l ++ [c]) cs (plant stamp mode l c t)
    | some (.dir _ _) => makeAll stamp mode (l ++ [c]) cs t
    | some _ => none

def OnWay (P : Node → Prop) (t : Node) (l : Location) (cs : List Name) : Prop :=
  ∀ q, q <+: cs → ∀ n, t.lookup (l ++ q) = some n → P n

theorem onWay_cons {P : Node → Prop} {l : Location} {c : Name} {cs : List Name}
    (hd : ∀ n, t.lookup l = some n → P n) : OnWay P t l (c :: cs) ↔ OnWay P t (l ++ [c]) cs := by
  constructor
  · intro h q hq n hn
    refine h (c :: q) (List.cons_prefix_cons.mpr ⟨rfl, hq⟩) n ?_
    rwa [List.append_assoc] at hn
  · intro h q hq n hn
    cases q with
    | nil =>
      rw [List.append_nil] at hn
      exact hd n hn
    | cons d q =>
      obtain ⟨rfl, hqs⟩ := List.cons_prefix_cons.mp hq
      refine h q hqs n ?_
      rwa [List.append_assoc]

/-- Below a place where nothing is, nothing is in the way. -/
theorem onWay_of_none {P : Node → Prop} {l : Location} {cs : List Name} (h : t.lookup l = none) :
    OnWay P t l cs := by
  intro q _ n hn
  rw [lookup_below_none h] at hn
  cases hn

theorem onWay_plant {P : Node → Prop} {l : Location} {c : Name} {cs : List Name}
    (hd : IsDirAt t l) (hnone : t.lookup (l ++ [c]) = none)
    (hP : P (.dir (fresh stamp mode) [])) : OnWay P (plant stamp mode l c t) (l ++ [c]) cs := by
  intro q _ n hn
  rw [lookup_plant hd hnone] at hn
  cases q with
  | nil =>
    rw [lookup_nil] at hn
    cases hn
    exact hP
  | cons d q => cases hn

theorem IsDirAt.of_lookup {l : Location} (h : IsDirAt t l) {n : Node} (hn : t.lookup l = some n) :
    n.isDir := by
  obtain ⟨m, hm, hdir⟩ := h
  obtain rfl := Option.some.inj (hm.symm.trans hn)
  exact hdir

theorem IsDirAt.of_prefix {l q : Location} (h : IsDirAt t q) (hl : l <+: q) : IsDirAt t l := by
  obtain ⟨s, rfl⟩ := hl
  cases s with
  | nil => rwa [List.append_nil] at h
  | cons c s =>
    obtain ⟨n, hn, -⟩ := h
    exact isDir_of_lookup hn

theorem makeAll_isSome {l : Location} {cs : List Name} (hd : IsDirAt t l) :
    (makeAll stamp mode l cs t).isSome ↔ OnWay (·.isDir) t l cs := by
  induction cs generalizing l t with
  | nil =>
    refine ⟨fun _ q hq n hn => ?_, fun _ => rfl⟩
    obtain rfl := List.prefix_nil.mp hq
    rw [List.append_nil] at hn
    exact hd.of_lookup hn
  | cons c cs ih =>
    rw [onWay_cons fun _ hn => hd.of_lookup hn, makeAll]
    cases hl : t.lookup (l ++ [c]) with
    | none =>
      dsimp only
      rw [ih (isDirAt_plant hd hl)]
      exact ⟨fun _ => onWay_of_none hl, fun _ => onWay_plant hd hl rfl⟩
    | some n =>
      cases n with
      | dir a es => exact ih ⟨_, hl, rfl⟩
      | file | link | special =>
        refine ⟨fun h => (by cases h), fun h => ?_⟩
        have hdir := h [] List.nil_prefix _ (by rwa [List.append_nil])
        cases hdir

theorem makeAll_grows {l : Location} {cs : List Name} (hd : IsDirAt t l)
    (h : makeAll stamp mode l cs t = some t') :
    Grows (· <+: l ++ cs) t t' ∧ ∀ q, q <+: cs → IsDirAt t' (l ++ q) := by
  induction cs generalizing l t with
  | nil =>
    cases h
    refine ⟨Grows.refl _ _, fun q hq => ?_⟩
    obtain rfl := List.prefix_nil.mp hq
    rwa [List.append_nil]
  | cons c cs ih =>
    have hassoc : l ++ [c] ++ cs = l ++ c :: cs := by simp
    -- what holds of the rest of the way holds of the whole of it
    have hwhole : ∀ {u : Node}, Grows (· <+: l ++ c :: cs) t u → IsDirAt u (l ++ [c]) →
        makeAll stamp mode (l ++ [c]) cs u = some t' →
        Grows (· <+: l ++ c :: cs) t t' ∧ ∀ q, q <+: c :: cs → IsDirAt t' (l ++ q) := by
      intro u hu hdu hm
      obtain ⟨hg, hdirs⟩ := ih hdu hm
      rw [hassoc] at hg
      refine ⟨hu.trans hg, fun q hq => ?_⟩
      cases q with
      | nil =>
        rw [List.append_nil]
        exact (hu.trans hg).isDirAt hd
      | cons d q =>
        obtain ⟨rfl, hqs⟩ := List.cons_prefix_cons.mp hq
        simpa using hdirs q hqs
    rw [makeAll] at h
    cases hl : t.lookup (l ++ [c]) with
    | none =>
      rw [hl] at h
      refine hwhole (plant_grows hd hl ?_) (isDirAt_plant hd hl) h
      rw [← hassoc]
      exact List.prefix_append _ _
    | some n =>
      rw [hl] at h
      cases n with
      | dir a es => exact hwhole (Grows.refl _ t) ⟨_, hl, rfl⟩ h
      | file | link | special => cases h

theorem makeAll_self {l : Location} {cs : List Name} (h : ∀ q, q <+: cs → IsDirAt t (l ++ q)) :
    makeAll stamp mode l cs t = some t := by
  induction cs generalizing l with
  | nil => rfl
  | cons c cs ih =>
    obtain ⟨n, hn, hdir⟩ := h [c] (List.cons_prefix_cons.mpr ⟨rfl, List.nil_prefix⟩)
    rw [makeAll, hn]
    cases n with
    | file | link | special => cases hdir
    | dir a es =>
      refine ih fun q hq => ?_
      simpa using h (c :: q) (List.cons_prefix_cons.mpr ⟨rfl, hq⟩)

def hasNul (c : Name) : Bool := c.text.contains (Char.ofNat 0)

/-- How far one comes without following a link, where what is missing is made. -/
inductive Way
  | arrived
  | through (l : Location) (target : Path) (rest : List Segment)
  | blocked

def pass (t : Node) : Location → List Segment → Way
  | _, [] => .arrived
  | l, .here :: rest => pass t l rest
  | l, .up :: rest => pass t l.dropLast rest
  | l, .name c :: rest =>
    if hasNul c then .blocked
    else
      match t.lookup (l ++ [c]) with
      | none | some (.dir _ _) => pass t (l ++ [c]) rest
      | some (.link _ target) => .through l target rest
      | some _ => .blocked

/-- Whether one comes to the end with fewer than so many links. -/
def arrives (t : Node) : Nat → Location → List Segment → Bool
  | 0, _, _ => false
  | links + 1, l, segments =>
    match pass t l segments with
    | .arrived => true
    | .blocked => false
    | .through d target rest =>
      arrives t links (if target.absolute then [] else d)
        ((target.segments ++ rest).filter (· ≠ .here))

theorem pass_name (l : Location) (c : Name) (rest : List Segment) :
    pass t l (.name c :: rest) =
      if hasNul c then .blocked
      else
        match t.lookup (l ++ [c]) with
        | none | some (.dir _ _) => pass t (l ++ [c]) rest
        | some (.link _ target) => .through l target rest
        | some _ => .blocked := rfl

theorem pass_name_dir {l : Location} {c : Name} (hnul : hasNul c = false)
    (h : t.lookup (l ++ [c]) = none ∨ IsDirAt t (l ++ [c])) (rest : List Segment) :
    pass t l (.name c :: rest) = pass t (l ++ [c]) rest := by
  rw [pass_name, hnul, if_neg Bool.false_ne_true]
  rcases h with h | ⟨n, h, hdir⟩
  · rw [h]
  · rw [h]
    cases n with
    | dir a es => rfl
    | file | link | special => cases hdir

theorem Grows.dir_or_none (h : Grows new t t') {l : Location} (hd : IsDirAt t' l) :
    t.lookup l = none ∨ IsDirAt t l := by
  rcases h l with hb | ⟨-, hnone, -⟩
  · exact .inr (hd.of_bare hb.symm)
  · exact .inl hnone

/-- Where a walk over directories comes to, one also comes by making what is missing. -/
theorem pass_append (h : Grows new t t') {l d : Location} {segments : List Segment}
    (hnul : ∀ c, .name c ∈ segments → hasNul c = false)
    (ha : advance t' true l segments = .arrived (.found d)) (hd : IsDirAt t' d)
    (rest : List Segment) : pass t l (segments ++ rest) = pass t d rest := by
  induction segments generalizing l with
  | nil =>
    cases ha
    rfl
  | cons s segments ih =>
    have ih := fun {l} => ih (l := l) fun c hc => hnul c (List.mem_cons_of_mem _ hc)
    cases s with
    | here => exact ih ha
    | up => exact ih ha
    | name c =>
      have hc := hnul c List.mem_cons_self
      rw [advance_name] at ha
      rw [List.cons_append]
      cases hl : t'.lookup (l ++ [c]) with
      | none =>
        rw [hl] at ha
        dsimp only at ha
        split at ha <;> cases ha
      | some n =>
        rw [hl] at ha
        cases n with
        | dir a es =>
          rw [pass_name_dir hc (h.dir_or_none ⟨_, hl, rfl⟩)]
          exact ih ha
        | link a target => simp at ha
        | file | special =>
          dsimp only at ha
          split at ha
          · cases ha
            cases hd.of_lookup hl
          · cases ha

/-- A walk over directories goes the same way in the grown tree. -/
theorem advance_grows (h : Grows new t t') {l d : Location} {segments : List Segment}
    (ha : advance t true l segments = .arrived (.found d)) :
    advance t' true l segments = .arrived (.found d) := by
  induction segments generalizing l with
  | nil => exact ha
  | cons s segments ih =>
    cases s with
    | here => exact ih ha
    | up => exact ih ha
    | name c =>
      rw [advance_name] at ha ⊢
      cases hl : t.lookup (l ++ [c]) with
      | none =>
        rw [hl] at ha
        dsimp only at ha
        split at ha <;> cases ha
      | some n =>
        rw [hl] at ha
        cases n with
        | dir a es =>
          obtain ⟨m, hm, hdir⟩ := h.isDirAt ⟨_, hl, rfl⟩
          rw [hm]
          cases m with
          | dir b fs => exact ih ha
          | file | link | special => cases hdir
        | link a target => simp at ha
        | file | special =>
          rw [h.lookup_eq hl rfl]
          exact ha

theorem advance_dirs {follow : Bool} {l : Location} {segments : List Segment}
    (hup : .up ∉ segments) (h : IsDirAt t (l ++ segments.filterMap Segment.name?)) :
    advance t follow l segments = .arrived (.found (l ++ segments.filterMap Segment.name?)) := by
  induction segments generalizing l with
  | nil => simp [advance]
  | cons s segments ih =>
    obtain ⟨hs, hrest⟩ := not_or.mp fun hm => hup (List.mem_cons.mpr hm)
    cases s with
    | here => exact ih hrest h
    | up => exact absurd rfl hs
    | name c =>
      have hassoc : l ++ (Segment.name c :: segments).filterMap Segment.name? =
          l ++ [c] ++ segments.filterMap Segment.name? := by
        rw [List.append_assoc]
        rfl
      rw [hassoc] at h ⊢
      obtain ⟨n, hn, hdir⟩ := h.of_prefix (List.prefix_append _ _)
      obtain ⟨a, es, rfl⟩ := eq_dir hdir
      rw [advance_name, hn]
      exact ih hrest h

/-- Where only directories are on the way, a walk ends at one or for want of one. -/
theorem advance_onWay {follow : Bool} {l : Location} {cs : List Name}
    (h : OnWay (·.isDir) t l cs) (hd : IsDirAt t l) :
    IsDirAt t (l ++ cs) ∨ (∃ d c, advance t follow l (cs.map .name) = .arrived (.absent d c)) ∨
      ∃ e, advance t follow l (cs.map .name) = .failed e := by
  induction cs generalizing l with
  | nil =>
    rw [List.append_nil]
    exact .inl hd
  | cons c cs ih =>
    rw [onWay_cons fun _ hn => hd.of_lookup hn] at h
    rw [List.map_cons, advance_name]
    cases hl : t.lookup (l ++ [c]) with
    | none =>
      refine .inr ?_
      dsimp only
      split
      · exact .inl ⟨l, c, rfl⟩
      · exact .inr ⟨eNoEnt, rfl⟩
    | some n =>
      have hdir := h [] List.nil_prefix n (by rwa [List.append_nil])
      obtain ⟨a, es, rfl⟩ := eq_dir hdir
      have hassoc : l ++ c :: cs = l ++ [c] ++ cs := by simp
      rw [hassoc]
      exact ih h ⟨_, hl, rfl⟩

end FractalD.Machine.Planting
