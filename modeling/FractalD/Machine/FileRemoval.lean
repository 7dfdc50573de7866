import FractalD.Machine.FileCalls

namespace FractalD.Machine.FileRemoval

open FractalD.Machine.FileTree FractalD.Machine.PathWalk FractalD.Machine.FileCalls
open FractalD.Machine.Effect FractalD.Platform

/-- The difference is at a place or below it, but for the time stamp of the directory that
holds the place. -/
structure Shrinks (l : Location) (before after : Node) : Prop where
  remains : Remains after before
  stays : ∀ q, ¬ l <+: q → before.lookup q ≠ none → after.lookup q ≠ none
  outside : ∀ q, ¬ l <+: q → q ≠ l.dropLast →
    (after.lookup q).map Node.face = (before.lookup q).map Node.face

theorem face_eq_iff {n m : Node} : n.face = m.face →
    n.isDir ∧ m.isDir ∧ n.attributes = m.attributes ∨ n.isDir = false ∧ m = n := by
  intro h
  cases n <;> cases m <;> simp_all [Node.face, Node.isDir, Node.attributes]

theorem kept_of_face {n : Node} {m : Option Node} (h : some n.face = m.map Node.face) :
    ∃ k, m = some k ∧ (n.isDir ∧ k.isDir ∨ n.isDir = false ∧ k = n) := by
  obtain ⟨k, hk, hface⟩ := Option.map_eq_some_iff.mp h.symm
  refine ⟨k, hk, ?_⟩
  rcases face_eq_iff hface.symm with ⟨hn, hm, -⟩ | h
  · exact .inl ⟨hn, hm⟩
  · exact .inr h

theorem ne_none_of_face {n m : Option Node} (h : n.map Node.face = m.map Node.face) (hm : m ≠ none) :
    n ≠ none := by
  rintro rfl
  exact hm (Option.map_eq_none_iff.mp h.symm)

theorem Shrinks.refl (l : Location) (t : Node) : Shrinks l t t :=
  ⟨Remains.refl t, fun _ _ h => h, fun _ _ _ => rfl⟩

theorem Shrinks.trans {l : Location} {a b c : Node} (hab : Shrinks l a b) (hbc : Shrinks l b c) :
    Shrinks l a c where
  remains := hbc.remains.trans hab.remains
  stays q hq h := hbc.stays q hq (hab.stays q hq h)
  outside q hq hne := (hbc.outside q hq hne).trans (hab.outside q hq hne)

variable {t : Node} {l : Location} {stamp : Int} {c : Name}

theorem lookup_filter {es : List (Name × Node)} {d : Name} :
    (es.filter (·.1 ≠ c)).lookup d = if d = c then none else es.lookup d := by
  induction es with
  | nil => simp
  | cons e es ih =>
    obtain ⟨k, n⟩ := e
    by_cases hk : k = c
    · subst hk
      by_cases hd : d = k
      · simpa [hd] using ih
      · have hdk : (d == k) = false := by simpa using hd
        simpa [hd, hdk, List.lookup_cons] using ih
    · have hck : (c == k) = false := by simpa using fun h => hk h.symm
      rw [List.filter_cons_of_pos (by simpa using hk), List.lookup_cons, List.lookup_cons, ih]
      by_cases hd : d = c
      · subst hd
        simp [hck]
      · simp [hd]

theorem lookup_removeEntry (n : Node) (d : Name) (q : Location) :
    (removeEntry stamp c n).lookup (d :: q) = if d = c then none else n.lookup (d :: q) := by
  cases n with
  | dir a es =>
    simp only [removeEntry, Node.lookup_dir_cons, lookup_filter]
    split <;> rfl
  | file | link | special =>
    simp [removeEntry, Node.lookup]

/-- What a removal takes away, it takes away with all that is below. -/
theorem lookup_removed (t : Node) (d : Location) (q : Location) :
    (t.update (removeEntry stamp c) d).lookup (d ++ c :: q) = none := by
  rw [Node.lookup_update_below]
  cases t.lookup d with
  | none => rfl
  | some n => exact (lookup_removeEntry n c q).trans (if_pos rfl)

theorem shrinks_removeEntry (t : Node) (d : Location) :
    Shrinks (d ++ [c]) t (t.update (removeEntry stamp c) d) := by
  have houtside : ∀ q, ¬ d ++ [c] <+: q → q ≠ d →
      ((t.update (removeEntry stamp c) d).lookup q).map Node.face =
        (t.lookup q).map Node.face := by
    intro q hq hne
    by_cases hd : d <+: q
    · obtain ⟨r, rfl⟩ := hd
      cases r with
      | nil => simp at hne
      | cons e r =>
        have hec : e ≠ c := by
          rintro rfl
          exact hq ⟨r, by simp⟩
        rw [Node.lookup_update_below, Node.lookup_append]
        cases t.lookup d with
        | none => rfl
        | some n => exact congrArg _ ((lookup_removeEntry n e r).trans (if_neg hec))
    · exact Node.face_lookup_update _ t hd
  have hhere := Node.lookup_update_at (removeEntry stamp c) t d
  refine ⟨?_, ?_, ?_⟩
  · intro q n hn
    by_cases hq : d ++ [c] <+: q
    · obtain ⟨r, rfl⟩ := hq
      rw [List.append_assoc, List.singleton_append, lookup_removed] at hn
      cases hn
    · by_cases hd : q = d
      · subst hd
        rw [hhere] at hn
        obtain ⟨m, hm, rfl⟩ := Option.map_eq_some_iff.mp hn
        refine ⟨m, hm, ?_⟩
        cases m <;> simp [removeEntry, Node.isDir]
      · have h := houtside q hq hd
        rw [hn] at h
        exact kept_of_face h
  · intro q hq hn
    by_cases hd : q = d
    · subst hd
      rw [hhere]
      simpa using hn
    · exact ne_none_of_face (houtside q hq hd) hn
  · intro q hq hne
    rw [List.dropLast_concat] at hne
    exact houtside q hq hne

theorem lookup_clear (n : Node) (d : Name) (q : Location) :
    (clear stamp n).lookup (d :: q) = none := by
  cases n with
  | dir a es => cases es <;> rfl
  | file | link | special => rfl

theorem isDir_clear (n : Node) : (clear stamp n).isDir = n.isDir := by
  cases n with
  | dir a es => cases es <;> rfl
  | file | link | special => rfl

/-- A directory is empty once it has been cleared. -/
theorem lookup_cleared (stamp : Int) (c : Name) (t : Node) (l q : Location) :
    (t.update (clear stamp) l).lookup (l ++ c :: q) = none := by
  rw [Node.lookup_update_below]
  cases t.lookup l with
  | none => rfl
  | some n => exact lookup_clear n c q

theorem shrinks_clear (stamp : Int) (t : Node) (l : Location) : Shrinks l t (t.update (clear stamp) l) := by
  refine ⟨?_, ?_, fun q hq _ => Node.face_lookup_update _ t hq⟩
  · intro q n hn
    by_cases hq : l <+: q
    · obtain ⟨r, rfl⟩ := hq
      cases r with
      | nil =>
        rw [List.append_nil, Node.lookup_update_at] at hn
        obtain ⟨m, hm, rfl⟩ := Option.map_eq_some_iff.mp hn
        rw [List.append_nil]
        refine ⟨m, hm, ?_⟩
        cases m with
        | dir a es => exact .inl ⟨isDir_clear (.dir a es), rfl⟩
        | file | link | special => exact .inr ⟨rfl, rfl⟩
      | cons d r =>
        rw [lookup_cleared] at hn
        cases hn
    · have h := Node.face_lookup_update (clear stamp) t hq
      rw [hn] at h
      exact kept_of_face h
  · exact fun q hq hn => ne_none_of_face (Node.face_lookup_update (clear stamp) t hq) hn

/-- A removal is about the place to which its path leads. -/
theorem entryOf_ok {cwd : Location} {p : Path} {d : Location} {n : Node}
    (h : entryOf cwd p t = .ok (d, c, n)) :
    found cwd false p t = .ok (d ++ [c]) ∧ t.lookup (d ++ [c]) = some n := by
  unfold entryOf at h
  split at h
  · cases h
  next hnul =>
  split at h
  · cases h
  · cases h
  · cases h
  next e hlast =>
  split at h
  next d' hw =>
    split at h
    · cases h
    next m hm =>
      split at h
      · cases h
      next hslash =>
        cases h
        refine ⟨?_, hm⟩
        obtain ⟨d'', hd''⟩ := List.getLast?_eq_some_iff.mp hlast
        rw [hd'', List.dropLast_concat] at hw
        obtain ⟨k, hk, hdir⟩ := Node.isDir_of_lookup hm
        obtain ⟨links, hlinks⟩ := walk_append hw hk hdir
        have hne : p.segments ≠ [] := by simp [hd'']
        have hwalk : walk t false maxLinks (start cwd p) p.walked = .ok (.found (d ++ [c])) := by
          unfold Path.walked
          rw [hd'', List.append_assoc, hlinks _ _ (by simp)]
          cases hs : p.slash with
          | false => exact walk_name hm
          | true =>
            have hmdir : n.isDir := by simpa [hs] using hslash
            exact walk_dirName hm hmdir (by simp)
        simp [found, locate, hnul, hne, hwalk]
  · cases h
  · cases h

theorem entryOf_child {cwd : Location} {p : Path} {d : Location} {n : Node}
    (hf : found cwd true p t = .ok d) (hn : t.lookup (d ++ [c]) = some n)
    (hnul : (p.child c).hasNul = false) :
    entryOf cwd (p.child c) t = .ok (d, c, n) := by
  have hw : walk t true maxLinks (start cwd p) p.segments = .ok (.found d) := by
    unfold found locate at hf
    split at hf
    next hl =>
      split_ifs at hl
      cases hf
      unfold Path.walked at hl
      cases hs : p.slash with
      | false => simpa [hs] using hl
      | true =>
        rw [hs] at hl
        exact walk_here hl
    · cases hf
    · cases hf
  have hstart : start cwd (p.child c) = start cwd p := rfl
  have hsegments : (p.child c).segments.dropLast = p.segments := List.dropLast_concat
  have hlast : (p.child c).segments.getLast? = some (.name c) := by simp [Path.child]
  have hslash : ¬ ((p.child c).slash = true ∧ n.isDir = false) := by simp [Path.child]
  unfold entryOf
  rw [if_neg (by simp [hnul]), hlast]
  dsimp only
  rw [hstart, hsegments, hw]
  dsimp only
  rw [hn]
  exact if_neg hslash

theorem lookup_below_leaf {n : Node} (hn : t.lookup l = some n) (hempty : n.entries = [])
    (q : Location) : t.lookup (l ++ c :: q) = none := by
  rw [Node.lookup_append, hn]
  cases n with
  | dir a es =>
    obtain rfl : es = [] := hempty
    rfl
  | file | link | special => rfl

variable {cwd : Location} {p : Path} {refused : Node → Option Errno}

theorem unlink_of_entry {d : Location} {n : Node} (h : entryOf cwd p t = .ok (d, c, n))
    (hr : refused n = none) :
    unlink refused cwd stamp p t = .ok ⟨⟩ (t.update (removeEntry stamp c) d) := by
  unfold unlink
  rw [h]
  dsimp only
  rw [hr]

theorem unlink_cases (refused : Node → Option Errno) (cwd : Location) (stamp : Int) (p : Path)
    (t : Node) :
    final (unlink refused cwd stamp p) t = t ∨
    ∃ d c n, entryOf cwd p t = .ok (d, c, n) ∧ refused n = none ∧
      final (unlink refused cwd stamp p) t = t.update (removeEntry stamp c) d := by
  cases he : entryOf cwd p t with
  | error e => simp [final, unlink, he]
  | ok entry =>
    obtain ⟨d, c, n⟩ := entry
    cases hr : refused n with
    | none => exact .inr ⟨d, c, n, rfl, hr, final_of_ok (unlink_of_entry he hr)⟩
    | some e => simp [final, unlink, he, hr]

/-- What a removal does to the tree when it takes away one node at most: that node has no
entries and is the one to which the path leads. -/
def TakesLeaf (cwd : Location) (p : Path) (before after : Node) : Prop :=
  after = before ∨
  ∃ l n, found cwd false p before = .ok l ∧ before.lookup l = some n ∧ n.entries = [] ∧
    Shrinks l before after

theorem unlink_takesLeaf (hr : ∀ n, refused n = none → n.entries = []) :
    TakesLeaf cwd p t (final (unlink refused cwd stamp p) t) := by
  rcases unlink_cases refused cwd stamp p t with h | ⟨d, c, n, he, hn, h⟩
  · exact .inl h
  · obtain ⟨hf, hl⟩ := entryOf_ok he
    rw [h]
    exact .inr ⟨d ++ [c], n, hf, hl, hr n hn, shrinks_removeEntry t d⟩

theorem removeFile_takesLeaf (cwd : Location) (stamp : Int) (p : Path) (t : Node) :
    TakesLeaf cwd p t (final (removeFile cwd stamp p) t) := by
  apply unlink_takesLeaf
  intro n hn
  cases n with
  | dir a es => simp [Node.isDir] at hn
  | file | link | special => rfl

theorem removeDir_takesLeaf (cwd : Location) (stamp : Int) (p : Path) (t : Node) :
    TakesLeaf cwd p t (final (removeDir cwd stamp p) t) := by
  apply unlink_takesLeaf
  intro n hn
  cases n with
  | dir a es => simpa [Node.isDir, Node.entries] using hn
  | file | link | special => rfl

/-- A recursive removal stays below the place to which its path leads. -/
theorem removeDirAll_shrinks (stamp : Int) (hf : found cwd false p t = .ok l) :
    Shrinks l t (final (removeDirAll cwd stamp p) t) := by
  have hleaf : ∀ s s' : Node, Remains s t → TakesLeaf cwd p s s' → Shrinks l s s' := by
    intro s s' hs h
    rcases h with rfl | ⟨l', n, hf', -, -, h⟩
    · exact Shrinks.refl l s'
    · obtain rfl : l = l' := Except.ok.inj (hf.symm.trans (found_remains hs hf'))
      exact h
  cases hl : t.lookup l with
  | none =>
    have hfinal : final (removeDirAll cwd stamp p) t = t := by
      simp only [final, removeDirAll, hf, hl]
    rw [hfinal]
    exact Shrinks.refl l t
  | some n =>
    cases n with
    | file | special =>
      have hfinal : final (removeDirAll cwd stamp p) t = t := by
        simp only [final, removeDirAll, hf, hl]
      rw [hfinal]
      exact Shrinks.refl l t
    | link a target =>
      have hfinal : final (removeDirAll cwd stamp p) t = final (removeFile cwd stamp p) t := by
        simp only [final, removeDirAll, hf, hl]
      rw [hfinal]
      exact hleaf t _ (Remains.refl t) (removeFile_takesLeaf cwd stamp p t)
    | dir a es =>
      have hfinal : final (removeDirAll cwd stamp p) t =
          final (removeDir cwd stamp p) (t.update (clear stamp) l) := by
        simp only [final, removeDirAll, hf, hl]
      have hclear := shrinks_clear stamp t l
      rw [hfinal]
      exact hclear.trans (hleaf _ _ hclear.remains (removeDir_takesLeaf cwd stamp p _))

theorem removeDirAll_below {a : Attributes} {es : List (Name × Node)}
    (hf : found cwd false p t = .ok l) (hl : t.lookup l = some (.dir a es)) (q : Location) :
    (final (removeDirAll cwd stamp p) t).lookup (l ++ c :: q) = none := by
  have hfinal : final (removeDirAll cwd stamp p) t =
      final (removeDir cwd stamp p) (t.update (clear stamp) l) := by
    simp only [final, removeDirAll, hf, hl]
  rw [hfinal]
  have hnone := lookup_cleared stamp c t l q
  rcases removeDir_takesLeaf cwd stamp p (t.update (clear stamp) l) with h | ⟨_, _, -, -, -, h⟩
  · rw [h, hnone]
  · cases hq : (final (removeDir cwd stamp p) (t.update (clear stamp) l)).lookup (l ++ c :: q) with
    | none => rfl
    | some n =>
      obtain ⟨m, hm, -⟩ := h.remains _ n hq
      rw [hnone] at hm
      cases hm

theorem removeDirAll_empty {a : Attributes} {d : Location}
    (he : entryOf cwd p t = .ok (d, c, .dir a [])) :
    removeDirAll cwd stamp p t = .ok ⟨⟩ (t.update (removeEntry stamp c) d) := by
  obtain ⟨hf, hl⟩ := entryOf_ok he
  unfold removeDirAll
  rw [hf]
  dsimp only
  rw [hl]
  dsimp only
  rw [Node.update_self hl rfl]
  exact unlink_of_entry he rfl

end FractalD.Machine.FileRemoval
