import FractalD.Machine.FileTree
import FractalD.Platform.Errno

namespace FractalD.Machine.PathWalk

open FractalD.Machine.FileTree FractalD.Platform

/-- Where a path leads: to a node, or to a place in a directory that is free. -/
inductive Place
  | found (l : Location)
  | absent (l : Location) (c : Name)
  deriving DecidableEq

/-- How far a walk comes without following a link. -/
inductive Outcome
  | arrived (place : Place)
  | through (from_ : Location) (target : Path) (rest : List Segment)
  | failed (e : Errno)

def advance (t : Node) (follow : Bool) : Location → List Segment → Outcome
  | l, [] => .arrived (.found l)
  | l, .here :: rest => advance t follow l rest
  | l, .up :: rest => advance t follow l.dropLast rest
  | l, .name c :: rest =>
    match t.lookup (l ++ [c]) with
    | none => if rest = [] then .arrived (.absent l c) else .failed eNoEnt
    | some (.dir _ _) => advance t follow (l ++ [c]) rest
    | some (.link _ target) =>
      if rest = [] ∧ follow = false then .arrived (.found (l ++ [c])) else .through l target rest
    | some _ => if rest = [] then .arrived (.found (l ++ [c])) else .failed eNotDir

/-- `follow` is about a link at the end; any other is followed, up to so many. -/
def walk (t : Node) (follow : Bool) : Nat → Location → List Segment → Except Errno Place
  | links, l, segments =>
    match advance t follow l segments with
    | .arrived place => .ok place
    | .failed e => .error e
    | .through l target rest =>
      match links with
      | 0 => .error eLoop
      | links + 1 =>
        walk t follow links (if target.absolute then [] else l) (target.walked ++ rest)

def maxLinks : Nat := 40

def start (cwd : Location) (p : Path) : Location := if p.absolute then [] else cwd

def locate (cwd : Location) (follow : Bool) (p : Path) (t : Node) : Except Errno Place :=
  if p.hasNul then .error eInval
  else if p.absolute = false ∧ p.segments = [] then .error eNoEnt
  else walk t follow maxLinks (start cwd p) p.walked

def found (cwd : Location) (follow : Bool) (p : Path) (t : Node) : Except Errno Location :=
  match locate cwd follow p t with
  | .ok (.found l) => .ok l
  | .ok (.absent _ _) => .error eNoEnt
  | .error e => .error e

def nodeAt (cwd : Location) (follow : Bool) (p : Path) (t : Node) : Except Errno Node :=
  match found cwd follow p t with
  | .ok l => (t.lookup l).elim (.error eNoEnt) .ok
  | .error e => .error e

/-- `fs::metadata`. -/
def stat (cwd : Location) (p : Path) (t : Node) : Except Errno Node := nodeAt cwd true p t

/-- `fs::symlink_metadata`. -/
def lstat (cwd : Location) (p : Path) (t : Node) : Except Errno Node := nodeAt cwd false p t

/-- `Path::is_dir`. -/
def pathIsDir (cwd : Location) (p : Path) (t : Node) : Bool :=
  match stat cwd p t with
  | .ok n => n.isDir
  | .error _ => false

/-- The names in a directory, in the order in which the tree holds them. -/
def readDir (cwd : Location) (p : Path) (t : Node) : Except Errno (List Name) :=
  match stat cwd p t with
  | .ok n => if n.isDir then .ok (n.entries.map Prod.fst) else .error eNotDir
  | .error e => .error e

/-- What is left of a tree: a node of it was there before, and is the same but for what a
directory holds and when it last changed. -/
def Remains (after before : Node) : Prop :=
  ∀ l n, after.lookup l = some n →
    ∃ m, before.lookup l = some m ∧ (n.isDir ∧ m.isDir ∨ n.isDir = false ∧ m = n)

theorem Remains.refl (t : Node) : Remains t t := by
  intro l n hn
  refine ⟨n, hn, ?_⟩
  cases hd : n.isDir <;> simp

theorem Remains.trans {a b c : Node} (hab : Remains a b) (hbc : Remains b c) : Remains a c := by
  intro l n hn
  obtain ⟨m, hm, hnm⟩ := hab l n hn
  obtain ⟨k, hk, hmk⟩ := hbc l m hm
  refine ⟨k, hk, ?_⟩
  rcases hnm with ⟨hn, hm⟩ | ⟨hn, rfl⟩
  · rcases hmk with ⟨-, hk⟩ | ⟨hm', -⟩
    · exact .inl ⟨hn, hk⟩
    · simp [hm] at hm'
  · exact hmk

variable {t t' : Node} {follow : Bool}

theorem advance_name (l : Location) (c : Name) (rest : List Segment) :
    advance t follow l (.name c :: rest) =
      match t.lookup (l ++ [c]) with
      | none => if rest = [] then .arrived (.absent l c) else .failed eNoEnt
      | some (.dir _ _) => advance t follow (l ++ [c]) rest
      | some (.link _ target) =>
        if rest = [] ∧ follow = false then .arrived (.found (l ++ [c]))
        else .through l target rest
      | some _ => if rest = [] then .arrived (.found (l ++ [c])) else .failed eNotDir := rfl

/-- Where the walk does not end for want of a node, it goes the same way as before. -/
theorem advance_remains (h : Remains t' t) {l : Location} {segments : List Segment} {o : Outcome}
    (habsent : ∀ q c, o ≠ .arrived (.absent q c)) (hfailed : ∀ e, o ≠ .failed e)
    (ha : advance t' follow l segments = o) : advance t follow l segments = o := by
  induction segments generalizing l with
  | nil => exact ha
  | cons s rest ih =>
    cases s with
    | here => exact ih ha
    | up => exact ih ha
    | name c =>
      unfold advance at ha ⊢
      cases hl : t'.lookup (l ++ [c]) with
      | none =>
        rw [hl] at ha
        dsimp only at ha
        split at ha
        · exact absurd ha.symm (habsent _ _)
        · exact absurd ha.symm (hfailed _)
      | some n =>
        obtain ⟨m, hm, hnm⟩ := h _ n hl
        rw [hl] at ha
        rw [hm]
        rcases hnm with ⟨hn, hm⟩ | ⟨hn, rfl⟩
        · cases n <;> cases hn
          cases m <;> cases hm
          exact ih ha
        · cases m with
          | dir a es => cases hn
          | file | link | special => exact ha

theorem walk_remains (h : Remains t' t) {links : Nat} {l : Location} {segments : List Segment}
    {d : Location} (hw : walk t' follow links l segments = .ok (.found d)) :
    walk t follow links l segments = .ok (.found d) := by
  induction links generalizing l segments with
  | zero =>
    unfold walk at hw ⊢
    cases ha : advance t' follow l segments with
    | arrived place =>
      rw [ha] at hw
      cases hw
      rw [advance_remains h (by simp) (by simp) ha]
    | through | failed =>
      rw [ha] at hw
      cases hw
  | succ links ih =>
    unfold walk at hw ⊢
    cases ha : advance t' follow l segments with
    | arrived place =>
      rw [ha] at hw
      cases hw
      rw [advance_remains h (by simp) (by simp) ha]
    | failed =>
      rw [ha] at hw
      cases hw
    | through l' target rest =>
      rw [ha] at hw
      rw [advance_remains h (by simp) (by simp) ha]
      exact ih hw

theorem found_remains (h : Remains t' t) {cwd : Location} {p : Path} {l : Location}
    (hf : found cwd follow p t' = .ok l) : found cwd follow p t = .ok l := by
  unfold found locate at hf ⊢
  split_ifs with h₁ h₂
  · rw [if_pos h₁] at hf
    cases hf
  · rw [if_neg h₁, if_pos h₂] at hf
    cases hf
  · rw [if_neg h₁, if_neg h₂] at hf
    split at hf
    next hw =>
      cases hf
      rw [walk_remains h hw]
    all_goals cases hf

theorem lstat_ok {cwd : Location} {p : Path} {n : Node} :
    lstat cwd p t = .ok n ↔ ∃ l, found cwd false p t = .ok l ∧ t.lookup l = some n := by
  unfold lstat nodeAt
  cases found cwd false p t with
  | error e => simp
  | ok l => cases hl : t.lookup l <;> simp [hl]

theorem stat_ok {cwd : Location} {p : Path} {n : Node} :
    stat cwd p t = .ok n ↔ ∃ l, found cwd true p t = .ok l ∧ t.lookup l = some n := by
  unfold stat nodeAt
  cases found cwd true p t with
  | error e => simp
  | ok l => cases hl : t.lookup l <;> simp [hl]

/-- Whether a link at the end is followed makes a difference at a link only. -/
theorem advance_follow {l : Location} {segments : List Segment} {d : Location} {n : Node}
    (ha : advance t false l segments = .arrived (.found d)) (hn : t.lookup d = some n)
    (hlink : n.isLink = false) : advance t true l segments = .arrived (.found d) := by
  induction segments generalizing l with
  | nil => exact ha
  | cons s rest ih =>
    cases s with
    | here => exact ih ha
    | up => exact ih ha
    | name c =>
      rw [advance_name] at ha ⊢
      cases hl : t.lookup (l ++ [c]) with
      | none =>
        rw [hl] at ha
        exact ha
      | some m =>
        rw [hl] at ha
        cases m with
        | dir a es => exact ih ha
        | link a target =>
          dsimp only at ha
          split at ha
          · cases ha
            obtain rfl := Option.some.inj (hl.symm.trans hn)
            cases hlink
          · cases ha
        | file | special => exact ha

theorem advance_follow_through {l : Location} {segments : List Segment} {d : Location}
    {target : Path} {rest : List Segment}
    (ha : advance t false l segments = .through d target rest) :
    advance t true l segments = .through d target rest := by
  induction segments generalizing l with
  | nil => cases ha
  | cons s segments ih =>
    cases s with
    | here => exact ih ha
    | up => exact ih ha
    | name c =>
      rw [advance_name] at ha ⊢
      cases hl : t.lookup (l ++ [c]) with
      | none =>
        rw [hl] at ha
        exact ha
      | some m =>
        rw [hl] at ha
        cases m with
        | dir a es => exact ih ha
        | link a target =>
          dsimp only at ha
          split at ha
          · cases ha
          · simpa using ha
        | file | special => exact ha

theorem walk_follow {links : Nat} {l : Location} {segments : List Segment} {d : Location} {n : Node}
    (hw : walk t false links l segments = .ok (.found d)) (hn : t.lookup d = some n)
    (hlink : n.isLink = false) : walk t true links l segments = .ok (.found d) := by
  induction links generalizing l segments with
  | zero =>
    unfold walk at hw ⊢
    cases ha : advance t false l segments with
    | arrived place =>
      rw [ha] at hw
      cases hw
      rw [advance_follow ha hn hlink]
    | through | failed =>
      rw [ha] at hw
      cases hw
  | succ links ih =>
    unfold walk at hw ⊢
    cases ha : advance t false l segments with
    | arrived place =>
      rw [ha] at hw
      cases hw
      rw [advance_follow ha hn hlink]
    | failed =>
      rw [ha] at hw
      cases hw
    | through l' target rest =>
      rw [ha] at hw
      rw [advance_follow_through ha]
      exact ih hw

theorem found_follow {cwd : Location} {p : Path} {l : Location} {n : Node}
    (hf : found cwd false p t = .ok l) (hn : t.lookup l = some n) (hlink : n.isLink = false) :
    found cwd true p t = .ok l := by
  unfold found locate at hf ⊢
  split_ifs with h₁ h₂
  · rw [if_pos h₁] at hf
    cases hf
  · rw [if_neg h₁, if_pos h₂] at hf
    cases hf
  · rw [if_neg h₁, if_neg h₂] at hf
    split at hf
    next hw =>
      cases hf
      rw [walk_follow hw hn hlink]
    all_goals cases hf

theorem advance_append {l : Location} {segments rest : List Segment} {d : Location} {n : Node}
    (ha : advance t true l segments = .arrived (.found d)) (hn : t.lookup d = some n)
    (hdir : n.isDir) :
    advance t follow l (segments ++ rest) = advance t follow d rest := by
  induction segments generalizing l with
  | nil =>
    cases ha
    rfl
  | cons s segments ih =>
    cases s with
    | here => exact ih ha
    | up => exact ih ha
    | name c =>
      rw [List.cons_append]
      rw [advance_name] at ha ⊢
      cases hl : t.lookup (l ++ [c]) with
      | none =>
        rw [hl] at ha
        dsimp only at ha
        split at ha <;> cases ha
      | some m =>
        rw [hl] at ha
        cases m with
        | dir a es => exact ih ha
        | link a target => simp at ha
        | file | special =>
          dsimp only at ha
          split at ha
          · cases ha
            obtain rfl := Option.some.inj (hl.symm.trans hn)
            cases hdir
          · cases ha

theorem advance_append_through {l : Location} {segments rest : List Segment} {d : Location}
    {target : Path} {left : List Segment} (ha : advance t true l segments = .through d target left)
    (hne : rest ≠ []) :
    advance t follow l (segments ++ rest) = .through d target (left ++ rest) := by
  induction segments generalizing l with
  | nil => cases ha
  | cons s segments ih =>
    cases s with
    | here => exact ih ha
    | up => exact ih ha
    | name c =>
      rw [List.cons_append]
      rw [advance_name] at ha ⊢
      cases hl : t.lookup (l ++ [c]) with
      | none =>
        rw [hl] at ha
        dsimp only at ha
        split at ha <;> cases ha
      | some m =>
        rw [hl] at ha
        cases m with
        | dir a es => exact ih ha
        | link a target =>
          simp only [Bool.true_eq_false, and_false, if_false, Outcome.through.injEq] at ha
          obtain ⟨rfl, rfl, rfl⟩ := ha
          simp [hne]
        | file | special =>
          dsimp only at ha
          split at ha <;> cases ha

theorem walk_append {links : Nat} {l : Location} {segments : List Segment} {d : Location} {n : Node}
    (hw : walk t true links l segments = .ok (.found d)) (hn : t.lookup d = some n)
    (hdir : n.isDir) :
    ∃ links', ∀ follow rest, rest ≠ [] →
      walk t follow links l (segments ++ rest) = walk t follow links' d rest := by
  induction links generalizing l segments with
  | zero =>
    refine ⟨0, fun follow rest hne => ?_⟩
    unfold walk at hw ⊢
    cases ha : advance t true l segments with
    | arrived place =>
      rw [ha] at hw
      cases hw
      rw [advance_append ha hn hdir]
    | through | failed =>
      rw [ha] at hw
      cases hw
  | succ links ih =>
    unfold walk at hw
    cases ha : advance t true l segments with
    | arrived place =>
      rw [ha] at hw
      cases hw
      refine ⟨links + 1, fun follow rest hne => ?_⟩
      unfold walk
      rw [advance_append ha hn hdir]
    | failed =>
      rw [ha] at hw
      cases hw
    | through l' target left =>
      rw [ha] at hw
      obtain ⟨links', hlinks⟩ := ih hw
      refine ⟨links', fun follow rest hne => ?_⟩
      rw [walk, advance_append_through ha hne]
      simpa only [List.append_assoc] using hlinks follow rest hne

theorem walk_name {links : Nat} {d : Location} {c : Name} {n : Node}
    (hn : t.lookup (d ++ [c]) = some n) :
    walk t false links d [.name c] = .ok (.found (d ++ [c])) := by
  cases n <;> cases links <;> simp [walk, advance, hn]

theorem walk_dirName {links : Nat} {d : Location} {c : Name} {n : Node}
    (hn : t.lookup (d ++ [c]) = some n) (hdir : n.isDir) {dots : List Segment}
    (hdots : ∀ s ∈ dots, s = .here) :
    walk t follow links d (.name c :: dots) = .ok (.found (d ++ [c])) := by
  have hrest : ∀ l, advance t follow l dots = .arrived (.found l) := by
    intro l
    induction dots with
    | nil => rfl
    | cons s dots ih =>
      obtain ⟨rfl, hs⟩ := List.forall_mem_cons.mp hdots
      exact ih hs
  cases n with
  | dir a es => cases links <;> simp [walk, advance, hn, hrest]
  | file | link | special => cases hdir

theorem advance_here (segments : List Segment) (l : Location) :
    (∃ e, advance t true l (segments ++ [.here]) = .failed e) ∨
    advance t true l (segments ++ [.here]) = advance t true l segments ∨
    ∃ d target left, advance t true l segments = .through d target left ∧
      advance t true l (segments ++ [.here]) = .through d target (left ++ [.here]) := by
  induction segments generalizing l with
  | nil => exact .inr (.inl rfl)
  | cons s segments ih =>
    cases s with
    | here => exact ih l
    | up => exact ih l.dropLast
    | name c =>
      rw [List.cons_append, advance_name, advance_name]
      cases t.lookup (l ++ [c]) with
      | none => simp
      | some m =>
        cases m with
        | dir a es => exact ih (l ++ [c])
        | file | link | special => simp

theorem walk_here {links : Nat} {l : Location} {segments : List Segment} {d : Location}
    (hw : walk t true links l (segments ++ [.here]) = .ok (.found d)) :
    walk t true links l segments = .ok (.found d) := by
  induction links generalizing l segments with
  | zero =>
    unfold walk at hw ⊢
    rcases advance_here (t := t) segments l with ⟨e, h⟩ | h | ⟨d', target, left, h, h'⟩
    · rw [h] at hw
      cases hw
    · rwa [h] at hw
    · rw [h'] at hw
      cases hw
  | succ links ih =>
    unfold walk at hw ⊢
    rcases advance_here (t := t) segments l with ⟨e, h⟩ | h | ⟨d', target, left, h, h'⟩
    · rw [h] at hw
      cases hw
    · rwa [h] at hw
    · rw [h'] at hw
      rw [h]
      exact ih (by simpa only [List.append_assoc] using hw)

end FractalD.Machine.PathWalk
