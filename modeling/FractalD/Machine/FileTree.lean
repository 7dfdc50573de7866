import FractalD.Machine.CString
import Mathlib.Data.List.Basic
import Mathlib.Data.List.Infix

namespace FractalD.Machine.FileTree

open FractalD.Machine.CString

/-- What an entry of a directory may be called. -/
structure Name where
  text : Str
  plain : text ≠ [] ∧ text ≠ ['.'] ∧ text ≠ ['.', '.'] ∧ '/' ∉ text
  deriving DecidableEq

/-- A place in the tree: the names on the way from the root. -/
abbrev Location := List Name

inductive Segment
  | here
  | up
  | name (n : Name)
  deriving DecidableEq

def Segment.parse (s : Str) : Option Segment :=
  if s = ['.'] then some .here
  else if s = ['.', '.'] then some .up
  else if h : s ≠ [] ∧ s ≠ ['.'] ∧ s ≠ ['.', '.'] ∧ '/' ∉ s then some (.name ⟨s, h⟩)
  else none

def Segment.name? : Segment → Option Name
  | .name n => some n
  | .here | .up => none

/-- A path. How many slashes stand between two segments means nothing, but one at the
end, after a segment, does. -/
structure Path where
  absolute : Bool
  segments : List Segment
  slash : Bool
  deriving DecidableEq

namespace Path

def parse (s : Str) : Path :=
  let segments := (s.splitOn '/').filterMap Segment.parse
  ⟨s.head? = some '/', segments, s.getLast? = some '/' ∧ segments ≠ []⟩

/-- `Path::join` for the name of an entry. -/
def child (p : Path) (n : Name) : Path := ⟨p.absolute, p.segments ++ [.name n], false⟩

/-- `Path::join`. What is joined to nothing leaves a slash behind. -/
def join (p q : Path) : Path :=
  if q.absolute then q
  else if q.segments = [] then { p with slash := p.segments ≠ [] }
  else ⟨p.absolute, p.segments ++ q.segments, q.slash⟩

/-- The segments that `Path::components` yields: a dot counts only at the beginning of a
relative path. -/
def components (p : Path) : List Segment :=
  match p.segments with
  | [] => []
  | s :: rest =>
    (if p.absolute ∧ s = .here then [] else [s]) ++ rest.filter (· ≠ .here)

/-- `Path::eq`. -/
def Same (p q : Path) : Prop := p.absolute = q.absolute ∧ p.components = q.components

instance (p q : Path) : Decidable (p.Same q) := inferInstanceAs (Decidable (_ ∧ _))

def names (p : Path) : List Name := p.segments.filterMap Segment.name?

def parent (p : Path) : Option Path :=
  if p.components = [] then none else some ⟨p.absolute, p.components.dropLast, false⟩

def hasNul (p : Path) : Bool := p.names.any fun n => n.text.contains (Char.ofNat 0)

/-- The segments that are looked up. A slash at the end asks for a directory, as a dot
there does. -/
def walked (p : Path) : List Segment := p.segments ++ if p.slash then [.here] else []

end Path

theorem components_absolute {p : Path} (h : p.absolute) :
    p.components = p.segments.filter (· ≠ .here) := by
  unfold Path.components
  cases p.segments with
  | nil => rfl
  | cons s rest => by_cases hs : s = .here <;> simp [h, hs]

theorem filter_names {l : List Segment} (h : .up ∉ l) :
    l.filter (· ≠ .here) = (l.filterMap Segment.name?).map .name := by
  induction l with
  | nil => rfl
  | cons s l ih =>
    rw [List.mem_cons, not_or] at h
    cases s with
    | here =>
      rw [List.filter_cons_of_neg (by simp), List.filterMap_cons_none rfl]
      exact ih h.2
    | up => exact absurd rfl h.1
    | name n =>
      rw [List.filter_cons_of_pos (by simp)]
      exact congrArg (Segment.name n :: ·) (ih h.2)

theorem components_names {p : Path} (h : p.absolute) (hup : .up ∉ p.segments) :
    p.components = p.names.map .name := (components_absolute h).trans (filter_names hup)

structure Attributes where
  modified : Int
  mode : Nat
  user : Option Nat
  group : Option Nat
  deriving DecidableEq

inductive Node
  | file (attributes : Attributes) (contents : Str)
  | dir (attributes : Attributes) (entries : List (Name × Node))
  | link (attributes : Attributes) (target : Path)
  | special (attributes : Attributes)

namespace Node

def attributes : Node → Attributes
  | .file a _ | .dir a _ | .link a _ | .special a => a

def isDir : Node → Bool
  | .dir _ _ => true
  | .file _ _ | .link _ _ | .special _ => false

def isLink : Node → Bool
  | .link _ _ => true
  | .file _ _ | .dir _ _ | .special _ => false

theorem isLink_of_isDir {n : Node} (h : n.isDir) : n.isLink = false := by
  cases n with
  | dir a es => rfl
  | file | link | special => cases h

/-- The node without the entries below it. -/
def face : Node → Node
  | .dir a _ => .dir a []
  | .file a contents => .file a contents
  | .link a target => .link a target
  | .special a => .special a

def entries : Node → List (Name × Node)
  | .dir _ es => es
  | .file _ _ | .link _ _ | .special _ => []

def lookup : Node → Location → Option Node
  | n, [] => some n
  | .dir _ es, c :: cs => (es.lookup c).bind (lookup · cs)
  | _, _ :: _ => none

/-- Change the first entry of a name. -/
def modify (c : Name) (f : Node → Node) : List (Name × Node) → List (Name × Node)
  | [] => []
  | (d, n) :: es => if d = c then (d, f n) :: es else (d, n) :: modify c f es

def update (f : Node → Node) : Location → Node → Node
  | [], n => f n
  | c :: cs, .dir a es => .dir a (modify c (update f cs) es)
  | _ :: _, n => n

theorem lookup_modify (c d : Name) (f : Node → Node) (es : List (Name × Node)) :
    (modify c f es).lookup d = if d = c then (es.lookup c).map f else es.lookup d := by
  induction es with
  | nil => simp [modify]
  | cons e es ih =>
    obtain ⟨k, n⟩ := e
    unfold modify
    by_cases hk : k = c
    · subst hk
      by_cases hd : d = k
      · simp [hd]
      · have hdk : (d == k) = false := by simpa using hd
        simp [List.lookup_cons, hd, hdk]
    · have hck : (c == k) = false := by simpa using fun h => hk h.symm
      rw [if_neg hk, List.lookup_cons, List.lookup_cons, List.lookup_cons, ih]
      by_cases hd : d = c
      · subst hd
        simp [hck]
      · simp [hd]

@[simp]
theorem lookup_nil (n : Node) : n.lookup [] = some n := by
  cases n <;> rfl

theorem lookup_dir_cons (a : Attributes) (es : List (Name × Node)) (c : Name) (cs : Location) :
    (Node.dir a es).lookup (c :: cs) = (es.lookup c).bind (lookup · cs) := rfl

theorem lookup_cons_eq_none {n : Node} (h : n.isDir = false) (c : Name) (cs : Location) :
    n.lookup (c :: cs) = none := by
  cases n with
  | dir a es => cases h
  | file | link | special => rfl

theorem lookup_append (n : Node) (l q : Location) :
    n.lookup (l ++ q) = (n.lookup l).bind (·.lookup q) := by
  induction l generalizing n with
  | nil => simp
  | cons c l ih =>
    cases n with
    | dir a es =>
      simp only [List.cons_append, lookup_dir_cons, Option.bind_assoc]
      congr
      funext m
      exact ih m
    | file | link | special => rfl

theorem isDir_of_lookup {n m : Node} {l : Location} {c : Name} {cs : Location}
    (h : n.lookup (l ++ c :: cs) = some m) : ∃ d, n.lookup l = some d ∧ d.isDir := by
  rw [lookup_append] at h
  obtain ⟨d, hd, hm⟩ := Option.bind_eq_some_iff.mp h
  refine ⟨d, hd, ?_⟩
  by_contra hdir
  rw [lookup_cons_eq_none (by simpa using hdir)] at hm
  cases hm

theorem lookup_update_below (f : Node → Node) (n : Node) (l q : Location) :
    (update f l n).lookup (l ++ q) = (n.lookup l).bind fun m => (f m).lookup q := by
  induction l generalizing n with
  | nil => simp [update]
  | cons c l ih =>
    cases n with
    | dir a es =>
      simp only [update, List.cons_append, lookup_dir_cons, lookup_modify, if_pos]
      cases es.lookup c with
      | none => rfl
      | some m => simpa using ih m
    | file | link | special => rfl

theorem modify_self {c : Name} {f : Node → Node} {es : List (Name × Node)} {m : Node}
    (hm : es.lookup c = some m) (hf : f m = m) : modify c f es = es := by
  induction es with
  | nil => rfl
  | cons e es ih =>
    obtain ⟨k, n⟩ := e
    unfold modify
    by_cases hk : k = c
    · subst hk
      obtain rfl : n = m := by simpa using hm
      rw [if_pos rfl, hf]
    · have hck : (c == k) = false := by simpa using fun h => hk h.symm
      rw [List.lookup_cons, hck] at hm
      rw [if_neg hk, ih hm]

theorem update_self {f : Node → Node} {n m : Node} {l : Location} (hm : n.lookup l = some m)
    (hf : f m = m) : update f l n = n := by
  induction l generalizing n with
  | nil =>
    rw [lookup_nil] at hm
    obtain rfl := Option.some.inj hm
    exact hf
  | cons c l ih =>
    cases n with
    | dir a es =>
      rw [lookup_dir_cons] at hm
      obtain ⟨k, hk, hm⟩ := Option.bind_eq_some_iff.mp hm
      rw [update, modify_self hk (ih hm)]
    | file | link | special => rfl

theorem lookup_update_at (f : Node → Node) (n : Node) (l : Location) :
    (update f l n).lookup l = (n.lookup l).map f := by
  have h := lookup_update_below f n l []
  rw [List.append_nil] at h
  rw [h]
  cases n.lookup l <;> simp

/-- Outside the place that is changed, only what lies below a directory may differ. -/
theorem face_lookup_update (f : Node → Node) (n : Node) {l q : Location} (h : ¬ l <+: q) :
    ((update f l n).lookup q).map face = (n.lookup q).map face := by
  induction l generalizing n q with
  | nil => exact absurd List.nil_prefix h
  | cons c l ih =>
    cases n with
    | dir a es =>
      cases q with
      | nil => rfl
      | cons d q =>
        simp only [update, lookup_dir_cons, lookup_modify]
        by_cases hd : d = c
        · subst hd
          have hq : ¬ l <+: q := fun hp => h (List.cons_prefix_cons.mpr ⟨rfl, hp⟩)
          rw [if_pos rfl]
          cases es.lookup d with
          | none => rfl
          | some m => exact ih m hq
        · rw [if_neg hd]
    | file | link | special => rfl

end Node

end FractalD.Machine.FileTree
