import FractalD.Machine.CString
import FractalD.Machine.Result
import Mathlib.Data.List.Induction
import Mathlib.Data.List.Infix
import Mathlib.Logic.Function.Basic

namespace FractalD.Kernel.FileSystem

open FractalD.Machine.CString FractalD.Machine.Result

/-- A path, as its components; none of them is empty or a single dot. -/
structure Path where
  absolute : Bool
  components : List Str
  deriving DecidableEq, Repr

def parentDir : Str := ['.', '.']

def Path.parse (s : Str) : Path where
  absolute := s.head? = some '/'
  components := (s.splitOn '/').filter (fun c => c ≠ [] ∧ c ≠ ['.'])

def Path.join (p q : Path) : Path :=
  if q.absolute then q else ⟨p.absolute, p.components ++ q.components⟩

def Path.child (p : Path) (name : Str) : Path := ⟨p.absolute, p.components ++ [name]⟩

def Path.fileName (p : Path) : Option Str :=
  match p.components.getLast? with
  | none => none
  | some c => if c = parentDir then none else some c

def Path.parent (p : Path) : Option Path :=
  if p.components = [] then none else some ⟨p.absolute, p.components.dropLast⟩

def Path.display (p : Path) : Str :=
  (if p.absolute then ['/'] else []) ++ ['/'].intercalate p.components

/-- A place in the tree: the names on the way from the root. -/
abbrev Location := List Str

inductive Node
  | file (contents : Str)
  | dir
  deriving DecidableEq, Repr

/-- A file system without links. What is there lies in directories. -/
structure Tree where
  node : Location → Option Node
  parent : ∀ l name, node (l ++ [name]) ≠ none → node l = some .dir

/-- The working directory, and the places where the system refuses to create,
write or remove, each with the text of the error. -/
structure Os where
  cwd : Location
  denied : Location → Option Str

def step (l : Location) (c : Str) : Location := if c = parentDir then l.dropLast else l ++ [c]

def resolve (os : Os) (p : Path) : Location :=
  p.components.foldl step (if p.absolute then [] else os.cwd)

theorem resolve_child (os : Os) (p : Path) {name : Str} (h : name ≠ parentDir) :
    resolve os (p.child name) = resolve os p ++ [name] := by
  simp only [resolve, Path.child, List.foldl_append]
  exact if_neg h

theorem resolve_of_fileName (os : Os) {p : Path} {name : Str} (h : p.fileName = some name) :
    name ≠ parentDir ∧ ∃ l, resolve os p = l ++ [name] := by
  unfold Path.fileName at h
  split at h
  next => cases h
  next c hc =>
    split at h
    next => cases h
    next hn =>
      obtain rfl : c = name := Option.some.inj h
      obtain ⟨cs, hcs⟩ := List.getLast?_eq_some_iff.mp hc
      refine ⟨hn, resolve os ⟨p.absolute, cs⟩, ?_⟩
      simp only [resolve, hcs, List.foldl_append]
      exact if_neg hn

def textOf (t : Tree) (l : Location) : Option Str :=
  match t.node l with
  | some (.file contents) => some contents
  | _ => none

/-- A path that does not end with a name leads to a directory, if anywhere. -/
def readToString (os : Os) (t : Tree) (p : Path) : Option Str :=
  if p.fileName.isSome then textOf t (resolve os p) else none

def isFile (os : Os) (t : Tree) (p : Path) : Bool := (readToString os t p).isSome

def isDir (os : Os) (t : Tree) (p : Path) : Bool := t.node (resolve os p) = some .dir

/-- A file can be made or changed there. -/
def Tree.Holds (t : Tree) (l : Location) : Prop :=
  t.node l ≠ some .dir ∧ l ≠ [] ∧ t.node l.dropLast = some .dir

instance (t : Tree) (l : Location) : Decidable (t.Holds l) := inferInstanceAs (Decidable (_ ∧ _))

def Tree.setFile (t : Tree) (l : Location) (contents : Str) (h : t.Holds l) : Tree where
  node := Function.update t.node l (some (.file contents))
  parent l' name hn := by
    by_cases he : l' ++ [name] = l
    · have hd : t.node l' = some .dir := by simpa [← he] using h.2.2
      have hl : l' ≠ l := by
        rintro rfl
        simp at he
      rw [Function.update_of_ne hl, hd]
    · rw [Function.update_of_ne he] at hn
      have hd := t.parent l' name hn
      rwa [Function.update_of_ne (by rintro rfl; exact h.1 hd)]

def Tree.makeDirs (t : Tree) (l : Location) (h : ∀ a, a <+: l → textOf t a = none) : Tree where
  node q := if t.node q = none ∧ q <+: l then some .dir else t.node q
  parent l' name hn := by
    split at hn
    next hq =>
      have hp : l' <+: l := (List.prefix_append l' [name]).trans hq.2
      have hf := h l' hp
      unfold textOf at hf
      cases hd : t.node l' with
      | none => simp [hp]
      | some n =>
        cases n with
        | dir => simp
        | file contents => simp [hd] at hf
    next => simp [t.parent l' name hn]

/-- Take away what is there, and what lies below. -/
def Tree.remove (t : Tree) (l : Location) : Tree where
  node q := if l <+: q then none else t.node q
  parent l' name hn := by
    split at hn
    next => exact absurd rfl hn
    next hq =>
      have hl : ¬ l <+: l' := fun hl => hq (hl.trans (List.prefix_append l' [name]))
      simp [hl, t.parent l' name hn]

def isADirectory : Str := "Is a directory (os error 21)".toList
def notADirectory : Str := "Not a directory (os error 20)".toList
def noSuchFile : Str := "No such file or directory (os error 2)".toList
def notRegular : Str :=
  "the source path is neither a regular file nor a symlink to a regular file".toList

/-- Open a file for writing, make it if need be, and give it new contents. -/
def write (os : Os) (p : Path) (contents : Str) (t : Tree) : Except Str Tree :=
  match os.denied (resolve os p) with
  | some e => .error e
  | none =>
    if h : t.Holds (resolve os p) then .ok (t.setFile (resolve os p) contents h)
    else .error (if isDir os t p then isADirectory else noSuchFile)

/-- Make every missing directory on the way to a path. -/
def createDirAll (os : Os) (p : Path) (t : Tree) : Except Str Tree :=
  match os.denied (resolve os p) with
  | some e => .error e
  | none =>
    if h : ∀ a ∈ (resolve os p).inits, textOf t a = none then
      .ok (t.makeDirs (resolve os p) (fun a ha => h a ((List.mem_inits a _).mpr ha)))
    else .error notADirectory

/-- `fs::copy`: the destination is emptied before the source is read. -/
def copy (os : Os) (source destination : Path) (t : Tree) : Except Str Tree :=
  if isFile os t source then do
    let emptied ← write os destination [] t
    write os destination ((textOf emptied (resolve os source)).getD []) emptied
  else .error notRegular

def removeFile (os : Os) (p : Path) (t : Tree) : Except Str Tree :=
  match t.node (resolve os p) with
  | none => .ok t
  | some .dir => .error isADirectory
  | some (.file _) =>
    match os.denied (resolve os p) with
    | some e => .error e
    | none => .ok (t.remove (resolve os p))

/-- Remove a file or a whole directory; nothing there is fine too. -/
def removeAll (os : Os) (p : Path) (t : Tree) : Except Str Tree :=
  match t.node (resolve os p) with
  | none => .ok t
  | some _ =>
    match os.denied (resolve os p) with
    | some e => .error e
    | none => .ok (t.remove (resolve os p))

section

variable {os : Os} {p : Path} {t t' : Tree}

@[simp]
theorem textOf_setFile (l : Location) (contents : Str) (h : t.Holds l) :
    textOf (t.setFile l contents h) = Function.update (textOf t) l (some contents) := by
  funext q
  by_cases hq : q = l <;> simp [textOf, Tree.setFile, hq]

@[simp]
theorem textOf_makeDirs (l : Location) (h : ∀ a, a <+: l → textOf t a = none) :
    textOf (t.makeDirs l h) = textOf t := by
  funext q
  by_cases hq : t.node q = none ∧ q <+: l
  · simp [textOf, Tree.makeDirs, hq]
  · simp only [textOf, Tree.makeDirs, if_neg hq]

theorem isFile_iff : isFile os t p = true ↔
    ∃ name contents, p.fileName = some name ∧ textOf t (resolve os p) = some contents := by
  unfold isFile readToString
  cases p.fileName <;> simp [Option.isSome_iff_exists]

theorem createDirAll_text (h : createDirAll os p t = .ok t') : textOf t' = textOf t := by
  unfold createDirAll at h
  split at h
  next => cases h
  next =>
    split_ifs at h
    obtain rfl := Except.ok.inj h
    exact textOf_makeDirs _ _

theorem write_text {contents : Str} (h : write os p contents t = .ok t') :
    textOf t' = Function.update (textOf t) (resolve os p) (some contents) := by
  unfold write at h
  split at h
  next => cases h
  next =>
    split_ifs at h
    all_goals cases h
    exact textOf_setFile _ _ _

/-- What a copy leaves behind, and nothing of a file that is copied onto itself. -/
def copyStep (files : Location → Option Str) (c : Location × Location) :
    Location → Option Str :=
  Function.update files c.2 (if c.1 = c.2 then some [] else files c.1)

theorem copy_text {source destination : Path} (h : copy os source destination t = .ok t') :
    (textOf t (resolve os source)).isSome ∧
      textOf t' = copyStep (textOf t) (resolve os source, resolve os destination) := by
  unfold copy at h
  split_ifs at h with hs
  obtain ⟨name, contents, -, hc⟩ := isFile_iff.mp hs
  obtain ⟨emptied, he, h⟩ := bind_eq_ok.mp h
  have ht := write_text he
  refine ⟨by simp [hc], ?_⟩
  rw [write_text h, ht, Function.update_idem, copyStep]
  congr 1
  by_cases hl : resolve os source = resolve os destination
  · simp [hl]
  · simp [hl, hc]

end

def lastSource (q : Location) : List (Location × Location) → Option Location
  | [] => none
  | c :: cs => (lastSource q cs).or (if c.2 = q then some c.1 else none)

/-- What a series of copies leaves behind, as long as none of them reads what
another has written before. -/
def copied (files : Location → Option Str) (cs : List (Location × Location)) :
    Location → Option Str := fun q =>
  match lastSource q cs with
  | none => files q
  | some s => if s = q then some [] else files s

theorem mem_of_lastSource {q s : Location} {cs : List (Location × Location)}
    (h : lastSource q cs = some s) : (s, q) ∈ cs := by
  induction cs with
  | nil => cases h
  | cons c cs ih =>
    simp only [lastSource, Option.or_eq_some_iff] at h
    obtain h | ⟨-, h⟩ := h
    · exact List.mem_cons_of_mem _ (ih h)
    · split at h
      next hc =>
        obtain rfl := Option.some.inj h
        exact List.mem_cons.mpr (.inl (by rw [← hc]))
      next => cases h

theorem lastSource_isSome {q : Location} {cs : List (Location × Location)} :
    (lastSource q cs).isSome ↔ ∃ c ∈ cs, c.2 = q := by
  induction cs with
  | nil => simp [lastSource]
  | cons c cs ih =>
    simp only [lastSource, Option.isSome_or, Bool.or_eq_true, ih, List.mem_cons,
      exists_eq_or_imp]
    by_cases hc : c.2 = q <;> simp [hc]

/-- A file that is written and read again keeps its name, so that it is copied
onto itself. -/
def SameTarget (a b : Location × Location) : Prop := b.1 = a.2 → b.2 = a.2

theorem foldl_copyStep {cs : List (Location × Location)} (h : cs.Pairwise SameTarget)
    (files : Location → Option Str) : cs.foldl copyStep files = copied files cs := by
  induction cs generalizing files with
  | nil => rfl
  | cons c cs ih =>
    obtain ⟨hc, hcs⟩ := List.pairwise_cons.mp h
    rw [List.foldl_cons, ih hcs]
    funext q
    simp only [copied, lastSource]
    cases hl : lastSource q cs with
    | none =>
      by_cases hq : c.2 = q
      · subst hq
        simp [copyStep]
      · simp [copyStep, hq, Ne.symm hq]
    | some s =>
      simp only [Option.some_or]
      by_cases hs : s = q
      · simp [hs]
      · have hne : s ≠ c.2 := fun he => hs (he.trans (hc _ (mem_of_lastSource hl) he).symm)
        simp [hs, copyStep, hne]

end FractalD.Kernel.FileSystem
