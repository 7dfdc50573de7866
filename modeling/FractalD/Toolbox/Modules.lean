import FractalD.Config.Words
import FractalD.Escape.Names
import FractalD.Machine.Paths
import FractalD.Machine.Precedence
import FractalD.Resolved.Lossy

namespace FractalD.Toolbox.Modules

open FractalD.Config.Words FractalD.Escape.Names FractalD.Machine.CString FractalD.Machine.Paths
open FractalD.Machine.Precedence FractalD.Machine.Text FractalD.Resolved.Answers Relation

abbrev FileName := List UInt8

/-- The entries of a directory, in the order in which they are read. -/
inductive Tree
  | nil
  | file (name : FileName) (rest : Tree)
  | directory (name : FileName) (inside rest : Tree)
  | other (name : FileName) (rest : Tree)
  deriving DecidableEq

/-- The directory of the modules of a kernel, and the text of `modules.dep` there. -/
structure ModuleTree where
  root : Str
  entries : Tree
  dependencies : Str

def underscore (c : Char) : Char := if c = '-' then '_' else c

def normalizeModuleName (value : Str) : Str := (trimEndMatches ".ko".toList value).map underscore

def compressions : List Str :=
  [".xz".toList, ".zst".toList, ".gz".toList, ".bz2".toList, ".lz4".toList, ".lzma".toList]

def moduleNameFromPath (fileName : Option Str) : Str :=
  let name := fileName.getD []
  let name := (compressions.findSome? (removeSuffix · name)).getD name
  ((removeSuffix ".ko".toList name).getD name).map underscore

/-- The path of a file below the root. -/
abbrev RelativePath := List FileName

def moduleOf (path : RelativePath) : Str := moduleNameFromPath (path.getLast?.bind fromUtf8)

def findModuleFile (name : Str) : Tree → Option RelativePath
  | .nil => none
  | .file file rest =>
    if moduleNameFromPath (fromUtf8 file) = name then some [file] else findModuleFile name rest
  | .directory directory inside rest =>
    match findModuleFile name inside with
    | some path => some (directory :: path)
    | none => findModuleFile name rest
  | .other _ rest => findModuleFile name rest

/-- `Path::join`. -/
def joinPath (root path : Str) : Str :=
  if path.head? = some '/' then path
  else if root = [] ∨ root.getLast? = some '/' then root ++ path
  else root ++ '/' :: path

/-- `Path::file_name`. -/
def fileName (path : Str) : Option Str := (components path).getLast?.bind Component.name?

def relative (path : RelativePath) : Str := fromUtf8Lossy (List.intercalate [47] path)

variable (m : ModuleTree)

/-- What a line of `modules.dep` lists for a file. -/
def listed (path : RelativePath) (line : Str) : Option (List Str) := do
  let (file, values) ← splitOnce ':' line
  if file = relative path then some ((splitWhitespace values).map (joinPath m.root)) else none

def moduleDependencies (path : RelativePath) : List Str :=
  ((textLines m.dependencies).findSome? (listed m path)).getD []

/-- The modules that `modules.dep` lists for a file. -/
def dependencyNames (path : RelativePath) : List Str :=
  (moduleDependencies m path).map fun dependency => moduleNameFromPath (fileName dependency)

/-- Whether the last dot of a file name is followed by anything but `ko`. -/
def isCompressed (path : RelativePath) : Bool :=
  let name := path.getLast?.getD []
  let after := name.reverse.takeWhile (· ≠ 46)
  after.length + 1 < name.length && after ≠ [111, 107]

def display (path : RelativePath) : Str := joinPath m.root (relative path)

/-- The modules that have been seen to be loaded, those that the kernel has, and the files that
have been inserted. -/
structure State where
  loaded : List Str
  kernel : List Str
  inserted : List RelativePath

def kernelModuleLoaded (kernel : List Str) (name : Str) : Bool :=
  kernel.any fun loaded => loaded = name || loaded.map underscore = name

def State.isLoaded (s : State) (name : Str) : Prop :=
  name ∈ s.loaded ∨ kernelModuleLoaded s.kernel name = true

instance (s : State) (name : Str) : Decidable (s.isLoaded name) :=
  inferInstanceAs (Decidable (_ ∨ _))

/-- What a call has done and returned. -/
abbrev Outcome := State × Except Str Unit

/-- Load modules one after the other, until one cannot be loaded. -/
def loadAll (load : Str → State → Option Outcome) : List Str → State → Option Outcome
  | [], s => some (s, .ok ())
  | name :: names, s =>
    match load name s with
    | some (s, .ok ()) => loadAll load names s
    | outcome => outcome

/-- The end of a call whose dependencies are loaded. -/
def insertModule (kernel : State → RelativePath → Except Str Unit) (normalized : Str)
    (path : RelativePath) (s : State) : Outcome :=
  if isCompressed path then
    (s, .error ("modprobe: compressed module ".toList ++ display m path ++
      " requires the distribution kmod helper".toList))
  else
    match kernel s path with
    | .error error =>
      (s, .error ("modprobe: cannot insert ".toList ++ display m path ++ ": ".toList ++ error))
    | .ok () => (⟨normalized :: s.loaded, normalized :: s.kernel, s.inserted ++ [path]⟩, .ok ())

/-- A call, of which so many may be under way at a time. -/
def loadModuleName (kernel : State → RelativePath → Except Str Unit) :
    Nat → Str → State → Option Outcome
  | 0, _, _ => none
  | calls + 1, name, s =>
    let normalized := normalizeModuleName name
    if s.isLoaded normalized then some ({ s with loaded := normalized :: s.loaded }, .ok ())
    else
      match findModuleFile normalized m.entries with
      | none =>
        some (s, .error ("modprobe: cannot find module ".toList ++ normalized ++
          " below ".toList ++ m.root))
      | some path =>
        match loadAll (loadModuleName kernel calls) (dependencyNames m path) s with
        | some (s, .ok ()) => some (insertModule m kernel normalized path s)
        | outcome => outcome

/-- A module has another one among those that `modules.dep` lists for its file. -/
def DependsOn (name dependency : Str) : Prop :=
  ∃ path, findModuleFile name m.entries = some path ∧
    dependency ∈ (dependencyNames m path).map normalizeModuleName

/-- Files are inserted one after the other, each when its module is not loaded and those that are
listed for it are. -/
def InOrder : (Str → Prop) → List RelativePath → Prop
  | _, [] => True
  | loaded, path :: paths =>
    ¬ loaded (moduleOf path) ∧ (∀ name ∈ dependencyNames m path, loaded (normalizeModuleName name)) ∧
      InOrder (fun name => loaded name ∨ name = moduleOf path) paths

def Terminates (kernel : State → RelativePath → Except Str Unit) (name : Str) (s : State) : Prop :=
  ∃ calls, (loadModuleName m kernel calls name s).isSome

/-- Every call ends, and has inserted modules in order. -/
def LoadsInOrder : Prop :=
  ∀ kernel name s, Terminates m kernel name s ∧
    ∀ calls s' result, loadModuleName m kernel calls name s = some (s', result) →
      ∃ paths, s'.inserted = s.inserted ++ paths ∧ InOrder m s.isLoaded paths

variable {m}

theorem underscore_underscore (c : Char) : underscore (underscore c) = underscore c := by
  unfold underscore
  split_ifs <;> simp_all

theorem map_underscore (name : Str) :
    (normalizeModuleName name).map underscore = normalizeModuleName name := by
  rw [normalizeModuleName, List.map_map]
  apply List.map_congr_left
  intro c _
  exact underscore_underscore c

theorem kernelModuleLoaded_iff {kernel : List Str} {name : Str} :
    kernelModuleLoaded kernel name = true ↔
      ∃ loaded ∈ kernel, loaded = name ∨ loaded.map underscore = name := by
  simp [kernelModuleLoaded]

theorem moduleOf_found {name : Str} {t : Tree} {path : RelativePath}
    (h : findModuleFile name t = some path) : path ≠ [] ∧ moduleOf path = name := by
  induction t generalizing path with
  | nil => cases h
  | file file rest ih =>
    rw [findModuleFile] at h
    split_ifs at h with hname
    · obtain rfl := Option.some.inj h
      exact ⟨List.cons_ne_nil _ _, hname⟩
    · exact ih h
  | directory directory inside rest ihin ih =>
    rw [findModuleFile] at h
    cases hin : findModuleFile name inside with
    | none =>
      rw [hin] at h
      exact ih h
    | some path' =>
      rw [hin] at h
      obtain rfl := Option.some.inj h
      obtain ⟨hne, hname⟩ := ihin hin
      refine ⟨List.cons_ne_nil _ _, ?_⟩
      rw [moduleOf, List.getLast?_cons_of_ne_nil hne]
      exact hname
  | other _ rest ih => exact ih h

theorem finite_modules (t : Tree) : {name | (findModuleFile name t).isSome}.Finite := by
  induction t with
  | nil => exact Set.finite_empty.subset fun name h => by cases h
  | file file rest ih =>
    apply (ih.insert (moduleNameFromPath (fromUtf8 file))).subset
    intro name h
    by_cases hname : moduleNameFromPath (fromUtf8 file) = name
    · exact Set.mem_insert_iff.mpr (Or.inl hname.symm)
    · refine Set.mem_insert_of_mem _ ?_
      rwa [Set.mem_ofPred_eq, findModuleFile, if_neg hname] at h
  | directory directory inside rest ihin ih =>
    apply (ihin.union ih).subset
    intro name h
    cases hin : findModuleFile name inside with
    | none =>
      rw [Set.mem_ofPred_eq, findModuleFile, hin] at h
      exact Or.inr h
    | some path =>
      refine Or.inl ?_
      rw [Set.mem_ofPred_eq, hin]
      rfl
  | other _ rest ih => exact ih

theorem finite_dependencies (m : ModuleTree) : {name | ∃ d, DependsOn m name d}.Finite := by
  apply (finite_modules m.entries).subset
  rintro name ⟨d, path, hpath, -⟩
  rw [Set.mem_ofPred_eq, hpath]
  rfl

section

variable {s s' t : State} {name normalized : Str} {path : RelativePath}

theorem isLoaded_mark (h : s.isLoaded normalized) (x : Str) :
    ({ s with loaded := normalized :: s.loaded } : State).isLoaded x ↔ s.isLoaded x := by
  simp only [State.isLoaded, List.mem_cons]
  constructor
  · rintro ((rfl | hx) | hx)
    · exact h
    · exact Or.inl hx
    · exact Or.inr hx
  · rintro (hx | hx)
    · exact Or.inl (Or.inr hx)
    · exact Or.inr hx

theorem isLoaded_insert (x : Str) {inserted : List RelativePath} :
    (⟨normalizeModuleName name :: s.loaded, normalizeModuleName name :: s.kernel, inserted⟩ :
      State).isLoaded x ↔ s.isLoaded x ∨ x = normalizeModuleName name := by
  simp only [State.isLoaded, List.mem_cons, kernelModuleLoaded, List.any_cons, map_underscore,
    Bool.or_self, Bool.or_eq_true, decide_eq_true_eq]
  tauto

theorem inOrder_append {loaded : Str → Prop} {paths paths' : List RelativePath} :
    InOrder m loaded (paths ++ paths') ↔ InOrder m loaded paths ∧
      InOrder m (fun name => loaded name ∨ name ∈ paths.map moduleOf) paths' := by
  induction paths generalizing loaded with
  | nil => simp [InOrder]
  | cons path paths ih =>
    have hsame : (fun name => (loaded name ∨ name = moduleOf path) ∨ name ∈ paths.map moduleOf) =
        fun name => loaded name ∨ name ∈ (path :: paths).map moduleOf := by
      funext name
      rw [List.map_cons, List.mem_cons, or_assoc]
    rw [List.cons_append, InOrder, InOrder, ih, hsame, and_assoc, and_assoc]

/-- What has been done between two states: modules of a kind have been inserted in order. -/
def Loads (m : ModuleTree) (within : Str → Prop) (s s' : State) : Prop :=
  ∃ paths, s'.inserted = s.inserted ++ paths ∧ InOrder m s.isLoaded paths ∧
    (∀ name, s'.isLoaded name ↔ s.isLoaded name ∨ name ∈ paths.map moduleOf) ∧
    ∀ path ∈ paths, within (moduleOf path)

theorem Loads.refl (m : ModuleTree) (within : Str → Prop) (s : State) : Loads m within s s :=
  ⟨[], by simp [InOrder]⟩

variable {within within' : Str → Prop}

theorem Loads.trans (h : Loads m within s s') (h' : Loads m within s' t) : Loads m within s t := by
  obtain ⟨paths, hi, ho, hl, hw⟩ := h
  obtain ⟨paths', hi', ho', hl', hw'⟩ := h'
  have hloaded : s'.isLoaded = fun name => s.isLoaded name ∨ name ∈ paths.map moduleOf :=
    funext fun name => propext (hl name)
  refine ⟨paths ++ paths', ?_, ?_, fun name => ?_, fun path hpath => ?_⟩
  · rw [hi', hi, List.append_assoc]
  · rw [hloaded] at ho'
    exact inOrder_append.mpr ⟨ho, ho'⟩
  · rw [hl', hl, List.map_append, List.mem_append, or_assoc]
  · exact (List.mem_append.mp hpath).elim (hw path) (hw' path)

theorem Loads.mono (h : Loads m within s s') (hle : ∀ name, within name → within' name) :
    Loads m within' s s' := by
  obtain ⟨paths, hi, ho, hl, hw⟩ := h
  exact ⟨paths, hi, ho, hl, fun path hpath => hle _ (hw path hpath)⟩

theorem Loads.isLoaded (h : Loads m within s s') (hs : s.isLoaded name) : s'.isLoaded name := by
  obtain ⟨paths, -, -, hl, -⟩ := h
  exact (hl name).mpr (Or.inl hs)

theorem Loads.mark (m : ModuleTree) (within : Str → Prop) (h : s.isLoaded normalized) :
    Loads m within s { s with loaded := normalized :: s.loaded } :=
  ⟨[], by simp, trivial, fun x => by simp [isLoaded_mark h x], by simp⟩

variable {kernel : State → RelativePath → Except Str Unit} {calls : Nat}
  {load load' : Str → State → Option Outcome} {names : List Str} {outcome : Outcome}

theorem loadAll_loads
    (h : ∀ name ∈ names, ∀ s outcome, load name s = some outcome → Loads m within s outcome.1 ∧
      (outcome.2 = .ok () → outcome.1.isLoaded (normalizeModuleName name)))
    (hload : loadAll load names s = some outcome) :
    Loads m within s outcome.1 ∧ (outcome.2 = .ok () →
      ∀ name ∈ names, outcome.1.isLoaded (normalizeModuleName name)) := by
  induction names generalizing s with
  | nil =>
    obtain rfl := Option.some.inj hload
    exact ⟨Loads.refl m within s, by simp⟩
  | cons name names ih =>
    have hrest : ∀ name' ∈ names, name' ∈ name :: names := fun _ => List.mem_cons_of_mem name
    rw [loadAll] at hload
    split at hload
    next s' hfirst =>
      obtain ⟨hl, hname⟩ := h name List.mem_cons_self s _ hfirst
      obtain ⟨hl', hnames⟩ := ih (fun name' hname' => h name' (hrest name' hname')) hload
      refine ⟨hl.trans hl', fun hok => ?_⟩
      rintro name' (_ | ⟨_, hname'⟩)
      · exact hl'.isLoaded (hname rfl)
      · exact hnames hok name' hname'
    next hfails =>
      obtain ⟨hl, -⟩ := h name List.mem_cons_self s _ hload
      refine ⟨hl, fun hok => absurd hload ?_⟩
      obtain ⟨s', result⟩ := outcome
      obtain rfl : result = .ok () := hok
      exact hfails s'

theorem insertModule_loads (kernel : State → RelativePath → Except Str Unit)
    (hpath : moduleOf path = normalizeModuleName name)
    (hnot : ¬ s.isLoaded (normalizeModuleName name))
    (hdeps : ∀ name ∈ dependencyNames m path, s.isLoaded (normalizeModuleName name)) :
    Loads m (· = normalizeModuleName name) s
        (insertModule m kernel (normalizeModuleName name) path s).1 ∧
      ((insertModule m kernel (normalizeModuleName name) path s).2 = .ok () →
        (insertModule m kernel (normalizeModuleName name) path s).1.isLoaded
          (normalizeModuleName name)) := by
  unfold insertModule
  split
  next => exact ⟨Loads.refl m _ s, by simp⟩
  next =>
    split
    next => exact ⟨Loads.refl m _ s, by simp⟩
    next =>
      refine ⟨⟨[path], rfl, ⟨?_, hdeps, trivial⟩, fun x => ?_, ?_⟩, fun _ => ?_⟩
      · rw [hpath]
        exact hnot
      · rw [isLoaded_insert, List.map_singleton, List.mem_singleton, hpath]
      · simpa using hpath
      · exact (isLoaded_insert _).mpr (Or.inr rfl)

theorem load_loads (h : Acyclic (DependsOn m))
    (hload : loadModuleName m kernel calls name s = some outcome) :
    Loads m (ReflTransGen (DependsOn m) (normalizeModuleName name)) s outcome.1 ∧
      (outcome.2 = .ok () → outcome.1.isLoaded (normalizeModuleName name)) := by
  induction calls generalizing name s outcome with
  | zero => cases hload
  | succ calls ih =>
    simp only [loadModuleName] at hload
    split_ifs at hload with hloaded
    · obtain rfl := Option.some.inj hload
      refine ⟨Loads.mark m _ hloaded, fun _ => (isLoaded_mark hloaded _).mpr hloaded⟩
    · cases hfind : findModuleFile (normalizeModuleName name) m.entries with
      | none =>
        rw [hfind] at hload
        obtain rfl := Option.some.inj hload
        exact ⟨Loads.refl m _ s, by simp⟩
      | some path =>
        rw [hfind] at hload
        simp only at hload
        have hdeps : ∀ dependency ∈ dependencyNames m path,
            DependsOn m (normalizeModuleName name) (normalizeModuleName dependency) :=
          fun dependency hd => ⟨path, hfind, List.mem_map_of_mem hd⟩
        have hall (outcome : Outcome)
            (hl : loadAll (loadModuleName m kernel calls) (dependencyNames m path) s =
              some outcome) :
            Loads m (TransGen (DependsOn m) (normalizeModuleName name)) s outcome.1 ∧ _ :=
          loadAll_loads
            (fun dependency hd s outcome hl => (ih hl).imp_left fun hl =>
              hl.mono fun x hx => TransGen.head' (hdeps dependency hd) hx) hl
        split at hload
        next s' hs' =>
          obtain rfl := Option.some.inj hload
          obtain ⟨hl, hok⟩ := hall _ hs'
          -- its dependencies, and what they need, are other modules
          have hnot : ¬ s'.isLoaded (normalizeModuleName name) := by
            obtain ⟨paths, -, -, hiff, hwithin⟩ := hl
            rw [hiff, List.mem_map]
            rintro (hs | ⟨path', hpath', heq⟩)
            · exact hloaded hs
            · exact h _ (heq ▸ hwithin path' hpath')
          obtain ⟨hl', hok'⟩ := insertModule_loads kernel (moduleOf_found hfind).2
            hnot (hok rfl)
          refine ⟨(hl.mono fun x hx => hx.to_reflTransGen).trans (hl'.mono ?_), hok'⟩
          rintro x rfl
          exact ReflTransGen.refl
        next hfails =>
          obtain ⟨hl, -⟩ := hall _ hload
          refine ⟨hl.mono fun x hx => hx.to_reflTransGen, fun hok => absurd hload ?_⟩
          obtain ⟨s', result⟩ := outcome
          obtain rfl : result = .ok () := hok
          exact hfails s'

theorem loadAll_mono (h : ∀ name s outcome, load name s = some outcome → load' name s = some outcome)
    (hload : loadAll load names s = some outcome) : loadAll load' names s = some outcome := by
  induction names generalizing s with
  | nil => exact hload
  | cons name names ih =>
    rw [loadAll] at hload ⊢
    cases hfirst : load name s with
    | none =>
      rw [hfirst] at hload
      cases hload
    | some first =>
      rw [hfirst] at hload
      rw [h name s first hfirst]
      obtain ⟨s', _ | _⟩ := first
      · exact hload
      · exact ih hload

theorem load_succ (hload : loadModuleName m kernel calls name s = some outcome) :
    loadModuleName m kernel (calls + 1) name s = some outcome := by
  induction calls generalizing name s outcome with
  | zero => cases hload
  | succ calls ih =>
    rw [loadModuleName] at hload ⊢
    split_ifs at hload ⊢ with hloaded
    · exact hload
    · cases hfind : findModuleFile (normalizeModuleName name) m.entries with
      | none =>
        rw [hfind] at hload
        exact hload
      | some path =>
        rw [hfind] at hload
        simp only at hload ⊢
        cases hall : loadAll (loadModuleName m kernel calls) (dependencyNames m path) s with
        | none =>
          rw [hall] at hload
          cases hload
        | some outcome' =>
          rw [hall] at hload
          rw [loadAll_mono (fun name s outcome => ih) hall]
          exact hload

theorem load_mono {calls' : Nat} (hle : calls ≤ calls')
    (hload : loadModuleName m kernel calls name s = some outcome) :
    loadModuleName m kernel calls' name s = some outcome := by
  induction hle with
  | refl => exact hload
  | step _ ih => exact load_succ ih

theorem loadAll_terminates (h : ∀ name ∈ names, ∀ s, Terminates m kernel name s) (s : State) :
    ∃ calls, (loadAll (loadModuleName m kernel calls) names s).isSome := by
  induction names generalizing s with
  | nil => exact ⟨0, rfl⟩
  | cons name names ih =>
    obtain ⟨calls, hcalls⟩ := h name List.mem_cons_self s
    obtain ⟨⟨s', result⟩, hfirst⟩ := Option.isSome_iff_exists.mp hcalls
    cases result with
    | error e => exact ⟨calls, by rw [loadAll, hfirst]; rfl⟩
    | ok _ =>
      obtain ⟨calls', hcalls'⟩ := ih (fun name' hname' => h name' (List.mem_cons_of_mem _ hname')) s'
      obtain ⟨outcome, hrest⟩ := Option.isSome_iff_exists.mp hcalls'
      refine ⟨max calls calls', ?_⟩
      rw [loadAll, load_mono (le_max_left calls calls') hfirst]
      simp only
      rw [loadAll_mono (fun _ _ _ => load_mono (le_max_right calls calls')) hrest]
      rfl

theorem terminates_of_dependencies
    (h : ∀ dependency, DependsOn m (normalizeModuleName name) (normalizeModuleName dependency) →
      ∀ s, Terminates m kernel dependency s) (s : State) : Terminates m kernel name s := by
  cases hfind : findModuleFile (normalizeModuleName name) m.entries with
  | none =>
    refine ⟨1, ?_⟩
    simp only [loadModuleName, hfind]
    split_ifs <;> rfl
  | some path =>
    have hdeps : ∀ dependency ∈ dependencyNames m path, ∀ s, Terminates m kernel dependency s :=
      fun dependency hd => h dependency ⟨path, hfind, List.mem_map_of_mem hd⟩
    obtain ⟨calls, hcalls⟩ := loadAll_terminates hdeps s
    obtain ⟨⟨s', result⟩, hall⟩ := Option.isSome_iff_exists.mp hcalls
    refine ⟨calls + 1, ?_⟩
    simp only [loadModuleName, hfind, hall]
    split_ifs
    · rfl
    · cases result <;> rfl

theorem terminates (h : Acyclic (DependsOn m)) (name : Str) (s : State) :
    Terminates m kernel name s := by
  by_contra hnot
  let stuck : Set Str :=
    {n | ∃ name, normalizeModuleName name = n ∧ ∃ s, ¬ Terminates m kernel name s}
  have hwaiting : Waiting (fun d n => DependsOn m n d) stuck := by
    rintro n ⟨name, rfl, s, hs⟩
    by_contra hno
    refine hs (terminates_of_dependencies (fun dependency hd s => ?_) s)
    by_contra hstuck
    exact hno ⟨_, ⟨dependency, rfl, s, hstuck⟩, hd⟩
  have hfinite : stuck.Finite := by
    apply (finite_dependencies m).subset
    intro n hn
    obtain ⟨d, -, hd⟩ := hwaiting n hn
    exact ⟨d, hd⟩
  apply waiting_not_acyclic hfinite hwaiting ⟨name, rfl, s, hnot⟩
  intro n hn
  exact h n (transGen_swap.mp hn)

/-- Modules each of which has a dependency among them, where they are not loaded. -/
def Stuck (m : ModuleTree) (cycle : Set Str) (s : State) : Prop :=
  (∀ n ∈ cycle, ¬ s.isLoaded n ∧ ∃ d ∈ cycle, DependsOn m n d) ∧
    ∀ n ∈ cycle, ∀ d, DependsOn m n d → d ∈ cycle ∨ s.isLoaded d

variable {cycle : Set Str}

theorem Stuck.mark (h : Stuck m cycle s) (hs : s.isLoaded normalized) :
    Stuck m cycle { s with loaded := normalized :: s.loaded } := by
  obtain ⟨hin, hout⟩ := h
  refine ⟨fun n hn => ?_, fun n hn d hd => ?_⟩
  · rw [isLoaded_mark hs]
    exact hin n hn
  · rw [isLoaded_mark hs]
    exact hout n hn d hd

theorem loadAll_stuck
    (h : ∀ s, Stuck m cycle s → ∀ name, normalizeModuleName name ∈ cycle →
      loadModuleName m kernel calls name s = none)
    (hs : Stuck m cycle s)
    (hnames : ∀ name ∈ names, normalizeModuleName name ∈ cycle ∨
      s.isLoaded (normalizeModuleName name))
    (hname : ∃ name ∈ names, normalizeModuleName name ∈ cycle) :
    loadAll (loadModuleName m kernel calls) names s = none := by
  induction names generalizing s with
  | nil => simp at hname
  | cons name names ih =>
    by_cases hin : normalizeModuleName name ∈ cycle
    · rw [loadAll, h s hs name hin]
    · have hloaded := (hnames name List.mem_cons_self).resolve_left hin
      obtain ⟨name', hmem, hcycle⟩ := hname
      have hmem' : name' ∈ names := by
        refine (List.mem_cons.mp hmem).resolve_left ?_
        rintro rfl
        exact hin hcycle
      cases calls with
      | zero => rfl
      | succ calls =>
        rw [loadAll]
        simp only [loadModuleName, if_pos hloaded]
        apply ih (hs.mark hloaded) _ ⟨name', hmem', hcycle⟩
        intro x hx
        rw [isLoaded_mark hloaded]
        exact hnames x (List.mem_cons_of_mem name hx)

theorem load_stuck (hs : Stuck m cycle s) (hname : normalizeModuleName name ∈ cycle) :
    loadModuleName m kernel calls name s = none := by
  induction calls generalizing name s with
  | zero => rfl
  | succ calls ih =>
    obtain ⟨hnot, d, hd, path, hfind, hdep⟩ := hs.1 _ hname
    obtain ⟨dependency, hmem, rfl⟩ := List.mem_map.mp hdep
    have hall : loadAll (loadModuleName m kernel calls) (dependencyNames m path) s = none := by
      refine loadAll_stuck (fun s hs name hname => ih hs hname) hs (fun x hx => ?_)
        ⟨dependency, hmem, hd⟩
      exact hs.2 _ hname _ ⟨path, hfind, List.mem_map_of_mem hx⟩
    rw [loadModuleName]
    simp only [if_neg hnot, hfind, hall]

/-- From a cycle, with all loaded that is on none with it, a call comes back to where it began. -/
theorem exists_stuck (hc : TransGen (DependsOn m) name name) :
    ∃ kernel : List Str, Stuck m {n | TransGen (DependsOn m) name n ∧ TransGen (DependsOn m) n name}
      ⟨[], kernel, []⟩ := by
  classical
  have hfinite : {d | ∃ n, DependsOn m n d}.Finite := by
    have hlisted : ∀ n, {d | DependsOn m n d}.Finite := by
      intro n
      cases hfind : findModuleFile n m.entries with
      | none =>
        apply Set.finite_empty.subset
        rintro d ⟨path, hpath, -⟩
        simp [hfind] at hpath
      | some path =>
        apply ((dependencyNames m path).map normalizeModuleName).finite_toSet.subset
        rintro d ⟨path', hpath, hd⟩
        rw [hfind] at hpath
        obtain rfl := Option.some.inj hpath
        exact hd
    apply ((finite_dependencies m).biUnion fun n _ => hlisted n).subset
    rintro d ⟨n, hd⟩
    exact Set.mem_biUnion ⟨d, hd⟩ hd
  let outside := hfinite.toFinset.toList.filter
    fun d => ¬ (TransGen (DependsOn m) name d ∧ TransGen (DependsOn m) d name)
  have hloaded : ∀ d, (⟨[], outside, []⟩ : State).isLoaded d ↔ d ∈ outside := by
    intro d
    rw [State.isLoaded, kernelModuleLoaded_iff, or_iff_right List.not_mem_nil]
    constructor
    · rintro ⟨d', hd', rfl | rfl⟩
      · exact hd'
      · have hmem : d' ∈ hfinite.toFinset := Finset.mem_toList.mp (List.mem_of_mem_filter hd')
        obtain ⟨n, path, -, hdep⟩ := hfinite.mem_toFinset.mp hmem
        obtain ⟨dependency, -, rfl⟩ := List.mem_map.mp hdep
        rwa [map_underscore]
    · exact fun hd => ⟨d, hd, Or.inl rfl⟩
  refine ⟨outside, fun n hn => ⟨?_, ?_⟩, fun n hn d hd => ?_⟩
  · rw [hloaded]
    intro hmem
    exact of_decide_eq_true (List.mem_filter.mp hmem).2 hn
  · obtain ⟨d, hd, hback⟩ := TransGen.head'_iff.mp hn.2
    exact ⟨d, ⟨hn.1.tail hd, TransGen.trans_right hback hc⟩, hd⟩
  · rw [hloaded]
    by_cases hin : TransGen (DependsOn m) name d ∧ TransGen (DependsOn m) d name
    · exact Or.inl hin
    · refine Or.inr (List.mem_filter.mpr ⟨?_, decide_eq_true hin⟩)
      exact Finset.mem_toList.mpr (hfinite.mem_toFinset.mpr ⟨n, hd⟩)

end

/-- Calls end, and insert modules in order, exactly in the trees in which no module depends on
itself. -/
theorem loadsInOrder_iff (m : ModuleTree) : LoadsInOrder m ↔ Acyclic (DependsOn m) := by
  constructor
  · intro h name hc
    obtain ⟨loaded, hstuck⟩ := exists_stuck hc
    obtain ⟨n, -, path, -, hdep⟩ := TransGen.tail'_iff.mp hc
    obtain ⟨dependency, -, rfl⟩ := List.mem_map.mp hdep
    obtain ⟨calls, hcalls⟩ := (h (fun _ _ => .ok ()) dependency ⟨[], loaded, []⟩).1
    rw [load_stuck hstuck ⟨hc, hc⟩] at hcalls
    cases hcalls
  · intro h kernel name s
    refine ⟨terminates h name s, fun calls s' result hload => ?_⟩
    obtain ⟨paths, hi, ho, -, -⟩ := (load_loads h hload).1
    exact ⟨paths, hi, ho⟩

def selfDependent : ModuleTree :=
  ⟨"/lib/modules/6".toList, .file (asBytes "a.ko".toList) .nil, "a.ko: a.ko".toList⟩

theorem selfDependent_not_inOrder : ¬ LoadsInOrder selfDependent := by
  have hfile : findModuleFile ['a'] selfDependent.entries = some [asBytes "a.ko".toList] := by decide
  have hlisted : (dependencyNames selfDependent [asBytes "a.ko".toList]).map normalizeModuleName =
      [['a']] := by decide
  have hstuck : Stuck selfDependent {['a']} ⟨[], [], []⟩ := by
    constructor
    · rintro n rfl
      exact ⟨by decide, ['a'], rfl, _, hfile, hlisted ▸ List.mem_singleton_self _⟩
    · rintro n rfl d ⟨path, hfind, hd⟩
      obtain rfl := Option.some.inj (hfile.symm.trans hfind)
      rw [hlisted] at hd
      exact Or.inl (List.mem_singleton.mp hd)
  intro h
  obtain ⟨calls, hcalls⟩ := (h (fun _ _ => .ok ()) ['a'] ⟨[], [], []⟩).1
  rw [load_stuck hstuck (by decide)] at hcalls
  cases hcalls

end FractalD.Toolbox.Modules
