import FractalD.Config.Words
import FractalD.Machine.Result
import FractalD.Platform.Errno
import FractalD.Sysctl.Globs
import Mathlib.Data.List.Sort

namespace FractalD.Sysctl.Apply

open FractalD.Config.Words FractalD.Machine.CString FractalD.Machine.Result FractalD.Machine.Text
open FractalD.Platform FractalD.Sysctl.Globs

/-- The names on the way from `/proc/sys`. -/
abbrev Location := List Str

/-- The files below `/proc/sys`, which stay what they are, the values that each of them rejects, and
how errors and names are shown. -/
structure System where
  isFile : Location → Bool
  isDir : Location → Bool
  list : Location → Except Errno (List Str)
  rejects : Location → Str → Option Errno
  errorText : Errno → Str
  debug : Str → Str
  opened : ∀ l, isDir l → list l ≠ .error eNoEnt
  listed : ∀ l names, list l = .ok names → ∀ n, n ∈ names ↔ isFile (l ++ [n]) ∨ isDir (l ++ [n])
  entered : ∀ l n, isFile (l ++ [n]) ∨ isDir (l ++ [n]) → isDir l

structure Options where
  procRoot : Str
  prefixes : List Str
  strict : Bool
  dryRun : Bool

structure Rule where
  key : Str
  value : Str
  ignoreErrors : Bool
  deriving DecidableEq, Repr

/-- `trim_matches` for both kinds of quotes. -/
def trimQuotes (s : Str) : Str :=
  trimEnd (fun c => c = '"' || c = '\'') (s.dropWhile fun c => c = '"' || c = '\'')

/-- What a line has as a key and as a value. -/
def rawFields (line : Str) : Str × Str :=
  match splitOnce '=' line with
  | some (key, value) => (trim key, trim value)
  | none => ((splitWhitespace line)[0]?.getD [], (splitWhitespace line)[1]?.getD [])

def parseRule (debug : Str → Str) (line : Str) : Except Str (Option Rule) :=
  let line := trim (line.takeWhile (· ≠ '#'))
  if line = [] then .ok none
  else
    let rawKey := (rawFields line).1
    let rawValue := (rawFields line).2
    if rawKey = [] ∨ rawValue = [] then .error "sysctl rule requires a key and value".toList
    else
      let key := trim (rawKey.dropWhile (· = '-'))
      if key = [] ∨ (key.splitOnP fun c => c = '.' || c = '/').any fun part =>
          part = "..".toList || part = [] then
        .error ("invalid sysctl key ".toList ++ debug rawKey)
      else .ok (some ⟨key, trim (trimQuotes rawValue), rawKey.head? = some '-'⟩)

def hasGlob (value : Str) : Bool := value.any fun c => c = '*' || c = '?'

def display (o : Options) (l : Location) : Str := o.procRoot ++ l.flatMap ('/' :: ·)

section

variable (o : Options) (t : System)

def expandComponents : Location → List Str → Except Str (List Location)
  | base, [] => .ok [base]
  | base, component :: components =>
    if !hasGlob component then
      if components = [] then
        .ok (if t.isFile (base ++ [component]) then [base ++ [component]] else [])
      else expandComponents (base ++ [component]) components
    else
      match t.list base with
      | .error error =>
        if error = eNoEnt then .ok []
        else .error ("cannot enumerate ".toList ++ display o base ++ ": ".toList ++ t.errorText error)
      | .ok names => do
        let found ← (names.filter (globMatches component)).mapM fun name =>
          if components = [] then
            .ok (if t.isFile (base ++ [name]) then [base ++ [name]] else [])
          else if t.isDir (base ++ [name]) then expandComponents (base ++ [name]) components
          else .ok []
        pure (found.flatten.insertionSort (· ≤ ·))

/-- The components of a key. -/
def partsOf (key : Str) : List Str :=
  ((key.map fun c => if c = '.' then '/' else c).splitOn '/').filter (· ≠ [])

def expandRule (key : Str) : Except Str (List Location) :=
  if partsOf key = [] ∨ "..".toList ∈ partsOf key then
    .error ("invalid sysctl key ".toList ++ t.debug key)
  else expandComponents o t [] (partsOf key)

/-- What has been done: the values of the files, what was printed and what failed. -/
structure Progress where
  values : Location → Str
  printed : List Str := []
  failures : List Str := []

/-- A line of a source, with what errors about it begin with. -/
structure Line where
  place : Str
  text : Str

/-- The lines of the sources, in the order in which they are applied. -/
def linesOf (sources : List (Str × Str)) : List Line :=
  sources.flatMap fun source => (textLines source.2).zipIdx.map fun line =>
    ⟨source.1 ++ ':' :: printUnsigned (line.2 + 1) ++ ": ".toList, line.1⟩

def Progress.fail (p : Progress) (message : Str) : Progress :=
  { p with failures := p.failures ++ [message] }

def applyTarget (rule : Rule) (place : Str) (p : Progress) (target : Location) : Progress :=
  if o.dryRun then
    { p with printed := p.printed ++
        ["Would set ".toList ++ display o target ++ " = ".toList ++ rule.value] }
  else
    match t.rejects target (rule.value ++ ['\n']) with
    | none => { p with values := Function.update p.values target (rule.value ++ ['\n']) }
    | some error =>
      if rule.ignoreErrors then p
      else p.fail (place ++ "cannot set ".toList ++ display o target ++ ": ".toList ++ t.errorText error)

/-- Whether the prefixes, if there are any, let a rule through. -/
def Options.wants (rule : Rule) : Bool :=
  o.prefixes = [] || o.prefixes.any fun start => start.isPrefixOf rule.key

def applyLine (p : Progress) (line : Line) : Except Str Progress :=
  match parseRule t.debug line.text with
  | .error error => .error (line.place ++ error)
  | .ok none => .ok p
  | .ok (some rule) =>
    if !o.wants rule then .ok p
    else
      match expandRule o t rule.key with
      | .error error => .error (line.place ++ error)
      | .ok targets =>
        if targets = [] then
          .ok (if rule.ignoreErrors then p
            else p.fail (line.place ++ "no matching sysctl path for ".toList ++ rule.key))
        else .ok (targets.foldl (applyTarget o t rule line.place) p)

/-- The loop over the sources. What has been done before an error is not undone. -/
def applyLines : List Line → Progress → Progress × Except Str Unit
  | [], p => (p, .ok ())
  | line :: lines, p =>
    match applyLine o t p line with
    | .error error => (p, .error error)
    | .ok p => applyLines lines p

def applySources (sources : List (Str × Str)) (values : Location → Str) :
    Progress × Except Str Unit :=
  match applyLines o t (linesOf sources) { values } with
  | (p, .error error) => (p, .error error)
  | (p, .ok ()) =>
    if o.strict ∧ p.failures ≠ [] then (p, .error (join "; ".toList p.failures)) else (p, .ok ())

/-- Whether each name is what its component says, or matches it if there is a wildcard in it. -/
def fits : List Str → Location → Bool
  | [], [] => true
  | component :: components, name :: names =>
    (if hasGlob component then globMatches component name else name = component) &&
      fits components names
  | _, _ => false

/-- Whether a file is one that a rule is about. -/
def selects (rule : Rule) (l : Location) : Bool := fits (partsOf rule.key) l && t.isFile l

def Rule.text (rule : Rule) : Str := rule.value ++ ['\n']

/-- The rule of a line, if the prefixes let it through. -/
def ruleOf (line : Line) : Option Rule :=
  match parseRule t.debug line.text with
  | .ok (some rule) => if o.wants rule then some rule else none
  | _ => none

def rulesOf (lines : List Line) : List Rule := lines.filterMap (ruleOf o t)

/-- Whether a line does not end the run. -/
def readable (line : Line) : Bool :=
  match parseRule t.debug line.text with
  | .error _ => false
  | .ok none => true
  | .ok (some rule) => !o.wants rule || (expandRule o t rule.key).isOk

def readLines (lines : List Line) : List Line := lines.takeWhile (readable o t)

/-- Whether a rule selects a file and the file takes what the rule writes. -/
def sets (l : Location) (rule : Rule) : Bool := selects t rule l && (t.rejects l rule.text).isNone

/-- The last of the texts that rules set a file to. -/
def lastText (rules : List Rule) (l : Location) : Option Str :=
  ((rules.filter (sets t l)).getLast?).map Rule.text

/-- A rule about which nothing is to be complained. -/
def Followed (rule : Rule) : Prop :=
  rule.ignoreErrors = true ∨ (∃ l, selects t rule l = true) ∧
    (o.dryRun = true ∨ ∀ l, selects t rule l = true → t.rejects l rule.text = none)

end

section

variable {o : Options} {t : System} {base l : Location} {component : Str} {components : List Str}
  {paths : List Location} {rule : Rule} {p p' : Progress} {line : Line} {lines : List Line}

/-- What lies below a name on the way to files. -/
def childrenOf (files : List Location) (l : Location) : List Str :=
  files.filterMap fun file => if l <+: file then (file.drop l.length).head? else none

theorem mem_childrenOf {files : List Location} {n : Str} :
    n ∈ childrenOf files l ↔ ∃ rest, l ++ n :: rest ∈ files := by
  rw [childrenOf, List.mem_filterMap]
  constructor
  · rintro ⟨file, hfile, hname⟩
    split_ifs at hname with hprefix
    obtain ⟨names, rfl⟩ := hprefix
    rw [List.drop_left] at hname
    cases names with
    | nil => cases hname
    | cons name rest =>
      obtain rfl := Option.some.inj hname
      exact ⟨rest, hfile⟩
  · rintro ⟨rest, hfile⟩
    refine ⟨_, hfile, ?_⟩
    rw [if_pos (List.prefix_append _ _), List.drop_left]
    rfl

/-- The tree that has exactly the given files, with a directory wherever there is one to be. -/
def System.below (files : List Location) (rejects : Location → Str → Option Errno)
    (errorText : Errno → Str) (debug : Str → Str) : System where
  isFile l := decide (l ∈ files)
  isDir l := decide (childrenOf files l ≠ [])
  list l := if childrenOf files l ≠ [] then .ok (childrenOf files l) else .error eNoEnt
  rejects := rejects
  errorText := errorText
  debug := debug
  opened l hdir := by
    rw [if_pos (of_decide_eq_true hdir)]
    exact fun h => by cases h
  listed l names hlist n := by
    split_ifs at hlist
    obtain rfl := Except.ok.inj hlist
    rw [mem_childrenOf, decide_eq_true_eq, decide_eq_true_eq]
    constructor
    · rintro ⟨rest, hfile⟩
      cases rest with
      | nil => exact .inl hfile
      | cons name rest =>
        rw [List.append_cons] at hfile
        exact .inr (List.ne_nil_of_mem (mem_childrenOf.mpr ⟨rest, hfile⟩))
    · rintro (hfile | hdir)
      · exact ⟨[], hfile⟩
      · obtain ⟨name, hname⟩ := List.exists_mem_of_ne_nil _ hdir
        obtain ⟨rest, hfile⟩ := mem_childrenOf.mp hname
        exact ⟨name :: rest, by rwa [List.append_cons]⟩
  entered l n h := by
    apply decide_eq_true
    apply List.ne_nil_of_mem (a := n)
    rw [mem_childrenOf]
    rcases h with hfile | hdir
    · exact ⟨[], of_decide_eq_true hfile⟩
    · obtain ⟨name, hname⟩ := List.exists_mem_of_ne_nil _ (of_decide_eq_true hdir)
      obtain ⟨rest, hfile⟩ := mem_childrenOf.mp hname
      exact ⟨name :: rest, by rwa [List.append_cons]⟩

theorem isDir_of_isFile {names : List Str} (hne : names ≠ []) (h : t.isFile (base ++ names)) :
    t.isDir base := by
  have hup : ∀ names, t.isFile (base ++ names) ∨ t.isDir (base ++ names) → names ≠ [] →
      t.isDir base := by
    intro names
    induction names using List.reverseRecOn with
    | nil => exact fun _ h => absurd rfl h
    | append_singleton names n ih =>
      intro h _
      rw [← List.append_assoc] at h
      have hdir := t.entered _ n h
      by_cases hnames : names = []
      · rwa [hnames, List.append_nil] at hdir
      · exact ih (.inr hdir) hnames
  exact hup names (.inl h) hne

theorem mem_single {l' : Location} : l ∈ (if t.isFile l' then [l'] else []) ↔ l = l' ∧ t.isFile l := by
  by_cases h : t.isFile l'
  · rw [if_pos h, List.mem_singleton]
    constructor
    · rintro rfl
      exact ⟨rfl, h⟩
    · exact And.left
  · rw [if_neg h]
    constructor
    · exact fun hl => absurd hl List.not_mem_nil
    · rintro ⟨rfl, hl⟩
      exact absurd hl h

/-- How a component and a name belong together. -/
def fitsName (component name : Str) : Bool :=
  if hasGlob component then globMatches component name else name = component

theorem fits_cons {names : List Str} : fits (component :: components) names = true ↔
    ∃ name rest, names = name :: rest ∧ fitsName component name = true ∧
      fits components rest = true := by
  cases names with
  | nil => simp [fits]
  | cons name rest =>
    rw [fits, Bool.and_eq_true]
    constructor
    · exact fun h => ⟨name, rest, rfl, h⟩
    · rintro ⟨_, _, heq, h⟩
      obtain ⟨rfl, rfl⟩ := List.cons.inj heq
      exact h

theorem fits_nil {names : List Str} : fits [] names = true ↔ names = [] := by
  cases names <;> simp [fits]

theorem mem_below {name : Str}
    (ih : components ≠ [] → ∀ {paths}, expandComponents o t (base ++ [name]) components = .ok paths →
      (l ∈ paths ↔ ∃ names, l = base ++ [name] ++ names ∧ fits components names = true ∧ t.isFile l))
    (h : (if components = [] then
        .ok (if t.isFile (base ++ [name]) then [base ++ [name]] else [])
      else expandComponents o t (base ++ [name]) components) = .ok paths) :
    l ∈ paths ↔ ∃ names, l = base ++ name :: names ∧ fits components names = true ∧ t.isFile l := by
  by_cases hempty : components = []
  · subst hempty
    rw [if_pos rfl] at h
    obtain rfl := Except.ok.inj h
    rw [mem_single]
    constructor
    · rintro ⟨rfl, hfile⟩
      exact ⟨[], rfl, rfl, hfile⟩
    · rintro ⟨names, rfl, hfits, hfile⟩
      obtain rfl := fits_nil.mp hfits
      exact ⟨rfl, hfile⟩
  · rw [if_neg hempty] at h
    rw [ih hempty h]
    simp only [List.append_assoc, List.singleton_append]

theorem rest_ne_nil {names : List Str} (hne : components ≠ []) (h : fits components names = true) :
    names ≠ [] := by
  rintro rfl
  cases components with
  | nil => exact hne rfl
  | cons component components => cases h

theorem mem_listed {name : Str}
    (ih : components ≠ [] → ∀ {paths}, expandComponents o t (base ++ [name]) components = .ok paths →
      (l ∈ paths ↔ ∃ names, l = base ++ [name] ++ names ∧ fits components names = true ∧ t.isFile l))
    (h : (if components = [] then
        .ok (if t.isFile (base ++ [name]) then [base ++ [name]] else [])
      else if t.isDir (base ++ [name]) then expandComponents o t (base ++ [name]) components
      else .ok []) = .ok paths) :
    l ∈ paths ↔ ∃ names, l = base ++ name :: names ∧ fits components names = true ∧ t.isFile l := by
  by_cases hskip : components ≠ [] ∧ ¬ t.isDir (base ++ [name]) = true
  · obtain ⟨hne, hdir⟩ := hskip
    rw [if_neg hne, if_neg hdir] at h
    obtain rfl := Except.ok.inj h
    constructor
    · exact fun hl => absurd hl List.not_mem_nil
    · rintro ⟨names, rfl, hfits, hfile⟩
      rw [List.append_cons] at hfile
      exact absurd (isDir_of_isFile (rest_ne_nil hne hfits) hfile) hdir
  · apply mem_below ih
    by_cases hempty : components = []
    · rw [if_pos hempty] at h ⊢
      exact h
    · rw [if_neg hempty] at h ⊢
      rwa [if_pos (by_contra fun hdir => hskip ⟨hempty, hdir⟩)] at h

/-- A pattern finds the files below a base whose names fit, and no others. -/
theorem mem_expandComponents (hne : components ≠ [])
    (h : expandComponents o t base components = .ok paths) :
    l ∈ paths ↔ ∃ names, l = base ++ names ∧ fits components names = true ∧ t.isFile l := by
  induction components generalizing base paths with
  | nil => exact absurd rfl hne
  | cons component components ih =>
    have hsplit : (∃ names, l = base ++ names ∧ fits (component :: components) names = true ∧
        t.isFile l) ↔ ∃ name, fitsName component name = true ∧
          ∃ names, l = base ++ name :: names ∧ fits components names = true ∧ t.isFile l := by
      constructor
      · rintro ⟨names, rfl, hfits, hfile⟩
        obtain ⟨name, rest, rfl, hname, hrest⟩ := fits_cons.mp hfits
        exact ⟨name, hname, rest, rfl, hrest, hfile⟩
      · rintro ⟨name, hname, rest, rfl, hrest, hfile⟩
        exact ⟨name :: rest, rfl, fits_cons.mpr ⟨name, rest, rfl, hname, hrest⟩, hfile⟩
    rw [hsplit]
    rw [expandComponents] at h
    by_cases hglob : hasGlob component = true
    · rw [if_neg (by simp [hglob])] at h
      have hfits (name : Str) : fitsName component name = globMatches component name := if_pos hglob
      cases hlist : t.list base with
      | error error =>
        rw [hlist] at h
        dsimp only at h
        split_ifs at h with hmissing
        obtain rfl := Except.ok.inj h
        constructor
        · exact fun hl => absurd hl List.not_mem_nil
        · rintro ⟨name, -, names, rfl, -, hfile⟩
          exact absurd (hmissing ▸ hlist)
            (t.opened base (isDir_of_isFile (List.cons_ne_nil _ _) hfile))
      | ok names =>
        rw [hlist] at h
        obtain ⟨found, hfound, h⟩ := bind_eq_ok.mp h
        obtain rfl := Except.ok.inj h
        rw [(List.perm_insertionSort _ _).mem_iff, mem_flatten_mapM hfound]
        constructor
        · rintro ⟨name, hname, bs, hbs, hl⟩
          have hmatch := (List.mem_filter.mp hname).2
          exact ⟨name, (hfits name).trans hmatch,
            (mem_listed (fun hmore _ hpaths => ih hmore hpaths) hbs).mp hl⟩
        · rintro ⟨name, hname, rest, rfl, hrest, hfile⟩
          have hlisted : name ∈ names := by
            rw [t.listed base names hlist]
            by_cases hempty : rest = []
            · exact .inl (by rwa [hempty] at hfile)
            · rw [List.append_cons] at hfile
              exact .inr (isDir_of_isFile hempty hfile)
          have hmem : name ∈ names.filter (globMatches component) :=
            List.mem_filter.mpr ⟨hlisted, (hfits name).symm.trans hname⟩
          obtain ⟨bs, hbs⟩ := exists_mapM_eq_ok.mp ⟨found, hfound⟩ name hmem
          exact ⟨name, hmem, bs, hbs,
            (mem_listed (fun hmore _ hpaths => ih hmore hpaths) hbs).mpr ⟨rest, rfl, hrest, hfile⟩⟩
    · rw [if_pos (by simp [hglob])] at h
      have hfits (name : Str) : fitsName component name = true ↔ name = component := by
        rw [fitsName, if_neg hglob, decide_eq_true_eq]
      simp only [hfits, exists_eq_left]
      exact mem_below (fun hmore _ hpaths => ih hmore hpaths) h

theorem mem_expandRule (h : expandRule o t rule.key = .ok paths) :
    l ∈ paths ↔ selects t rule l = true := by
  rw [expandRule] at h
  split_ifs at h with hkey
  rw [mem_expandComponents (fun hempty => hkey (.inl hempty)) h, selects, Bool.and_eq_true]
  simp

theorem applyTarget_values {target : Location} {place : Str} (hdry : o.dryRun = false) :
    (applyTarget o t rule place p target).values l =
      if l = target ∧ (t.rejects l rule.text).isNone then rule.text else p.values l := by
  have htext : rule.value ++ ['\n'] = rule.text := rfl
  rw [applyTarget, hdry, if_neg (by decide), htext]
  cases hrejects : t.rejects target rule.text with
  | none =>
    change Function.update p.values target rule.text l = _
    by_cases hl : l = target
    · subst hl
      rw [Function.update_self, if_pos ⟨rfl, by rw [hrejects]; rfl⟩]
    · rw [Function.update_of_ne hl, if_neg fun h => hl h.1]
  | some error =>
    rw [if_neg]
    · cases rule.ignoreErrors <;> rfl
    · rintro ⟨rfl, hnone⟩
      rw [hrejects] at hnone
      cases hnone

theorem applyTargets_values (targets : List Location) (place : Str) (hdry : o.dryRun = false) :
    (targets.foldl (applyTarget o t rule place) p).values l =
      if l ∈ targets ∧ (t.rejects l rule.text).isNone then rule.text else p.values l := by
  induction targets using List.reverseRecOn with
  | nil => simp
  | append_singleton targets target ih =>
    rw [List.foldl_append, List.foldl_cons, List.foldl_nil, applyTarget_values hdry, ih]
    by_cases hnone : (t.rejects l rule.text).isNone = true
    · by_cases hl : l = target
      · subst hl
        rw [if_pos ⟨rfl, hnone⟩, if_pos ⟨by simp, hnone⟩]
      · simp [hl]
    · simp [hnone]

theorem applyTargets_dry (targets : List Location) (place : Str) (hdry : o.dryRun = true) :
    (targets.foldl (applyTarget o t rule place) p).values = p.values ∧
      (targets.foldl (applyTarget o t rule place) p).failures = p.failures := by
  induction targets generalizing p with
  | nil => exact ⟨rfl, rfl⟩
  | cons target targets ih =>
    have hstep : (applyTarget o t rule place p target).values = p.values ∧
        (applyTarget o t rule place p target).failures = p.failures := by
      rw [applyTarget, if_pos hdry]
      exact ⟨rfl, rfl⟩
    rw [List.foldl_cons]
    exact ⟨ih.1.trans hstep.1, ih.2.trans hstep.2⟩

theorem applyLine_ok (h : applyLine o t p line = .ok p') :
    (ruleOf o t line = none ∧ p' = p) ∨
      ∃ rule targets, ruleOf o t line = some rule ∧ (∀ l, l ∈ targets ↔ selects t rule l = true) ∧
        p' = if targets = [] then
            if rule.ignoreErrors then p
            else p.fail (line.place ++ "no matching sysctl path for ".toList ++ rule.key)
          else targets.foldl (applyTarget o t rule line.place) p := by
  unfold applyLine at h
  unfold ruleOf
  cases hparse : parseRule t.debug line.text with
  | error error =>
    rw [hparse] at h
    cases h
  | ok parsed =>
    rw [hparse] at h
    cases parsed with
    | none => exact .inl ⟨rfl, (Except.ok.inj h).symm⟩
    | some rule =>
      dsimp only at h ⊢
      by_cases hwants : o.wants rule = true
      · rw [if_neg (by simp [hwants])] at h
        rw [if_pos hwants]
        cases htargets : expandRule o t rule.key with
        | error error =>
          rw [htargets] at h
          cases h
        | ok targets =>
          rw [htargets] at h
          dsimp only at h
          refine .inr ⟨rule, targets, rfl, fun l => mem_expandRule htargets, ?_⟩
          by_cases hempty : targets = []
          · rw [if_pos hempty] at h ⊢
            exact (Except.ok.inj h).symm
          · rw [if_neg hempty] at h ⊢
            exact (Except.ok.inj h).symm
      · rw [if_pos (by simp [hwants])] at h
        rw [if_neg hwants]
        exact .inl ⟨rfl, (Except.ok.inj h).symm⟩

theorem lastText_singleton :
    lastText t [rule] l = if sets t l rule then some rule.text else none := by
  rw [lastText]
  by_cases h : sets t l rule = true
  · rw [if_pos h, List.filter_cons_of_pos h]
    rfl
  · rw [if_neg h, List.filter_cons_of_neg h]
    rfl

theorem lastText_append (rules more : List Rule) (l : Location) :
    lastText t (rules ++ more) l = (lastText t more l).or (lastText t rules l) := by
  rw [lastText, List.filter_append, List.getLast?_append, Option.map_or]
  rfl

theorem applyLine_values (hdry : o.dryRun = false) (h : applyLine o t p line = .ok p') :
    p'.values l = (lastText t (ruleOf o t line).toList l).getD (p.values l) := by
  obtain ⟨hnone, rfl⟩ | ⟨rule, targets, hrule, htargets, rfl⟩ := applyLine_ok h
  · rw [hnone]
    rfl
  · rw [hrule, Option.toList_some, lastText_singleton]
    by_cases hempty : targets = []
    · have hsets : sets t l rule = false := by
        rw [sets, Bool.and_eq_false_iff, ← Bool.not_eq_true, ← htargets, hempty]
        exact .inl List.not_mem_nil
      rw [if_pos hempty, hsets, if_neg Bool.false_ne_true]
      cases rule.ignoreErrors <;> rfl
    · rw [if_neg hempty, applyTargets_values targets line.place hdry]
      by_cases hmem : l ∈ targets ∧ (t.rejects l rule.text).isNone = true
      · rw [if_pos hmem, if_pos (by rw [sets, (htargets l).mp hmem.1, hmem.2]; rfl)]
        rfl
      · rw [if_neg hmem, if_neg (by rwa [sets, Bool.and_eq_true, ← htargets])]
        rfl

theorem applyLine_dry (hdry : o.dryRun = true) (h : applyLine o t p line = .ok p') :
    p'.values = p.values := by
  obtain ⟨-, rfl⟩ | ⟨rule, targets, -, -, rfl⟩ := applyLine_ok h
  · rfl
  · by_cases hempty : targets = []
    · rw [if_pos hempty]
      cases rule.ignoreErrors <;> rfl
    · rw [if_neg hempty, (applyTargets_dry targets line.place hdry).1]

theorem applyTarget_failures {target : Location} {place : Str} :
    (applyTarget o t rule place p target).failures = [] ↔
      p.failures = [] ∧ (rule.ignoreErrors = true ∨ o.dryRun = true ∨
        t.rejects target rule.text = none) := by
  have htext : rule.value ++ ['\n'] = rule.text := rfl
  rw [applyTarget, htext]
  by_cases hdry : o.dryRun = true
  · rw [if_pos hdry]
    simp [hdry]
  · rw [if_neg hdry]
    cases hrejects : t.rejects target rule.text with
    | none => simp
    | some error =>
      by_cases hignore : rule.ignoreErrors = true
      · simp [hignore]
      · simp [hignore, hdry, Progress.fail]

theorem applyTargets_failures (targets : List Location) (place : Str) :
    (targets.foldl (applyTarget o t rule place) p).failures = [] ↔
      p.failures = [] ∧ ∀ target ∈ targets, rule.ignoreErrors = true ∨ o.dryRun = true ∨
        t.rejects target rule.text = none := by
  induction targets generalizing p with
  | nil => simp
  | cons target targets ih =>
    rw [List.foldl_cons, ih, applyTarget_failures, List.forall_mem_cons, and_assoc]

theorem applyLine_failures (h : applyLine o t p line = .ok p') :
    p'.failures = [] ↔ p.failures = [] ∧ ∀ rule ∈ ruleOf o t line, Followed o t rule := by
  obtain ⟨hnone, rfl⟩ | ⟨rule, targets, hrule, htargets, rfl⟩ := applyLine_ok h
  · simp [hnone]
  · have hall : (∀ found ∈ ruleOf o t line, Followed o t found) ↔ Followed o t rule := by
      simp [hrule]
    rw [hall, Followed]
    by_cases hignore : rule.ignoreErrors = true
    · by_cases hempty : targets = []
      · simp [hempty, hignore]
      · simp [hempty, hignore, applyTargets_failures]
    · by_cases hempty : targets = []
      · have hnone (l : Location) : ¬ selects t rule l = true := by
          rw [← htargets, hempty]
          exact List.not_mem_nil
        simp [hempty, hignore, hnone, Progress.fail]
      · have hsome : ∃ l, selects t rule l = true := by
          obtain ⟨l, hl⟩ := List.exists_mem_of_ne_nil targets hempty
          exact ⟨l, (htargets l).mp hl⟩
        simp only [hempty, if_false, applyTargets_failures, hignore, htargets, hsome, true_and,
          Bool.false_eq_true, false_or, ← forall_or_left]

theorem readable_iff : readable o t line = true ↔ ∃ p', applyLine o t p line = .ok p' := by
  unfold readable applyLine
  cases parseRule t.debug line.text with
  | error error => simp
  | ok parsed =>
    cases parsed with
    | none => simp
    | some rule =>
      dsimp only
      by_cases hwants : o.wants rule = true
      · rw [hwants, if_neg (by decide), Bool.not_true, Bool.false_or]
        cases expandRule o t rule.key with
        | error error => simp [Except.isOk, Except.toBool]
        | ok targets =>
          dsimp only
          split <;> simp [Except.isOk, Except.toBool]
      · simp [hwants]

theorem rulesOf_cons : rulesOf o t (line :: lines) = (ruleOf o t line).toList ++ rulesOf o t lines := by
  rw [rulesOf, rulesOf, List.filterMap_cons]
  cases ruleOf o t line <;> rfl

/-- What a run has set the files to when it ends, with an error or without one. -/
theorem applyLines_values (hdry : o.dryRun = false) : (applyLines o t lines p).1.values l =
    (lastText t (rulesOf o t (readLines o t lines)) l).getD (p.values l) := by
  induction lines generalizing p with
  | nil => rfl
  | cons line lines ih =>
    rw [applyLines, readLines, List.takeWhile_cons]
    cases hline : applyLine o t p line with
    | error error =>
      have hread : ¬ readable o t line = true := by
        rw [readable_iff, hline]
        rintro ⟨_, ⟨⟩⟩
      rw [if_neg hread]
      rfl
    | ok q =>
      rw [if_pos (readable_iff.mpr ⟨q, hline⟩), rulesOf_cons, lastText_append]
      dsimp only
      rw [ih, applyLine_values hdry hline, readLines]
      cases lastText t (rulesOf o t (lines.takeWhile (readable o t))) l <;> rfl

theorem applyLines_dry (hdry : o.dryRun = true) : (applyLines o t lines p).1.values = p.values := by
  induction lines generalizing p with
  | nil => rfl
  | cons line lines ih =>
    rw [applyLines]
    cases hline : applyLine o t p line with
    | error error => rfl
    | ok q => exact ih.trans (applyLine_dry hdry hline)

theorem applyLines_ok_iff : (applyLines o t lines p).2 = .ok () ↔
    ∀ line ∈ lines, readable o t line = true := by
  induction lines generalizing p with
  | nil => simp [applyLines]
  | cons line lines ih =>
    rw [applyLines, List.forall_mem_cons, readable_iff]
    cases hline : applyLine o t p line with
    | error error => simp
    | ok q =>
      rw [← ih (p := q)]
      simp

theorem applyLines_failures (h : ∀ line ∈ lines, readable o t line = true) :
    (applyLines o t lines p).1.failures = [] ↔
      p.failures = [] ∧ ∀ rule ∈ rulesOf o t lines, Followed o t rule := by
  induction lines generalizing p with
  | nil => simp [applyLines, rulesOf]
  | cons line lines ih =>
    obtain ⟨q, hline⟩ := readable_iff.mp (h line List.mem_cons_self)
    rw [applyLines, hline, rulesOf_cons]
    dsimp only
    rw [ih fun line hmem => h line (List.mem_cons_of_mem _ hmem), applyLine_failures hline,
      List.forall_mem_append, and_assoc]
    simp only [Option.mem_toList, Option.mem_def]

theorem applySources_progress (sources : List (Str × Str)) (values : Location → Str) :
    (applySources o t sources values).1 = (applyLines o t (linesOf sources) { values }).1 := by
  unfold applySources
  split
  · simp [*]
  · split <;> simp [*]

end

section

variable (o : Options) (t : System)

/-- Applying sources leaves every file at the last value that a rule of them gives it and that it
takes, and at what it was if there is none. Only the lines before one that ends the run count, and
a dry run changes nothing. -/
theorem applySources_values (sources : List (Str × Str)) (values : Location → Str) (l : Location) :
    (applySources o t sources values).1.values l =
      if o.dryRun then values l
      else (lastText t (rulesOf o t (readLines o t (linesOf sources))) l).getD (values l) := by
  rw [applySources_progress]
  cases hdry : o.dryRun with
  | true => exact congrFun (applyLines_dry hdry) l
  | false => exact applyLines_values hdry

example : (applySources ⟨"/proc/sys".toList, [], false, false⟩
    (System.below [["net".toList, "lo".toList, "mtu".toList], ["kernel".toList, "panic".toList]]
      (fun _ _ => none) (fun _ => []) id)
    [("a.conf".toList, "net.*.mtu = 1\n-kernel/missing = 2\nnet/lo/mtu = \"3\"\n".toList)]
    fun _ => []).1.values ["net".toList, "lo".toList, "mtu".toList] = "3\n".toList := by
  decide

/-- Applying sources succeeds exactly if each line of them can be read and, where this is strict,
each rule is followed. -/
theorem applySources_ok_iff (sources : List (Str × Str)) (values : Location → Str) :
    (applySources o t sources values).2 = .ok () ↔
      (∀ line ∈ linesOf sources, readable o t line = true) ∧
        (o.strict = true → ∀ rule ∈ rulesOf o t (linesOf sources), Followed o t rule) := by
  by_cases hread : ∀ line ∈ linesOf sources, readable o t line = true
  · have hok := (applyLines_ok_iff (p := { values })).mpr hread
    have hfailures := applyLines_failures (p := { values }) hread
    rw [applySources]
    generalize applyLines o t (linesOf sources) { values } = run at hok hfailures ⊢
    obtain ⟨p, result⟩ := run
    obtain rfl : result = .ok () := hok
    dsimp only at hfailures ⊢
    simp only [true_and] at hfailures
    rw [← hfailures]
    split_ifs with hstrict
    · simp [hstrict.1, hstrict.2]
    · exact ⟨fun _ => ⟨hread, by simpa using hstrict⟩, fun _ => rfl⟩
  · have herror := mt (applyLines_ok_iff (p := { values })).mp hread
    rw [applySources]
    generalize applyLines o t (linesOf sources) { values } = run at herror ⊢
    obtain ⟨p, result⟩ := run
    cases result with
    | error error => simp [hread]
    | ok result => exact absurd rfl herror

end

end FractalD.Sysctl.Apply
