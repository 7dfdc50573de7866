import FractalD.Config.Words
import FractalD.Machine.OrderedMap
import FractalD.Machine.Result
import Mathlib.Data.Fintype.EquivFin

namespace FractalD.Config.SyscallFilter

open FractalD.Config.Words FractalD.Machine.CString FractalD.Machine.OrderedMap
  FractalD.Machine.Result FractalD.Machine.Text

structure Directive where
  sectionName : Str
  key : Str
  value : Str
  line : Nat
  deriving DecidableEq, Repr

/-- The directives of each section. -/
structure NativeFile where
  sections : BTreeMap Str (List Directive)

def resetKeys : List (Str × Str) :=
  (["exec", "exec_pre", "exec_post", "exec_stop_post", "exec_condition", "environment",
      "environment_file", "unset_environment", "success_exit_status",
      "restart_prevent_exit_status", "bus_name"].map fun key =>
    ("service".toList, key.toList)) ++
  (["requires", "wants", "after", "before", "conflicts", "part_of", "binds_to", "requisite",
      "on_success", "on_failure", "requires_mount", "wants_mount"].map fun key =>
    ("dependencies".toList, key.toList)) ++
  (["file", "value", "store", "import"].map fun key => ("credentials".toList, key.toList))

def isResetKey (sectionName key : Str) : Bool := (lowercase sectionName, lowercase key) ∈ resetKeys

namespace NativeFile

variable (file : NativeFile) (sectionName key : Str)

def directives : List Directive :=
  ((file.sections.get (lowercase sectionName)).getD []).filter (·.key = lowercase key)

def effectiveDirectives : List Directive :=
  (file.directives sectionName key).foldl (fun effective directive =>
    if directive.value = [] ∧ isResetKey sectionName key then [] else effective ++ [directive]) []

def push (directive : Directive) : NativeFile :=
  ⟨file.sections.insert directive.sectionName
    ((file.sections.get directive.sectionName).getD [] ++ [directive])⟩

end NativeFile

inductive SystemCallRuleAction
  | allow
  | deny
  | denyWithErrno (errno : Int)
  deriving DecidableEq, Repr

structure SystemCallRule where
  name : Str
  action : SystemCallRuleAction
  deriving DecidableEq, Repr

structure SystemCallFilter where
  defaultAllow : Bool
  rules : List SystemCallRule
  deriving DecidableEq, Repr

abbrev Rules := BTreeMap Str SystemCallRuleAction

/-- A word of a list: a call or a group, and the error that it fails with. -/
def parseEntry (word : Str) : Except ConfigError (Str × Option Int) :=
  match splitOnce ':' word with
  | some (name, errno) => (parseErrno errno "syscall_filter".toList).map fun n => (name, some n)
  | none => .ok (word, none)

def actionOf (deny : Bool) (errno : Option Int) : SystemCallRuleAction :=
  if deny then errno.elim .deny .denyWithErrno else .allow

section

/- The groups of system calls are a table of names. -/
variable (expandGroup : Str → Option (List Str))

def addWord (deny : Bool) (line : Nat) (rules : Rules) (word : Str) : Except ConfigError Rules := do
  let (name, errno) ← parseEntry word
  if name = [] then throw (.atLine line "syscall_filter has an empty name")
  else
    let names := (expandGroup name).getD [name]
    pure (names.foldl (·.insert · (actionOf deny errno)) rules)

/-- Add a list to those before it. The kind of the last list decides on the calls
that none of them names. -/
def addDirective (directive : Directive) (rules : Rules) : Except ConfigError (Bool × Rules) := do
  match ← splitWords directive.value directive.line with
  | [] => throw (.atLine directive.line "syscall_filter is empty")
  | first :: rest =>
    let deny := first.head? = some '!'
    let words := (if deny then first.tail else first) :: rest
    let rules ← words.foldlM (addWord expandGroup deny directive.line) rules
    pure (deny, rules)

def parseDirectives (directives : List Directive) : Except ConfigError (Bool × Rules) :=
  directives.foldlM (fun (_, rules) directive => addDirective expandGroup directive rules)
    (true, empty)

def parseSyscallFilter (file : NativeFile) : Except ConfigError (Option SystemCallFilter) := do
  let directives := file.effectiveDirectives "security".toList "syscall_filter".toList
  if directives = [] then pure none
  else
    let (defaultAllow, rules) ← parseDirectives expandGroup directives
    pure (some ⟨defaultAllow, rules.entries.map fun e => ⟨e.1, e.2⟩⟩)

end

def SystemCallFilter.Allows (f : SystemCallFilter) (name : Str) : Prop :=
  ⟨name, .allow⟩ ∈ f.rules ∨ f.defaultAllow ∧ ∀ rule ∈ f.rules, rule.name ≠ name

instance (f : SystemCallFilter) (name : Str) : Decidable (f.Allows name) :=
  inferInstanceAs (Decidable (_ ∨ _))

/-- A directive is a list of calls to deny. -/
def Denies (directive : Directive) : Prop :=
  ∃ first rest, splitWords directive.value directive.line = .ok (first :: rest) ∧
    first.head? = some '!'

/-- Rules stay as they are or are replaced, in a list of calls to deny not by rules
that allow. -/
def Replaces (deny : Bool) (rules rules' : Rules) : Prop :=
  ∀ name, rules'.get name = rules.get name ∨
    ∃ action, rules'.get name = some action ∧ (deny → action ≠ .allow)

section

variable {expandGroup : Str → Option (List Str)} {deny : Bool} {line : Nat}
  {rules rules' rules'' : Rules} {directive : Directive} {directives : List Directive}

theorem replaces_refl : Replaces deny rules rules := fun _ => .inl rfl

theorem replaces_trans (h : Replaces deny rules rules') (h' : Replaces deny rules' rules'') :
    Replaces deny rules rules'' := by
  intro name
  obtain heq | hnew := h' name
  · rw [heq]
    exact h name
  · exact .inr hnew

theorem get_of_replaces {name : Str} (h : Replaces deny rules rules') (hd : deny)
    (hname : rules'.get name = none ∨ rules'.get name = some .allow) :
    rules'.get name = rules.get name := by
  obtain heq | ⟨action, hnew, hallow⟩ := h name
  · exact heq
  · rw [hnew] at hname
    obtain hname | hname := hname
    · cases hname
    · exact absurd (Option.some.inj hname) (hallow hd)

theorem replaces_insert {names : List Str} {action : SystemCallRuleAction}
    (h : deny → action ≠ .allow) :
    Replaces deny rules (names.foldl (·.insert · action) rules) := by
  induction names generalizing rules with
  | nil => exact replaces_refl
  | cons name names ih =>
    refine replaces_trans (fun name' => ?_) ih
    rw [get_insert]
    by_cases he : name' = name
    · exact .inr ⟨action, if_pos he, h⟩
    · exact .inl (if_neg he)

theorem actionOf_deny (errno : Option Int) : actionOf true errno ≠ .allow := by
  cases errno <;> simp [actionOf]

theorem addWord_replaces {word : Str}
    (h : addWord expandGroup deny line rules word = .ok rules') : Replaces deny rules rules' := by
  obtain ⟨⟨name, errno⟩, -, h⟩ := bind_eq_ok.mp h
  dsimp only at h
  by_cases hn : name = []
  · rw [if_pos hn] at h
    exact (throw_ne_ok.mp h).elim
  · rw [if_neg hn] at h
    rw [← pure_eq_ok.mp h]
    refine replaces_insert fun hd => ?_
    rw [hd]
    exact actionOf_deny errno

theorem addWords_replaces {words : List Str}
    (h : words.foldlM (addWord expandGroup deny line) rules = .ok rules') :
    Replaces deny rules rules' := by
  induction words generalizing rules with
  | nil =>
    rw [← pure_eq_ok.mp h]
    exact replaces_refl
  | cons word words ih =>
    rw [List.foldlM_cons] at h
    obtain ⟨added, hword, h⟩ := bind_eq_ok.mp h
    exact replaces_trans (addWord_replaces hword) (ih h)

theorem addDirective_ok (h : addDirective expandGroup directive rules = .ok (deny, rules')) :
    (deny = true ↔ Denies directive) ∧ Replaces deny rules rules' := by
  obtain ⟨words, hsplit, h⟩ := bind_eq_ok.mp h
  match words with
  | [] => exact (throw_ne_ok.mp h).elim
  | first :: rest =>
    obtain ⟨added, hwords, h⟩ := bind_eq_ok.mp h
    obtain ⟨hdeny, rfl⟩ := Prod.mk.inj (pure_eq_ok.mp h)
    refine ⟨?_, ?_⟩
    · rw [← hdeny, decide_eq_true_iff]
      refine ⟨fun hhead => ⟨first, rest, hsplit, hhead⟩, fun ⟨first', rest', hsplit', hhead⟩ => ?_⟩
      rw [hsplit] at hsplit'
      cases hsplit'
      exact hhead
    · rw [hdeny] at hwords
      exact addWords_replaces hwords

theorem parseDirectives_concat {result : Bool × Rules} :
    parseDirectives expandGroup (directives ++ [directive]) = .ok result ↔
      ∃ before, parseDirectives expandGroup directives = .ok before ∧
        addDirective expandGroup directive before.2 = .ok result := by
  simp [parseDirectives, bind_eq_ok]

/-- The last list decides on the calls that no list names. -/
theorem denies_getLast (h : parseDirectives expandGroup directives = .ok (deny, rules))
    (hne : directives ≠ []) :
    deny ↔ ∃ last, directives.getLast? = some last ∧ Denies last := by
  obtain ⟨before, last, rfl⟩ := (List.eq_nil_or_concat directives).resolve_left hne
  rw [List.concat_eq_append] at h
  obtain ⟨_, -, hadd⟩ := parseDirectives_concat.mp h
  rw [(addDirective_ok hadd).1]
  simp

theorem directives_push {file : NativeFile} {sectionName key : Str}
    (hs : lowercase sectionName = directive.sectionName) (hk : lowercase key = directive.key) :
    (file.push directive).directives sectionName key =
      file.directives sectionName key ++ [directive] := by
  rw [NativeFile.directives, NativeFile.directives, NativeFile.push, hs, hk, get_insert_self]
  simp

theorem effectiveDirectives_push {file : NativeFile} {sectionName key : Str}
    (hs : lowercase sectionName = directive.sectionName) (hk : lowercase key = directive.key)
    (hreset : ¬ isResetKey sectionName key) :
    (file.push directive).effectiveDirectives sectionName key =
      file.effectiveDirectives sectionName key ++ [directive] := by
  rw [NativeFile.effectiveDirectives, directives_push hs hk, List.foldl_append, List.foldl_cons,
    List.foldl_nil, if_neg fun h => hreset h.2, NativeFile.effectiveDirectives]

theorem parse_ok {file : NativeFile} {f : SystemCallFilter}
    (h : parseSyscallFilter expandGroup file = .ok (some f)) :
    file.effectiveDirectives "security".toList "syscall_filter".toList ≠ [] ∧
      ∃ deny rules, parseDirectives expandGroup
          (file.effectiveDirectives "security".toList "syscall_filter".toList) = .ok (deny, rules) ∧
        f = ⟨deny, rules.entries.map fun e => ⟨e.1, e.2⟩⟩ := by
  rw [parseSyscallFilter] at h
  dsimp only at h
  by_cases hnil : file.effectiveDirectives "security".toList "syscall_filter".toList = []
  · rw [if_pos hnil] at h
    cases pure_eq_ok.mp h
  · rw [if_neg hnil] at h
    obtain ⟨⟨deny, rules⟩, hparse, h⟩ := bind_eq_ok.mp h
    exact ⟨hnil, deny, rules, hparse, (Option.some.inj (pure_eq_ok.mp h)).symm⟩

theorem allows_iff {name : Str} :
    SystemCallFilter.Allows ⟨deny, rules.entries.map fun e => ⟨e.1, e.2⟩⟩ name ↔
      rules.get name = some .allow ∨ deny ∧ rules.get name = none := by
  refine or_congr ?_ (and_congr_right fun _ => ?_)
  · rw [get_eq_some, List.mem_map]
    refine ⟨fun ⟨e, he, heq⟩ => ?_, fun he => ⟨_, he, rfl⟩⟩
    obtain ⟨rfl, hallow⟩ := SystemCallRule.mk.inj heq
    exact hallow ▸ he
  · rw [Option.eq_none_iff_forall_ne_some]
    refine ⟨fun h action hget => ?_, fun h rule hrule heq => ?_⟩
    · exact h _ (List.mem_map.mpr ⟨_, get_eq_some.mp hget, rfl⟩) rfl
    · obtain ⟨e, he, rfl⟩ := List.mem_map.mp hrule
      exact h e.2 (get_eq_some.mpr (heq ▸ he))

theorem exists_unlisted (rules : Rules) : ∃ name, rules.get name = none := by
  obtain ⟨name, hname⟩ := Infinite.exists_notMem_finset rules.keys.toFinset
  refine ⟨name, ?_⟩
  rw [List.mem_toFinset, mem_keys, BTreeMap.contains] at hname
  simpa using hname

/-- A list of calls to deny takes calls away exactly when the calls that no list names
were allowed. -/
theorem narrows_iff {deny : Bool} (h : Replaces true rules rules') :
    (∀ name, rules'.get name = some .allow ∨ rules'.get name = none →
      rules.get name = some .allow ∨ deny ∧ rules.get name = none) ↔ deny := by
  refine ⟨fun hnarrows => ?_, fun hdeny name hname => ?_⟩
  · obtain ⟨name, hname⟩ := exists_unlisted rules'
    have hsame := get_of_replaces h rfl (.inl hname)
    obtain hallow | ⟨hdeny, -⟩ := hnarrows name (.inr hname)
    · rw [← hsame, hname] at hallow
      cases hallow
    · exact hdeny
  · rw [← get_of_replaces h rfl hname.symm]
    exact hname.imp_right fun hnone => ⟨hdeny, hnone⟩

end

/-- One more list of calls to deny allows no new call exactly when the list before it is
a list of calls to deny too: a list of calls to allow denies all others, until the next
list. -/
theorem deny_narrows_iff (expandGroup : Str → Option (List Str)) (file : NativeFile)
    (directive : Directive) (hs : directive.sectionName = "security".toList)
    (hk : directive.key = "syscall_filter".toList) (hd : Denies directive)
    (f f' : SystemCallFilter) (hf : parseSyscallFilter expandGroup file = .ok (some f))
    (hf' : parseSyscallFilter expandGroup (file.push directive) = .ok (some f')) :
    (∀ name, f'.Allows name → f.Allows name) ↔
      ∃ last, (file.effectiveDirectives "security".toList "syscall_filter".toList).getLast? =
        some last ∧ Denies last := by
  obtain ⟨hne, deny, rules, hparse, rfl⟩ := parse_ok hf
  obtain ⟨-, deny', rules', hparse', rfl⟩ := parse_ok hf'
  rw [effectiveDirectives_push (by rw [hs]; decide) (by rw [hk]; decide) (by decide)] at hparse'
  obtain ⟨before, hbefore, hadd⟩ := parseDirectives_concat.mp hparse'
  rw [hparse] at hbefore
  cases hbefore
  obtain ⟨hdeny, hreplaces⟩ := addDirective_ok hadd
  obtain rfl := hdeny.mpr hd
  rw [← denies_getLast hparse hne, ← narrows_iff hreplaces]
  simp only [allows_iff, true_and]

def onlyList (value : String) : NativeFile :=
  (⟨empty⟩ : NativeFile).push ⟨"security".toList, "syscall_filter".toList, value.toList, 2⟩

def denyPtrace : Directive :=
  ⟨"security".toList, "syscall_filter".toList, "!ptrace".toList, 3⟩

theorem denyPtrace_denies : Denies denyPtrace :=
  ⟨"!ptrace".toList, [], by decide +kernel, by decide⟩

/-- Two calls are allowed, and once `ptrace` is denied `mount` is allowed too. -/
theorem mount_allowed_again :
    parseSyscallFilter (fun _ => none) (onlyList "read write") =
        .ok (some ⟨false, [⟨"read".toList, .allow⟩, ⟨"write".toList, .allow⟩]⟩) ∧
      Denies denyPtrace ∧
      parseSyscallFilter (fun _ => none) ((onlyList "read write").push denyPtrace) =
        .ok (some ⟨true, [⟨"ptrace".toList, .deny⟩, ⟨"read".toList, .allow⟩,
          ⟨"write".toList, .allow⟩]⟩) ∧
      ¬ ∀ name,
        SystemCallFilter.Allows ⟨true, [⟨"ptrace".toList, .deny⟩, ⟨"read".toList, .allow⟩,
          ⟨"write".toList, .allow⟩]⟩ name →
        SystemCallFilter.Allows ⟨false, [⟨"read".toList, .allow⟩, ⟨"write".toList, .allow⟩]⟩
          name := by
  refine ⟨by decide +kernel, denyPtrace_denies, by decide +kernel, fun h => ?_⟩
  exact absurd (h "mount".toList (by decide)) (by decide)

theorem deny_after_deny_narrows :
    Denies denyPtrace ∧ ∀ name,
      SystemCallFilter.Allows ⟨true, [⟨"mount".toList, .deny⟩, ⟨"ptrace".toList, .deny⟩]⟩ name →
        SystemCallFilter.Allows ⟨true, [⟨"mount".toList, .deny⟩]⟩ name :=
  ⟨denyPtrace_denies,
    (deny_narrows_iff (fun _ => none) (onlyList "!mount") denyPtrace (by decide) (by decide)
      denyPtrace_denies _ _ (by decide +kernel) (by decide +kernel)).mpr
      ⟨_, rfl, "!mount".toList, [], by decide +kernel, by decide⟩⟩

end FractalD.Config.SyscallFilter
