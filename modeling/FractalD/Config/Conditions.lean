import FractalD.Config.Native

namespace FractalD.Config.Conditions

open FractalD.Config.Native FractalD.Config.SyscallFilter FractalD.Config.Words
open FractalD.Machine.CString FractalD.Machine.Result FractalD.Machine.Text

/-- What a condition asks of the system. -/
inductive Question
  | pathExists (path : Str)
  | pathExistsGlob (pattern : Str)
  | directoryNotEmpty (path : Str)
  | fileIsExecutable (path : Str)
  | pathIsReadWrite (path : Str)
  | pathIsDirectory (path : Str)
  | fileNotEmpty (path : Str)
  | pathIsMountPoint (path : Str)
  | pathIsSymbolicLink (path : Str)
  | kernelCommandLine (argument : Str)
  | virtualization (value : Str)
  | security (value : Str)
  | acPower (onAcPower : Bool)
  | capability (capability : Str)
  | kernelModuleLoaded (module : Str)
  | firmware (value : Str)
  | firstBoot (firstBoot : Bool)
  | credential (credential : Str)
  | controlGroupController (controller : Str)
  | environment (name : Str) (value : Option Str)
  | needsUpdate (path : Str)
  deriving DecidableEq, Repr

/-- A condition of a service: a question that may be negated, or several conditions one of which
is enough. -/
inductive Condition
  | test (question : Question) (negate : Bool)
  | any (conditions : List Condition)

def parseBool (value key : Str) : Except ConfigError Bool :=
  let value := lowercase (trim value)
  if value ∈ ["y".toList, "yes".toList, "true".toList, "on".toList, "1".toList] then .ok true
  else if value ∈ ["n".toList, "no".toList, "false".toList, "off".toList, "0".toList] then .ok false
  else .error (.ofMessage ("invalid ".toList ++ key ++ '=' :: value))

def validEnvironmentName (value : Str) : Bool :=
  value.head?.any (fun c => c.isAlpha || c = '_') && value.tail.all fun c => c.isAlphanum || c = '_'

def parseEnvironmentCondition (value key : Str) : Except ConfigError (Str × Option Str) :=
  let parts := ((splitOnce '=' value).map fun parts => (parts.1, some parts.2)).getD (value, none)
  if !validEnvironmentName parts.1 then
    .error (.ofMessage ("invalid ".toList ++ key ++ " environment name ".toList ++ parts.1))
  else .ok parts

def parseNeedsUpdatePath (value key : Str) : Except ConfigError Str :=
  if value = "/etc".toList ∨ value = "/var".toList then .ok value
  else .error (.ofMessage (key ++ " must be /etc or /var".toList))

/-- The keys of a section in the order in which they are read, and what the value of each asks. -/
def questions : List (String × (Str → Str → Except ConfigError Question)) :=
  [("path_exists", fun value _ => .ok (.pathExists value)),
    ("path_exists_glob", fun value _ => .ok (.pathExistsGlob value)),
    ("directory_not_empty", fun value _ => .ok (.directoryNotEmpty value)),
    ("executable", fun value _ => .ok (.fileIsExecutable value)),
    ("read_write", fun value _ => .ok (.pathIsReadWrite value)),
    ("directory", fun value _ => .ok (.pathIsDirectory value)),
    ("file_not_empty", fun value _ => .ok (.fileNotEmpty value)),
    ("mount_point", fun value _ => .ok (.pathIsMountPoint value)),
    ("symlink", fun value _ => .ok (.pathIsSymbolicLink value)),
    ("kernel_command_line", fun value _ => .ok (.kernelCommandLine value)),
    ("virtualization", fun value _ => .ok (.virtualization value)),
    ("security", fun value _ => .ok (.security value)),
    ("ac_power", fun value key => (parseBool value key).map .acPower),
    ("capability", fun value _ => .ok (.capability value)),
    ("kernel_module", fun value _ => .ok (.kernelModuleLoaded value)),
    ("firmware", fun value _ => .ok (.firmware value)),
    ("first_boot", fun value key => (parseBool value key).map .firstBoot),
    ("credential", fun value _ => .ok (.credential value)),
    ("cgroup_controller", fun value _ => .ok (.controlGroupController value)),
    ("environment", fun value key =>
      (parseEnvironmentCondition value key).map fun parts => .environment parts.1 parts.2),
    ("needs_update", fun value key => (parseNeedsUpdatePath value key).map .needsUpdate)]

/-- The marks before a value: that it is an alternative, and that it is negated. -/
def conditionPrefix (alternative negate : Bool) : Str → Bool × Bool × Str
  | [] => (alternative, negate, [])
  | c :: value =>
    if c = '|' then conditionPrefix true negate value
    else if c = '!' then conditionPrefix alternative (!negate) value
    else (alternative, negate, c :: value)

def pushCondition (destination : List Condition) (condition : Condition) (alternative : Bool) :
    List Condition :=
  if !alternative then destination ++ [condition]
  else
    match destination.getLast? with
    | some (.any values) => destination.dropLast ++ [.any (values ++ [condition])]
    | some previous => destination.dropLast ++ [.any [previous, condition]]
    | none => [condition]

/-- A condition as it is written. -/
structure Clause where
  alternative : Bool
  negate : Bool
  question : Question
  deriving DecidableEq, Repr

section

variable (sectionName : Str) (key : Str) (question : Str → Str → Except ConfigError Question)

def parseClause (line : Nat) (raw : Str) : Except ConfigError Clause :=
  match conditionPrefix false false raw with
  | (alternative, negate, value) =>
    if value = [] then .error ⟨some line, sectionName ++ '.' :: key ++ " is empty".toList⟩
    else (question value key).map fun question => ⟨alternative, negate, question⟩

def pushWord (line : Nat) (destination : List Condition) (raw : Str) :
    Except ConfigError (List Condition) := do
  let clause ← parseClause sectionName key question line raw
  pure (pushCondition destination (.test clause.question clause.negate) clause.alternative)

def pushDirective (destination : List Condition) (directive : Directive) :
    Except ConfigError (List Condition) := do
  let words ← splitWords directive.value directive.line
  words.foldlM (pushWord sectionName key question directive.line) destination

end

/-- `parse_condition_section`. -/
def parseConditionSection (file : NativeFile) (sectionName : Str) (destination : List Condition) :
    Except ConfigError (List Condition) :=
  questions.foldlM (fun destination entry =>
    (file.effectiveDirectives sectionName entry.1.toList).foldlM
      (pushDirective sectionName entry.1.toList entry.2) destination) destination

section

/- The answers of the system. -/
variable (holds : Question → Bool)

mutual

def conditionMatches : Condition → Bool
  | .test question negate => if negate then !holds question else holds question
  | .any conditions => anyMatches conditions

def anyMatches : List Condition → Bool
  | [] => false
  | condition :: conditions => conditionMatches condition || anyMatches conditions

end

def conditionsMet (conditions : List Condition) : Bool := conditions.all (conditionMatches holds)

def Clause.Met (c : Clause) : Prop := holds c.question = !c.negate

end

def clausesOfDirective (sectionName key : Str) (question : Str → Str → Except ConfigError Question)
    (directive : Directive) : Except ConfigError (List Clause) := do
  let words ← splitWords directive.value directive.line
  words.mapM (parseClause sectionName key question directive.line)

def clausesOfKey (file : NativeFile) (sectionName : Str)
    (entry : String × (Str → Str → Except ConfigError Question)) :
    Except ConfigError (List Clause) :=
  ((file.effectiveDirectives sectionName entry.1.toList).mapM
    (clausesOfDirective sectionName entry.1.toList entry.2)).map List.flatten

/-- The clauses of a section in the order in which they are read. -/
def clausesOf (file : NativeFile) (sectionName : Str) : Except ConfigError (List Clause) :=
  (questions.mapM (clausesOfKey file sectionName)).map List.flatten

/-- The clauses with the alternatives to each that is none itself. -/
def groups : List Clause → List (List Clause)
  | [] => []
  | c :: clauses => (c :: clauses.takeWhile (·.alternative)) ::
      groups (clauses.dropWhile (·.alternative))
termination_by clauses => clauses.length
decreasing_by
  exact Nat.lt_succ_of_le (List.dropWhile_suffix _).length_le

/-- What has to be met for a service to start. -/
def Satisfied (holds : Question → Bool) (clauses : List Clause) : Prop :=
  ∀ group ∈ groups clauses, ∃ c ∈ group, c.Met holds

section

variable {holds : Question → Bool} {file : NativeFile} {sectionName key : Str}
  {question : Str → Str → Except ConfigError Question}

def Clause.condition (c : Clause) : Condition := .test c.question c.negate

def condense (c : Clause) (alternatives : List Clause) : Condition :=
  if alternatives = [] then c.condition else .any ((c :: alternatives).map Clause.condition)

def push (destination : List Condition) (c : Clause) : List Condition :=
  pushCondition destination c.condition c.alternative

theorem push_leader {c : Clause} (h : c.alternative = false) (destination : List Condition) :
    push destination c = destination ++ [c.condition] := by
  rw [push, pushCondition, h]
  rfl

theorem push_alternative {c : Clause} (h : c.alternative = true) (destination : List Condition)
    (leader : Clause) (alternatives : List Clause) :
    push (destination ++ [condense leader alternatives]) c =
      destination ++ [condense leader (alternatives ++ [c])] := by
  have hmore : alternatives ++ [c] ≠ [] := List.append_ne_nil_of_right_ne_nil _ (List.cons_ne_nil c [])
  rw [push, pushCondition, h, if_neg (by decide), List.getLast?_concat, List.dropLast_concat]
  unfold condense
  rw [if_neg hmore]
  by_cases hempty : alternatives = []
  · rw [if_pos hempty, hempty]
    rfl
  · rw [if_neg hempty]
    simp

/-- Clauses that follow one join it as long as they are alternatives. -/
theorem foldl_push (clauses : List Clause) (destination : List Condition) (leader : Clause)
    (alternatives : List Clause) :
    clauses.foldl push (destination ++ [condense leader alternatives]) =
      (clauses.dropWhile (·.alternative)).foldl push
        (destination ++ [condense leader (alternatives ++ clauses.takeWhile (·.alternative))]) := by
  induction clauses generalizing alternatives with
  | nil => simp
  | cons c clauses ih =>
    cases h : c.alternative with
    | true =>
      rw [List.foldl_cons, push_alternative h, ih, List.dropWhile_cons_of_pos h,
        List.takeWhile_cons_of_pos h, List.append_assoc]
      rfl
    | false =>
      have hneg : ¬ c.alternative = true := by simp [h]
      rw [List.dropWhile_cons_of_neg hneg, List.takeWhile_cons_of_neg hneg, List.append_nil]

theorem conditionsMet_append (destination more : List Condition) :
    conditionsMet holds (destination ++ more) =
      (conditionsMet holds destination && conditionsMet holds more) :=
  List.all_append

theorem clause_matches (c : Clause) : conditionMatches holds c.condition = true ↔ c.Met holds := by
  rw [Clause.condition, conditionMatches, Clause.Met]
  cases c.negate <;> cases holds c.question <;> decide

theorem anyMatches_iff (clauses : List Clause) :
    anyMatches holds (clauses.map Clause.condition) = true ↔ ∃ c ∈ clauses, c.Met holds := by
  induction clauses with
  | nil => simp [anyMatches]
  | cons c clauses ih =>
    rw [List.map_cons, anyMatches, Bool.or_eq_true, clause_matches, ih]
    simp

theorem condense_matches (c : Clause) (alternatives : List Clause) :
    conditionMatches holds (condense c alternatives) = true ↔
      ∃ d ∈ c :: alternatives, d.Met holds := by
  rw [condense]
  by_cases hempty : alternatives = []
  · rw [if_pos hempty, clause_matches, hempty]
    simp
  · rw [if_neg hempty, conditionMatches, anyMatches_iff]

/-- A clause that is no alternative, or has nothing before it, begins a condition. -/
theorem foldl_push_leader {c : Clause} {clauses : List Clause} {destination : List Condition}
    (h : push destination c = destination ++ [c.condition]) :
    (c :: clauses).foldl push destination =
      (clauses.dropWhile (·.alternative)).foldl push
        (destination ++ [condense c (clauses.takeWhile (·.alternative))]) := by
  have hsingle : c.condition = condense c [] := rfl
  rw [List.foldl_cons, h, hsingle, foldl_push, List.nil_append]

theorem foldl_push_met (clauses : List Clause) (destination : List Condition)
    (h : ∀ c ∈ clauses.head?, push destination c = destination ++ [c.condition]) :
    conditionsMet holds (clauses.foldl push destination) = true ↔
      conditionsMet holds destination = true ∧ Satisfied holds clauses := by
  fun_induction groups clauses generalizing destination with
  | case1 => simp [Satisfied, groups]
  | case2 c clauses ih =>
    have hnext : ∀ d ∈ (clauses.dropWhile (·.alternative)).head?, d.alternative = false := by
      intro d hd
      have hhead := List.head?_dropWhile_not (·.alternative) clauses
      rw [Option.mem_def.mp hd] at hhead
      simpa using hhead
    rw [foldl_push_leader (h c rfl), ih _ fun d hd => push_leader (hnext d hd) _,
      conditionsMet_append, Bool.and_eq_true, Satisfied, Satisfied, groups, List.forall_mem_cons]
    have hcondense : conditionsMet holds [condense c (clauses.takeWhile (·.alternative))] = true ↔
        ∃ d ∈ c :: clauses.takeWhile (·.alternative), d.Met holds := by
      rw [← condense_matches, conditionsMet, List.all_cons, List.all_nil, Bool.and_true]
    rw [hcondense, and_assoc]

theorem pushWord_eq (line : Nat) (destination : List Condition) (raw : Str) :
    pushWord sectionName key question line destination raw =
      (parseClause sectionName key question line raw).map (push destination) := by
  rw [pushWord]
  cases parseClause sectionName key question line raw <;> rfl

theorem pushDirective_eq (destination : List Condition) (directive : Directive) :
    pushDirective sectionName key question destination directive =
      (clausesOfDirective sectionName key question directive).map (List.foldl push destination) := by
  rw [pushDirective, clausesOfDirective]
  cases splitWords directive.value directive.line with
  | error e => rfl
  | ok words => exact foldlM_map (pushWord_eq directive.line) words destination

/-- Reading a section is reading its clauses and pushing one after the other. -/
theorem parseConditionSection_eq (destination : List Condition) :
    parseConditionSection file sectionName destination =
      (clausesOf file sectionName).map (List.foldl push destination) := by
  refine foldlM_flatten (f := clausesOfKey file sectionName) ?_ questions destination
  intro destination entry
  exact foldlM_flatten pushDirective_eq _ destination

end

/-- A section that is read is met if and only if one clause of each group is, where an alternative
joins the clause before it in the order of the keys. -/
theorem section_met_iff (holds : Question → Bool) (file : NativeFile) (sectionName : Str)
    (conditions : List Condition) (h : parseConditionSection file sectionName [] = .ok conditions) :
    ∃ clauses, clausesOf file sectionName = .ok clauses ∧
      (conditionsMet holds conditions = true ↔ Satisfied holds clauses) := by
  rw [parseConditionSection_eq] at h
  obtain ⟨clauses, hclauses, rfl⟩ := map_eq_ok.mp h
  refine ⟨clauses, hclauses, (foldl_push_met clauses [] ?_).trans (and_iff_right rfl)⟩
  intro c _
  rw [push, pushCondition]
  cases c.alternative <;> rfl

/-- A service that wants one of two paths to be as they say. -/
def eitherPath : NativeFile :=
  NativeFile.push ⟨Machine.OrderedMap.empty⟩ ⟨"conditions".toList, "path_exists".toList, "/a |!/b".toList, 2⟩

theorem clausesOf_eitherPath : clausesOf eitherPath "conditions".toList =
    .ok [⟨false, false, .pathExists "/a".toList⟩, ⟨true, true, .pathExists "/b".toList⟩] := by
  decide +kernel

theorem section_met_iff_eitherPath :
    ∃ clauses, clausesOf eitherPath "conditions".toList = .ok clauses ∧
      (conditionsMet (· = .pathExists "/a".toList) [.any [.test (.pathExists "/a".toList) false,
        .test (.pathExists "/b".toList) true]] = true ↔
          Satisfied (· = .pathExists "/a".toList) clauses) := by
  apply section_met_iff (· = .pathExists "/a".toList) eitherPath "conditions".toList
  rw [parseConditionSection_eq, clausesOf_eitherPath]
  rfl

end FractalD.Config.Conditions
