import FractalD.Config.Words
import FractalD.Machine.Result
import FractalD.Machine.Scan
import FractalD.Machine.Wire
import FractalD.Supervisor.System

namespace FractalD.Supervisor.Expansion

open FractalD.Core.Spec FractalD.Machine.CString FractalD.Machine.OrderedMap FractalD.Machine.Scan
open FractalD.Machine.Text

/-- The variables of a service. -/
abbrev Environment := BTreeMap Str Str

/-- What the supervisor finds around it: its own variables, and the files that it can read. -/
structure Surroundings where
  varOs : Str → Option Str
  effectiveUid : Nat
  contents : Str → Option Str

def mainPidName : Str := "MAINPID".toList

def expandMainPid (argument : Str) (pid : Nat) : Str :=
  replace "$MAINPID".toList (printUnsigned pid)
    (replace "${MAINPID}".toList (printUnsigned pid) argument)

def startsName (c : Char) : Bool := c.isAlpha || c = '_'

def continuesName (c : Char) : Bool := c.isAlphanum || c = '_'

def valueOf (around : Surroundings) (environment : Environment) (name : Str) : Str :=
  ((environment.get name).or (around.varOs name)).getD []

/-- What is put out for a dollar sign, and how many characters after it are read for it. -/
def expandDollar (value : Str → Str) (rest : Str) : Str × Nat :=
  match rest with
  | '$' :: _ => (['$'], 1)
  | '{' :: rest =>
    let name := rest.takeWhile (· ≠ '}')
    if name = rest then (['$'], 0) else (value name, name.length + 2)
  | start :: rest =>
    if startsName start then
      let name := start :: rest.takeWhile continuesName
      (value name, name.length)
    else (['$'], 0)
  | [] => (['$'], 0)

def environmentStep (value : Str → Str) (c : Char) (rest : Str) : Str × Nat :=
  if c = '$' then expandDollar value rest else ([c], 0)

def expandEnvironment (around : Surroundings) (argument : Str) (environment : Environment) : Str :=
  scan (environmentStep (valueOf around environment)) 0 argument

/-- `Path::join` for an entry, on texts. -/
def under (directory name : Str) : Str :=
  if name.head? = some '/' then name
  else if directory = [] ∨ directory.getLast? = some '/' then directory ++ name
  else directory ++ '/' :: name

def credentialRoot (around : Surroundings) : Option Str :=
  let root := (around.varOs "FRACTALD_CREDENTIALS_ROOT".toList).getD
    (if around.effectiveUid = 0 then "/run/credentials".toList
    else under ((around.varOs "XDG_RUNTIME_DIR".toList).getD
      ("/tmp/fractald-runtime-".toList ++ printUnsigned around.effectiveUid))
      "fractald/credentials".toList)
  if root = [] then none else some root

def credentialDirectoryPath (around : Surroundings) (spec : ServiceSpec) : Option Str :=
  (credentialRoot around).map (under · spec.name)

def directories (around : Surroundings) : Directories where
  runtime := ((around.varOs "FRACTALD_RUNTIME_DIR".toList).or
    (around.varOs "XDG_RUNTIME_DIR".toList)).getD "/run".toList
  state := ((around.varOs "FRACTALD_STATE_DIR".toList).or
    (around.varOs "XDG_STATE_HOME".toList)).getD "/var/lib/fractald".toList
  home := (around.varOs "HOME".toList).getD "/root".toList

def serviceSpecifier (around : Surroundings) (specifier : Char) (spec : ServiceSpec) : Option Str :=
  let trimmed (path : String) : Option Str := (around.contents path.toList).map trim
  if specifier = 'd' then credentialDirectoryPath around spec
  else if specifier = 'u' then
    some ((spec.user.or (around.varOs "USER".toList)).getD (printUnsigned around.effectiveUid))
  else if specifier = 'U' then some (printUnsigned around.effectiveUid)
  else if specifier = 'v' then trimmed "/proc/sys/kernel/osrelease"
  else if specifier = 'b' then trimmed "/proc/sys/kernel/random/boot_id"
  else if specifier = 'm' then trimmed "/etc/machine-id"
  else if specifier = 'H' then trimmed "/etc/hostname"
  -- the others are those of a mount path
  else replacement (directories around) spec.name specifier

def specifierStep (around : Surroundings) (spec : ServiceSpec) (c : Char) (rest : Str) : Str × Nat :=
  if c = '%' then
    match rest with
    | [] => (['%'], 0)
    | '%' :: _ => (['%'], 1)
    | specifier :: _ => ((serviceSpecifier around specifier spec).getD ['%', specifier], 1)
  else ([c], 0)

def expandSpecifiers (around : Surroundings) (argument : Str) (spec : ServiceSpec) : Str :=
  scan (specifierStep around spec) 0 argument

def expandCommandArgument (around : Surroundings) (argument : Str) (spec : ServiceSpec)
    (environment : Environment) (mainPid : Option Nat) (expandEnvironmentVariables : Bool) : Str :=
  let argument := (mainPid.map (expandMainPid argument)).getD argument
  let argument := expandSpecifiers around argument spec
  if expandEnvironmentVariables then expandEnvironment around argument environment else argument

example : expandEnvironment ⟨fun _ => none, 0, fun _ => none⟩ "$$HOME ${HOME} $HOME2".toList
    (empty.insert "HOME".toList ['/']) = "$HOME / ".toList := by decide +kernel

end FractalD.Supervisor.Expansion

namespace FractalD.Supervisor.Environment

open FractalD.Config.Words FractalD.Core.Spec FractalD.Machine.CString FractalD.Machine.OrderedMap
open FractalD.Machine.Result FractalD.Machine.Scan FractalD.Machine.Text FractalD.Machine.Wire
open FractalD.Supervisor.Expansion FractalD.Supervisor.System

structure EnvironmentFileSpec where
  path : Str
  optional : Bool
  deriving DecidableEq, Repr

/-- A service with the variables that it is given. -/
structure EnvironmentSpec extends ServiceSpec where
  environmentFiles : List EnvironmentFileSpec := []
  environment : Environment := empty
  unsetEnvironment : BTreeSet Str := empty

/-- Why a file cannot be read, and how that is printed. -/
inductive ReadError
  | notFound (text : Str)
  | other (text : Str)
  deriving DecidableEq, Repr

/-- Read on in a value: whether a backslash came before, and what has been read. -/
def readValue (quote : Option Char) : Bool → Str → Str → Except Str Str
  | escaped, output, [] =>
    if escaped then .error "value ends with an escape".toList
    else if quote.isSome then .error "unterminated quoted value".toList
    else .ok (trimEnd isWhitespace output)
  | escaped, output, c :: rest =>
    if escaped then readValue quote false (output ++ [unescapeChar c]) rest
    else if (quote = some '"' ∨ quote = none) ∧ c = '\\' then readValue quote true output rest
    else if quote = some c then
      if rest.any fun c => !isWhitespace c then
        .error "trailing characters after quoted value".toList
      else .ok output
    else readValue quote false (output ++ [c]) rest

def parseEnvironmentValue (value : Str) : Except Str Str :=
  let quote := value.head?.filter fun c => c = '\'' || c = '"'
  if value = [] then .ok []
  else readValue quote false [] (if quote.isSome then value.tail else value)

def validVariable (key : Str) : Bool := key.head?.any startsName && key.tail.all continuesName

def lineError (path : Str) (number : Nat) (message : Str) : Str :=
  "invalid EnvironmentFile ".toList ++ path ++ " line ".toList ++ printUnsigned number ++
    ": ".toList ++ message

/-- The variable that a line sets, and its value. -/
def parseAssignment (text : Str) : Except Str (Str × Str) :=
  let text := ((removePrefix "export ".toList text).getD text).dropWhile isWhitespace
  match splitOnce '=' text with
  | none => .error "missing '='".toList
  | some parts =>
    if !validVariable parts.1 then .error "invalid variable name".toList
    else (parseEnvironmentValue (trim parts.2)).map fun value => (parts.1, value)

def parseLine (path : Str) (destination : Environment) (line : Str × Nat) :
    Except Str Environment :=
  let text := trim line.1
  if text = [] ∨ text.head? = some '#' ∨ text.head? = some ';' then .ok destination
  else
    match parseAssignment text with
    | .ok assignment => .ok (destination.insert assignment.1 assignment.2)
    | .error message => .error (lineError path (line.2 + 1) message)

def parseEnvironmentFile (source path : Str) (destination : Environment) :
    Except Str Environment :=
  (textLines source).zipIdx.foldlM (parseLine path) destination

section

variable (around : Surroundings) (readToString : Str → Except ReadError Str)
  (spec : EnvironmentSpec)

def readEnvironmentFile (environment : Environment) (entry : EnvironmentFileSpec) :
    Except Str Environment :=
  let path := expandSpecifiers around entry.path spec.toServiceSpec
  let unreadable (text : Str) : Str := "cannot read EnvironmentFile ".toList ++ path ++
    " for ".toList ++ spec.name ++ ": ".toList ++ text
  match readToString path with
  | .ok source => parseEnvironmentFile source path environment
  | .error (.notFound text) => if entry.optional then .ok environment else .error (unreadable text)
  | .error (.other text) => .error (unreadable text)

def fileVariables : Except Str Environment :=
  spec.environmentFiles.foldlM (readEnvironmentFile around readToString spec) empty

end

def directoryNames : List (Str × DirectoryKind) :=
  [("CONFIGURATION_DIRECTORY".toList, .configuration), ("RUNTIME_DIRECTORY".toList, .runtime),
    ("STATE_DIRECTORY".toList, .state), ("CACHE_DIRECTORY".toList, .cache),
    ("LOGS_DIRECTORY".toList, .logs)]

def directoryPaths (directories : List ManagedDirectory) (kind : DirectoryKind) : Option Str :=
  let paths := (directories.filter (·.kind = kind)).map (·.path)
  if paths = [] then none else some (join [' '] paths)

def addDirectories (directories : List ManagedDirectory) (environment : Environment) :
    Environment :=
  directoryNames.foldl (fun environment entry =>
    ((directoryPaths directories entry.2).map (environment.insert entry.1)).getD environment)
    environment

def credentialsName : Str := "CREDENTIALS_DIRECTORY".toList

section

variable (around : Surroundings) (readToString : Str → Except ReadError Str)
  (spec : EnvironmentSpec) (directories : List ManagedDirectory) (credentialDirectory : Option Str)

/-- What the files of a service make of its environment: their variables, its directories, its own
variables, nothing for those that are unset, and its credentials. -/
def withVariables (files : Environment) : Environment :=
  let environment := addDirectories directories files
  let environment := environment.extendWith (fun _ value => value) spec.environment
  let environment := spec.unsetEnvironment.keys.foldl (fun environment name =>
    environment.insert name []) environment
  (credentialDirectory.map (environment.insert credentialsName)).getD environment

def effectiveEnvironment : Except Str Environment :=
  (fileVariables around readToString spec).map (withVariables spec directories credentialDirectory)

/-- The variables that a launch sets or clears itself. -/
def launchNames : List Str :=
  ["LISTEN_FDS".toList, "LISTEN_PID".toList, "LISTEN_PIDFDID".toList, "LISTEN_FDNAMES".toList,
    "FRACTALD_LAUNCH_ARG0".toList]

def notifyName : Str := "FRACTALD_NOTIFY_SOCKET".toList

def watchdogName : Str := "FRACTALD_WATCHDOG_USEC".toList

def put (name : Str) (value : Option Str) (environment : Environment) : Environment :=
  (value.map (environment.insert name)).getD environment

/-- The environment of a main process that is launched with the given descriptors: that of the
manager and of the service, and what the launch itself sets. -/
def mainEnvironment (inherited environment : Environment) (activationFds : Nat)
    (activationFdNames : List Str) (notify launchArg0 : Option Str) : Environment :=
  let environment := inherited.extendWith (fun _ value => value) environment
  let environment := spec.unsetEnvironment.keys.foldl BTreeMap.erase environment
  let environment := launchNames.foldl BTreeMap.erase environment
  let environment := put "LISTEN_FDS".toList
    (if activationFds = 0 then none else some (printUnsigned activationFds)) environment
  let environment := put "LISTEN_FDNAMES".toList
    (if activationFdNames = [] then none else some (join [':'] activationFdNames)) environment
  let environment := put notifyName notify environment
  let environment := put watchdogName
    (spec.watchdog.map fun watchdog => printUnsigned (min (watchdog / 1000) ulongMax)) environment
  put "FRACTALD_LAUNCH_ARG0".toList launchArg0 environment

end

def reservedNames : List Str := launchNames ++ [notifyName, watchdogName]

section

variable {environment : Environment} {name k : Str} {names : List Str}

theorem get_put (value : Option Str) :
    (put name value environment).get k =
      if k = name then value.or (environment.get k) else environment.get k := by
  cases value with
  | none => simp [put]
  | some v =>
    rw [put, Option.map_some, Option.getD_some, get_insert]
    split <;> rfl

theorem get_put_of_ne {value : Option Str} (h : k ≠ name) :
    (put name value environment).get k = environment.get k := by
  rw [get_put, if_neg h]

/-- What an environment has after the same has been done to several names. -/
theorem get_foldl_each {f : Environment → Str → Environment} {value : Option Str}
    (hf : ∀ environment name, (f environment name).get k =
      if k = name then value else environment.get k) (names : List Str) (environment : Environment) :
    (names.foldl f environment).get k = if k ∈ names then value else environment.get k := by
  induction names generalizing environment with
  | nil => simp
  | cons name names ih =>
    rw [List.foldl_cons, ih, hf]
    by_cases hk : k ∈ names
    · rw [if_pos hk, if_pos (List.mem_cons_of_mem _ hk)]
    · simp [hk]

theorem get_foldl_insert (names : List Str) (environment : Environment) :
    (names.foldl (fun environment name => environment.insert name []) environment).get k =
      if k ∈ names then some [] else environment.get k := by
  refine get_foldl_each (fun environment name => ?_) names environment
  rw [get_insert]
  split <;> rfl

theorem get_foldl_erase (names : List Str) (environment : Environment) :
    (names.foldl BTreeMap.erase environment).get k =
      if k ∈ names then none else environment.get k := by
  refine get_foldl_each (fun environment name => ?_) names environment
  rw [get_erase]
  split <;> rfl

theorem get_foldl_put {α : Type} (f : α → Option Str) (entries : List (Str × α))
    (h : (entries.map Prod.fst).Nodup) (environment : Environment) :
    (entries.foldl (fun environment entry => put entry.1 (f entry.2) environment) environment).get k =
      ((entries.find? (·.1 = k)).bind fun entry => f entry.2).or (environment.get k) := by
  induction entries generalizing environment with
  | nil => rfl
  | cons entry entries ih =>
    rw [List.map_cons, List.nodup_cons] at h
    rw [List.foldl_cons, ih h.2, get_put]
    by_cases hk : entry.1 = k
    · have hnone : entries.find? (·.1 = k) = none := by
        refine List.find?_eq_none.mpr fun other hother heq => h.1 ?_
        rw [hk, ← of_decide_eq_true heq]
        exact List.mem_map_of_mem hother
      rw [List.find?_cons_of_pos (by simpa using hk), hnone, if_pos hk.symm]
      rfl
    · rw [List.find?_cons_of_neg (by simpa using hk), if_neg (Ne.symm hk)]

end

def directoryVariable (directories : List ManagedDirectory) (name : Str) : Option Str :=
  (directoryNames.find? (·.1 = name)).bind fun entry => directoryPaths directories entry.2

section

variable {around : Surroundings} {readToString : Str → Except ReadError Str}
  {spec : EnvironmentSpec} {directories : List ManagedDirectory} {credentialDirectory : Option Str}
  {environment files inherited : Environment} {name : Str}

theorem get_addDirectories : (addDirectories directories files).get name =
    (directoryVariable directories name).or (files.get name) :=
  get_foldl_put (directoryPaths directories) directoryNames (by decide) files

/-- What a service has in a variable that is not unset. -/
def ownValue (spec : EnvironmentSpec) (directories : List ManagedDirectory)
    (credentialDirectory : Option Str) (files : Environment) (name : Str) : Option Str :=
  (if name = credentialsName then credentialDirectory else none).or
    ((spec.environment.get name).or ((directoryVariable directories name).or (files.get name)))

theorem get_withVariables :
    (withVariables spec directories credentialDirectory files).get name =
      if spec.unsetEnvironment.contains name = true then
        (if name = credentialsName then credentialDirectory else none).or (some [])
      else ownValue spec directories credentialDirectory files name := by
  change (put credentialsName credentialDirectory _).get name = _
  rw [get_put, get_foldl_insert, get_extendWith, get_addDirectories, Option.map_id', ownValue]
  by_cases hunset : spec.unsetEnvironment.contains name = true
  · rw [if_pos (mem_keys.mpr hunset), if_pos hunset]
    split <;> rfl
  · rw [if_neg (fun hmem => hunset (mem_keys.mp hmem)), if_neg hunset]
    split <;> rfl

/-- A variable that a launch does not have for itself is that of the service or, where the service
has none, of the manager. -/
theorem get_mainEnvironment (hname : name ∉ reservedNames) (activationFds : Nat)
    (activationFdNames : List Str) (notify launchArg0 : Option Str) :
    (mainEnvironment spec inherited environment activationFds activationFdNames notify
      launchArg0).get name =
      if spec.unsetEnvironment.contains name = true then none
      else (environment.get name).or (inherited.get name) := by
  have hlaunch : name ∉ launchNames := fun h => hname (List.mem_append_left _ h)
  have hne : ∀ other ∈ reservedNames, name ≠ other := by
    rintro other hother rfl
    exact hname hother
  unfold mainEnvironment
  dsimp only
  rw [get_put_of_ne (hne _ (by decide)), get_put_of_ne (hne _ (by decide)),
    get_put_of_ne (hne _ (by decide)), get_put_of_ne (hne _ (by decide)),
    get_put_of_ne (hne _ (by decide)), get_foldl_erase, if_neg hlaunch, get_foldl_erase,
    get_extendWith, Option.map_id']
  by_cases hunset : spec.unsetEnvironment.contains name = true
  · rw [if_pos (mem_keys.mpr hunset), if_pos hunset]
  · rw [if_neg (fun hmem => hunset (mem_keys.mp hmem)), if_neg hunset]

/-- The main process of a service finds a variable as it was set last: in the order of the files,
by the directories, the service itself and the credentials, before that by the manager. One that the
service unsets it does not find at all. -/
theorem launched_value (around : Surroundings) (readToString : Str → Except ReadError Str)
    (spec : EnvironmentSpec) (directories : List ManagedDirectory)
    (credentialDirectory : Option Str) (environment inherited : Environment)
    (h : effectiveEnvironment around readToString spec directories credentialDirectory =
      .ok environment) (activationFds : Nat) (activationFdNames : List Str)
    (notify launchArg0 : Option Str) (name : Str) (hname : name ∉ reservedNames) :
    ∃ files, fileVariables around readToString spec = .ok files ∧
      (mainEnvironment spec inherited environment activationFds activationFdNames notify
        launchArg0).get name =
        if spec.unsetEnvironment.contains name = true then none
        else (ownValue spec directories credentialDirectory files name).or (inherited.get name) := by
  obtain ⟨files, hfiles, rfl⟩ := map_eq_ok.mp h
  refine ⟨files, hfiles, ?_⟩
  rw [get_mainEnvironment hname, get_withVariables]
  split_ifs <;> rfl

/-- A service with a file of variables, a directory and credentials; it unsets one variable. -/
def boxSpec : EnvironmentSpec where
  name := "box".toList
  program := "/bin/box".toList
  environmentFiles := [⟨"/etc/%n".toList, false⟩]
  unsetEnvironment := ofList ["LANG".toList]

def boxFile (path : Str) : Except ReadError Str :=
  if path = "/etc/box".toList then .ok "MODE=fast\n".toList else .error (.notFound [])

def boxManager : Environment := (empty.insert "LANG".toList ['C']).insert "HOME".toList ['/']

def boxAround : Surroundings := ⟨boxManager.get, 0, fun _ => none⟩

def boxDirectories : List ManagedDirectory := [⟨"/var/lib/box".toList, .state, false⟩]

def boxCredentials : Option Str := some "/run/credentials/box".toList

def boxEnvironment : Environment := withVariables boxSpec boxDirectories boxCredentials
  (empty.insert "MODE".toList "fast".toList)

theorem effectiveEnvironment_box : effectiveEnvironment boxAround boxFile boxSpec boxDirectories
    boxCredentials = .ok boxEnvironment := by
  have hfile : parseEnvironmentFile "MODE=fast\n".toList "/etc/box".toList empty =
      .ok (empty.insert "MODE".toList "fast".toList) := rfl
  refine map_eq_ok.mpr ⟨_, ?_, rfl⟩
  unfold fileVariables boxSpec
  rw [List.foldlM_cons, readEnvironmentFile]
  exact congrArg (· >>= pure) hfile

theorem launched_value_box :
    ∃ files, fileVariables boxAround boxFile boxSpec = .ok files ∧
      (mainEnvironment boxSpec boxManager boxEnvironment 0 [] none none).get "MODE".toList =
        if boxSpec.unsetEnvironment.contains "MODE".toList = true then none
        else (ownValue boxSpec boxDirectories boxCredentials files "MODE".toList).or
          (boxManager.get "MODE".toList) :=
  launched_value boxAround boxFile boxSpec boxDirectories boxCredentials boxEnvironment boxManager
    effectiveEnvironment_box 0 [] none none "MODE".toList (by decide)

/-- What a variable in an argument of the main process stands for is what the process finds in that
variable, or nothing where it finds none; but for a variable of credentials that is unset. -/
theorem expanded_as_launched (around : Surroundings) (readToString : Str → Except ReadError Str)
    (spec : EnvironmentSpec) (directories : List ManagedDirectory)
    (credentialDirectory : Option Str) (environment inherited : Environment)
    (h : effectiveEnvironment around readToString spec directories credentialDirectory =
      .ok environment) (haround : ∀ name, around.varOs name = inherited.get name)
    (activationFds : Nat) (activationFdNames : List Str) (notify launchArg0 : Option Str)
    (name : Str) (hname : name ∉ reservedNames) :
    valueOf around environment name =
        ((mainEnvironment spec inherited environment activationFds activationFdNames notify
          launchArg0).get name).getD [] ↔
      ¬ (name = credentialsName ∧ spec.unsetEnvironment.contains name = true ∧
        credentialDirectory.any (· ≠ [])) := by
  obtain ⟨files, -, rfl⟩ := map_eq_ok.mp h
  rw [get_mainEnvironment hname, valueOf, haround, get_withVariables]
  by_cases hunset : spec.unsetEnvironment.contains name = true
  · rw [if_pos hunset, if_pos hunset]
    by_cases hcredentials : name = credentialsName
    · rw [if_pos hcredentials]
      cases credentialDirectory with
      | none => simp
      | some path => simp [hcredentials, hcredentials ▸ hunset]
    · rw [if_neg hcredentials]
      simp [hcredentials]
  · rw [if_neg hunset, if_neg hunset]
    simp [hunset]

theorem expanded_as_launched_box :
    valueOf boxAround boxEnvironment "HOME".toList =
        ((mainEnvironment boxSpec boxManager boxEnvironment 0 [] none none).get
          "HOME".toList).getD [] ↔
      ¬ ("HOME".toList = credentialsName ∧ boxSpec.unsetEnvironment.contains "HOME".toList = true ∧
        boxCredentials.any (· ≠ [])) :=
  expanded_as_launched boxAround boxFile boxSpec boxDirectories boxCredentials boxEnvironment
    boxManager effectiveEnvironment_box (fun _ => rfl) 0 [] none none "HOME".toList (by decide)

end

/-- The ways to write the value of a variable in a file. -/
inductive Style
  | double
  | single
  | bare
  deriving DecidableEq, Repr

def escapeCharacter (c : Char) : Str :=
  if c = '"' ∨ c = '\\' then ['\\', c] else if c = '\n' then ['\\', 'n'] else [c]

def Style.write : Style → Str → Str
  | .double, value => '"' :: (value.flatMap escapeCharacter ++ ['"'])
  | .single, value => '\'' :: (value ++ ['\''])
  | .bare, value => value

/-- A value that can be written so. -/
def Style.Suits : Style → Str → Prop
  | .double, _ => True
  | .single, value => '\'' ∉ value ∧ '\n' ∉ value
  | .bare, value => (∀ c ∈ value.head?, c ≠ '\'' ∧ c ≠ '"' ∧ isWhitespace c = false) ∧
      (∀ c ∈ value.getLast?, isWhitespace c = false) ∧ '\\' ∉ value ∧ '\n' ∉ value

/-- A line of a file of variables. -/
inductive FileLine
  | remark (text : Str)
  | assign (exported : Bool) (name : Str) (style : Style) (value : Str)

namespace FileLine

def text : FileLine → Str
  | .remark text => text
  | .assign exported name style value =>
    (if exported then "export ".toList else []) ++ (name ++ '=' :: style.write value)

def assignment : FileLine → Option (Str × Str)
  | .remark _ => none
  | .assign _ name _ value => some (name, value)

/-- A remark is empty or marked as one; what is assigned has a name and is written in a way that
suits it. -/
def Valid : FileLine → Prop
  | .remark text => OneLine text ∧
      (trim text = [] ∨ (trim text).head? = some '#' ∨ (trim text).head? = some ';')
  | .assign _ name style value => validVariable name = true ∧ style.Suits value

end FileLine

section

variable {name value output path : Str} {style : Style} {c : Char} {destination : Environment}

theorem startsName_plain (h : startsName c = true) :
    continuesName c = true ∧ isWhitespace c = false ∧ c ≠ '#' ∧ c ≠ ';' := by
  have hcontinues : continuesName c = true := by
    rw [startsName, Bool.or_eq_true] at h
    obtain hletter | hline := h
    · rw [continuesName, Char.isAlphanum, hletter]
      rfl
    · rw [continuesName, hline, Bool.or_true]
  have hne : ∀ d, startsName d = false → c ≠ d := by
    rintro d hd rfl
    exact Bool.false_ne_true (hd.symm.trans h)
  refine ⟨hcontinues, keyChar_solid ?_, hne '#' (by decide), hne ';' (by decide)⟩
  rw [continuesName] at hcontinues
  rw [hcontinues]
  rfl

theorem continuesName_plain (h : continuesName c = true) : c ≠ '=' ∧ c ≠ '\n' ∧ c ≠ ' ' := by
  have hne : ∀ d, continuesName d = false → c ≠ d := by
    rintro d hd rfl
    exact Bool.false_ne_true (hd.symm.trans h)
  exact ⟨hne '=' (by decide), hne '\n' (by decide), hne ' ' (by decide)⟩

theorem name_characters (h : validVariable name = true) :
    (∃ start rest, name = start :: rest ∧ startsName start = true) ∧
      ∀ c ∈ name, continuesName c = true := by
  rw [validVariable, Bool.and_eq_true, Option.any_eq_true] at h
  obtain ⟨⟨start, hhead, hstart⟩, hrest⟩ := h
  obtain ⟨rest, rfl⟩ := List.head?_eq_some_iff.mp hhead
  refine ⟨⟨start, rest, rfl, hstart⟩, fun c hc => ?_⟩
  obtain rfl | hc := List.mem_cons.mp hc
  · exact (startsName_plain hstart).1
  · exact List.all_eq_true.mp hrest c hc

theorem readValue_double (value output : Str) :
    readValue (some '"') false output (value.flatMap escapeCharacter ++ ['"']) =
      .ok (output ++ value) := by
  induction value generalizing output with
  | nil => simp [readValue]
  | cons c value ih =>
    rw [List.flatMap_cons, List.append_assoc, escapeCharacter]
    have hout : output ++ c :: value = (output ++ [c]) ++ value := by simp
    by_cases hmark : c = '"' ∨ c = '\\'
    · have hplain : unescapeChar c = c := by
        obtain rfl | rfl := hmark <;> decide
      rw [if_pos hmark, hout, ← ih]
      simp [readValue, hplain]
    · rw [if_neg hmark]
      rw [not_or] at hmark
      by_cases hline : c = '\n'
      · subst hline
        rw [if_pos rfl, hout, ← ih]
        simp [readValue, unescapeChar]
      · rw [if_neg hline, hout, ← ih]
        simp [readValue, hmark.2, Ne.symm hmark.1]

theorem readValue_single (h : '\'' ∉ value) (output : Str) :
    readValue (some '\'') false output (value ++ ['\'']) = .ok (output ++ value) := by
  induction value generalizing output with
  | nil => simp [readValue]
  | cons c value ih =>
    rw [List.mem_cons, not_or] at h
    have hout : output ++ c :: value = (output ++ [c]) ++ value := by simp
    rw [hout, ← ih h.2]
    simp [readValue, h.1]

theorem readValue_bare (h : '\\' ∉ value) (output : Str) :
    readValue none false output value = .ok (trimEnd isWhitespace (output ++ value)) := by
  induction value generalizing output with
  | nil => simp [readValue]
  | cons c value ih =>
    rw [List.mem_cons, not_or] at h
    have hout : output ++ c :: value = (output ++ [c]) ++ value := by simp
    rw [hout, ← ih h.2]
    simp [readValue, Ne.symm h.1]

theorem parseEnvironmentValue_write (h : style.Suits value) :
    parseEnvironmentValue (style.write value) = .ok value := by
  cases style with
  | double => exact readValue_double value []
  | single => exact readValue_single h.1 []
  | bare =>
    obtain ⟨hfirst, hlast, hplain, -⟩ := h
    cases value with
    | nil => rfl
    | cons c value =>
      obtain ⟨hsingle, hdouble, -⟩ := hfirst c rfl
      have hquote : (some c).filter (fun c => c = '\'' || c = '"') = none := by
        simp [hsingle, hdouble]
      have hread := readValue_bare hplain []
      rw [List.nil_append, trimEnd_self hlast] at hread
      simpa [parseEnvironmentValue, Style.write, hquote, hsingle, hdouble] using hread

theorem write_plain (h : style.Suits value) :
    (∀ c ∈ (style.write value).head?, isWhitespace c = false) ∧
      (∀ c ∈ (style.write value).getLast?, isWhitespace c = false) ∧
      '\n' ∉ style.write value := by
  have hdouble : isWhitespace '"' = false := by decide
  have hsingle : isWhitespace '\'' = false := by decide
  cases style with
  | double =>
    refine ⟨by simpa [Style.write] using hdouble, ?_, ?_⟩
    · rw [Style.write, ← List.cons_append, List.getLast?_concat]
      simpa using hdouble
    · simp only [Style.write, List.mem_cons, List.mem_append, List.mem_flatMap, List.not_mem_nil,
        or_false, not_or]
      refine ⟨by decide, ?_, by decide⟩
      rintro ⟨c, -, hc⟩
      revert hc
      rw [escapeCharacter]
      split_ifs with hmark hline
      · obtain rfl | rfl := hmark <;> decide
      · decide
      · simpa using Ne.symm hline
  | single =>
    refine ⟨by simpa [Style.write] using hsingle, ?_, ?_⟩
    · rw [Style.write, ← List.cons_append, List.getLast?_concat]
      simpa using hsingle
    · simp only [Style.write, List.mem_cons, List.mem_append, List.not_mem_nil, or_false, not_or]
      exact ⟨by decide, h.2, by decide⟩
  | bare => exact ⟨fun c hc => (h.1 c hc).2.2, h.2.1, h.2.2.2⟩

theorem removePrefix_name (h : validVariable name = true) (rest : Str) :
    removePrefix "export ".toList (name ++ '=' :: rest) = none := by
  rw [removePrefix, if_neg]
  intro hprefix
  obtain ⟨text, htext⟩ := List.isPrefixOf_iff_prefix.mp hprefix
  have htake := congrArg (List.takeWhile continuesName) htext
  rw [List.takeWhile_append_of_pos (name_characters h).2,
    List.takeWhile_cons_of_neg (by decide), List.append_nil] at htake
  have hexport : ("export ".toList ++ text).takeWhile continuesName = "export".toList := by
    change ("export".toList ++ ' ' :: text).takeWhile continuesName = _
    rw [List.takeWhile_append_of_pos (forall_of_all (by decide)),
      List.takeWhile_cons_of_neg (by decide), List.append_nil]
  rw [hexport] at htake
  subst htake
  have hmark := List.append_cancel_left (show "export".toList ++ ' ' :: text = _ from htext)
  cases hmark

theorem parseAssignment_write (exported : Bool) (hname : validVariable name = true)
    (h : style.Suits value) :
    parseAssignment ((if exported then "export ".toList else []) ++
      (name ++ '=' :: style.write value)) = .ok (name, value) := by
  obtain ⟨⟨start, rest, hstart, hstarts⟩, hcharacters⟩ := name_characters hname
  have hequals : '=' ∉ name := fun hmem => (continuesName_plain (hcharacters '=' hmem)).1 rfl
  have htext : ((removePrefix "export ".toList ((if exported then "export ".toList else []) ++
      (name ++ '=' :: style.write value))).getD ((if exported then "export ".toList else []) ++
      (name ++ '=' :: style.write value))).dropWhile isWhitespace =
        name ++ '=' :: style.write value := by
    have hdrop : (name ++ '=' :: style.write value).dropWhile isWhitespace =
        name ++ '=' :: style.write value := by
      rw [hstart, List.cons_append]
      exact List.dropWhile_cons_of_neg (by simp [(startsName_plain hstarts).2.1])
    cases exported with
    | true => rw [if_pos rfl, removePrefix_append, Option.getD_some, hdrop]
    | false =>
      rw [if_neg Bool.false_ne_true, List.nil_append, removePrefix_name hname, Option.getD_none,
        hdrop]
  obtain ⟨hfirst, hlast, -⟩ := write_plain h
  unfold parseAssignment
  dsimp only
  rw [htext, splitOnce_append hequals]
  dsimp only
  rw [hname, trim_self hfirst hlast, parseEnvironmentValue_write h]
  rfl

theorem line_whole (exported : Bool) (hname : validVariable name = true) (h : style.Suits value) :
    ∃ first rest, FileLine.text (.assign exported name style value) = first :: rest ∧
      startsName first = true ∧
      trim (FileLine.text (.assign exported name style value)) =
        FileLine.text (.assign exported name style value) ∧
      OneLine (FileLine.text (.assign exported name style value)) := by
  obtain ⟨⟨start, rest, hstart, hstarts⟩, hcharacters⟩ := name_characters hname
  obtain ⟨hfirst, hlast, hline⟩ := write_plain h
  have hhead : ∃ first rest, FileLine.text (.assign exported name style value) = first :: rest ∧
      startsName first = true := by
    cases exported with
    | true => exact ⟨'e', _, rfl, by decide⟩
    | false => exact ⟨start, _, by rw [FileLine.text, hstart]; rfl, hstarts⟩
  have hends : ∀ c ∈ (FileLine.text (.assign exported name style value)).getLast?,
      isWhitespace c = false := by
    have hequals : isWhitespace '=' = false := by decide
    rw [FileLine.text, ← List.append_assoc, List.getLast?_append_of_ne_nil _ (by simp)]
    cases hwrite : style.write value with
    | nil => simpa using hequals
    | cons c text =>
      rw [List.getLast?_cons_cons, ← hwrite]
      exact hlast
  have hnewline : '\n' ∉ FileLine.text (.assign exported name style value) := by
    have hfree : '\n' ∉ name := fun hmem => (continuesName_plain (hcharacters '\n' hmem)).2.1 rfl
    rw [FileLine.text]
    simp only [List.mem_append, List.mem_cons, not_or]
    refine ⟨?_, hfree, by decide, hline⟩
    cases exported <;> decide
  obtain ⟨first, more, htext, hfirsts⟩ := hhead
  refine ⟨first, more, htext, hfirsts, trim_self ?_ hends, hnewline, fun hreturn => ?_⟩
  · rw [htext]
    rintro c hc
    obtain rfl := Option.some.inj hc
    exact (startsName_plain hfirsts).2.1
  · exact absurd (hends '\r' hreturn) (by decide)

theorem parseLine_text {line : FileLine} (h : line.Valid) (path : Str) (number : Nat)
    (destination : Environment) : parseLine path destination (line.text, number) =
      .ok (line.assignment.elim destination fun a => destination.insert a.1 a.2) := by
  cases line with
  | remark text => exact if_pos h.2
  | assign exported name style value =>
    obtain ⟨first, rest, htext, hfirst, htrim, -⟩ := line_whole exported h.1 h.2
    obtain ⟨-, -, hhash, hsemicolon⟩ := startsName_plain hfirst
    have hparse := parseAssignment_write exported h.1 h.2
    unfold parseLine
    dsimp only
    rw [htrim, if_neg (by rw [htext]; simp [hhash, hsemicolon])]
    rw [FileLine.text, hparse]
    rfl

theorem oneLine_text {line : FileLine} (h : line.Valid) : OneLine line.text := by
  cases line with
  | remark text => exact h.1
  | assign exported name style value =>
    obtain ⟨-, -, -, -, -, hone⟩ := line_whole exported h.1 h.2
    exact hone

theorem foldlM_lines {lines : List FileLine} (h : ∀ line ∈ lines, line.Valid) (path : Str)
    (number : Nat) (destination : Environment) :
    ((lines.map FileLine.text).zipIdx number).foldlM (parseLine path) destination =
      .ok ((lines.filterMap FileLine.assignment).foldl (fun e a => e.insert a.1 a.2)
        destination) := by
  induction lines generalizing number destination with
  | nil => rfl
  | cons line lines ih =>
    obtain ⟨hline, hlines⟩ := List.forall_mem_cons.mp h
    rw [List.map_cons, List.zipIdx_cons, List.foldlM_cons, parseLine_text hline,
      List.filterMap_cons]
    refine (ih hlines _ _).trans ?_
    cases line.assignment <;> rfl

/-- A file of variables is read as it is written, in whichever way its values are: the last line
that sets a variable counts, over what there was before. -/
theorem parseEnvironmentFile_written (lines : List FileLine) (h : ∀ line ∈ lines, line.Valid)
    (path : Str) (destination : Environment) :
    parseEnvironmentFile ((lines.map FileLine.text).flatMap (· ++ ['\n'])) path destination =
      .ok ((lines.filterMap FileLine.assignment).foldl (fun e a => e.insert a.1 a.2)
        destination) := by
  have hone : ∀ text ∈ lines.map FileLine.text, OneLine text := by
    intro text htext
    obtain ⟨line, hline, rfl⟩ := List.mem_map.mp htext
    exact oneLine_text (h line hline)
  rw [parseEnvironmentFile, textLines_ended_iff.mpr hone]
  exact foldlM_lines h path 0 destination

end

/-- A remark, a value with a line break in it, and a variable of its own. -/
def demoLines : List FileLine :=
  [.remark "# paths".toList, .assign true "LINES".toList .double "a\nb".toList,
    .assign false "HOME".toList .bare "/srv".toList]

theorem parseEnvironmentFile_written_demo :
    parseEnvironmentFile ((demoLines.map FileLine.text).flatMap (· ++ ['\n'])) "/etc/box".toList
      empty = .ok ((demoLines.filterMap FileLine.assignment).foldl (fun e a => e.insert a.1 a.2)
        empty) := by
  refine parseEnvironmentFile_written demoLines ?_ _ _
  intro line hline
  simp only [demoLines, List.mem_cons, List.not_mem_nil, or_false] at hline
  obtain rfl | rfl | rfl := hline
  · exact ⟨⟨by decide, by decide⟩, .inr (.inl (by decide))⟩
  · exact ⟨by decide, trivial⟩
  · refine ⟨by decide, ?_, ?_, by decide, by decide⟩
    · intro c hc
      obtain rfl := Option.some.inj hc
      decide
    · intro c hc
      obtain rfl := Option.some.inj hc
      decide

end FractalD.Supervisor.Environment
