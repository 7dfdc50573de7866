import FractalD.Packages.Sync

namespace FractalD.Daemon.Discovery

open FractalD.Control.State FractalD.Core.Spec FractalD.Machine.CString
open FractalD.Machine.OrderedMap FractalD.Machine.Text FractalD.Packages.Sync

/-- What the daemon takes from its environment. -/
structure Environment where
  var : Str → Option Str
  root : Bool
  effectiveUid : Nat

/-- What a name in a directory refers to; of a file, what reading it gives. -/
inductive Entry
  | file (source : Except Str Str)
  | symlink
  | directory
  | other

/-- The directories that exist, with their contents. -/
abbrev Files := Str → Option (BTreeMap Str Entry)

/-- `Path::join`. -/
def pathJoin (directory path : Str) : Str :=
  if path.head? = some '/' then path
  else if directory = [] ∨ directory.getLast? = some '/' then directory ++ path
  else directory ++ '/' :: path

def runtimeDirectory (env : Environment) : Str :=
  match env.var "FRACTALD_RUNTIME_DIR".toList, env.var "XDG_RUNTIME_DIR".toList with
  | some path, _ => path
  | none, some path => pathJoin path "fractald".toList
  | none, none =>
    if env.root then pathJoin "/run".toList "fractald".toList
    else "/tmp/fractald-".toList ++ (toString env.effectiveUid).toList

def nativeStorageServiceDirectory (env : Environment) : Option Str :=
  match env.var "FRACTALD_STORAGE_SERVICE_DIR".toList with
  | some path => some path
  | none =>
    if env.root ∨ (env.var "FRACTALD_STORAGE_FSTAB".toList).isSome then
      some (pathJoin (runtimeDirectory env) "services".toList)
    else none

/-- The directories of a root manager, from the lowest to the highest priority. -/
def rootDirectories : List Str :=
  ["/usr/lib/fractald/services".toList, "/usr/libexec/fractald/services".toList,
    "/usr/local/lib/fractald/services".toList, "/usr/local/libexec/fractald/services".toList,
    "/run/fractald/services".toList, "/etc/fractald/services".toList]

def userDirectories (env : Environment) : List Str :=
  let config := (env.var "XDG_CONFIG_HOME".toList).orElse fun _ =>
    (env.var "HOME".toList).map (pathJoin · ".config".toList)
  let runtime := (env.var "XDG_RUNTIME_DIR".toList).getD
    ("/tmp/fractald-runtime-".toList ++ (toString env.effectiveUid).toList)
  (config.map (pathJoin · "fractald/services".toList)).toList ++
    [pathJoin runtime "fractald/services".toList]

def serviceDirectories (env : Environment) : List Str :=
  (match env.var "FRACTALD_SERVICE_DIR".toList with
    | some path => [path]
    | none => if env.root then rootDirectories else userDirectories env) ++
  (nativeStorageServiceDirectory env).toList

section

variable (files : Files)

/-- The name that a directory entry gives to a service, if it is a descriptor. -/
def discoverEntry (directory : Str) (names : BTreeSet Str) :
    Str × Entry → Except Str (BTreeSet Str)
  | (fileName, entry) =>
    if !svcSuffix.isSuffixOf fileName then .ok names
    else match entry with
      | .symlink => .error ("service path ".toList ++ (⟨directory, fileName⟩ : DescriptorPath).display ++
          " is a symlink".toList)
      | .file _ => .ok (names.add (trimEndMatches svcSuffix fileName))
      | .directory | .other => .ok names

def discoverIn (names : BTreeSet Str) (directory : Str) : Except Str (BTreeSet Str) :=
  match files directory with
  | none => .ok names
  | some entries => entries.entries.foldlM (discoverEntry directory) names

def discoverServiceNames (directories : List Str) : Except Str (BTreeSet Str) :=
  directories.foldlM (discoverIn files) empty

/-- `symlink_metadata`, with what a file holds. -/
def metadata (path : DescriptorPath) : Option Entry :=
  (files path.directory).bind (·.get path.fileName)

/-- The first of the directories to have the file. -/
def findIn (fileName : Str) : List Str → Except Str (Option DescriptorPath)
  | [] => .ok none
  | directory :: directories =>
    let path : DescriptorPath := ⟨directory, fileName⟩
    match metadata files path with
    | some .directory => .error ("service path ".toList ++ path.display ++ " is a directory".toList)
    | some .symlink => .error ("service path ".toList ++ path.display ++ " is a symlink".toList)
    | some .other => .error ("service path ".toList ++ path.display ++ " is not a regular file".toList)
    | some (.file _) => .ok (some path)
    | none => findIn fileName directories

def findNativeServicePath (env : Environment) (name : Str) : Except Str (Option DescriptorPath) :=
  findIn files (nativeServiceName name ++ svcSuffix) (serviceDirectories env).reverse

def readToString (path : DescriptorPath) : Except Str Str :=
  match metadata files path with
  | some (.file source) => source
  | some .directory => .error "Is a directory (os error 21)".toList
  | _ => .error "No such file or directory (os error 2)".toList

end

def hexDigit (b : UInt8) : Option Nat :=
  let value := b.toNat
  if 0x30 ≤ value ∧ value ≤ 0x39 then some (value - 0x30)
  else if 0x61 ≤ value ∧ value ≤ 0x66 then some (value - 0x61 + 10)
  else if 0x41 ≤ value ∧ value ≤ 0x46 then some (value - 0x41 + 10)
  else none

/-- A byte of an encoded path that is no escape; a byte is taken for a character. -/
def plainByte (b : UInt8) : Char := if b = 0x2d then '/' else Char.ofNat b.toNat

def decodeDevice : List UInt8 → Str
  | a :: b :: c :: d :: bytes =>
    if a = 0x5c ∧ b = 0x78 ∧ (hexDigit c).isSome ∧ (hexDigit d).isSome then
      Char.ofNat (16 * (hexDigit c).getD 0 + (hexDigit d).getD 0) :: decodeDevice bytes
    else plainByte a :: decodeDevice (b :: c :: d :: bytes)
  | a :: bytes => plainByte a :: decodeDevice bytes
  | [] => []

def nativeDevicePath (name : Str) : Option Str :=
  let decode (encoded : Str) : Str := decodeDevice (encoded.flatMap String.utf8EncodeChar)
  match removePrefix "device-dev-".toList name, removePrefix "device-sys-".toList name with
  | some encoded, _ => some ("/dev/".toList ++ decode encoded)
  | none, some encoded => some ("/sys/".toList ++ decode encoded)
  | none, none => none

def deviceSpec (name path : Str) : ServiceSpec where
  name := name
  program := "/bin/sh".toList
  launch := "-c while [ ! -e \"$1\" ]; do sleep 1; done fractald-device-wait ".toList ++ path
  serviceType := .oneshot
  remainAfterExit := true
  startTimeout := durationMax
  devicePath := some path

section

variable (parser : ServiceParser) (files : Files) (masks : Markers) (env : Environment)

def loadNamedServiceSpec (name : Str) : Except Str (Option ServiceSpec) := do
  let name := nativeServiceName name
  let masked ← (isMasked name masks).mapError fun e =>
    "cannot inspect masked state for ".toList ++ name ++ ": ".toList ++ e
  if masked then pure none
  else
    match ← findNativeServicePath files env name with
    | some path =>
      let source ← (readToString files path).mapError fun e =>
        "cannot read ".toList ++ path.display ++ ": ".toList ++ e
      some <$> (parser.parse source name).mapError fun e =>
        "cannot parse ".toList ++ path.display ++ ": ".toList ++ e
    | none => pure ((nativeDevicePath name).map (deviceSpec name))

def loadServiceSpec (name : Str) : Except Str (Option ServiceSpec) := do
  match ← findNativeServicePath files env name with
  | none => pure none
  | some path =>
    let source ← (readToString files path).mapError fun e =>
      "cannot read ".toList ++ path.display ++ ": ".toList ++ e
    let spec ← (parser.parse source name).mapError fun e =>
      "cannot parse ".toList ++ path.display ++ ": ".toList ++ e
    let masked ← (isMasked name masks).mapError fun e =>
      "cannot inspect masked state for ".toList ++ name ++ ": ".toList ++ e
    pure (if masked then none else some spec)

def loadServiceSpecs : Except Str (List ServiceSpec) := do
  let names ← discoverServiceNames files (serviceDirectories env)
  List.reduceOption <$> names.keys.mapM (loadServiceSpec parser files masks env)

end

end FractalD.Daemon.Discovery
