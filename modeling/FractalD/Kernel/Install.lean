import FractalD.Kernel.FileSystem
import FractalD.Machine.Effect
import FractalD.Machine.Text

namespace FractalD.Kernel.Install

open FractalD.Kernel.FileSystem FractalD.Machine.CString FractalD.Machine.Text

/-- The check of `validate_token` and of `validate_version`. -/
def validName (name : Str) : Bool :=
  name ≠ [] && name ≠ ['.'] && name ≠ parentDir && !name.contains '/' && !name.any isWhitespace

structure Context where
  root : Path
  bootRoot : Path
  entryToken : Str
  layout : Str
  makeEntryDirectory : Option Bool
  machineId : Option Str
  validToken : validName entryToken = true

def bls : Str := "bls".toList

/-- The system, the environment variables and the programs that are run; `none`
stands for a program that is missing or switched off. A run of `dracut` answers with
the image that it writes to its destination. -/
structure Environment where
  os : Os
  unameRelease : Str
  dracut : Option (Path → Str → Path → Tree → Except Str Str)
  indexDisabled : Bool
  keepsIndex : Bool
  depmod : Option (Str → Tree → Except Str Tree)
  plugins : Option (Str → Str → Path → List Path → Tree → Except Str Tree)

abbrev Run := EStateM Str Tree

def lift (describe : Str → Str) (op : Tree → Except Str Tree) : Run Unit := fun t =>
  match op t with
  | .error e => .error (describe e) t
  | .ok t' => .ok () t'

def rootDir : Path := ⟨true, []⟩

def rootedPath (root path : Path) : Path :=
  if root = rootDir then path else ⟨root.absolute, root.components ++ path.components⟩

def modulesDir (root : Path) (directory : Str) (version : Str) : Path :=
  (rootedPath root (.parse directory)).child version

def defaultImage (c : Context) (version : Str) : Path :=
  (modulesDir c.root "/usr/lib/modules".toList version).child "vmlinuz".toList

/-- An operand that is given and neither empty nor a dash. -/
def operand (operands : List Str) (i : Nat) : Option Str :=
  operands[i]?.filter (fun value => value ≠ [] ∧ value ≠ ['-'])

def entryDirectory (c : Context) (version : Str) : Path :=
  (c.bootRoot.child c.entryToken).child version

def entriesDirectory (c : Context) : Path :=
  (c.bootRoot.child "loader".toList).child "entries".toList

def entryFile (c : Context) (version : Str) : Str :=
  c.entryToken ++ '-' :: version ++ ".conf".toList

def entryPath (c : Context) (version : Str) : Path :=
  (entriesDirectory c).child (entryFile c version)

def flatImage (c : Context) (version : Str) : Path :=
  c.bootRoot.child ("vmlinuz-".toList ++ version)

def makeEntry (c : Context) : Bool := c.makeEntryDirectory.getD (c.layout = bls)

/-- The kernel gets a directory and a loader entry of its own. -/
def usesEntry (c : Context) : Bool := c.layout = bls && makeEntry c

section

variable (env : Environment) (c : Context)

def validateVersion (version : Str) : Run Unit :=
  if validName version then pure () else throw ("invalid kernel version ".toList ++ version)

def requireFile (message : Str) (p : Path) : Run Unit := do
  let t ← get
  (if isFile env.os t p then pure () else throw (message ++ p.display))

def requireFiles (message : Str) : List Path → Run Unit
  | [] => pure ()
  | p :: ps => do
    requireFile env message p
    requireFiles message ps

def addArguments (operands : List Str) : Run (Str × Path × List Path) := do
  let version := (operand operands 0).getD env.unameRelease
  validateVersion version
  let image := ((operand operands 1).map (fun v => rootedPath c.root (.parse v))).getD
    (defaultImage c version)
  requireFile env "kernel image does not exist: ".toList image
  let initrds := (operands.drop 2).map (fun v => rootedPath c.root (.parse v))
  requireFiles env "initrd does not exist: ".toList initrds
  return (version, image, initrds)

def createDir (p : Path) : Run Unit :=
  lift (fun e => "cannot create ".toList ++ p.display ++ ": ".toList ++ e) (createDirAll env.os p)

def copyImage (source destination : Path) : Run Unit :=
  match destination.parent with
  | none => throw ("destination has no parent: ".toList ++ destination.display)
  | some parent => do
    createDir env parent
    lift (fun e => "cannot copy ".toList ++ source.display ++ " to ".toList ++
      destination.display ++ ": ".toList ++ e) (copy env.os source destination)

def adjacentInitrd (t : Tree) (kernelImage : Path) : Option Path :=
  kernelImage.parent.bind (fun parent =>
    (["initrd".toList, "initramfs.img".toList].map parent.child).find? (isFile env.os t))

def generateInitrd (version : Str) (kernelImage destination : Path) : Run Bool :=
  match env.dracut with
  | none => pure false
  | some dracut =>
    if c.root ≠ rootDir then pure false
    else do
      lift ("dracut exited with ".toList ++ ·) (fun t => do
        let image ← dracut destination version kernelImage t
        write env.os destination image t)
      return true

def generatedInitrd (c : Context) (version : Str) : Path :=
  (entryDirectory c version).child "initrd".toList

def chooseInitrds (version : Str) (kernelImage : Path) (supplied : List Path) :
    Run (List Path) :=
  if supplied ≠ [] then pure supplied
  else do
    let t ← get
    match adjacentInitrd env t kernelImage with
    | some candidate => pure [candidate]
    | none =>
      if c.layout = bls then do
        let generated ← generateInitrd env c version kernelImage (generatedInitrd c version)
        pure (if generated then [generatedInitrd c version] else [])
      else pure []

def copyInitrds (directory : Path) : List Path → Run (List Str)
  | [] => pure []
  | initrd :: initrds =>
    match initrd.fileName with
    | none => throw ("invalid initrd path ".toList ++ initrd.display)
    | some name => do
      copyImage env initrd (directory.child name)
      let names ← copyInitrds directory initrds
      return name :: names

def copyInitrdsFlat (directory : Path) : List Path → Run Unit
  | [] => pure ()
  | initrd :: initrds =>
    match initrd.fileName with
    | none => copyInitrdsFlat directory initrds
    | some name => do
      copyImage env initrd (directory.child name)
      copyInitrdsFlat directory initrds

end

def splitOnce (c : Char) (s : Str) : Option (Str × Str) :=
  match s.dropWhile (· ≠ c) with
  | [] => none
  | _ :: rest => some (s.takeWhile (· ≠ c), rest)

def trimMatches (c : Char) (s : Str) : Str :=
  ((s.dropWhile (· = c)).reverse.dropWhile (· = c)).reverse

def osRelease (os : Os) (t : Tree) (root : Path) : List (Str × Str) :=
  match ["/etc/os-release".toList, "/usr/lib/os-release".toList].findSome? (fun path =>
    readToString os t (rootedPath root (.parse path))) with
  | none => []
  | some contents => (textLines contents).filterMap (fun line =>
      (splitOnce '=' line).map (fun kv => (kv.1, trimMatches '"' kv.2)))

/-- The value of a key; a later line overrides an earlier one. -/
def lookupKey (values : List (Str × Str)) (key : Str) : Option Str :=
  (values.reverse.find? (·.1 = key)).map Prod.snd

def kernelCmdline (os : Os) (t : Tree) (root : Path) : Str :=
  match ["/etc/kernel/cmdline".toList, "/usr/lib/kernel/cmdline".toList].findSome? (fun path =>
    readToString os t (rootedPath root (.parse path))) with
  | some contents => join [' '] ((splitWhitespace contents).filter (fun w => w.head? ≠ some '#'))
  | none =>
    if root = rootDir then
      let running := (readToString os t (.parse "/proc/cmdline".toList)).getD []
      join [' '] ((splitWhitespace running).filter
        (fun w => ¬ "BOOT_IMAGE=".toList <+: w ∧ ¬ "initrd=".toList <+: w))
    else []

/-- The values of a loader entry. The files are named from the boot root on. -/
structure LoaderEntry where
  title : Str
  version : Str
  machineId : Option Str
  options : Str
  linux : List Str
  initrds : List (List Str)

def bootPath (names : List Str) : Str := names.flatMap ('/' :: ·)

def LoaderEntry.text (e : LoaderEntry) : Str :=
  "# Boot Loader Specification type#1 entry\n".toList ++
    "title      ".toList ++ e.title ++ "\nversion    ".toList ++ e.version ++ ['\n'] ++
    (match e.machineId with
      | none => []
      | some id => "machine-id ".toList ++ id ++ ['\n']) ++
    (if e.options = [] then [] else "options    ".toList ++ e.options ++ ['\n']) ++
    "linux      ".toList ++ bootPath e.linux ++ ['\n'] ++
    e.initrds.flatMap (fun initrd => "initrd     ".toList ++ bootPath initrd ++ ['\n'])

section

variable (env : Environment) (c : Context)

def loaderEntry (t : Tree) (version : Str) (initrds : List Str) : LoaderEntry where
  title := (lookupKey (osRelease env.os t c.root) "PRETTY_NAME".toList).getD
    ("Linux ".toList ++ version)
  version := version
  machineId := if c.machineId = some c.entryToken then some c.entryToken else none
  options := kernelCmdline env.os t c.root
  linux := [c.entryToken, version, "linux".toList]
  initrds := initrds.map (fun initrd => [c.entryToken, version, initrd])

def writeLoaderEntry (version : Str) (initrds : List Str) : Run Unit := do
  createDir env (entriesDirectory c)
  let t ← get
  lift (fun e => "cannot write ".toList ++ (entryPath c version).display ++ ": ".toList ++ e)
    (write env.os (entryPath c version) (loaderEntry env c t version initrds).text)

def installEntry (version : Str) (kernelImage : Path) (initrds : List Path) : Run Unit := do
  copyImage env kernelImage ((entryDirectory c version).child "linux".toList)
  let names ← copyInitrds env (entryDirectory c version) initrds
  writeLoaderEntry env c version names

def installFlat (version : Str) (kernelImage : Path) (initrds : List Path) : Run Unit := do
  createDir env c.bootRoot
  copyImage env kernelImage (flatImage c version)
  copyInitrdsFlat env c.bootRoot initrds

def moduleDirectory (t : Tree) (version : Str) : Option Path :=
  (["/usr/lib/modules".toList, "/lib/modules".toList].map
    (fun directory => modulesDir c.root directory version)).find? (isDir env.os t)

def indexFiles : List Str :=
  ["modules.alias".toList, "modules.alias.bin".toList, "modules.builtin.bin".toList,
    "modules.builtin.alias.bin".toList, "modules.dep".toList, "modules.dep.bin".toList,
    "modules.devname".toList, "modules.softdep".toList, "modules.weakdep".toList,
    "modules.symbols".toList, "modules.symbols.bin".toList]

def removeFiles (directory : Path) : List Str → Run Unit
  | [] => pure ()
  | name :: names => do
    lift (fun e => "cannot remove ".toList ++ (directory.child name).display ++ ": ".toList ++ e)
      (removeFile env.os (directory.child name))
    removeFiles directory names

def removeModuleIndex (version : Str) : Run Unit := do
  let t ← get
  match (if env.indexDisabled then none else moduleDirectory env c t version) with
  | none => pure ()
  | some directory =>
    if env.keepsIndex && isDir env.os t (directory.child "kernel".toList) then pure ()
    else removeFiles env directory indexFiles

def addModuleIndex (version : Str) : Run Unit := do
  let t ← get
  match (if env.indexDisabled then none else moduleDirectory env c t version), env.depmod with
  | some directory, some depmod =>
    if isDir env.os t (directory.child "kernel".toList) then lift id (depmod version) else pure ()
  | _, _ => pure ()

def runAdminPlugins (operation version : Str) (image : Path) (initrds : List Path) : Run Unit :=
  match env.plugins with
  | none => pure ()
  | some plugins => lift id (plugins operation version image initrds)

def removePath (p : Path) : Run Unit :=
  lift (fun e => "cannot remove ".toList ++ p.display ++ ": ".toList ++ e) (removeAll env.os p)

/-- The arguments and the initrds, with a generated one in its place. -/
def prepare (operands : List Str) : Run (Str × Path × List Path) := do
  let (version, kernelImage, supplied) ← addArguments env c operands
  (if makeEntry c then createDir env (entryDirectory c version) else pure ())
  let initrds ← chooseInitrds env c version kernelImage supplied
  return (version, kernelImage, initrds)

def add (operands : List Str) : Run Unit := do
  let (version, kernelImage, initrds) ← prepare env c operands
  (if usesEntry c then installEntry env c version kernelImage initrds
    else installFlat env c version kernelImage initrds)
  addModuleIndex env c version
  runAdminPlugins env "add".toList version kernelImage initrds

def remove (version : Str) : Run Unit := do
  validateVersion version
  removeModuleIndex env c version
  runAdminPlugins env "remove".toList version (defaultImage c version) []
  removePath env (entryPath c version)
  removePath env (entryDirectory c version)
  (if c.layout ≠ bls then removePath env (flatImage c version) else pure ())

end

end FractalD.Kernel.Install
