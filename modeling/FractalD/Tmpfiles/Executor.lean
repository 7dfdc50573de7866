import FractalD.Machine.FileCalls
import FractalD.Platform.Accounts
import FractalD.Tmpfiles.Globs
import FractalD.Tmpfiles.Rules

namespace FractalD.Tmpfiles.Executor

open FractalD.Machine.CString FractalD.Machine.FileTree FractalD.Machine.PathWalk
open FractalD.Machine.FileCalls FractalD.Machine.Text FractalD.Platform FractalD.Platform.Accounts
open FractalD.Tmpfiles.Globs FractalD.Tmpfiles.Rules

inductive Action
  | create
  | clean
  | remove
  | purge
  | catConfig
  | tldr
  deriving DecidableEq

structure Options where
  root : Option Path
  prefixes : List Str
  excludedPrefixes : List Str
  boot : Bool
  graceful : Bool
  dryRun : Bool

/-- What stands for the specifiers of a path. -/
structure Specifiers where
  bootId : Str
  machineId : Str
  runtime : Str
  state : Str
  home : Str
  user : Str
  uid : Nat

/-- What the system answers while one rule is applied. `now` is the clock when the age of a
path is tested, `stamp` the time that a call on a path leaves in the tree. -/
structure Os where
  cwd : Location
  now : Path → Int
  stamp : Path → Int
  arrange : Arrangement
  specifiers : Specifiers
  accounts : Database
  effectiveUid : Id
  effectiveGid : Id
  describe : Errno → Str

inductive Operation
  | makeDirs
  | openFile
  | write
  | setMode
  | setOwner
  | fifo
  | symlink
  | copy
  | removeFile
  | removeDir
  | removeDirAll
  deriving DecidableEq

/-- A call on a path, with the tree before it and after it. -/
structure Change where
  operation : Operation
  path : Path
  before : Node
  after : Node

/-- A rule on its way to be applied. -/
structure Application where
  options : Options
  os : Os
  rule : Rule
  action : Action
  tree : Node

structure World where
  tree : Node
  journal : List Change
  announced : List (Str × Path)
  applied : List Application

abbrev Io := EStateM Errno World
abbrev Exec := EStateM Str World

def reading {α : Type} (f : Node → Except Errno α) : Io α := fun w =>
  match f w.tree with
  | .ok a => .ok a w
  | .error e => .error e w

/-- A question about the tree that has an answer in any case. -/
def query {α : Type} (f : Node → α) : Exec α := fun w => .ok (f w.tree) w

def record (operation : Operation) (p : Path) (after : Node) (w : World) : World :=
  { w with tree := after, journal := w.journal ++ [⟨operation, p, w.tree, after⟩] }

def perform (operation : Operation) (p : Path) (call : Call) : Io PUnit := fun w =>
  match call w.tree with
  | .ok _ after => .ok ⟨⟩ (record operation p after w)
  | .error e after => .error e (record operation p after w)

def ioMessage {α : Type} (os : Os) (x : Io α) : Exec α := EStateM.adaptExcept os.describe x

/-- `fractald_chown_path`. -/
def chownPath (os : Os) (p : Path) (user group : Option Str) : Io PUnit := do
  let (uid, primaryGroup) ← reading fun _ =>
    (user.elim (.ok (noId, noId)) (resolveUid os.accounts) : Except Errno (Id × Id))
  let gid ← reading fun _ => group.elim (.ok primaryGroup) (resolveGid os.accounts)
  if uid = noId ∧ gid = noId then pure ⟨⟩
  else if uid = os.effectiveUid ∧ (gid = noId ∨ gid = os.effectiveGid) then pure ⟨⟩
  else
    let given := fun (id : Id) => if id = noId then none else some id.toNat
    perform .setOwner p (setOwner (given uid) (given gid) os.cwd p)

def containsNul (s : Str) : Bool := s.contains (Char.ofNat 0)

/-- With `--graceful`, what does not exist is no error. -/
def gracefully (options : Options) (os : Os) (x : Io PUnit) : Exec PUnit := fun w =>
  match x w with
  | .ok _ w => .ok ⟨⟩ w
  | .error e w => if options.graceful ∧ e = eNoEnt then .ok ⟨⟩ w else .error (os.describe e) w

def applyOwner (options : Options) (os : Os) (rule : Rule) (p : Path) : Exec PUnit :=
  let user := rule.user.filter (· ≠ ['-'])
  let group := rule.group.filter (· ≠ ['-'])
  if rule.user = none ∧ rule.group = none then pure ⟨⟩
  else if user.any containsNul then throw "tmpfiles user contains NUL".toList
  else if group.any containsNul then throw "tmpfiles group contains NUL".toList
  else if p.hasNul then throw "tmpfiles path contains NUL".toList
  else gracefully options os (chownPath os p user group)

def applyMode (os : Os) (rule : Rule) (p : Path) : Exec PUnit :=
  match rule.mode with
  | none => pure ⟨⟩
  | some mode => do
    let _ ← ioMessage os (reading (lstat os.cwd p))
    ioMessage os (perform .setMode p (setMode mode os.cwd p))

/-- The recursion ends where a path is longer than the system takes one to be. -/
def pathMax : Nat := 4096

def applyMetadata (options : Options) (os : Os) (rule : Rule) (recursive : Bool) :
    Nat → Path → Exec PUnit
  | 0, _ =>
    if rule.mode = none ∧ rule.user = none ∧ rule.group = none then pure ⟨⟩
    else throw (os.describe eNameTooLong)
  | depth + 1, p => do
    applyMode os rule p
    applyOwner options os rule p
    let dir ← query (pathIsDir os.cwd p)
    if recursive ∧ dir then
      let names ← ioMessage os (reading (readDir os.cwd p))
      (os.arrange.order p names).forM fun c =>
        applyMetadata options os rule true depth (p.child c)

def adjust (options : Options) (os : Os) (rule : Rule) (p : Path) (recursive : Bool) : Exec PUnit :=
  applyMetadata options os rule recursive (pathMax / 2) p

def present (os : Os) (p : Path) (t : Node) : Bool :=
  match lstat os.cwd p t with
  | .ok _ => true
  | .error _ => false

def removeOne (os : Os) (recursive : Bool) (p : Path) : Io PUnit := fun w =>
  match lstat os.cwd p w.tree with
  | .error e => if e = eNoEnt then .ok ⟨⟩ w else .error e w
  | .ok n =>
    if n.isDir then
      if recursive then perform .removeDirAll p (removeDirAll os.cwd (os.stamp p) p) w
      else perform .removeDir p (removeDir os.cwd (os.stamp p) p) w
    else perform .removeFile p (removeFile os.cwd (os.stamp p) p) w

def removeMatches (os : Os) (p : Path) (recursive : Bool) : Io PUnit :=
  if hasWildcard p then do
    let paths ← reading (expandGlob os.cwd os.arrange · p)
    paths.forM (removeOne os recursive)
  else removeOne os recursive p

def removeContents (os : Os) (p : Path) : Io PUnit := fun w =>
  match readDir os.cwd p w.tree with
  | .error e => if e = eNoEnt then .ok ⟨⟩ w else .error e w
  | .ok entries => ((os.arrange.order p entries).forM fun c => removeOne os true (p.child c)) w

def olderThan (os : Os) (p : Path) (age : Nat) (t : Node) : Bool :=
  match stat os.cwd p t with
  | .ok n => n.attributes.modified ≤ os.now p ∧ (age : Int) ≤ os.now p - n.attributes.modified
  | .error _ => false

def announce (options : Options) (operation : String) (p : Path) : Exec PUnit :=
  modify fun w =>
    if options.dryRun then { w with announced := w.announced ++ [(operation.toList, p)] } else w

def pathHasPrefix (path start : Str) : Bool :=
  let start := trimEnd (· == '/') start
  path = start ∨ (start ++ ['/']).isPrefixOf path

def selected (options : Options) (path : Str) : Bool :=
  (options.prefixes.isEmpty || options.prefixes.any (pathHasPrefix path)) &&
    !options.excludedPrefixes.any (pathHasPrefix path)

def specifier (s : Specifiers) (c : Char) : Option Str :=
  if c = '%' then some ['%']
  else if c = 'b' then some s.bootId
  else if c = 'm' then some s.machineId
  else if c = 't' then some s.runtime
  else if c = 'S' then some s.state
  else if c = 'h' then some s.home
  else if c = 'u' then some s.user
  else if c = 'U' then some (printUnsigned s.uid)
  else none

def expandSpecifiers (s : Specifiers) : Str → Str
  | '%' :: c :: rest => (specifier s c).getD ['%', c] ++ expandSpecifiers s rest
  | c :: rest => c :: expandSpecifiers s rest
  | [] => []

def resolvePath (options : Options) (text : Str) : Except Str Path :=
  let p := Path.parse text
  if p.absolute = false ∨ .up ∈ p.segments then
    .error ("path ".toList ++ text ++ " must be absolute and contain no '..'".toList)
  else
    -- `strip_prefix` also trims what follows the last name
    .ok ((options.root.getD ⟨true, [], false⟩).join
      ⟨false, p.segments.filter (· ≠ .here), false⟩)

def makeParent (os : Os) (p : Path) : Exec PUnit :=
  match p.parent with
  | none => pure ⟨⟩
  | some parent => ioMessage os (perform .makeDirs parent (makeDirs os.cwd (os.stamp p) parent))

def createDirectory (options : Options) (os : Os) (rule : Rule) (p : Path) : Exec PUnit := do
  announce options "create directory" p
  if options.dryRun then return
  ioMessage os (perform .makeDirs p (makeDirs os.cwd (os.stamp p) p))
  adjust options os rule p false

def adjustDirectory (options : Options) (os : Os) (rule : Rule) (p : Path) : Exec PUnit := do
  let there ← query (present os p)
  if there then
    announce options "adjust directory" p
    if options.dryRun then return
    adjust options os rule p false

def createFile (options : Options) (os : Os) (rule : Rule) (p : Path) : Exec PUnit := do
  announce options "create file" p
  if options.dryRun then return
  makeParent os p
  let mode := rule.mode.getD 0o644
  ioMessage os (perform .openFile p (openFile (some mode) (rule.kind = 'F') os.cwd (os.stamp p) p))
  if let some argument := rule.argument then
    ioMessage os (perform .write p (writeAll argument os.cwd (os.stamp p) p))
  adjust options os rule p false

def writeFile (options : Options) (os : Os) (rule : Rule) (p : Path) : Exec PUnit := do
  announce options "write file" p
  if options.dryRun then return
  let create := if rule.force then some (rule.mode.getD 0o644) else none
  ioMessage os (perform .openFile p (openFile create false os.cwd (os.stamp p) p))
  ioMessage os (perform .write p (writeAll (rule.argument.getD []) os.cwd (os.stamp p) p))

def createFifo (options : Options) (os : Os) (rule : Rule) (p : Path) : Exec PUnit := do
  announce options "create fifo" p
  if options.dryRun then return
  ioMessage os (perform .fifo p (openFifo (rule.mode.getD 0o644) os.cwd (os.stamp p) p))
  adjust options os rule p false

def createLink (options : Options) (os : Os) (rule : Rule) (p : Path) : Exec PUnit := do
  match rule.argument with
  | none => throw "symlink rule has no target".toList
  | some target =>
    announce options "create symlink" p
    if options.dryRun then return
    let there ← query (present os p)
    if there then
      if rule.force then ioMessage os (removeOne os true p) else return
    makeParent os p
    ioMessage os (perform .symlink p (makeLink (.parse target) os.cwd (os.stamp p) p))

def copy (options : Options) (os : Os) (rule : Rule) (p : Path) : Exec PUnit := do
  match rule.argument with
  | none => throw "copy rule has no source".toList
  | some source =>
    match resolvePath options (expandSpecifiers os.specifiers source) with
    | .error message => throw message
    | .ok source =>
      announce options "copy file" p
      if options.dryRun then return
      makeParent os p
      ioMessage os (perform .copy p (copyFile source os.cwd (os.stamp p) p))
      adjust options os rule p false

def adjustMetadata (options : Options) (os : Os) (rule : Rule) (p : Path) : Exec PUnit := do
  announce options "adjust metadata" p
  let there ← query (present os p)
  if options.dryRun = false ∧ there then adjust options os rule p (rule.kind = 'Z')

/-- Say what is removed, and remove it unless this is a dry run. -/
def removing (options : Options) (os : Os) (operation : String) (p : Path) (x : Io PUnit) :
    Exec PUnit := do
  announce options operation p
  if options.dryRun then return
  ioMessage os x

def create (options : Options) (os : Os) (rule : Rule) (p : Path) : Exec PUnit :=
  if rule.kind ∈ ['d', 'D', 'v', 'q', 'Q'] then createDirectory options os rule p
  else if rule.kind = 'e' then adjustDirectory options os rule p
  else if rule.kind ∈ ['f', 'F'] then createFile options os rule p
  else if rule.kind = 'w' then writeFile options os rule p
  else if rule.kind = 'p' then createFifo options os rule p
  else if rule.kind = 'L' then createLink options os rule p
  else if rule.kind = 'C' then copy options os rule p
  else if rule.kind ∈ ['z', 'Z'] then adjustMetadata options os rule p
  else if rule.kind ∈ ['r', 'R'] then
    removing options os "remove" p (removeMatches os p (rule.kind = 'R'))
  else pure ⟨⟩

def cleanOne (options : Options) (os : Os) (age : Nat) (p : Path) : Exec PUnit := do
  let old ← query (olderThan os p age)
  if old then removing options os "clean" p (removeOne os true p)

def clean (options : Options) (os : Os) (rule : Rule) (p : Path) : Exec PUnit :=
  match rule.age with
  | none => pure ⟨⟩
  | some age => do
    let dir ← query (pathIsDir os.cwd p)
    if dir then
      let entries ← ioMessage os (reading (readDir os.cwd p))
      (os.arrange.order p entries).forM fun c => cleanOne options os age (p.child c)
    else cleanOne options os age p

def remove (options : Options) (os : Os) (rule : Rule) (p : Path) : Exec PUnit :=
  if rule.kind ∈ ['D', 'R', 'r'] then
    removing options os "remove" p
      (if rule.kind = 'D' then removeContents os p else removeMatches os p true)
  else pure ⟨⟩

def purge (options : Options) (os : Os) (rule : Rule) (p : Path) : Exec PUnit :=
  if rule.kind ∈ ['d', 'D', 'e', 'v', 'q', 'Q', 'f', 'F', 'L', 'p', 'C', 'w'] then
    removing options os "purge" p (removeMatches os p (rule.kind ∈ ['d', 'D', 'v', 'q', 'Q']))
  else pure ⟨⟩

/-- The kinds of rules that are read and not applied. -/
def idleKinds : List Char := ['x', 'X', 'a', 'A', 'h', 'H', 't', 'T', 'c', 'b']

def act (options : Options) (os : Os) (rule : Rule) : Action → Path → Exec PUnit
  | .create, p => create options os rule p
  | .clean, p => clean options os rule p
  | .remove, p => remove options os rule p
  | .purge, p => purge options os rule p
  | .catConfig, _ | .tldr, _ => pure ⟨⟩

def apply (options : Options) (os : Os) (rule : Rule) (action : Action) : Exec PUnit :=
  if rule.kind ∈ idleKinds then pure ⟨⟩
  else
    match resolvePath options (expandSpecifiers os.specifiers rule.path) with
    | .error message => throw message
    | .ok p => act options os rule action p

/-- A configuration file, and what the system answers while each of its lines is applied. -/
structure ConfigurationFile where
  name : Str
  source : Except Errno Str
  os : Nat → Os

/-- Where an error occurred. -/
def located (file : ConfigurationFile) (index : Nat) (message : Str) : Str :=
  file.name ++ [':'] ++ printUnsigned (index + 1) ++ [':', ' '] ++ message

def processLine (durations : Durations) (options : Options) (action : Action)
    (file : ConfigurationFile) (index : Nat) (line : Str) : Exec PUnit :=
  EStateM.adaptExcept (located file index) <|
    match parseRule durations line with
    | .error message => throw message
    | .ok none => pure ⟨⟩
    | .ok (some rule) =>
      if rule.force ∧ ¬ options.boot then pure ⟨⟩
      else if ¬ selected options rule.path then pure ⟨⟩
      else do
        modify fun w =>
          { w with applied := w.applied ++ [⟨options, file.os index, rule, action, w.tree⟩] }
        apply options (file.os index) rule action

def processFile (durations : Durations) (options : Options) (action : Action)
    (file : ConfigurationFile) : Exec PUnit :=
  match file.source with
  | .error e => throw ("cannot read ".toList ++ file.name ++ [':', ' '] ++ (file.os 0).describe e)
  | .ok source =>
    (textLines source).zipIdx.forM fun (line, index) =>
      processLine durations options action file index line

/-- One run of the program. -/
structure Invocation where
  durations : Durations
  options : Options
  action : Action
  files : List ConfigurationFile

def run (i : Invocation) : Exec PUnit :=
  if i.action = .catConfig ∨ i.action = .tldr then pure ⟨⟩
  else i.files.forM (processFile i.durations i.options i.action)

/-- A system without entries, for examples. -/
def plainOs : Os :=
  ⟨[], fun _ => 60, fun _ => 60, .plain, ⟨[], [], [], [], [], [], 0⟩, emptyDatabase, 0, 0,
    printUnsigned⟩

def srv : Name := ⟨"srv".toList, by decide⟩

end FractalD.Tmpfiles.Executor
