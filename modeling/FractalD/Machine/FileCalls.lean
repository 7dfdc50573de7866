import FractalD.Machine.Effect
import FractalD.Machine.PathWalk

namespace FractalD.Machine.FileCalls

open FractalD.Machine.CString FractalD.Machine.FileTree FractalD.Machine.PathWalk
open FractalD.Machine.Effect FractalD.Platform

abbrev Call := EStateM Errno Node PUnit

def removeEntry (stamp : Int) (c : Name) : Node → Node
  | .dir a es => .dir { a with modified := stamp } (es.filter (·.1 ≠ c))
  | n => n

def addEntry (stamp : Int) (c : Name) (m : Node) : Node → Node
  | .dir a es => .dir { a with modified := stamp } (es ++ [(c, m)])
  | n => n

/-- Take everything out of a directory. -/
def clear (stamp : Int) : Node → Node
  | .dir a [] => .dir a []
  | .dir a _ => .dir { a with modified := stamp } []
  | n => n

/-- The directory, the name and the node that a removal of the path is about. -/
def entryOf (cwd : Location) (p : Path) (t : Node) : Except Errno (Location × Name × Node) :=
  if p.hasNul then .error eInval
  else
    match p.segments.getLast? with
    | none => .error (if p.absolute then eBusy else eNoEnt)
    | some .here => .error eInval
    | some .up => .error eNotEmpty
    | some (.name c) =>
      match walk t true maxLinks (start cwd p) p.segments.dropLast with
      | .ok (.found d) =>
        match t.lookup (d ++ [c]) with
        | none => .error eNoEnt
        | some n => if p.slash ∧ n.isDir = false then .error eNotDir else .ok (d, c, n)
      | .ok (.absent _ _) => .error eNoEnt
      | .error e => .error e

def unlink (refused : Node → Option Errno) (cwd : Location) (stamp : Int) (p : Path) : Call :=
  fun t =>
    match entryOf cwd p t with
    | .error e => .error e t
    | .ok (d, c, n) =>
      match refused n with
      | some e => .error e t
      | none => .ok ⟨⟩ (t.update (removeEntry stamp c) d)

/-- `fs::remove_file`. -/
def removeFile : Location → Int → Path → Call :=
  unlink fun n => if n.isDir then some eIsDir else none

/-- `fs::remove_dir`. -/
def removeDir : Location → Int → Path → Call :=
  unlink fun n =>
    if n.isDir = false then some eNotDir
    else if n.entries.isEmpty then none else some eNotEmpty

/-- `fs::remove_dir_all`. A link is removed itself. -/
def removeDirAll (cwd : Location) (stamp : Int) (p : Path) : Call := fun t =>
  match found cwd false p t with
  | .error e => .error e t
  | .ok l =>
    match t.lookup l with
    | some (.dir _ _) => removeDir cwd stamp p (t.update (clear stamp) l)
    | some (.link _ _) => removeFile cwd stamp p t
    | _ => .error eNotDir t

def insertNode (follow : Bool) (n : Node) (cwd : Location) (stamp : Int) (p : Path) : Call :=
  fun t =>
    match locate cwd follow p t with
    | .error e => .error e t
    | .ok (.found _) => .error eExist t
    | .ok (.absent d c) => .ok ⟨⟩ (t.update (addEntry stamp c n) d)

def fresh (stamp : Int) (mode : Nat) : Attributes := ⟨stamp, mode, none, none⟩

/-- The umask is not part of the model: what is made has the mode asked for. -/
def makeDir (cwd : Location) (stamp : Int) (p : Path) : Call :=
  insertNode false (.dir (fresh stamp 0o777) []) cwd stamp { p with slash := false }

def ancestors (p : Path) : List Path :=
  p.components.inits.tail.map fun segments => ⟨p.absolute, segments, false⟩

/-- `fs::create_dir_all`. -/
def makeDirs (cwd : Location) (stamp : Int) (p : Path) : Call :=
  (ancestors p).forM fun q t =>
    if pathIsDir cwd q t then .ok ⟨⟩ t else makeDir cwd stamp q t

def makeLink (target : Path) (cwd : Location) (stamp : Int) (p : Path) : Call :=
  insertNode false (.link (fresh stamp 0o777) target) cwd stamp p

/-- What is there may be opened if it is a named pipe; all special files are taken for one. -/
def openFifo (mode : Nat) (cwd : Location) (stamp : Int) (p : Path) : Call := fun t =>
  match lstat cwd p t with
  | .ok (.special _) => .ok ⟨⟩ t
  | .ok _ => .error eExist t
  | .error e =>
    if e = eNoEnt then insertNode false (.special (fresh stamp mode)) cwd stamp p t
    else .error e t

def change (f : Node → Node) (follow : Bool) (cwd : Location) (p : Path) : Call := fun t =>
  match found cwd follow p t with
  | .error e => .error e t
  | .ok l => .ok ⟨⟩ (t.update f l)

def truncated (stamp : Int) : Node → Node
  | .file a _ => .file { a with modified := stamp } []
  | n => n

/-- Write over the beginning of a file. -/
def overwritten (stamp : Int) (text : Str) : Node → Node
  | .file a contents => .file { a with modified := stamp } (text ++ contents.drop text.length)
  | n => n

def withMode (mode : Nat) : Node → Node
  | .file a contents => .file { a with mode := mode } contents
  | .dir a es => .dir { a with mode := mode } es
  | .link a target => .link a target
  | .special a => .special { a with mode := mode }

def owned (user group : Option Nat) (a : Attributes) : Attributes :=
  { a with user := user.orElse fun _ => a.user, group := group.orElse fun _ => a.group }

def withOwner (user group : Option Nat) : Node → Node
  | .file a contents => .file (owned user group a) contents
  | .dir a es => .dir (owned user group a) es
  | .link a target => .link (owned user group a) target
  | .special a => .special (owned user group a)

/-- Open for writing; `create` gives the mode of a file that is made for it. -/
def openFile (create : Option Nat) (truncate : Bool) (cwd : Location) (stamp : Int) (p : Path) :
    Call := fun t =>
  match locate cwd true p t, create with
  | .error e, _ => .error e t
  | .ok (.absent _ _), none => .error eNoEnt t
  | .ok (.absent d c), some mode =>
    .ok ⟨⟩ (t.update (addEntry stamp c (.file (fresh stamp mode) [])) d)
  | .ok (.found l), _ =>
    if (t.lookup l).any Node.isDir then .error eIsDir t
    else .ok ⟨⟩ (if truncate then t.update (truncated stamp) l else t)

/-- `write_all` on the file that the path leads to. -/
def writeAll (text : Str) (cwd : Location) (stamp : Int) (p : Path) : Call :=
  change (overwritten stamp text) true cwd p

/-- `fs::set_permissions`. -/
def setMode (mode : Nat) (cwd : Location) (p : Path) : Call := change (withMode mode) true cwd p

/-- `lchown`. -/
def setOwner (user group : Option Nat) (cwd : Location) (p : Path) : Call :=
  change (withOwner user group) false cwd p

/-- `fs::copy`. The source is read after the target has been emptied. -/
def copyFile (source : Path) (cwd : Location) (stamp : Int) (p : Path) : Call := fun t =>
  match stat cwd source t with
  | .ok (.file a _) =>
    match openFile (some a.mode) true cwd stamp p t with
    | .error e t => .error e t
    | .ok _ t =>
      match stat cwd source t with
      | .ok (.file _ contents) =>
        change (fun n => withMode a.mode (overwritten stamp contents n)) true cwd p t
      | _ => .ok ⟨⟩ t
  | .ok _ => .error eInval t
  | .error e => .error e t

end FractalD.Machine.FileCalls
