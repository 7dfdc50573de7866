import FractalD.Control.State
import FractalD.Machine.Effect

namespace FractalD.Packages.Sync

open FractalD.Control.State FractalD.Core.Spec FractalD.Machine.CString
open FractalD.Machine.OrderedMap FractalD.Machine.Text

/-- The check of a service name by the configuration. -/
def validateName (name : Str) : Except Str Unit :=
  if name = [] ∨ name = ['.'] ∨ name = ['.', '.'] ∨ '/' ∈ name ∨
      name.any fun c => isWhitespace c || isControl c then
    .error ("invalid service name ".toList ++ name)
  else .ok ()

/-- The parser of descriptors, which checks the name that it is given. -/
structure ServiceParser where
  parse : Str → Str → Except Str ServiceSpec
  names : ∀ {source name spec}, parse source name = .ok spec →
    spec.name = name ∧ validateName name = .ok ()

structure DescriptorPath where
  directory : Str
  fileName : Str
  deriving DecidableEq, Repr

namespace DescriptorPath

def display (path : DescriptorPath) : Str := path.directory ++ '/' :: path.fileName

/-- `Path::file_stem`. -/
def fileStem (path : DescriptorPath) : Str :=
  let before := (path.fileName.reverse.dropWhile (· ≠ '.')).tail.reverse
  if path.fileName = ['.', '.'] ∨ before = [] then path.fileName else before

end DescriptorPath

/-- The descriptors of the packages, by the names of these. -/
abbrev Services := BTreeMap Str (List DescriptorPath)

section

variable (parser : ServiceParser) (read : DescriptorPath → Except Str Str)

def parseServiceFile (path : DescriptorPath) : Except Str ServiceSpec := do
  let source ← (read path).mapError fun e => "cannot read ".toList ++ path.display ++ ": ".toList ++ e
  if !svcSuffix.isSuffixOf path.fileName then
    throw ("service file does not use the .svc suffix: ".toList ++ path.display)
  parser.parse source path.fileStem

/-- Check a descriptor after others: the profiles and the owners of their services. -/
def validateOne (known : BTreeMap Str (BTreeSet Str) × BTreeMap Str Str) :
    Str × DescriptorPath → Except Str (BTreeMap Str (BTreeSet Str) × BTreeMap Str Str)
  | (package, path) => do
    let spec ← (parseServiceFile parser read path).mapError fun e =>
      "cannot validate ".toList ++ path.display ++ " from ".toList ++ package ++ ": ".toList ++ e
    let owner := package ++ ':' :: path.display
    match known.2.get spec.name with
    | some previous =>
      throw ("service ".toList ++ spec.name ++ " is declared more than once (".toList ++ previous ++
        " and ".toList ++ owner ++ ")".toList)
    | none => pure (known.1.insert spec.name (ofList spec.profiles), known.2.insert spec.name owner)

def declared (services : Services) : List (Str × DescriptorPath) :=
  services.entries.flatMap fun (package, paths) => paths.map (package, ·)

def validatePackageServices (services : Services) : Except Str (BTreeMap Str (BTreeSet Str)) :=
  Prod.fst <$> (declared services).foldlM (validateOne parser read) (empty, empty)

end

def indexPath (directory : Str) : Str := directory ++ "/packages.index".toList

/-- A line of the index: a service and its package. -/
def readLine (path : Str) (index : BTreeMap Str Str) (line : Str) : Except Str (BTreeMap Str Str) :=
  if '\t' ∈ line then
    .ok (index.insert (line.takeWhile (· ≠ '\t')) (line.dropWhile (· ≠ '\t')).tail)
  else .error ("invalid package index line in ".toList ++ path)

def readIndex (path : Str) : Option Str → Except Str (BTreeMap Str Str)
  | none => .ok empty
  | some source => ((textLines source).filter (· ≠ [])).foldlM (readLine path) empty

def indexText (services : Services) : Str :=
  (declared services).flatMap fun (package, path) => path.fileStem ++ '\t' :: package ++ ['\n']

/-- What a run leaves: the index, and which services are enabled. -/
structure State where
  index : Option Str
  enabled : Markers

abbrev Run := EStateM Str State

def orFail {α : Type} : Except Str α → Run α
  | .ok a => pure a
  | .error e => throw e

def withEnabled (describe : Str) (f : Markers → Except Str Markers) : Run Unit := do
  match f (← get).enabled with
  | .ok m => modify ({ · with enabled := m })
  | .error e => throw (describe ++ e)

def disableStale (service : Str) : Run Unit :=
  withEnabled ("cannot disable removed service ".toList ++ service ++ ": ".toList) (disable service)

def enableChosen (service : Str) : Run Unit :=
  withEnabled ("cannot enable ".toList ++ service ++ ": ".toList) (enable service)

def disableInactive (service : Str) : Run Unit :=
  withEnabled ("cannot disable inactive package service ".toList ++ service ++ ": ".toList)
    (disable service)

/-- The services of the index that no package has any more. -/
def stale (previous : BTreeMap Str Str) (profiles : BTreeMap Str (BTreeSet Str)) : List Str :=
  previous.keys.filter fun name => !profiles.contains name

/-- The services of the packages that belong to the active profile. -/
def chosen (profiles : BTreeMap Str (BTreeSet Str)) (active : Str) : List Str :=
  (profiles.filterKeys fun _ of => of.contains active).keys

/-- The services of the index that do not. -/
def inactive (previous : BTreeMap Str Str) (profiles : BTreeMap Str (BTreeSet Str))
    (active : Str) : List Str :=
  previous.keys.filter fun name => name ∉ chosen profiles active

/-- Bring the enabled services up to date, and write the index. Whether the daemon
then reloads does not change either of them. -/
def syncPackages (parser : ServiceParser) (read : DescriptorPath → Except Str Str) (directory : Str)
    (services : Services) (active : Str) : Run Unit := do
  let profiles ← orFail (validatePackageServices parser read services)
  let previous ← orFail (readIndex (indexPath directory) (← get).index)
  (stale previous profiles).forM disableStale
  (chosen profiles active).forM enableChosen
  (inactive previous profiles active).forM disableInactive
  modify ({ · with index := some (indexText services) })

end FractalD.Packages.Sync
