import FractalD.Storage.Fstab
import Mathlib.Data.List.Sort
import Mathlib.Order.Lex
import Mathlib.Data.Char
import Mathlib.Data.List.Lex

namespace FractalD.Storage.Services

open FractalD.Machine.CString FractalD.Machine.Paths FractalD.Machine.Text
open FractalD.Storage.Fstab

def storagePrepareService : Str := "storage-prepare".toList

def storageProfile : Str := "storage".toList

structure GeneratedService where
  name : Str
  source : Str
  deriving DecidableEq, Repr

def deviceServiceName (source : Str) : Option Str :=
  if "/dev/".toList.isPrefixOf source then
    let stem := join ['-'] ((pathParts source).map escapeComponent)
    if stem = [] then none else some ("device-".toList ++ stem)
  else none

def canonicalFilesystemType (value : Str) : Str :=
  let value := lowercase value
  if value = "fat".toList ∨ value = "msdos".toList then "vfat".toList
  else if value = "ext".toList then "ext4".toList
  else value

def storagePrepareText : Str :=
  ("[service]\nkind=oneshot\nexec=/usr/bin/fractald storage-prepare\nremain_after_exit=true\n" ++
    "start_timeout=120s\n").toList

structure Dependencies where
  requires : List Str
  wants : List Str
  after : List Str
  before : List Str

def optionWords (key : String) (entry : FstabEntry) : List Str :=
  entry.options.flatMap fun option =>
    ((removePrefix (("x-fractald." ++ key ++ "=").toList) option).map splitWhitespace).getD []

/-- The device that has to be there, unless the entry may fail. -/
def requiredDevice (entry : FstabEntry) : List Str :=
  if entry.nofail then [] else (deviceServiceName entry.source).toList

def mountDependencies (entry : FstabEntry) (activeTargets : List (List Component)) :
    Dependencies :=
  let network := if entry.network then ["network-online".toList] else []
  let parents := (entry.parentTargets.filter (· ∈ activeTargets)).map mountServiceName
  { requires := requiredDevice entry ++ (if entry.nofail then [] else parents) ++
      optionWords "requires" entry
    wants := storagePrepareService :: network ++ (if entry.nofail then parents else []) ++
      optionWords "wants" entry
    after := storagePrepareService :: network ++ requiredDevice entry ++ parents ++
      optionWords "after" entry
    before := optionWords "before" entry }

def swapDependencies (entry : FstabEntry) : Dependencies where
  requires := requiredDevice entry ++ optionWords "requires" entry
  wants := storagePrepareService :: optionWords "wants" entry
  after := storagePrepareService :: requiredDevice entry ++ optionWords "after" entry
  before := []

def pushWords (key : String) (values : List Str) : Str :=
  if values = [] then [] else key.toList ++ '=' :: join [' '] values ++ ['\n']

def mountService (entry : FstabEntry) (activeTargets : List (List Component)) : Str :=
  let dependencies := mountDependencies entry activeTargets
  let fstype := canonicalFilesystemType entry.fstype
  let timeout := (entry.optionValue "x-fractald.mount-timeout".toList).orElse fun _ =>
    entry.optionValue "x-fractald.device-timeout".toList
  "[service]\nkind=mount\nremain_after_exit=true\n".toList ++
    "\n[dependencies]\n".toList ++ pushWords "requires" dependencies.requires ++
    pushWords "wants" dependencies.wants ++ pushWords "after" dependencies.after ++
    pushWords "before" dependencies.before ++
    "\n[conditions]\nmount_point=!".toList ++ entry.target ++
    "\n\n[mount]\nwhat=".toList ++ entry.source ++
    "\nwhere=".toList ++ entry.target ++
    (if lowercase fstype = "auto".toList then [] else "\ntype=".toList ++ fstype) ++
    (if entry.mountOptions = [] then [] else "\noptions=".toList ++ join [','] entry.mountOptions) ++
    (match timeout with
      | some value => "\ntimeout=".toList ++ value
      | none => []) ++
    "\ndirectory_mode=0755\n".toList

def swapService (entry : FstabEntry) : Str :=
  let dependencies := swapDependencies entry
  "[service]\nkind=swap\nremain_after_exit=true\n\n[dependencies]\n".toList ++
    pushWords "requires" dependencies.requires ++ pushWords "wants" dependencies.wants ++
    pushWords "after" dependencies.after ++
    "\n[swap]\nwhat=".toList ++ entry.source ++
    (if entry.mountOptions = [] then [] else "\noptions=".toList ++ join [','] entry.mountOptions) ++
    (match entry.optionValue "pri".toList with
      | some priority => "\npriority=".toList ++ priority
      | none => []) ++
    ['\n']

def profileText (wanted : List Str) : Str :=
  "[service]\nkind=group\nremain_after_exit=true\n\n[dependencies]\nwants=".toList ++
    join [' '] wanted ++ "\nafter=".toList ++
    join [' '] (wanted.insertionSort (· ≤ ·)) ++ ['\n']

def activeMounts (entries : List FstabEntry) : List FstabEntry :=
  entries.filter fun entry =>
    !entry.noauto && !entry.swap && decide (components entry.target ≠ [.rootDir])

def activeSwaps (entries : List FstabEntry) : List FstabEntry :=
  entries.filter fun entry => !entry.noauto && entry.swap

/-- The targets so far with the names of their services, and one more. -/
def addTarget (targets : List (List Component × Str)) (entry : FstabEntry) :
    Except StorageError (List (List Component × Str)) :=
  match targets.lookup (components entry.target) with
  | some previous =>
    .error (.atLine entry.line ("duplicate active mount target ".toList ++ entry.target ++
      " (already represented by ".toList ++ previous ++ [')']))
  | none => .ok ((components entry.target, entry.mountServiceName) :: targets)

/-- Fewer components come first, then what is less by its components, then by its line. -/
def mountBefore (a b : FstabEntry) : Bool :=
  ((compare (components a.target).length (components b.target).length).then
    ((compare (components a.target) (components b.target)).then (compare a.line b.line))).isLE

def swapBefore (a b : FstabEntry) : Bool :=
  ((compare a.source b.source).then (compare a.line b.line)).isLE

def svcFile (name source : Str) : GeneratedService := ⟨name ++ ".svc".toList, source⟩

def generateServices (entries : List FstabEntry) :
    Except StorageError (List GeneratedService) := do
  let _ ← (activeMounts entries).foldlM addTarget []
  let mounts := (activeMounts entries).insertionSort (mountBefore · ·)
  let swaps := (activeSwaps entries).insertionSort (swapBefore · ·)
  if mounts = [] ∧ swaps = [] then return []
  let activeTargets := mounts.map fun entry => components entry.target
  let wanted := storagePrepareService ::
    (mounts.map FstabEntry.mountServiceName ++ swaps.map FstabEntry.swapServiceName)
  let units := svcFile storagePrepareService storagePrepareText ::
    mounts.map (fun entry => svcFile entry.mountServiceName (mountService entry activeTargets)) ++
    swaps.map (fun entry => svcFile entry.swapServiceName (swapService entry)) ++
    [svcFile storageProfile (profileText wanted)]
  return units.insertionSort (fun left right => left.name ≤ right.name)

end FractalD.Storage.Services
