import FractalD.Machine.Paths
import FractalD.Machine.Text

namespace FractalD.Storage.Fstab

open FractalD.Machine.CString FractalD.Machine.Paths FractalD.Machine.Text

structure StorageError where
  line : Option Nat
  message : Str
  deriving DecidableEq, Repr

namespace StorageError

def atLine (line : Nat) (message : Str) : StorageError := ⟨some line, message⟩

def display (e : StorageError) : Str :=
  match e.line with
  | some line => "line ".toList ++ (toString line).toList ++ ": ".toList ++ e.message
  | none => e.message

end StorageError

/-- An entry of the table. Its target is a path. -/
structure FstabEntry where
  source : Str
  target : Str
  fstype : Str
  options : List Str
  dump : Nat
  pass : Nat
  line : Nat
  deriving DecidableEq, Repr

def networkTypes : List Str :=
  ["9p".toList, "ceph".toList, "cifs".toList, "davfs".toList, "glusterfs".toList,
    "lustre".toList, "nfs".toList, "nfs4".toList, "smb3".toList, "smbfs".toList, "sshfs".toList,
    "fuse.ceph".toList, "fuse.glusterfs".toList, "fuse.sshfs".toList]

namespace FstabEntry

variable (entry : FstabEntry)

def hasOption (name : Str) : Bool := name ∈ entry.options

def optionValue (name : Str) : Option Str :=
  entry.options.findSome? fun option => removePrefix (name ++ ['=']) option

def noauto : Bool := entry.hasOption "noauto".toList

def nofail : Bool := entry.hasOption "nofail".toList

def network : Bool := entry.hasOption "_netdev".toList || lowercase entry.fstype ∈ networkTypes

def swap : Bool := lowercase entry.fstype = "swap".toList

def mountOptions : List Str :=
  entry.options.filter fun option =>
    option ∉ ["defaults".toList, "auto".toList, "noauto".toList, "nofail".toList,
      "_netdev".toList] &&
    !"comment=".toList.isPrefixOf option && !"x-".toList.isPrefixOf option

/-- The paths above the target, as components, from the highest on. -/
def parentTargets : List (List Component) :=
  (((components entry.target).foldl (fun (known : List Component × List (List Component)) c =>
    match c with
    | .rootDir => ([.rootDir], known.2)
    | .normal _ =>
      let current := known.1 ++ [c]
      (current, if current ≠ components entry.target then known.2 ++ [current] else known.2)
    | .curDir | .parentDir => known) ([], []))).2

end FstabEntry

/-- What comes before a mark of a comment, which is not one after a backslash
that stands for itself. -/
def stripFrom : Bool → Str → Str
  | _, [] => []
  | escaped, c :: cs =>
    if c = '#' ∧ !escaped then [] else c :: stripFrom (c = '\\' && !escaped) cs

def stripComment (value : Str) : Str := stripFrom false value

def isOctal (b : UInt8) : Bool := 0x30 ≤ b && b ≤ 0x37

/-- Octal escapes are bytes; one above `\377` wraps around. -/
def decodeBytes : List UInt8 → List UInt8
  | a :: b :: c :: d :: bytes =>
    if a = 0x5c ∧ isOctal b ∧ isOctal c ∧ isOctal d then
      ((b - 0x30) * 64 + (c - 0x30) * 8 + (d - 0x30)) :: decodeBytes bytes
    else a :: decodeBytes (b :: c :: d :: bytes)
  | a :: bytes => a :: decodeBytes bytes
  | [] => []

/-- `String::from_utf8`. -/
def fromUtf8 (bytes : List UInt8) : Option Str :=
  (ByteArray.mk bytes.toArray).utf8Decode?.map Array.toList

def decodeField (value : Str) (line : Nat) : Except StorageError Str :=
  match fromUtf8 (decodeBytes (value.flatMap String.utf8EncodeChar)) with
  | some field => .ok field
  | none => .error (.atLine line "field is not valid UTF-8 after decoding".toList)

/-- `char::is_control`. -/
def isControl (c : Char) : Bool := c.toNat < 0x20 || (0x7f ≤ c.toNat && c.toNat ≤ 0x9f)

/-- The line as it is numbered in errors, and its fields. -/
structure TableEntry where
  fields : List Str
  line : Nat
  deriving DecidableEq, Repr

def decodeFields (line : Nat) (raw : List Str) : Except StorageError (List Str) :=
  raw.mapM fun value => do
    let decoded ← decodeField value line
    if decoded.any isControl then
      throw (.atLine line "field contains a control character".toList)
    pure decoded

def checkFields (line : Nat) (fields : List Str) : Except StorageError Unit := do
  if fields[1]? = some "none".toList ∧ fields[2]?.map lowercase ≠ some "swap".toList then
    throw (.atLine line "mount target none is valid only for swap entries".toList)
  if fields[1]? ≠ some "none".toList ∧ (fields[1]?.bind List.head?) ≠ some '/' then
    throw (.atLine line ("mount target is not absolute: ".toList ++ fields[1]?.getD []))
  if (fields[4]?).any fun value => (parseUnsigned 32 value).isNone then
    throw (.atLine line "dump field is not an unsigned integer".toList)
  if (fields[5]?).any fun value => (parseUnsigned 32 value).isNone then
    throw (.atLine line "pass field is not an unsigned integer".toList)

/-- The entry of a line; a crypttab needs fewer fields and has no checks on them. -/
def parseLine (crypttab : Bool) (physical : Str × Nat) : Except StorageError (Option TableEntry) := do
  let line := physical.2 + 1
  let content := trim (stripComment physical.1)
  if content = [] then return none
  let raw := splitWhitespace content
  let minimum := if crypttab then 2 else 4
  if raw.length < minimum ∨ raw.length > 6 then
    throw (.atLine line ("expected ".toList ++ (toString minimum).toList ++
      " to 6 fields, found ".toList ++ (toString raw.length).toList))
  let fields ← decodeFields line raw
  if crypttab then pure () else checkFields line fields
  pure (some ⟨fields, line⟩)

def parseTable (source : Str) (crypttab : Bool) : Except StorageError (List TableEntry) := do
  let entries ← (textLines source).zipIdx.mapM (parseLine crypttab)
  pure (entries.filterMap id)

def splitOptions (value : Str) : List Str := (value.splitOn ',').filter (· ≠ [])

def TableEntry.entry (t : TableEntry) : FstabEntry where
  source := t.fields[0]?.getD []
  target := t.fields[1]?.getD []
  fstype := t.fields[2]?.getD []
  options := splitOptions (t.fields[3]?.getD [])
  dump := (t.fields[4]?.bind (parseUnsigned 32)).getD 0
  pass := (t.fields[5]?.bind (parseUnsigned 32)).getD 0
  line := t.line

def parseFstab (source : Str) : Except StorageError (List FstabEntry) :=
  List.map TableEntry.entry <$> parseTable source false

/-- A byte that stands for itself in the name of a service. -/
def isPlain (b : UInt8) : Bool :=
  (Char.ofNat b.toNat).isAlphanum || b = 0x5f || b = 0x2e || b = 0x3a

def escapeByte (b : UInt8) : Str :=
  if isPlain b then [Char.ofNat b.toNat]
  else ['\\', 'x', Nat.digitChar (b.toNat / 16), Nat.digitChar (b.toNat % 16)]

def escapeComponent (value : Str) : Str :=
  (value.flatMap String.utf8EncodeChar).flatMap escapeByte

def mountServiceName (path : List Component) : Str :=
  "mount-".toList ++ join ['-'] ((path.filterMap Component.name?).map escapeComponent)

namespace FstabEntry

variable (entry : FstabEntry)

def mountServiceName : Str := Fstab.mountServiceName (components entry.target)

def swapServiceName : Str :=
  "swap-".toList ++ join ['-'] ((pathParts entry.source).map escapeComponent)

end FstabEntry

end FractalD.Storage.Fstab
