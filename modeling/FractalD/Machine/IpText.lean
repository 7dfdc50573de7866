import FractalD.Machine.Wire

namespace FractalD.Machine.IpText

open FractalD.Machine.CString FractalD.Machine.Text

/-- `{:x}`. -/
def printHex (n : Nat) : Str := Nat.toDigits 16 n

/-- `Ipv4Addr::to_string`. -/
def printIpv4 (bytes : List UInt8) : Str := join ['.'] (bytes.map fun b => printUnsigned b.toNat)

/-- The longest run of zeros and the one that is being read, each as its start and its length. -/
def zeroRun (segments : List Nat) : Nat × Nat :=
  (segments.zipIdx.foldl (fun ((longest, current) : (Nat × Nat) × (Nat × Nat)) (segment, i) =>
    if segment = 0 then
      let current := (if current.2 = 0 then i else current.1, current.2 + 1)
      (if current.2 > longest.2 then current else longest, current)
    else (longest, (0, 0))) ((0, 0), (0, 0))).1

def printSegments (segments : List Nat) : Str := join [':'] (segments.map printHex)

/-- `char::to_digit`. -/
def toDigit (radix : Nat) (c : Char) : Option Nat :=
  let value :=
    if c.isDigit then c.toNat - 48
    else if c.isLower then c.toNat - 87
    else if c.isUpper then c.toNat - 55
    else radix
  if value < radix then some value else none

/-- The digits at the beginning of a text, and what follows them. -/
def takeDigits (radix : Nat) : Str → List Nat × Str
  | [] => ([], [])
  | c :: s =>
    match toDigit radix c with
    | some d => (d :: (takeDigits radix s).1, (takeDigits radix s).2)
    | none => ([], c :: s)

def digitsValue (radix : Nat) (digits : List Nat) : Nat :=
  digits.foldl (fun value d => value * radix + d) 0

/-- A reader that fails leaves the text as it was. -/
abbrev Reader (α : Type) := Str → Option (α × Str)

/-- `Parser::read_given_char`. -/
def readGivenChar (target : Char) : Reader Unit
  | [] => none
  | c :: s => if c = target then some ((), s) else none

/-- `Parser::read_separator`. -/
def readSeparator {α : Type} (separator : Char) (index : Nat) (inner : Reader α) : Reader α :=
  fun s => if index > 0 then readGivenChar separator s >>= fun (_, s) => inner s else inner s

/-- `Parser::read_number`, for an integer of so many bits. -/
def readNumber (radix : Nat) (maxDigits : Option Nat) (allowZeroPrefix : Bool) (bits : Nat) :
    Reader Nat :=
  fun s =>
    let (digits, rest) := takeDigits radix s
    if maxDigits.any (digits.length > ·) ∨ digits = [] then none
    else if ¬ allowZeroPrefix ∧ s.head? = some '0' ∧ digits.length > 1 then none
    else if digitsValue radix digits < 2 ^ bits then some (digitsValue radix digits, rest)
    else none

/-- The octets of an `Ipv4Addr`. -/
structure Ipv4Addr where
  a : UInt8
  b : UInt8
  c : UInt8
  d : UInt8
  deriving DecidableEq

def Ipv4Addr.octets (ip : Ipv4Addr) : List UInt8 := [ip.a, ip.b, ip.c, ip.d]

/-- The segments of an `Ipv6Addr`. -/
structure Ipv6Addr where
  segments : List UInt16
  eight : segments.length = 8
  deriving DecidableEq

def Ipv6Addr.ofGroups (groups : List UInt16) : Ipv6Addr where
  segments := (groups ++ List.replicate 8 0).take 8
  eight := by simp

def readOctet (index : Nat) : Reader UInt8 :=
  readSeparator '.' index fun s =>
    (readNumber 10 (some 3) false 8 s).map fun (n, s) => (UInt8.ofNat n, s)

/-- `Parser::read_ipv4_addr`. -/
def readIpv4 : Reader Ipv4Addr := fun s => do
  let (a, s) ← readOctet 0 s
  let (b, s) ← readOctet 1 s
  let (c, s) ← readOctet 2 s
  let (d, s) ← readOctet 3 s
  some (⟨a, b, c, d⟩, s)

def readGroup : Reader UInt16 := fun s =>
  (readNumber 16 (some 4) true 16 s).map fun (n, s) => (UInt16.ofNat n, s)

/-- The two groups of an IPv4 address. -/
def Ipv4Addr.groups (ip : Ipv4Addr) : List UInt16 :=
  [UInt16.ofNat (ip.a.toNat * 256 + ip.b.toNat), UInt16.ofNat (ip.c.toNat * 256 + ip.d.toNat)]

/-- `read_groups`, with the groups that are read and as many left to read. It stops at what is
not a group, and tells whether the last two were an IPv4 address. -/
def readGroups : Nat → List UInt16 → Str → (List UInt16 × Bool) × Str
  | 0, groups, s => ((groups, false), s)
  | left + 1, groups, s =>
    match if 0 < left then readSeparator ':' groups.length readIpv4 s else none with
    | some (ip, s) => ((groups ++ ip.groups, true), s)
    | none =>
      match readSeparator ':' groups.length readGroup s with
      | some (group, s) => readGroups left (groups ++ [group]) s
      | none => ((groups, false), s)

/-- `Parser::read_ipv6_addr`. -/
def readIpv6 : Reader Ipv6Addr := fun s =>
  let ((head, ipv4), s) := readGroups 8 [] s
  if head.length = 8 then some (.ofGroups head, s)
  else if ipv4 then none
  else do
    let (_, s) ← readGivenChar ':' s
    let (_, s) ← readGivenChar ':' s
    let ((tail, _), s) := readGroups (8 - (head.length + 1)) [] s
    some (.ofGroups (head ++ List.replicate (8 - tail.length - head.length) 0 ++ tail), s)

/-- `Ipv6Addr::to_ipv4_mapped`. -/
def Ipv6Addr.toIpv4Mapped (ip : Ipv6Addr) : Option Ipv4Addr :=
  match ip.segments with
  | [0, 0, 0, 0, 0, 0xffff, ab, cd] =>
    some ⟨(ab >>> 8).toUInt8, ab.toUInt8, (cd >>> 8).toUInt8, cd.toUInt8⟩
  | _ => none

/-- `Ipv6Addr::to_string`. -/
def Ipv6Addr.print (ip : Ipv6Addr) : Str :=
  match ip.toIpv4Mapped with
  | some mapped => "::ffff:".toList ++ printIpv4 mapped.octets
  | none =>
    let segments := ip.segments.map UInt16.toNat
    let (start, length) := zeroRun segments
    if length > 1 then
      printSegments (segments.take start) ++ "::".toList ++ printSegments (segments.drop (start + length))
    else printSegments segments

inductive SocketAddr
  | v4 (ip : Ipv4Addr) (port : UInt16)
  | v6 (ip : Ipv6Addr) (port : UInt16) (flowinfo scopeId : UInt32)
  deriving DecidableEq

def printScope (scopeId : UInt32) : Str :=
  if scopeId = 0 then [] else '%' :: printUnsigned scopeId.toNat

/-- `SocketAddr::to_string`. The flow information is left out. -/
def SocketAddr.print : SocketAddr → Str
  | .v4 ip port => printIpv4 ip.octets ++ ':' :: printUnsigned port.toNat
  | .v6 ip port _ scopeId =>
    '[' :: (ip.print ++ printScope scopeId ++ "]:".toList ++ printUnsigned port.toNat)

/-- `Parser::read_port`. -/
def readPort : Reader UInt16 := fun s => do
  let (_, s) ← readGivenChar ':' s
  let (n, s) ← readNumber 10 none true 16 s
  some (UInt16.ofNat n, s)

/-- `Parser::read_scope_id`. -/
def readScopeId : Reader UInt32 := fun s => do
  let (_, s) ← readGivenChar '%' s
  let (n, s) ← readNumber 10 none true 32 s
  some (UInt32.ofNat n, s)

/-- `Parser::read_socket_addr_v4`. -/
def readSocketAddrV4 : Reader SocketAddr := fun s => do
  let (ip, s) ← readIpv4 s
  let (port, s) ← readPort s
  some (.v4 ip port, s)

/-- `Parser::read_socket_addr_v6`. -/
def readSocketAddrV6 : Reader SocketAddr := fun s => do
  let (_, s) ← readGivenChar '[' s
  let (ip, s) ← readIpv6 s
  let (scopeId, s) := (readScopeId s).getD (0, s)
  let (_, s) ← readGivenChar ']' s
  let (port, s) ← readPort s
  some (.v6 ip port 0 scopeId, s)

/-- `str::parse::<SocketAddr>`. The text is to end with the address. -/
def SocketAddr.parse (s : Str) : Option SocketAddr :=
  match (readSocketAddrV4 s).or (readSocketAddrV6 s) with
  | some (address, []) => some address
  | some (_, _ :: _) | none => none

end FractalD.Machine.IpText
