import FractalD.Machine.Dns
import FractalD.Machine.IpText

namespace FractalD.Resolved.Answers

open FractalD.Machine.CString FractalD.Machine.Dns FractalD.Machine.Text
open FractalD.Machine.IpText (printHex printIpv4 zeroRun printSegments)

/-- What ends a function early. An index past the end of a slice is a panic. -/
inductive Failure
  | message (text : Str)
  | panic
  deriving DecidableEq, Repr

abbrev Parsed (α : Type) := Except Failure α

def fail {α : Type} (text : String) : Parsed α := throw (.message text.toList)

/-- `packet[index]`. -/
def byteAt (packet : Packet) (index : Nat) : Parsed UInt8 :=
  match packet[index]? with
  | some byte => pure byte
  | none => throw .panic

/-- `u16::from_be_bytes` of two bytes of a packet. -/
def u16At (packet : Packet) (index : Nat) : Parsed Nat := u16From (byteAt packet) index

def u32At (packet : Packet) (index : Nat) : Parsed Nat := u32From (byteAt packet) index

/-- `usize::checked_add`. -/
def checkedAdd (a b : Nat) : Option Nat := if a + b < 2 ^ 64 then some (a + b) else none

theorem checkedAdd_some {a b c : Nat} (h : checkedAdd a b = some c) : c = a + b := by
  rw [checkedAdd, Option.ite_none_right_eq_some] at h
  exact (Option.some.inj h.2).symm

def isContinuation (b : UInt8) : Bool := 0x80 ≤ b && b ≤ 0xbf

/-- How many bytes follow the first of a character, and between which the next lies. -/
def sequence (b : UInt8) : Option (Nat × UInt8 × UInt8) :=
  if 0xc2 ≤ b ∧ b ≤ 0xdf then some (1, 0x80, 0xbf)
  else if b = 0xe0 then some (2, 0xa0, 0xbf)
  else if b = 0xed then some (2, 0x80, 0x9f)
  else if 0xe1 ≤ b ∧ b ≤ 0xef then some (2, 0x80, 0xbf)
  else if b = 0xf0 then some (3, 0x90, 0xbf)
  else if 0xf1 ≤ b ∧ b ≤ 0xf3 then some (3, 0x80, 0xbf)
  else if b = 0xf4 then some (3, 0x80, 0x8f)
  else none

/-- The character of a sequence of bytes that is complete. -/
def decodeSequence (first : UInt8) (rest : List UInt8) : Char :=
  Char.ofNat (rest.foldl (fun value b => value * 64 + (b &&& 0x3f).toNat)
    (first.toNat % 2 ^ (6 - rest.length)))

/-- The first characters of `String::from_utf8_lossy`, at most one for each byte. What begins a
character and does not complete it is replaced as a whole. -/
def lossyFrom : Nat → List UInt8 → Str
  | 0, _ => []
  | _, [] => []
  | n + 1, b :: bytes =>
    if b < 0x80 then Char.ofNat b.toNat :: lossyFrom n bytes
    else
      match sequence b with
      | none => '\uFFFD' :: lossyFrom n bytes
      | some (more, low, high) =>
        let rest := ((bytes.take more).zipIdx.takeWhile fun (c, i) =>
          if i = 0 then low ≤ c && c ≤ high else isContinuation c).map Prod.fst
        (if rest.length = more then decodeSequence b rest else '\uFFFD') ::
          lossyFrom n (bytes.drop rest.length)

def fromUtf8Lossy (bytes : List UInt8) : Str := lossyFrom bytes.length bytes

/-- The name that is read of labels on, with the labels before, and where it ends. A pointer is
followed at most sixteen times. -/
def readLabels (packet : Packet) (depth offset : Nat) (labels : List Str) : Parsed (Str × Nat) :=
  match _hlength : packet[offset]? with
  | none => fail "DNS name is truncated"
  | some length =>
    if length &&& 0xc0 = 0xc0 then
      match packet[offset + 1]? with
      | none => fail "DNS name pointer is truncated"
      | some second =>
        let pointer := (length &&& 0x3f).toNat <<< 8 ||| second.toNat
        if _hdeep : depth + 1 > 16 ∨ pointer ≥ packet.length then fail "invalid or cyclic DNS name"
        else do
          let (suffix, _) ← readLabels packet (depth + 1) pointer []
          pure (join ['.'] (if suffix = [] then labels else labels ++ [suffix]), offset + 2)
    else if length &&& 0xc0 ≠ 0 ∨ length > 63 then fail "invalid DNS label length"
    else if length = 0 then pure (join ['.'] labels, offset + 1)
    else
      match _hstop : checkedAdd (offset + 1) length.toNat with
      | none => fail "DNS label overflow"
      | some stop =>
        match slice packet (offset + 1) stop with
        | none => fail "DNS label is truncated"
        | some label => readLabels packet depth stop (labels ++ [fromUtf8Lossy label])
termination_by (16 - depth, packet.length - offset)
decreasing_by
  · left
    omega
  · have hinside := (List.getElem?_eq_some_iff.mp _hlength).1
    have hafter := checkedAdd_some _hstop
    right
    omega

def readName (packet : Packet) (start depth : Nat) : Parsed (Str × Nat) :=
  if depth > 16 ∨ start ≥ packet.length then fail "invalid or cyclic DNS name"
  else readLabels packet depth start []

/-- `{:02x}`. -/
def printHexByte (b : UInt8) : Str := if b < 16 then '0' :: printHex b.toNat else printHex b.toNat

/-- `Ipv6Addr::to_string`. -/
def printIpv6 (bytes : List UInt8) : Str :=
  let segments := (List.range 8).map fun i => u16 bytes (2 * i)
  if segments.take 6 = [0, 0, 0, 0, 0, 0xffff] then "::ffff:".toList ++ printIpv4 (bytes.drop 12)
  else
    let (start, length) := zeroRun segments
    if length > 1 then
      printSegments (segments.take start) ++ "::".toList ++ printSegments (segments.drop (start + length))
    else printSegments segments

def formatRdata (packet : Packet) (start length recordType : Nat) : Parsed Str :=
  match checkedAdd start length with
  | none => fail "DNS record overflow"
  | some stop =>
    match slice packet start stop with
    | none => fail "DNS record is truncated"
    | some data =>
      if recordType = 1 ∧ length = 4 then do
        let a ← byteAt data 0
        let b ← byteAt data 1
        let c ← byteAt data 2
        let d ← byteAt data 3
        pure (printIpv4 [a, b, c, d])
      else if recordType = 28 ∧ length = 16 then
        -- copying between slices of different lengths is a panic
        if data.length ≠ 16 then throw .panic else pure (printIpv6 data)
      else if recordType ∈ [2, 5, 12] then do
        let (name, _) ← readName packet start 0
        pure name
      else if recordType = 16 then pure (fromUtf8Lossy data)
      else pure (data.flatMap printHexByte)

structure DnsAnswer where
  name : Str
  recordType : Nat
  dnsClass : Nat
  ttl : Nat
  data : Str
  deriving DecidableEq, Repr

def readQuestions (packet : Packet) : Nat → Nat → Parsed Nat
  | 0, offset => pure offset
  | questions + 1, offset => do
    let (_, stop) ← readName packet offset 0
    match checkedAdd stop 4 with
    | none => fail "DNS question overflow"
    | some offset =>
      if offset > packet.length then fail "DNS question is truncated"
      else readQuestions packet questions offset

def readAnswer (packet : Packet) (offset : Nat) : Parsed (DnsAnswer × Nat) := do
  let (name, offset) ← readName packet offset 0
  if offset + 10 > packet.length then fail "DNS answer header is truncated"
  else do
    let recordType ← u16At packet offset
    let dnsClass ← u16At packet (offset + 2)
    let ttl ← u32At packet (offset + 4)
    let dataLength ← u16At packet (offset + 8)
    match checkedAdd (offset + 10) dataLength with
    | none => fail "DNS answer overflow"
    | some dataEnd =>
      if dataEnd > packet.length then fail "DNS answer data is truncated"
      else do
        let data ← formatRdata packet (offset + 10) dataLength recordType
        pure (⟨name, recordType, dnsClass, ttl, data⟩, dataEnd)

def readAnswers (packet : Packet) : Nat → Nat → Parsed (List DnsAnswer)
  | 0, _ => pure []
  | answers + 1, offset => do
    let (answer, offset) ← readAnswer packet offset
    let output ← readAnswers packet answers offset
    pure (answer :: output)

def parseAnswers (packet : Packet) : Parsed (List DnsAnswer) :=
  if packet.length < 12 then fail "DNS response is truncated"
  else do
    let flags ← byteAt packet 3
    let responseCode := flags &&& 0x0f
    if responseCode ≠ 0 then
      throw (.message ("DNS server returned response code ".toList ++ printUnsigned responseCode.toNat))
    else do
      let questions ← u16At packet 4
      let offset ← readQuestions packet questions 12
      let answers ← u16At packet 6
      readAnswers packet answers offset

example : printIpv6 [0x20, 1, 0xd, 0xb8, 0, 0, 0, 0, 0, 0, 0, 0, 0, 0, 0, 1] = "2001:db8::1".toList := by
  decide

end FractalD.Resolved.Answers
