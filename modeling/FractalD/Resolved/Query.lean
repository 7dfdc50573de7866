import FractalD.Machine.Delimited
import FractalD.Machine.Result
import FractalD.Machine.Utf8
import FractalD.Machine.Wire
import FractalD.Resolved.Lossy

namespace FractalD.Resolved.Query

open FractalD.Machine.CString FractalD.Machine.Delimited FractalD.Machine.Dns
open FractalD.Machine.Result FractalD.Machine.Text FractalD.Machine.Utf8 FractalD.Machine.Wire
open FractalD.Resolved.Answers FractalD.Resolved.Lossy

/-- `u16::to_be_bytes`. -/
def toBeBytes (n : Nat) : Packet := [UInt8.ofNat (n / 2 ^ 8), UInt8.ofNat n]

def addLabel (name : Str) (sofar : Packet × Nat) (label : Str) : Except Str (Packet × Nat) :=
  let bytes := label.flatMap String.utf8EncodeChar
  if label = [] ∨ bytes.length > 63 ∨ ¬ label.all (·.toNat < 128) then
    throw ("invalid DNS label in ".toList ++ name)
  else pure (sofar.1 ++ UInt8.ofNat bytes.length :: bytes, sofar.2 + bytes.length + 1)

def withoutDots (name : Str) : Str := trimEnd (· = '.') name

def buildQuery (id : Nat) (name : Str) (recordType : Nat) : Except Str Packet := do
  let name := withoutDots name
  if name = [] then throw "DNS name is empty".toList
  let header := toBeBytes id ++ toBeBytes 0x0100 ++ toBeBytes 1 ++ [0, 0, 0, 0, 0, 0]
  let (packet, encoded) ← (name.splitOn '.').foldlM (addLabel name) (header, 0)
  if encoded > 255 then throw "DNS name is too long".toList
  pure (packet ++ 0 :: toBeBytes recordType ++ toBeBytes 1)

def encodeLabel (label : Str) : Packet :=
  UInt8.ofNat (label.flatMap String.utf8EncodeChar).length :: label.flatMap String.utf8EncodeChar

structure ValidLabel (label : Str) : Prop where
  nonempty : label ≠ []
  short : (label.flatMap String.utf8EncodeChar).length ≤ 63
  ascii : ∀ c ∈ label, c.toNat < 128

section

variable {packet before rest : Packet} {depth offset : Nat} {labels : List Str} {label : Str}

theorem readLabels_root (h : packet[offset]? = some 0) :
    readLabels packet depth offset labels = pure (join ['.'] labels, offset + 1) := by
  rw [readLabels]
  split
  next hnone =>
    rw [h] at hnone
    cases hnone
  next length hlength =>
    obtain rfl := Option.some.inj (h.symm.trans hlength)
    rfl

theorem plainLength : ∀ n < 64, UInt8.ofNat n &&& 0xc0 ≠ 0xc0 ∧ UInt8.ofNat n &&& 0xc0 = 0 ∧
    ¬ UInt8.ofNat n > 63 := by decide +kernel

theorem readLabels_label {n : Nat} {bytes : Packet} (h : packet[offset]? = some (UInt8.ofNat n))
    (hpos : 0 < n) (hn : n ≤ 63) (hsmall : offset + 1 + n < 2 ^ 64)
    (hslice : slice packet (offset + 1) (offset + 1 + n) = some bytes) :
    readLabels packet depth offset labels =
      readLabels packet depth (offset + 1 + n) (labels ++ [fromUtf8Lossy bytes]) := by
  obtain ⟨hpointer, hzero, hlong⟩ := plainLength n (by omega)
  have hnat : (UInt8.ofNat n).toNat = n := by
    rw [UInt8.toNat_ofNat', Nat.mod_eq_of_lt (by omega)]
  have hne : UInt8.ofNat n ≠ 0 := by
    intro he
    rw [he] at hnat
    have hzero : n = 0 := hnat.symm
    omega
  have hadd : checkedAdd (offset + 1) n = some (offset + 1 + n) := if_pos hsmall
  rw [readLabels]
  split
  next hnone =>
    rw [h] at hnone
    cases hnone
  next length hlength =>
    obtain rfl := Option.some.inj (h.symm.trans hlength)
    rw [if_neg hpointer, if_neg (not_or.mpr ⟨not_not.mpr hzero, hlong⟩), if_neg hne]
    split
    next hnone =>
      rw [hnat, hadd] at hnone
      cases hnone
    next stop hstop =>
      rw [hnat, hadd] at hstop
      obtain rfl := Option.some.inj hstop
      rw [hslice]

theorem readLabels_encoded (depth : Nat) (labels : List Str) {added : List Str}
    (hvalid : ∀ label ∈ added, ValidLabel label)
    (hpacket : packet = before ++ (added.flatMap encodeLabel ++ 0 :: rest))
    (hsmall : packet.length < 2 ^ 64) :
    readLabels packet depth before.length labels =
      pure (join ['.'] (labels ++ added),
        before.length + (added.flatMap encodeLabel).length + 1) := by
  induction added generalizing before labels with
  | nil =>
    have hroot : packet[before.length]? = some 0 := by simp [hpacket]
    rw [readLabels_root hroot, List.append_nil]
    rfl
  | cons label added ih =>
    obtain ⟨hlabel, hadded⟩ := List.forall_mem_cons.mp hvalid
    have hstart : packet[before.length]? =
        some (UInt8.ofNat (label.flatMap String.utf8EncodeChar).length) := by
      simp [hpacket, encodeLabel]
    have hpos : 0 < (label.flatMap String.utf8EncodeChar).length :=
      Nat.lt_of_lt_of_le (List.length_pos_of_ne_nil hlabel.nonempty) length_utf8_iff.1
    have hlength : packet.length = before.length + ((label.flatMap String.utf8EncodeChar).length +
        1 + ((added.flatMap encodeLabel).length + (rest.length + 1))) := by
      simp [hpacket, encodeLabel]
      omega
    have hslice : slice packet (before.length + 1)
        (before.length + 1 + (label.flatMap String.utf8EncodeChar).length) =
          some (label.flatMap String.utf8EncodeChar) := by
      have hsplit : packet = (before ++ [UInt8.ofNat (label.flatMap String.utf8EncodeChar).length]) ++
          (label.flatMap String.utf8EncodeChar ++ (added.flatMap encodeLabel ++ 0 :: rest)) := by
        simp [hpacket, encodeLabel]
      have hafter : before.length + 1 =
          (before ++ [UInt8.ofNat (label.flatMap String.utf8EncodeChar).length]).length := by simp
      rw [slice, if_pos ⟨by omega, by omega⟩, Nat.add_sub_cancel_left, hsplit, hafter,
        List.drop_left, List.take_left]
    rw [readLabels_label hstart hpos hlabel.short (by omega) hslice, lossy_utf8]
    have hrest := ih (labels ++ [label]) hadded
      (show packet = (before ++ encodeLabel label) ++ (added.flatMap encodeLabel ++ 0 :: rest) by
        rw [hpacket, List.flatMap_cons, List.append_assoc, List.append_assoc])
    have hnext : (before ++ encodeLabel label).length =
        before.length + 1 + (label.flatMap String.utf8EncodeChar).length := by
      simp [encodeLabel]
      omega
    rw [hnext] at hrest
    rw [hrest, List.append_assoc, List.singleton_append, List.flatMap_cons, List.length_append]
    simp only [encodeLabel, List.length_cons]
    congr 2
    omega

theorem addLabels_ok {name : Str} {labels : List Str} {sofar result : Packet × Nat}
    (h : labels.foldlM (addLabel name) sofar = .ok result) :
    (∀ label ∈ labels, ValidLabel label) ∧ result.1 = sofar.1 ++ labels.flatMap encodeLabel ∧
      result.2 = sofar.2 + (labels.flatMap encodeLabel).length := by
  induction labels generalizing sofar with
  | nil =>
    obtain rfl := pure_eq_ok.mp h
    simp
  | cons label labels ih =>
    rw [List.foldlM_cons] at h
    obtain ⟨next, hnext, h⟩ := bind_eq_ok.mp h
    obtain ⟨hvalid, hpacket, hencoded⟩ := ih h
    unfold addLabel at hnext
    dsimp only at hnext
    by_cases hbad : label = [] ∨ (label.flatMap String.utf8EncodeChar).length > 63 ∨
        ¬ label.all (·.toNat < 128)
    · rw [if_pos hbad] at hnext
      exact (throw_ne_ok.mp hnext).elim
    · rw [if_neg hbad] at hnext
      obtain rfl := pure_eq_ok.mp hnext
      rw [not_or, not_or, not_not] at hbad
      have hascii : ∀ c ∈ label, c.toNat < 128 := by simpa using hbad.2.2
      refine ⟨List.forall_mem_cons.mpr ⟨⟨hbad.1, Nat.not_lt.mp hbad.2.1, hascii⟩, hvalid⟩, ?_, ?_⟩
      · rw [hpacket, List.flatMap_cons, List.append_assoc]
        rfl
      · rw [hencoded, List.flatMap_cons, List.length_append]
        simp only [encodeLabel, List.length_cons]
        omega

/-- A name takes one octet more than it has characters, before the root. -/
theorem length_encoded {labels : List Str} (hne : labels ≠ [])
    (hvalid : ∀ label ∈ labels, ValidLabel label) :
    (labels.flatMap encodeLabel).length = (join ['.'] labels).length + 1 := by
  induction labels with
  | nil => exact absurd rfl hne
  | cons label labels ih =>
    obtain ⟨hlabel, hlabels⟩ := List.forall_mem_cons.mp hvalid
    have hone : (encodeLabel label).length = label.length + 1 := by
      rw [encodeLabel, List.length_cons, length_utf8_iff.2.mpr hlabel.ascii]
    by_cases hnil : labels = []
    · rw [hnil, join_singleton, List.flatMap_singleton, hone]
    · rw [List.flatMap_cons, List.length_append, hone, ih hnil hlabels, join_cons hnil,
        List.length_append, List.length_cons]
      omega

theorem buildQuery_ok {id recordType : Nat} {name : Str}
    (h : buildQuery id name recordType = .ok packet) :
    ∃ header : Packet, header.length = 12 ∧
      (∀ label ∈ (withoutDots name).splitOn '.', ValidLabel label) ∧
      packet = header ++ (((withoutDots name).splitOn '.').flatMap encodeLabel ++
        0 :: (toBeBytes recordType ++ toBeBytes 1)) ∧
      (((withoutDots name).splitOn '.').flatMap encodeLabel).length ≤ 255 := by
  unfold buildQuery at h
  obtain ⟨-, h⟩ := check_eq_ok.mp h
  obtain ⟨⟨labelled, encoded⟩, hlabels, h⟩ := bind_eq_ok.mp h
  obtain ⟨hlong, h⟩ := check_eq_ok.mp h
  obtain ⟨hvalid, hpacket, hencoded⟩ := addLabels_ok hlabels
  dsimp only at hpacket hencoded h hlong
  refine ⟨toBeBytes id ++ toBeBytes 0x0100 ++ toBeBytes 1 ++ [0, 0, 0, 0, 0, 0], rfl, hvalid, ?_,
    by omega⟩
  rw [← pure_eq_ok.mp h, hpacket]
  simp

end

/-- A query is read back as the name that it was made of, and the name is within the limits
exactly if it has no more than 253 characters. -/
theorem buildQuery_iff (id : Nat) (name : Str) (recordType : Nat) (packet : Packet)
    (h : buildQuery id name recordType = .ok packet) :
    (readName packet 12 0 = .ok (withoutDots name, packet.length - 4) ∧
      (∀ label ∈ (withoutDots name).splitOn '.', (label.flatMap String.utf8EncodeChar).length ≤ 63) ∧
      packet.length - 4 - 12 ≤ 255) ↔ (withoutDots name).length ≤ 253 := by
  obtain ⟨header, hheader, hvalid, hpacket, hencoded⟩ := buildQuery_ok h
  have hjoin : join ['.'] ((withoutDots name).splitOn '.') = withoutDots name :=
    List.intercalate_splitOn '.'
  have hne : (withoutDots name).splitOn '.' ≠ [] := List.splitOn_ne_nil _ _
  have hlength := length_encoded hne hvalid
  rw [hjoin] at hlength
  have htotal : packet.length = 12 + ((withoutDots name).length + 1) + 5 := by
    rw [hpacket, List.length_append, List.length_append, hlength, hheader]
    rfl
  have hread : readName packet 12 0 = .ok (withoutDots name, packet.length - 4) := by
    have hlabels := readLabels_encoded 0 [] hvalid hpacket (by omega)
    rw [hheader, hlength, List.nil_append, hjoin] at hlabels
    rw [readName, if_neg (by omega), hlabels, htotal]
    rfl
  constructor
  · rintro ⟨-, -, hshort⟩
    omega
  · intro hshort
    exact ⟨hread, fun label hlabel => (hvalid label hlabel).short, by omega⟩

/-- A name of three labels of the greatest length and a last one. -/
def longName (last : Nat) : Str :=
  let label := List.replicate 63 'a'
  label ++ '.' :: label ++ '.' :: label ++ '.' :: List.replicate last 'b'

def queryOf (name : Str) : Packet := (buildQuery 0xf001 name 1).toOption.getD []

theorem buildQuery_example :
    readName (queryOf "example.com.".toList) 12 0 = .ok ("example.com".toList, 25) :=
  ((buildQuery_iff 0xf001 "example.com.".toList 1 (queryOf "example.com.".toList)
    (by decide +kernel)).mpr (by decide +kernel)).1.trans (by decide +kernel)

/-- A name of 254 characters is accepted, and takes 256 octets. -/
theorem buildQuery_longName :
    buildQuery 0xf001 (longName 62) 1 = .ok (queryOf (longName 62)) ∧
      (queryOf (longName 62)).length - 4 - 12 = 256 := by
  constructor <;> decide +kernel

end FractalD.Resolved.Query
