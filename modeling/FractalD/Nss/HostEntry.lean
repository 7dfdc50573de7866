import FractalD.Machine.AddressSpace
import FractalD.Nss.HostByName

namespace FractalD.Nss.HostEntry

open FractalD.Machine.AddressSpace FractalD.Nss.HostByName FractalD.Platform
open FractalD.Nss.Query (HErrno afInet netdbInternal netdbSuccess)

/-- The caller's buffer. -/
structure Buffer where
  address : BitVec 64
  buflen : BitVec 64

def Buffer.region (b : Buffer) : Region 64 := ⟨b.address, b.buflen.toNat⟩

/-- `fractald_nss_align`: the place of an object of the given alignment and size
behind `offset`, and the offset behind that object. -/
def align (b : Buffer) (offset alignment size : BitVec 64) : Option (BitVec 64 × BitVec 64) :=
  let address := b.address + offset
  let aligned := (address + alignment - 1) &&& ~~~(alignment - 1)
  let padding := aligned - address
  if padding > b.buflen - offset ∨ size > b.buflen - offset - padding then none
  else some (b.address + (offset + padding), offset + padding + size)

/-- A C string. The size of any object is a `size_t`. -/
structure CStr where
  bytes : List Byte
  nonzero : ∀ b ∈ bytes, b ≠ 0
  sized : bytes.length + 1 < 2 ^ 64

/-- A `fractald_nss_address`. -/
structure Address where
  family : BitVec 32
  bytes : Vector Byte 16

def addressSize : Nat := 20

/-- The `count` addresses. -/
structure Addresses where
  entries : List Address
  sized : addressSize * entries.length < 2 ^ 64

def Addresses.count (as : Addresses) : BitVec 64 := BitVec.ofNat 64 as.entries.length

/-- A `struct hostent`. -/
structure Hostent where
  hName : BitVec 64
  hAliases : BitVec 64
  hAddrtype : BitVec 32
  hLength : BitVec 32
  hAddrList : BitVec 64
  deriving DecidableEq, Repr

structure Outcome where
  status : NssStatus
  errnop : Errno
  hErrnop : HErrno
  result : Hostent
  memory : Memory 64

def addressLength (family : BitVec 32) : BitVec 64 :=
  if family = BitVec.ofNat 32 afInet then 4 else 16

def pointerSize : BitVec 64 := 8

def pointerBytes (p : BitVec 64) : List Byte :=
  (List.range 8).map (fun i => (p >>> (8 * i)).setWidth 8)

/-- The locals that the four calls of `fractald_nss_align` set. -/
structure Places where
  addressList : BitVec 64
  aliases : BitVec 64
  canonical : BitVec 64
  addressData : BitVec 64

def place (name : CStr) (count addressLength : BitVec 64) (b : Buffer) : Option Places := do
  let nameLength := BitVec.ofNat 64 name.bytes.length + 1
  let (addressList, offset) ← align b 0 pointerSize ((count + 1) * pointerSize)
  let (aliases, offset) ← align b offset pointerSize pointerSize
  let (canonical, offset) ← align b offset 1 nameLength
  let (addressData, _) ← align b offset 1 (count * addressLength)
  some ⟨addressList, aliases, canonical, addressData⟩

def addressBytes (addressLength : BitVec 64) (a : Address) : List Byte :=
  a.bytes.toList.take addressLength.toNat

/-- The loop over the addresses, from an index on. -/
def fill (addressList addressData addressLength : BitVec 64) :
    Nat → List Address → Memory 64 → Memory 64
  | _, [], m => m
  | index, address :: rest, m =>
    let p := addressData + BitVec.ofNat 64 index * addressLength
    let m := store m (addressList + BitVec.ofNat 64 index * pointerSize) (pointerBytes p)
    let m := store m p (addressBytes addressLength address)
    fill addressList addressData addressLength (index + 1) rest m

/-- `fractald_nss_hostent`. -/
def hostent (name : CStr) (family : BitVec 32) (addresses : Addresses) (result : Hostent)
    (b : Buffer) (m : Memory 64) : Outcome :=
  let length := addressLength family
  match place name addresses.count length b with
  | none => ⟨.tryAgain, eRange, netdbInternal, result, m⟩
  | some p =>
    let m := store m p.canonical (name.bytes ++ [0])
    let m := store m p.aliases (pointerBytes 0)
    let m := fill p.addressList p.addressData length 0 addresses.entries m
    let m := store m (p.addressList + addresses.count * pointerSize) (pointerBytes 0)
    ⟨.success, 0, netdbSuccess,
      ⟨p.canonical, p.aliases, family, length.setWidth 32, p.addressList⟩, m⟩

section

variable {b : Buffer} {offset alignment size : Nat}

/-- Where an object starts behind an offset, as an offset. -/
def start (b : Buffer) (offset alignment : Nat) : Nat :=
  offset + (padding (b.address + BitVec.ofNat 64 offset) (BitVec.ofNat 64 alignment)).toNat

theorem toNat_left (ho : offset ≤ b.buflen.toNat) :
    (b.buflen - BitVec.ofNat 64 offset).toNat = b.buflen.toNat - offset := by
  have hb := b.buflen.isLt
  have hn : (BitVec.ofNat 64 offset).toNat = offset := by
    rw [BitVec.toNat_ofNat, Nat.mod_eq_of_lt (by omega)]
  rw [BitVec.toNat_sub_of_le (by rwa [BitVec.le_def, hn]), hn]

theorem align_of_fits (h : start b offset alignment + size ≤ b.buflen.toNat) :
    align b (BitVec.ofNat 64 offset) (BitVec.ofNat 64 alignment) (BitVec.ofNat 64 size) =
      some (b.address + BitVec.ofNat 64 (start b offset alignment),
        BitVec.ofNat 64 (start b offset alignment + size)) := by
  have hb := b.buflen.isLt
  unfold start at h ⊢
  generalize hp : padding (b.address + BitVec.ofNat 64 offset) (BitVec.ofNat 64 alignment) = pad at *
  have hl := @toNat_left b offset (by omega)
  have hple : pad ≤ b.buflen - BitVec.ofNat 64 offset := by
    rw [BitVec.le_def, hl]
    omega
  have hsle : BitVec.ofNat 64 size ≤ b.buflen - BitVec.ofNat 64 offset - pad := by
    rw [BitVec.le_def, BitVec.toNat_sub_of_le hple, hl, BitVec.toNat_ofNat,
      Nat.mod_eq_of_lt (by omega)]
    omega
  have hs : BitVec.ofNat 64 offset + pad = BitVec.ofNat 64 (offset + pad.toNat) := by
    rw [BitVec.ofNat_add, BitVec.ofNat_toNat, BitVec.setWidth_eq]
  change (if padding _ _ > _ ∨ _ > _ - padding _ _ then none else
    some (b.address + (_ + padding _ _), _ + padding _ _ + _)) = _
  rw [hp, if_neg, hs, BitVec.ofNat_add (offset + pad.toNat) size]
  rintro (hgt | hgt)
  · exact BitVec.not_lt.mpr hple hgt
  · exact BitVec.not_lt.mpr hsle hgt

theorem align_of_full (ho : offset ≤ b.buflen.toNat) (hs : size < 2 ^ 64)
    (h : b.buflen.toNat < start b offset alignment + size) :
    align b (BitVec.ofNat 64 offset) (BitVec.ofNat 64 alignment) (BitVec.ofNat 64 size) = none := by
  unfold start at h
  generalize hp : padding (b.address + BitVec.ofNat 64 offset) (BitVec.ofNat 64 alignment) = pad at *
  have hl := toNat_left ho
  change (if padding _ _ > _ ∨ _ > _ - padding _ _ then none else
    some (b.address + (_ + padding _ _), _ + padding _ _ + _)) = _
  rw [hp, if_pos]
  by_cases hple : pad ≤ b.buflen - BitVec.ofNat 64 offset
  · right
    rw [gt_iff_lt, BitVec.lt_def, BitVec.toNat_sub_of_le hple, hl, BitVec.toNat_ofNat,
      Nat.mod_eq_of_lt hs]
    rw [BitVec.le_def, hl] at hple
    omega
  · left
    exact BitVec.not_le.mp hple

/-- In a buffer that ends within the address space the offsets are those of
`Layout.align`, which does not wrap around. -/
theorem layout_align {k : Nat} (hk : k < 64) (hw : b.address.toNat + b.buflen.toNat ≤ 2 ^ 64)
    (ho : offset ≤ b.buflen.toNat) (hs : size < 2 ^ 64) :
    Layout.align ⟨b.address.toNat, b.buflen.toNat⟩ offset (2 ^ k) size =
      (align b (BitVec.ofNat 64 offset) (BitVec.ofNat 64 (2 ^ k)) (BitVec.ofNat 64 size)).map
        (fun p => (p.2.toNat - size, p.2.toNat)) := by
  have hb := b.buflen.isLt
  have hpow := Nat.two_pow_pos k
  have hdvd : 2 ^ k ∣ 2 ^ 64 := Nat.pow_dvd_pow 2 (Nat.le_of_lt hk)
  have hlow : (b.address + BitVec.ofNat 64 offset + BitVec.ofNat 64 (2 ^ k) - 1#64).toNat % 2 ^ k =
      (b.address.toNat + offset + 2 ^ k - 1) % 2 ^ k := by
    rw [BitVec.sub_eq_add_neg, BitVec.add_assoc, ← BitVec.sub_eq_add_neg, BitVec.toNat_add,
      toNat_mask hk, Nat.mod_mod_of_dvd _ hdvd, BitVec.toNat_add, BitVec.toNat_ofNat,
      Nat.mod_eq_of_lt (Nat.lt_of_le_of_lt ho hb), Nat.add_mod, Nat.mod_mod_of_dvd _ hdvd,
      ← Nat.add_mod, Nat.add_sub_assoc hpow]
  have hpad : (b.address.toNat + offset + 2 ^ k - 1) / 2 ^ k * 2 ^ k -
      (b.address.toNat + offset) =
        (padding (b.address + BitVec.ofNat 64 offset) (BitVec.ofNat 64 (2 ^ k))).toNat := by
    have hm := Nat.mod_lt (b.address.toNat + offset + 2 ^ k - 1) hpow
    have hq := Nat.div_add_mod' (b.address.toNat + offset + 2 ^ k - 1) (2 ^ k)
    rw [padding_eq hk, hlow]
    omega
  have hst : start b offset (2 ^ k) = offset +
      (padding (b.address + BitVec.ofNat 64 offset) (BitVec.ofNat 64 (2 ^ k))).toNat := rfl
  simp only [Layout.align, hpad]
  obtain h | h := Nat.lt_or_ge b.buflen.toNat (start b offset (2 ^ k) + size)
  · rw [align_of_full ho hs h, if_pos (by omega), Option.map_none]
  · have hn : (BitVec.ofNat 64 (start b offset (2 ^ k) + size)).toNat =
        start b offset (2 ^ k) + size := by
      rw [BitVec.toNat_ofNat, Nat.mod_eq_of_lt (by omega)]
    rw [align_of_fits h, if_neg (by omega), Option.map_some, hn, hst, Nat.add_sub_cancel]

theorem start_one : start b offset 1 = offset := by
  have hp := padding_lt (k := 0) (by decide : 0 < 64) (b.address + BitVec.ofNat 64 offset)
  rw [start, show (1 : Nat) = 2 ^ 0 from rfl]
  omega

theorem start_lt : start b offset 8 < offset + 8 := by
  have hp := padding_lt (k := 3) (by decide : 3 < 64) (b.address + BitVec.ofNat 64 offset)
  rw [start, show (8 : Nat) = 2 ^ 3 from rfl]
  omega

theorem start_aligned : 8 ∣ (b.address + BitVec.ofNat 64 (start b offset 8)).toNat := by
  have hd := dvd_add_padding (k := 3) (by decide : 3 < 64) (b.address + BitVec.ofNat 64 offset)
  rw [start, BitVec.ofNat_add, BitVec.ofNat_toNat, BitVec.setWidth_eq, ← BitVec.add_assoc]
  exact hd

theorem start_of_aligned (h : 8 ∣ (b.address + BitVec.ofNat 64 offset).toNat) :
    start b offset 8 = offset := by
  have hz := padding_of_dvd (k := 3) (by decide : 3 < 64) _ h
  rw [start, show (8 : Nat) = 2 ^ 3 from rfl, hz, BitVec.toNat_zero, Nat.add_zero]

end

section

variable (name : CStr) (addresses : Addresses) (length : BitVec 64) (b : Buffer)

/-- The offsets of the four regions, the first one at `first`. -/
structure Offsets where
  first : Nat
  count : Nat
  nameLength : Nat
  length : Nat

def Offsets.aliases (o : Offsets) : Nat := o.first + 8 * (o.count + 1)
def Offsets.canonical (o : Offsets) : Nat := o.aliases + 8
def Offsets.data (o : Offsets) : Nat := o.canonical + o.nameLength
def Offsets.stop (o : Offsets) : Nat := o.data + o.count * o.length

def Offsets.regions (o : Offsets) (b : Buffer) : List (Region 64) :=
  [b.region.part o.canonical o.nameLength, b.region.part o.aliases 8,
    b.region.part o.first (8 * (o.count + 1)), b.region.part o.data (o.count * o.length)]

theorem Offsets.regions_disjoint {o : Offsets} {b : Buffer} (h : o.stop ≤ b.buflen.toNat) :
    (o.regions b).Pairwise (fun r s => Disjoint r.addresses s.addresses) := by
  have hb := b.buflen.isLt
  simp only [Offsets.stop, Offsets.data, Offsets.canonical, Offsets.aliases] at h
  simp only [Offsets.regions, Offsets.data, Offsets.canonical, Offsets.aliases,
    List.pairwise_cons, List.forall_mem_cons]
  refine ⟨⟨?_, ?_, ?_, by simp⟩, ⟨?_, ?_, by simp⟩, ⟨?_, by simp⟩, by simp⟩
  · exact (part_disjoint (by omega) (by omega)).symm
  · exact (part_disjoint (by omega) (by omega)).symm
  · exact part_disjoint (by omega) (by omega)
  · exact (part_disjoint (by omega) (by omega)).symm
  · exact part_disjoint (by omega) (by omega)
  · exact part_disjoint (by omega) (by omega)

theorem Offsets.regions_inside {o : Offsets} {b : Buffer} (h : o.stop ≤ b.buflen.toNat) :
    ∀ r ∈ o.regions b, r.addresses ⊆ b.region.addresses ∧ r.size ≤ 2 ^ 64 := by
  have hb := b.buflen.isLt
  have hp : ∀ offset size, offset + size ≤ b.buflen.toNat →
      (b.region.part offset size).addresses ⊆ b.region.addresses ∧
        (b.region.part offset size).size ≤ 2 ^ 64 := by
    intro offset size hs
    have hz : size ≤ 2 ^ 64 := by omega
    exact ⟨part_subset hs (Nat.le_of_lt hb), hz⟩
  simp only [Offsets.stop, Offsets.data, Offsets.canonical, Offsets.aliases] at h
  simp only [Offsets.regions, Offsets.data, Offsets.canonical, Offsets.aliases,
    List.forall_mem_cons]
  exact ⟨hp _ _ (by omega), hp _ _ (by omega), hp _ _ (by omega), hp _ _ (by omega), by simp⟩

def offsets : Offsets :=
  ⟨start b 0 8, addresses.entries.length, name.bytes.length + 1, length.toNat⟩

def Offsets.places (o : Offsets) (b : Buffer) : Places where
  addressList := b.address + BitVec.ofNat 64 o.first
  aliases := b.address + BitVec.ofNat 64 o.aliases
  canonical := b.address + BitVec.ofNat 64 o.canonical
  addressData := b.address + BitVec.ofNat 64 o.data

theorem aliases_aligned : 8 ∣ (b.address +
    BitVec.ofNat 64 (offsets name addresses length b).aliases).toNat := by
  have hs : 8 ∣ (b.address + BitVec.ofNat 64 (start b 0 8)).toNat := start_aligned
  rw [Offsets.aliases, BitVec.ofNat_add, ← BitVec.add_assoc]
  exact dvd_add_ofNat (k := 3) (by decide) _ hs (Nat.dvd_mul_right 8 _)

theorem pointers_size : (addresses.count + 1) * pointerSize =
    BitVec.ofNat 64 (8 * (addresses.entries.length + 1)) := by
  rw [Nat.mul_comm, BitVec.ofNat_mul, BitVec.ofNat_add]
  rfl

theorem data_size : addresses.count * length =
    BitVec.ofNat 64 (addresses.entries.length * length.toNat) := by
  rw [BitVec.ofNat_mul, BitVec.ofNat_toNat, BitVec.setWidth_eq]
  rfl

theorem place_sized : place name addresses.count length b =
    (align b (BitVec.ofNat 64 0) (BitVec.ofNat 64 8)
      (BitVec.ofNat 64 (8 * (addresses.entries.length + 1)))).bind fun list =>
    (align b list.2 (BitVec.ofNat 64 8) (BitVec.ofNat 64 8)).bind fun aliases =>
    (align b aliases.2 (BitVec.ofNat 64 1)
      (BitVec.ofNat 64 (name.bytes.length + 1))).bind fun canonical =>
    (align b canonical.2 (BitVec.ofNat 64 1)
      (BitVec.ofNat 64 (addresses.entries.length * length.toNat))).bind fun data =>
    some ⟨list.1, aliases.1, canonical.1, data.1⟩ := by
  unfold place
  rw [pointers_size, data_size, BitVec.ofNat_add name.bytes.length]
  rfl

/-- The four calls of `fractald_nss_align` place all objects that the buffer can hold. -/
theorem place_of_fits (h : (offsets name addresses length b).stop ≤ b.buflen.toNat) :
    place name addresses.count length b = some ((offsets name addresses length b).places b) := by
  have ha := start_of_aligned (aliases_aligned name addresses length b)
  simp only [Offsets.stop, Offsets.data, Offsets.canonical, Offsets.aliases, Offsets.places,
    offsets] at h ha ⊢
  rw [place_sized, align_of_fits (by omega), Option.bind_some, align_of_fits (by omega), ha,
    Option.bind_some, align_of_fits (by rw [start_one]; omega), start_one, Option.bind_some,
    align_of_fits (by rw [start_one]; omega), start_one, Option.bind_some]

theorem place_of_full (hl : length.toNat ≤ 16)
    (h : b.buflen.toNat < (offsets name addresses length b).stop) :
    place name addresses.count length b = none := by
  have ha := start_of_aligned (aliases_aligned name addresses length b)
  have hn := name.sized
  have hc : addressSize * addresses.entries.length < 2 ^ 64 := addresses.sized
  have hm : addresses.entries.length * length.toNat ≤ addresses.entries.length * 16 :=
    Nat.mul_le_mul_left _ hl
  simp only [Offsets.stop, Offsets.data, Offsets.canonical, Offsets.aliases, offsets,
    addressSize] at h ha hc
  rw [place_sized]
  by_cases h1 : start b 0 8 + 8 * (addresses.entries.length + 1) ≤ b.buflen.toNat
  · rw [align_of_fits h1, Option.bind_some]
    by_cases h2 : start b 0 8 + 8 * (addresses.entries.length + 1) + 8 ≤ b.buflen.toNat
    · rw [align_of_fits (by omega), ha, Option.bind_some]
      by_cases h3 : start b 0 8 + 8 * (addresses.entries.length + 1) + 8 +
          (name.bytes.length + 1) ≤ b.buflen.toNat
      · rw [align_of_fits (by rw [start_one]; omega), start_one, Option.bind_some,
          align_of_full h3 (by omega) (by rw [start_one]; omega), Option.bind_none]
      · rw [align_of_full h2 (by omega) (by rw [start_one]; omega), Option.bind_none]
    · rw [align_of_full h1 (by omega) (by omega), Option.bind_none]
  · rw [align_of_full (Nat.zero_le _) (by omega) (by omega), Option.bind_none]

end

section

variable (addressData length : BitVec 64)

/-- The pointers to `count` addresses, from an index on. -/
def pointers (index count : Nat) : List (BitVec 64) :=
  (List.range' index count).map (fun i => addressData + BitVec.ofNat 64 i * length)

theorem length_pointerBytes (p : BitVec 64) : (pointerBytes p).length = pointerSize.toNat := by
  simp [pointerBytes, pointerSize]

theorem length_flatMap_pointerBytes (ps : List (BitVec 64)) :
    (ps.flatMap pointerBytes).length = 8 * ps.length := by
  simp [List.length_flatMap, length_pointerBytes, pointerSize, Nat.mul_comm]

theorem length_pointers (index count : Nat) :
    (pointers addressData length index count).length = count := by
  rw [pointers, List.length_map, List.length_range']

theorem pointers_succ (index count : Nat) : pointers addressData length index (count + 1) =
    (addressData + BitVec.ofNat 64 index * length) ::
      pointers addressData length (index + 1) count := by
  rw [pointers, List.range'_succ, List.map_cons, pointers]

variable {length}

theorem length_addressBytes (hl : length.toNat ≤ 16) (a : Address) :
    (addressBytes length a).length = length.toNat := by
  simp [addressBytes, hl]

theorem length_flatMap_addressBytes (hl : length.toNat ≤ 16) (as : List Address) :
    (as.flatMap (addressBytes length)).length = as.length * length.toNat := by
  simp [List.length_flatMap, length_addressBytes hl]

theorem add_index (base : BitVec 64) (offset index : Nat) (step : BitVec 64) :
    base + BitVec.ofNat 64 offset + BitVec.ofNat 64 index * step =
      base + BitVec.ofNat 64 (offset + index * step.toNat) := by
  rw [BitVec.ofNat_add, BitVec.ofNat_mul, BitVec.ofNat_toNat, BitVec.setWidth_eq, BitVec.add_assoc]

theorem next_index (base : BitVec 64) (offset index step : Nat) :
    base + BitVec.ofNat 64 (offset + (index + 1) * step) =
      base + BitVec.ofNat 64 (offset + index * step) + BitVec.ofNat 64 step := by
  rw [BitVec.add_assoc, ← BitVec.ofNat_add, Nat.add_assoc, Nat.succ_mul]

theorem toNat_pointerSize : pointerSize.toNat = 8 := rfl

/-- The loop writes one array of pointers and one of addresses, as long as the
first one ends in front of the second one. -/
theorem fill_eq (hl : length.toNat ≤ 16) (base : BitVec 64) {list data index : Nat}
    {as : List Address} (m : Memory 64) (hsep : list + (index + as.length) * 8 ≤ data)
    (hfit : data + (index + as.length) * length.toNat ≤ 2 ^ 64) :
    fill (base + BitVec.ofNat 64 list) (base + BitVec.ofNat 64 data) length index as m =
      store (store m (base + BitVec.ofNat 64 (list + index * pointerSize.toNat))
          ((pointers (base + BitVec.ofNat 64 data) length index as.length).flatMap pointerBytes))
        (base + BitVec.ofNat 64 (data + index * length.toNat))
        (as.flatMap (addressBytes length)) := by
  induction as generalizing index m with
  | nil => simp only [fill, pointers, List.length_nil, List.range'_zero, List.map_nil,
      List.flatMap_nil, store_nil]
  | cons a as ih =>
    rw [List.length_cons] at hsep hfit
    have hmul : (index + (as.length + 1)) * length.toNat =
        (index + 1 + as.length) * length.toNat := by rw [Nat.add_right_comm, Nat.add_assoc]
    have hrows : (index + 1 + as.length) * length.toNat =
        index * length.toNat + length.toNat + as.length * length.toNat := by
      rw [Nat.add_mul, Nat.succ_mul]
    have hp := length_pointerBytes
      (base + BitVec.ofNat 64 data + BitVec.ofNat 64 index * length)
    have ha := length_addressBytes hl a
    have hps := length_flatMap_pointerBytes
      (pointers (base + BitVec.ofNat 64 data) length (index + 1) as.length)
    have has := length_flatMap_addressBytes hl as
    have h8 := toNat_pointerSize
    rw [length_pointers] at hps
    have hlist := next_index base list index pointerSize.toNat
    have hdata := next_index base data index length.toNat
    rw [List.length_cons, pointers_succ, List.flatMap_cons, List.flatMap_cons, fill,
      ih _ (by omega) (by omega), hlist, hdata, ← add_index base data,
      ← add_index base list index pointerSize]
    apply store_interleaved hp ha
    · rw [hps, add_index, add_index, ← next_index, toNat_pointerSize]
      exact (part_disjoint (r := ⟨base, 0⟩) (by omega) (by omega)).symm
    · omega
    · omega

/-- The two arrays once the terminator is written. -/
theorem fill_terminated (hl : length.toNat ≤ 16) (base : BitVec 64) {list data : Nat}
    {as : List Address} (m : Memory 64) (hsep : list + (as.length + 1) * 8 ≤ data)
    (hfit : data + as.length * length.toNat ≤ 2 ^ 64) :
    store (fill (base + BitVec.ofNat 64 list) (base + BitVec.ofNat 64 data) length 0 as m)
        (base + BitVec.ofNat 64 list + BitVec.ofNat 64 as.length * pointerSize) (pointerBytes 0) =
      store (store m (base + BitVec.ofNat 64 list)
          ((pointers (base + BitVec.ofNat 64 data) length 0 as.length ++ [0]).flatMap pointerBytes))
        (base + BitVec.ofNat 64 data) (as.flatMap (addressBytes length)) := by
  have hn := length_flatMap_addressBytes hl as
  have hps := length_flatMap_pointerBytes (pointers (base + BitVec.ofNat 64 data) length 0 as.length)
  have hz := length_pointerBytes 0
  have h8 := toNat_pointerSize
  rw [length_pointers] at hps
  have hd : Disjoint (Region.mk (base + BitVec.ofNat 64 data) (as.length * length.toNat)).addresses
      (Region.mk (base + BitVec.ofNat 64 (list + as.length * 8)) 8).addresses :=
    (part_disjoint (r := ⟨base, 0⟩) (by omega) (by omega)).symm
  have hlist : base + BitVec.ofNat 64 list + BitVec.ofNat 64 (8 * as.length) =
      base + BitVec.ofNat 64 (list + as.length * 8) := by
    rw [BitVec.add_assoc, ← BitVec.ofNat_add, Nat.mul_comm]
  rw [fill_eq hl base m (by omega) (by rw [Nat.zero_add]; omega), add_index, h8, Nat.zero_mul,
    Nat.zero_mul, Nat.add_zero, Nat.add_zero, List.flatMap_append, List.flatMap_singleton, ← hlist, ← hps,
    store_comm, store_append]
  · omega
  · rw [hn, hz, h8, hps, hlist]
    exact hd

end

section

variable (name : CStr) (family : BitVec 32) (addresses : Addresses) (result : Hostent)
  (b : Buffer) (m : Memory 64)

/-- The bytes of the four regions. -/
def total : Nat := 8 * (addresses.entries.length + 1) + 8 + (name.bytes.length + 1) +
  addresses.entries.length * (addressLength family).toNat

/-- The contents of the four regions: the name, the alias terminator, the pointer
array and the addresses. -/
def objects (h : Hostent) (addressData : BitVec 64) : List (Write 64) :=
  [(h.hName, name.bytes ++ [0]),
    (h.hAliases, pointerBytes 0),
    (h.hAddrList, (pointers addressData (addressLength family) 0 addresses.entries.length ++
      [0]).flatMap pointerBytes),
    (addressData, addresses.entries.flatMap (addressBytes (addressLength family)))]

/-- The host entry stands in the buffer, and nothing else was written. Characters
and addresses are bytes, so that any place is aligned for them. -/
structure LaidOut (addressData : BitVec 64) (o : Outcome) : Prop where
  status : o.status = .success ∧ o.errnop = 0 ∧ o.hErrnop = netdbSuccess
  addrtype : o.result.hAddrtype = family
  addrLength : o.result.hLength.toNat = (addressLength family).toNat
  inside : ∀ e ∈ objects name family addresses o.result addressData,
    e.region.addresses ⊆ b.region.addresses
  disjoint : (objects name family addresses o.result addressData).Pairwise
    (fun e f => Disjoint e.region.addresses f.region.addresses)
  aligned : 8 ∣ o.result.hAddrList.toNat ∧ 8 ∣ o.result.hAliases.toNat
  contents : ∀ e ∈ objects name family addresses o.result addressData,
    load o.memory e.1 e.2.length = e.2
  rest : ∀ x, (∀ e ∈ objects name family addresses o.result addressData,
    x ∉ e.region.addresses) → o.memory x = m x

theorem addressLength_le : (addressLength family).toNat ≤ 16 := by
  unfold addressLength
  split <;> decide

/-- The result that points to the places. -/
def entry (p : Places) : Hostent :=
  ⟨p.canonical, p.aliases, family, (addressLength family).setWidth 32, p.addressList⟩

theorem hostent_of_fits
    (h : (offsets name addresses (addressLength family) b).stop ≤ b.buflen.toNat) :
    hostent name family addresses result b m =
      let p := (offsets name addresses (addressLength family) b).places b
      ⟨.success, 0, netdbSuccess, entry family p,
        storeAll m (objects name family addresses (entry family p) p.addressData)⟩ := by
  have hl := addressLength_le family
  have hb := b.buflen.isLt
  have hd : (offsets name addresses (addressLength family) b).first +
      (addresses.entries.length + 1) * 8 ≤
        (offsets name addresses (addressLength family) b).data := by
    simp only [Offsets.data, Offsets.canonical, Offsets.aliases, offsets]
    omega
  have hs : (offsets name addresses (addressLength family) b).data +
      addresses.entries.length * (addressLength family).toNat ≤ 2 ^ 64 :=
    Nat.le_of_lt (Nat.lt_of_le_of_lt h hb)
  rw [hostent, place_of_fits _ _ _ _ h]
  simp only [Offsets.places, Addresses.count, fill_terminated hl b.address _ hd hs]
  rfl

theorem objects_regions (o : Offsets) (hc : o.count = addresses.entries.length)
    (hn : o.nameLength = name.bytes.length + 1) (hl : o.length = (addressLength family).toNat) :
    (objects name family addresses (entry family (o.places b)) (o.places b).addressData).map
      Write.region = o.regions b := by
  have ha := length_flatMap_addressBytes (addressLength_le family) addresses.entries
  have hps : ((pointers (o.places b).addressData (addressLength family) 0
      o.count ++ [0]).flatMap pointerBytes).length = 8 * (o.count + 1) := by
    rw [length_flatMap_pointerBytes, List.length_append, length_pointers]
    rfl
  simp only [objects, ← hc, ← hl, List.map_cons, List.map_nil, Write.region, ha, hps,
    List.length_append, length_pointerBytes, Offsets.regions, hn]
  rfl

theorem laidOut_of_fits
    (h : (offsets name addresses (addressLength family) b).stop ≤ b.buflen.toNat) :
    LaidOut name family addresses b m
      ((offsets name addresses (addressLength family) b).places b).addressData
      (hostent name family addresses result b m) := by
  have hr := objects_regions name family addresses b
    (offsets name addresses (addressLength family) b) rfl rfl rfl
  have hd := Offsets.regions_disjoint h
  have hi := Offsets.regions_inside h
  rw [← hr, List.pairwise_map] at hd
  rw [← hr, List.forall_mem_map] at hi
  have hc : (addressLength family).toNat < 2 ^ 32 :=
    Nat.lt_of_le_of_lt (addressLength_le family) (by decide)
  rw [hostent_of_fits _ _ _ _ _ _ h]
  refine ⟨⟨rfl, rfl, rfl⟩, rfl, ?_, fun e he => (hi e he).1, hd,
    ⟨start_aligned, aliases_aligned name addresses (addressLength family) b⟩, ?_, ?_⟩
  · exact (BitVec.toNat_setWidth _ _).trans (Nat.mod_eq_of_lt hc)
  · intro e he
    exact load_storeAll hd (fun f hf => (hi f hf).2) he
  · intro x hx
    exact storeAll_outside hx

/-- A call either gives up on a buffer that is too small, before it has written
anything, or lays the host entry out. With 7 bytes for the alignment of the
first pointer a buffer is large enough. -/
theorem hostent_layout :
    (hostent name family addresses result b m = ⟨.tryAgain, eRange, netdbInternal, result, m⟩ ∨
      ∃ addressData, LaidOut name family addresses b m addressData
        (hostent name family addresses result b m)) ∧
    (total name family addresses + 7 ≤ b.buflen.toNat →
      (hostent name family addresses result b m).status = .success) := by
  have hs : (offsets name addresses (addressLength family) b).stop ≤
      total name family addresses + 7 := by
    have hp := @start_lt b 0
    simp only [Offsets.stop, Offsets.data, Offsets.canonical, Offsets.aliases, offsets, total]
    omega
  obtain h | h := Nat.lt_or_ge b.buflen.toNat
    (offsets name addresses (addressLength family) b).stop
  · refine ⟨.inl ?_, fun hb => by omega⟩
    rw [hostent, place_of_full _ _ _ _ (addressLength_le family) h]
  · have hl := laidOut_of_fits name family addresses result b m h
    exact ⟨.inr ⟨_, hl⟩, fun _ => hl.status.1⟩

end

/-- A buffer at an odd address that holds a name and one address. -/
theorem hostent_layout_odd :
    let addresses : Addresses := ⟨[⟨2, Vector.replicate 16 7⟩], by decide⟩
    (hostent ⟨[97], by decide, by decide⟩ 2 addresses ⟨0, 0, 0, 0, 0⟩ ⟨4099, 37⟩
      (fun _ => 0)).status = .success :=
  (hostent_layout ⟨[97], by decide, by decide⟩ 2 ⟨[⟨2, Vector.replicate 16 7⟩], by decide⟩
    ⟨0, 0, 0, 0, 0⟩ ⟨4099, 37⟩ (fun _ => 0)).2 (by decide)

end FractalD.Nss.HostEntry
