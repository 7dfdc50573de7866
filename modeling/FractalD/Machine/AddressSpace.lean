import Mathlib.Data.Set.Lattice
import Mathlib.Algebra.Group.Nat.Defs
import Mathlib.Order.CompletePartialOrder

namespace FractalD.Machine.AddressSpace

abbrev Byte := BitVec 8

variable {w : Nat}

/-- Bytes that follow each other in an address space of `2 ^ w` bytes. Behind
its last address comes its first one. -/
structure Region (w : Nat) where
  start : BitVec w
  size : Nat
  deriving DecidableEq, Repr

def Region.addresses (r : Region w) : Set (BitVec w) := {a | (a - r.start).toNat < r.size}

def Region.part (r : Region w) (offset size : Nat) : Region w :=
  ⟨r.start + BitVec.ofNat w offset, size⟩

theorem mem_part {r : Region w} {offset size : Nat} (h : offset + size ≤ 2 ^ w) (a : BitVec w) :
    a ∈ (r.part offset size).addresses ↔
      offset ≤ (a - r.start).toNat ∧ (a - r.start).toNat < offset + size := by
  have hd : a - (r.start + BitVec.ofNat w offset) = (a - r.start) - BitVec.ofNat w offset := by
    rw [BitVec.sub_sub]
  have hl := (a - r.start).isLt
  simp only [Region.addresses, Region.part, Set.mem_ofPred_eq, hd]
  obtain ho | ho := Nat.lt_or_ge offset (2 ^ w)
  · have hn : (BitVec.ofNat w offset).toNat = offset := by
      rw [BitVec.toNat_ofNat, Nat.mod_eq_of_lt ho]
    obtain hlt | hle := Nat.lt_or_ge (a - r.start).toNat offset
    · have hs : (a - r.start - BitVec.ofNat w offset).toNat =
          2 ^ w - offset + (a - r.start).toNat := by
        rw [BitVec.toNat_sub, hn, Nat.mod_eq_of_lt (by omega)]
      omega
    · have hs : (a - r.start - BitVec.ofNat w offset).toNat = (a - r.start).toNat - offset := by
        rw [BitVec.toNat_sub_of_le (by rwa [BitVec.le_def, hn]), hn]
      omega
  · omega

theorem part_subset {r : Region w} {offset size : Nat} (h : offset + size ≤ r.size)
    (hr : r.size ≤ 2 ^ w) : (r.part offset size).addresses ⊆ r.addresses := by
  intro a ha
  rw [mem_part (h.trans hr)] at ha
  exact ha.2.trans_le h

theorem part_disjoint {r : Region w} {offset size offset' size' : Nat}
    (h : offset + size ≤ offset') (h' : offset' + size' ≤ 2 ^ w) :
    Disjoint (r.part offset size).addresses (r.part offset' size').addresses := by
  rw [Set.disjoint_left]
  intro a ha ha'
  rw [mem_part (by omega)] at ha
  rw [mem_part h'] at ha'
  omega

/-- The contents of an address space. -/
abbrev Memory (w : Nat) := BitVec w → Byte

/-- `memcpy` from a list. -/
def store (m : Memory w) (a : BitVec w) (bytes : List Byte) : Memory w :=
  fun x => bytes[(x - a).toNat]?.getD (m x)

def load (m : Memory w) (a : BitVec w) (size : Nat) : List Byte :=
  (List.range size).map (fun i => m (a + BitVec.ofNat w i))

section

variable {m : Memory w} {a b x : BitVec w} {bytes more : List Byte}

theorem store_outside (h : x ∉ (Region.mk a bytes.length).addresses) : store m a bytes x = m x := by
  have hn : bytes.length ≤ (x - a).toNat := Nat.le_of_not_lt h
  rw [store, List.getElem?_eq_none hn, Option.getD_none]

theorem store_inside (h : (x - a).toNat < bytes.length) :
    store m a bytes x = bytes[(x - a).toNat] := by
  rw [store, List.getElem?_eq_getElem h, Option.getD_some]

theorem store_nil : store m a [] = m := by
  funext x
  simp [store]

theorem load_congr {m' : Memory w} {size : Nat} (hs : size ≤ 2 ^ w)
    (h : ∀ x ∈ (Region.mk a size).addresses, m x = m' x) : load m a size = load m' a size := by
  unfold load
  apply List.map_congr_left
  intro i hi
  apply h
  have hi' := List.mem_range.mp hi
  rw [Region.addresses, Set.mem_ofPred_eq, BitVec.add_comm, BitVec.add_sub_cancel, BitVec.toNat_ofNat,
    Nat.mod_eq_of_lt (by omega)]
  exact hi'

theorem load_store (h : bytes.length ≤ 2 ^ w) : load (store m a bytes) a bytes.length = bytes := by
  apply List.ext_getElem
  · simp [load]
  · intro i _ hi
    have hn : (a + BitVec.ofNat w i - a).toNat = i := by
      rw [BitVec.add_comm, BitVec.add_sub_cancel, BitVec.toNat_ofNat, Nat.mod_eq_of_lt (by omega)]
    simp only [load, List.getElem_map, List.getElem_range, store, hn, List.getElem?_eq_getElem hi,
      Option.getD_some]

theorem store_comm
    (h : Disjoint (Region.mk a bytes.length).addresses (Region.mk b more.length).addresses) :
    store (store m a bytes) b more = store (store m b more) a bytes := by
  funext x
  by_cases ha : x ∈ (Region.mk a bytes.length).addresses
  · rw [store_outside (Set.disjoint_left.mp h ha)]
    exact (store_inside ha).trans (store_inside ha).symm
  · rw [store_outside ha]
    by_cases hb : x ∈ (Region.mk b more.length).addresses
    · exact (store_inside hb).trans (store_inside hb).symm
    · rw [store_outside hb, store_outside hb, store_outside ha]

theorem store_append (h : bytes.length + more.length ≤ 2 ^ w) :
    store (store m a bytes) (a + BitVec.ofNat w bytes.length) more = store m a (bytes ++ more) := by
  have hm := @mem_part w ⟨a, bytes.length + more.length⟩ _ _ h
  simp only [Region.part, Region.addresses, Set.mem_ofPred_eq] at hm
  funext x
  by_cases hx : (x - (a + BitVec.ofNat w bytes.length)).toNat < more.length
  · obtain ⟨hl, hu⟩ := (hm x).mp hx
    have hd : (x - (a + BitVec.ofNat w bytes.length)).toNat = (x - a).toNat - bytes.length := by
      have ho : (BitVec.ofNat w bytes.length).toNat = bytes.length := by
        rw [BitVec.toNat_ofNat, Nat.mod_eq_of_lt (by omega)]
      rw [← BitVec.sub_sub, BitVec.toNat_sub_of_le (by rwa [BitVec.le_def, ho]), ho]
    rw [store_inside hx, store_inside (by rw [List.length_append]; exact hu),
      List.getElem_append_right hl]
    simp only [hd]
  · rw [store_outside hx]
    simp only [store, List.getElem?_append]
    split
    · rfl
    next hl =>
      have hu : ¬ (x - a).toNat < bytes.length + more.length :=
        fun hu => hx ((hm x).mpr ⟨Nat.le_of_not_lt hl, hu⟩)
      rw [List.getElem?_eq_none (by omega), List.getElem?_eq_none (by omega)]

theorem store_interleaved {bytes' more' : List Byte} {k l : Nat} (hk : bytes.length = k)
    (hl : bytes'.length = l)
    (hd : Disjoint (Region.mk b l).addresses (Region.mk (a + BitVec.ofNat w k) more.length).addresses)
    (h : k + more.length ≤ 2 ^ w) (h' : l + more'.length ≤ 2 ^ w) :
    store (store (store (store m a bytes) b bytes') (a + BitVec.ofNat w k) more)
        (b + BitVec.ofNat w l) more' =
      store (store m a (bytes ++ more)) b (bytes' ++ more') := by
  subst hk hl
  rw [store_comm hd, store_append h, store_append h']

/-- A place and the bytes to store there. -/
abbrev Write (w : Nat) := BitVec w × List Byte

def Write.region (e : Write w) : Region w := ⟨e.1, e.2.length⟩

def storeAll (m : Memory w) (writes : List (Write w)) : Memory w :=
  writes.foldl (fun m e => store m e.1 e.2) m

theorem storeAll_outside {writes : List (Write w)} (h : ∀ e ∈ writes, x ∉ e.region.addresses) :
    storeAll m writes x = m x := by
  induction writes generalizing m with
  | nil => rfl
  | cons e writes ih =>
    obtain ⟨he, hr⟩ := List.forall_mem_cons.mp h
    exact (ih hr).trans (store_outside he)

theorem load_storeAll {writes : List (Write w)}
    (hd : writes.Pairwise (fun e f => Disjoint e.region.addresses f.region.addresses))
    (hs : ∀ e ∈ writes, e.2.length ≤ 2 ^ w) {e : Write w} (he : e ∈ writes) :
    load (storeAll m writes) e.1 e.2.length = e.2 := by
  induction writes generalizing m with
  | nil => simp at he
  | cons f writes ih =>
    obtain ⟨hf, hr⟩ := List.pairwise_cons.mp hd
    obtain ⟨hl, hw⟩ := List.forall_mem_cons.mp hs
    obtain rfl | he := List.mem_cons.mp he
    · have hc : load (storeAll (store m e.1 e.2) writes) e.1 e.2.length =
          load (store m e.1 e.2) e.1 e.2.length := by
        apply load_congr hl
        intro x hx
        apply storeAll_outside
        intro g hg
        exact Set.disjoint_left.mp (hf g hg) hx
      exact hc.trans (load_store hl)
    · exact ih hr hw he

end

/-- What is added to an address to reach the next multiple of a power of two. -/
def padding (a alignment : BitVec w) : BitVec w :=
  ((a + alignment - 1#w) &&& ~~~(alignment - 1#w)) - a

/-- A mask splits a word into the bits that it clears and those that it keeps. -/
theorem and_not_add_and (x mask : BitVec w) : (x &&& ~~~mask) + (x &&& mask) = x := by
  have hd : (x &&& ~~~mask) &&& (x &&& mask) = 0#w := by
    ext i
    simp only [BitVec.getElem_and, BitVec.getElem_not, BitVec.getElem_zero]
    cases x[i] <;> cases mask[i] <;> rfl
  rw [BitVec.add_eq_or_of_and_eq_zero _ _ hd]
  ext i
  simp only [BitVec.getElem_or, BitVec.getElem_and, BitVec.getElem_not]
  cases x[i] <;> cases mask[i] <;> rfl

section

variable {k : Nat} (hk : k < w) (a : BitVec w)

include hk

theorem toNat_mask : (BitVec.ofNat w (2 ^ k) - 1#w).toNat = 2 ^ k - 1 := by
  have hp : 2 ^ k < 2 ^ w := Nat.pow_lt_pow_right (by decide) hk
  have h1 : 1 < 2 ^ w := Nat.one_lt_two_pow (by omega)
  have h0 : 0 < 2 ^ k := Nat.two_pow_pos k
  have hn : (BitVec.ofNat w (2 ^ k)).toNat = 2 ^ k := by
    rw [BitVec.toNat_ofNat, Nat.mod_eq_of_lt hp]
  have ho : (1#w).toNat = 1 := by
    rw [BitVec.toNat_ofNat, Nat.mod_eq_of_lt h1]
  rw [BitVec.toNat_sub_of_le (by rw [BitVec.le_def, hn, ho]; exact h0), hn, ho]

theorem toNat_and_mask (x : BitVec w) :
    (x &&& (BitVec.ofNat w (2 ^ k) - 1#w)).toNat = x.toNat % 2 ^ k := by
  rw [BitVec.toNat_and, toNat_mask hk, Nat.and_two_pow_sub_one_eq_mod]

/-- The padding is the mask without the low bits of the last address that an
aligned one could be. -/
theorem padding_eq : (padding a (BitVec.ofNat w (2 ^ k))).toNat =
    2 ^ k - 1 - (a + BitVec.ofNat w (2 ^ k) - 1#w).toNat % 2 ^ k := by
  have hp := Nat.two_pow_pos k
  have hm := Nat.mod_lt (a + BitVec.ofNat w (2 ^ k) - 1#w).toNat hp
  have hs := and_not_add_and (a + BitVec.ofNat w (2 ^ k) - 1#w) (BitVec.ofNat w (2 ^ k) - 1#w)
  have he : padding a (BitVec.ofNat w (2 ^ k)) = (BitVec.ofNat w (2 ^ k) - 1#w) -
      ((a + BitVec.ofNat w (2 ^ k) - 1#w) &&& (BitVec.ofNat w (2 ^ k) - 1#w)) := by
    have hs' := BitVec.eq_sub_iff_add_eq.mpr hs
    rw [padding, hs']
    grind
  rw [he, BitVec.toNat_sub_of_le, toNat_mask hk, toNat_and_mask hk]
  rw [BitVec.le_def, toNat_mask hk, toNat_and_mask hk]
  omega

theorem padding_lt : (padding a (BitVec.ofNat w (2 ^ k))).toNat < 2 ^ k := by
  have hp := Nat.two_pow_pos k
  have he := padding_eq hk a
  omega

theorem dvd_add_padding : 2 ^ k ∣ (a + padding a (BitVec.ofNat w (2 ^ k))).toNat := by
  have he : a + padding a (BitVec.ofNat w (2 ^ k)) =
      (a + BitVec.ofNat w (2 ^ k) - 1#w) &&& ~~~(BitVec.ofNat w (2 ^ k) - 1#w) := by
    rw [padding, BitVec.add_comm, BitVec.sub_add_cancel]
  rw [Nat.dvd_iff_mod_eq_zero, ← toNat_and_mask hk, he]
  have hz : ((a + BitVec.ofNat w (2 ^ k) - 1#w) &&& ~~~(BitVec.ofNat w (2 ^ k) - 1#w)) &&&
      (BitVec.ofNat w (2 ^ k) - 1#w) = 0#w := by
    rw [BitVec.and_assoc, BitVec.not_and_self]
    exact BitVec.and_zero
  rw [hz, BitVec.toNat_zero]

theorem dvd_add_ofNat (h : 2 ^ k ∣ a.toNat) {n : Nat} (hn : 2 ^ k ∣ n) :
    2 ^ k ∣ (a + BitVec.ofNat w n).toNat := by
  have hw : 2 ^ k ∣ 2 ^ w := Nat.pow_dvd_pow 2 (Nat.le_of_lt hk)
  rw [BitVec.toNat_add, BitVec.toNat_ofNat, Nat.dvd_mod_iff hw]
  exact Nat.dvd_add h ((Nat.dvd_mod_iff hw).mpr hn)

theorem padding_of_dvd (h : 2 ^ k ∣ a.toNat) : padding a (BitVec.ofNat w (2 ^ k)) = 0#w := by
  have hp := Nat.two_pow_pos k
  have hw : 2 ^ k ∣ 2 ^ w := Nat.pow_dvd_pow 2 (Nat.le_of_lt hk)
  have hlow : (a + BitVec.ofNat w (2 ^ k) - 1#w).toNat % 2 ^ k = 2 ^ k - 1 := by
    have hassoc : a + BitVec.ofNat w (2 ^ k) - 1#w = a + (BitVec.ofNat w (2 ^ k) - 1#w) := by
      rw [BitVec.sub_eq_add_neg, BitVec.add_assoc, ← BitVec.sub_eq_add_neg]
    obtain ⟨c, hc⟩ := h
    rw [hassoc, BitVec.toNat_add, toNat_mask hk, Nat.mod_mod_of_dvd _ hw, hc, Nat.mul_add_mod,
      Nat.mod_eq_of_lt (by omega)]
  apply BitVec.eq_of_toNat_eq
  rw [padding_eq hk, hlow, Nat.sub_self, BitVec.toNat_zero]

end

end FractalD.Machine.AddressSpace
