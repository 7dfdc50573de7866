import FractalD.Machine.CString
import Mathlib.Tactic.SplitIfs

namespace FractalD.Machine.Utf8

open FractalD.Machine.CString

section

variable {c : Char} {b : UInt8} {s t : Str}

/-- A byte below 128 is a character of its own. -/
theorem toNat_of_mem_utf8 (hb : b.toNat < 128) (h : b ∈ String.utf8EncodeChar c) :
    c.toNat = b.toNat := by
  have hv : c.toNat = c.val.toNat := rfl
  unfold String.utf8EncodeChar at h
  dsimp only at h
  split_ifs at h with h₁ h₂ h₃ <;>
    simp only [List.mem_cons, List.not_mem_nil, or_false] at h
  · rw [h, UInt8.toNat_ofNat']
    omega
  -- the bytes of a longer character are all above that
  · rcases h with rfl | rfl <;> · rw [UInt8.toNat_ofNat'] at hb; omega
  · rcases h with rfl | rfl | rfl <;> · rw [UInt8.toNat_ofNat'] at hb; omega
  · rcases h with rfl | rfl | rfl | rfl <;> · rw [UInt8.toNat_ofNat'] at hb; omega

theorem utf8_ascii (h : c.toNat < 128) : String.utf8EncodeChar c = [UInt8.ofNat c.toNat] := by
  have hv : c.toNat = c.val.toNat := rfl
  unfold String.utf8EncodeChar
  rw [if_pos (by omega), ← hv]

theorem one_lt_length_utf8 (h : 128 ≤ c.toNat) : 1 < (String.utf8EncodeChar c).length := by
  have hv : c.toNat = c.val.toNat := rfl
  unfold String.utf8EncodeChar
  rw [if_neg (by omega)]
  split_ifs <;> simp

theorem toList_utf8Decode (s : Str) :
    (ByteArray.mk (s.flatMap String.utf8EncodeChar).toArray).utf8Decode? = some s.toArray := by
  have he : ByteArray.mk (s.flatMap String.utf8EncodeChar).toArray = s.utf8Encode := by
    rw [List.utf8Encode, ← List.data_toByteArray]
  rw [he, List.utf8Decode?_utf8Encode]

theorem utf8_inj (h : s.flatMap String.utf8EncodeChar = t.flatMap String.utf8EncodeChar) : s = t := by
  have hs := toList_utf8Decode s
  rw [h, toList_utf8Decode t, Option.some_inj] at hs
  exact (congrArg Array.toList hs).symm

theorem utf8_of_utf8Decode {bytes : List UInt8} {chars : Array Char}
    (h : (ByteArray.mk bytes.toArray).utf8Decode? = some chars) :
    bytes = chars.toList.flatMap String.utf8EncodeChar := by
  obtain ⟨l, hl⟩ := ByteArray.isSome_utf8Decode?_iff.mp (Option.isSome_of_eq_some h)
  have hbytes : ByteArray.mk bytes.toArray = l.utf8Encode := hl
  rw [hbytes, List.utf8Decode?_utf8Encode, Option.some_inj] at h
  rw [← h]
  have hdata := congrArg (fun b : ByteArray => b.data.toList) hbytes
  simpa [List.utf8Encode] using hdata

theorem utf8_split {first rest : List UInt8} (hb : b.toNat < 128)
    (h : s.flatMap String.utf8EncodeChar = first ++ b :: rest) :
    ∃ s₁ s₂, s = s₁ ++ Char.ofNat b.toNat :: s₂ ∧ s₁.flatMap String.utf8EncodeChar = first ∧
      s₂.flatMap String.utf8EncodeChar = rest := by
  induction s generalizing first with
  | nil => simp at h
  | cons c s ih =>
    rw [List.flatMap_cons] at h
    obtain ⟨first', rfl, hs⟩ | ⟨later, hc, hs⟩ := List.append_eq_append_iff.mp h
    · obtain ⟨s₁, s₂, rfl, rfl, rfl⟩ := ih hs
      exact ⟨c :: s₁, s₂, rfl, List.flatMap_cons, rfl⟩
    · cases later with
      | nil =>
        obtain ⟨s₁, s₂, rfl, hs₁, rfl⟩ := @ih [] hs.symm
        rw [List.append_nil] at hc
        exact ⟨c :: s₁, s₂, rfl, by rw [List.flatMap_cons, hs₁, List.append_nil, hc], rfl⟩
      | cons x later =>
        obtain ⟨rfl, rfl⟩ := List.cons.inj hs
        have hnat : c.toNat = b.toNat := toNat_of_mem_utf8 hb (by simp [hc])
        rw [utf8_ascii (hnat ▸ hb), hnat, UInt8.ofNat_toNat] at hc
        have hempty : first = [] ∧ later = [] := by
          have hlength := congrArg List.length hc
          simp only [List.length_append, List.length_cons, List.length_nil] at hlength
          exact ⟨List.length_eq_zero_iff.mp (by omega), List.length_eq_zero_iff.mp (by omega)⟩
        obtain ⟨rfl, rfl⟩ := hempty
        exact ⟨[], s, by rw [← hnat, Char.ofNat_toNat]; rfl, rfl, rfl⟩

/-- A text takes more bytes than it has characters, unless each of them is ASCII. -/
theorem length_utf8_iff :
    s.length ≤ (s.flatMap String.utf8EncodeChar).length ∧
      ((s.flatMap String.utf8EncodeChar).length = s.length ↔ ∀ c ∈ s, c.toNat < 128) := by
  induction s with
  | nil => simp
  | cons c s ih =>
    obtain ⟨hle, hiff⟩ := ih
    rw [List.flatMap_cons, List.length_append, List.length_cons, List.forall_mem_cons, ← hiff]
    by_cases hc : c.toNat < 128
    · rw [utf8_ascii hc, List.length_singleton]
      omega
    · have := one_lt_length_utf8 (Nat.not_lt.mp hc)
      omega

end

/-- A byte that continues a character. -/
def isTail (b : UInt8) : Bool := 0x80 ≤ b && b ≤ 0xbf

theorem isTail_iff {b : UInt8} : isTail b = true ↔ 0x80 ≤ b.toNat ∧ b.toNat ≤ 0xbf := by
  rw [isTail, Bool.and_eq_true, decide_eq_true_eq, decide_eq_true_eq, UInt8.le_iff_toNat_le,
    UInt8.le_iff_toNat_le]
  rfl

theorem utf8_shape (c : Char) : ∃ first more, String.utf8EncodeChar c = first :: more ∧
    isTail first = false ∧ ∀ b ∈ more, isTail b = true := by
  have hv : c.val.toNat < 0x110000 := by
    have := c.valid
    rcases this with h | ⟨_, h⟩
    · exact Nat.lt_trans h (by decide)
    · exact h
  unfold String.utf8EncodeChar
  dsimp only
  have hfirst : ∀ n : Nat, n < 256 → (n < 0x80 ∨ 0xbf < n) → isTail (UInt8.ofNat n) = false := by
    intro n hn hrange
    rw [← Bool.not_eq_true, isTail_iff, UInt8.toNat_ofNat']
    omega
  have htail : ∀ n : Nat, isTail (UInt8.ofNat (n % 64 + 128)) = true := by
    intro n
    rw [isTail_iff, UInt8.toNat_ofNat']
    omega
  split_ifs with h₁ h₂ h₃
  · refine ⟨_, [], rfl, hfirst _ (by omega) (by omega), nofun⟩
  · refine ⟨_, _, rfl, hfirst _ (by omega) (by omega), ?_⟩
    simp only [List.forall_mem_cons, htail, List.not_mem_nil, true_and, false_implies, implies_true]
  · refine ⟨_, _, rfl, hfirst _ (by omega) (by omega), ?_⟩
    simp only [List.forall_mem_cons, htail, List.not_mem_nil, true_and, false_implies, implies_true]
  · refine ⟨_, _, rfl, hfirst _ (by omega) (by omega), ?_⟩
    simp only [List.forall_mem_cons, htail, List.not_mem_nil, true_and, false_implies, implies_true]

/-- How many bytes continue a character that begins with one. -/
def tails (first : UInt8) : Nat :=
  if first.toNat < 0x80 then 0 else if first.toNat < 0xe0 then 1
  else if first.toNat < 0xf0 then 2 else 3

theorem utf8_tails (c : Char) : ∃ first more, String.utf8EncodeChar c = first :: more ∧
    more.length = tails first := by
  have hv : c.val.toNat < 0x110000 := by
    obtain h | ⟨_, h⟩ := c.valid
    · exact Nat.lt_trans h (by decide)
    · exact h
  have htails : ∀ n : Nat, n < 256 → tails (UInt8.ofNat n) =
      if n < 0x80 then 0 else if n < 0xe0 then 1 else if n < 0xf0 then 2 else 3 := by
    intro n hn
    rw [tails, UInt8.toNat_ofNat', Nat.mod_eq_of_lt hn]
  unfold String.utf8EncodeChar
  dsimp only
  split_ifs with h₁ h₂ h₃
  · refine ⟨_, [], rfl, ?_⟩
    rw [htails _ (by omega), if_pos (by omega)]
    rfl
  · refine ⟨_, [_], rfl, ?_⟩
    rw [htails _ (by omega), if_neg (by omega), if_pos (by omega)]
    rfl
  · refine ⟨_, [_, _], rfl, ?_⟩
    rw [htails _ (by omega), if_neg (by omega), if_neg (by omega), if_pos (by omega)]
    rfl
  · refine ⟨_, [_, _, _], rfl, ?_⟩
    rw [htails _ (by omega), if_neg (by omega), if_neg (by omega), if_neg (by omega)]
    rfl

theorem utf8_append_inj {c d : Char} {u v : List UInt8}
    (h : String.utf8EncodeChar c ++ u = String.utf8EncodeChar d ++ v) : c = d ∧ u = v := by
  obtain ⟨first, more, hc, hmore⟩ := utf8_tails c
  obtain ⟨first', more', hd, hmore'⟩ := utf8_tails d
  rw [hc, hd, List.cons_append, List.cons_append] at h
  obtain ⟨rfl, hrest⟩ := List.cons.inj h
  obtain ⟨rfl, rfl⟩ := List.append_inj hrest (hmore.trans hmore'.symm)
  refine ⟨?_, rfl⟩
  have hsame : [c] = [d] := utf8_inj (by simp [hc, hd])
  cases hsame
  rfl

theorem utf8_split_head {s : Str} {u v : List UInt8} (h : s.flatMap String.utf8EncodeChar = u ++ v)
    (hv : ∀ b ∈ v.head?, isTail b = false) : ∃ s₁ s₂, s = s₁ ++ s₂ ∧
      s₁.flatMap String.utf8EncodeChar = u ∧ s₂.flatMap String.utf8EncodeChar = v := by
  induction s generalizing u with
  | nil =>
    obtain ⟨rfl, rfl⟩ := List.append_eq_nil_iff.mp h.symm
    exact ⟨[], [], rfl, rfl, rfl⟩
  | cons c s ih =>
    rw [List.flatMap_cons] at h
    obtain ⟨u', rfl, hs⟩ | ⟨later, hc, rfl⟩ := List.append_eq_append_iff.mp h
    · obtain ⟨s₁, s₂, rfl, rfl, rfl⟩ := ih hs
      exact ⟨c :: s₁, s₂, rfl, List.flatMap_cons, rfl⟩
    · cases later with
      | nil =>
        refine ⟨[c], s, rfl, ?_, rfl⟩
        rw [List.flatMap_singleton, hc, List.append_nil]
      | cons x later =>
        cases u with
        | nil => exact ⟨[], c :: s, rfl, rfl, by rw [List.flatMap_cons, hc]; rfl⟩
        | cons y u =>
          -- a byte after the first one begins no character
          obtain ⟨first, more, hbytes, -, htail⟩ := utf8_shape c
          rw [hbytes] at hc
          obtain ⟨-, rfl⟩ := List.cons.inj hc
          have hx := hv x rfl
          rw [htail x (by simp)] at hx
          cases hx

end FractalD.Machine.Utf8
