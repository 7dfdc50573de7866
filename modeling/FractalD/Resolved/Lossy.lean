import FractalD.Machine.Utf8
import FractalD.Resolved.Answers
import Mathlib.Data.List.TakeWhile

namespace FractalD.Resolved.Lossy

open FractalD.Machine.CString FractalD.Resolved.Answers

section

variable {n more : Nat} {b low high : UInt8} {rest bytes : List UInt8}

/-- What the byte at an index of a sequence has to be. -/
def Fits (low high : UInt8) (p : UInt8 × Nat) : Bool :=
  if p.2 = 0 then low ≤ p.1 && p.1 ≤ high else isContinuation p.1

theorem lossyFrom_complete (hb : ¬ b < 0x80) (hs : sequence b = some (rest.length, low, high))
    (hr : ∀ p ∈ rest.zipIdx, Fits low high p = true) :
    lossyFrom (n + 1) (b :: (rest ++ bytes)) = decodeSequence b rest :: lossyFrom n bytes := by
  have hw : (((rest ++ bytes).take rest.length).zipIdx.takeWhile fun entry =>
      if entry.2 = 0 then low ≤ entry.1 && entry.1 ≤ high else isContinuation entry.1).map
        Prod.fst = rest := by
    rw [List.take_left]
    change (rest.zipIdx.takeWhile (Fits low high)).map Prod.fst = rest
    rw [List.takeWhile_eq_self_iff.mpr hr, List.zipIdx_map_fst]
  rw [lossyFrom, if_neg hb]
  simp only [hs, hw, if_pos, List.drop_left]

/-- The payload bits of a byte that continues a character. -/
theorem toNat_and_tail {k : Nat} (hk : k < 64) : (UInt8.ofNat (k + 128) &&& 0x3f).toNat = k := by
  rw [UInt8.toNat_and, UInt8.toNat_ofNat', Nat.mod_eq_of_lt (by omega)]
  change (k + 128) &&& (2 ^ 6 - 1) = k
  rw [Nat.and_two_pow_sub_one_eq_mod]
  omega

theorem toNat_byte {k : Nat} (hk : k < 256) : (UInt8.ofNat k).toNat = k := by
  rw [UInt8.toNat_ofNat', Nat.mod_eq_of_lt hk]

theorem isContinuation_tail {k : Nat} (hk : k < 64) :
    isContinuation (UInt8.ofNat (k + 128)) = true := by
  simp only [isContinuation, Bool.and_eq_true, decide_eq_true_eq, UInt8.le_iff_toNat_le,
    toNat_byte (show k + 128 < 256 by omega)]
  exact ⟨Nat.le_add_left 128 k, Nat.le_of_lt_succ (Nat.add_lt_add_right hk 128)⟩

theorem fits_first {k : Nat} (hk : k < 64) (hl : low.toNat ≤ k + 128) (hh : k + 128 ≤ high.toNat) :
    Fits low high (UInt8.ofNat (k + 128), 0) = true := by
  simp only [Fits, if_pos, Bool.and_eq_true, decide_eq_true_eq, UInt8.le_iff_toNat_le,
    toNat_byte (show k + 128 < 256 by omega)]
  exact ⟨hl, hh⟩

theorem fits_later {k : Nat} (hk : k < 64) (i : Nat) :
    Fits low high (UInt8.ofNat (k + 128), i + 1) = true := by
  rw [Fits, if_neg (Nat.succ_ne_zero i), isContinuation_tail hk]

end

/-- The first bytes of characters of two, three and four bytes. -/
theorem sequence_two : ∀ k < 32, 2 ≤ k →
    sequence (UInt8.ofNat (k + 192)) = some (1, 0x80, 0xbf) := by
  decide

theorem sequence_three : ∀ k < 16, sequence (UInt8.ofNat (k + 224)) =
    some (2, if k = 0 then 0xa0 else 0x80, if k = 13 then 0x9f else 0xbf) := by
  decide

theorem sequence_four : ∀ k < 5, sequence (UInt8.ofNat (k + 240)) =
    some (3, if k = 0 then 0x90 else 0x80, if k = 4 then 0x8f else 0xbf) := by
  decide

theorem not_ascii {k : Nat} (hk : 128 ≤ k) (hlt : k < 256) : ¬ UInt8.ofNat k < 0x80 := by
  rw [UInt8.lt_iff_toNat_lt, toNat_byte hlt]
  exact Nat.not_lt.mpr hk

section

variable {v : Nat} (n : Nat) (bytes : List UInt8)

theorem lossyFrom_two (hl : 0x80 ≤ v) (hh : v ≤ 0x7ff) :
    lossyFrom (n + 1) (UInt8.ofNat (v / 64 % 32 + 192) ::
      ([UInt8.ofNat (v % 64 + 128)] ++ bytes)) = Char.ofNat v :: lossyFrom n bytes := by
  have hs := sequence_two (v / 64 % 32) (by omega) (by omega)
  rw [lossyFrom_complete (not_ascii (by omega) (by omega)) hs, decodeSequence,
    toNat_byte (by omega)]
  · simp only [List.foldl_cons, List.foldl_nil, toNat_and_tail (show v % 64 < 64 by omega),
      List.length_singleton]
    congr 2
    omega
  · simp only [List.zipIdx_cons, List.zipIdx_nil, List.forall_mem_cons]
    refine ⟨fits_first (by omega) (Nat.le_add_left 128 _) ?_, by simp⟩
    change _ ≤ 191
    omega

theorem lossyFrom_three (hl : 0x800 ≤ v) (hh : v ≤ 0xffff) (hv : v < 0xd800 ∨ 0xdfff < v) :
    lossyFrom (n + 1) (UInt8.ofNat (v / 4096 % 16 + 224) ::
      ([UInt8.ofNat (v / 64 % 64 + 128), UInt8.ofNat (v % 64 + 128)] ++ bytes)) =
        Char.ofNat v :: lossyFrom n bytes := by
  have hs := sequence_three (v / 4096 % 16) (by omega)
  rw [lossyFrom_complete (not_ascii (by omega) (by omega)) hs, decodeSequence,
    toNat_byte (by omega)]
  · simp only [List.foldl_cons, List.foldl_nil, toNat_and_tail (show v % 64 < 64 by omega),
      toNat_and_tail (show v / 64 % 64 < 64 by omega), List.length_cons, List.length_nil]
    congr 2
    omega
  · simp only [List.zipIdx_cons, List.zipIdx_nil, List.forall_mem_cons]
    refine ⟨fits_first (by omega) ?_ ?_, fits_later (by omega) 0, by simp⟩
    · split
      · change 160 ≤ _
        omega
      · exact Nat.le_add_left 128 _
    · split
      · change _ ≤ 159
        omega
      · change _ ≤ 191
        omega

theorem lossyFrom_four (hl : 0x10000 ≤ v) (hh : v < 0x110000) :
    lossyFrom (n + 1) (UInt8.ofNat (v / 262144 % 8 + 240) ::
      ([UInt8.ofNat (v / 4096 % 64 + 128), UInt8.ofNat (v / 64 % 64 + 128),
        UInt8.ofNat (v % 64 + 128)] ++ bytes)) = Char.ofNat v :: lossyFrom n bytes := by
  have hs := sequence_four (v / 262144 % 8) (by omega)
  rw [lossyFrom_complete (not_ascii (by omega) (by omega)) hs, decodeSequence,
    toNat_byte (by omega)]
  · simp only [List.foldl_cons, List.foldl_nil, toNat_and_tail (show v % 64 < 64 by omega),
      toNat_and_tail (show v / 64 % 64 < 64 by omega),
      toNat_and_tail (show v / 4096 % 64 < 64 by omega), List.length_cons, List.length_nil]
    congr 2
    omega
  · simp only [List.zipIdx_cons, List.zipIdx_nil, List.forall_mem_cons]
    refine ⟨fits_first (by omega) ?_ ?_, fits_later (by omega) 0, fits_later (by omega) 1, by simp⟩
    · split
      · change 144 ≤ _
        omega
      · exact Nat.le_add_left 128 _
    · split
      · change _ ≤ 143
        omega
      · change _ ≤ 191
        omega

theorem lossyFrom_char (c : Char) :
    lossyFrom (n + 1) (String.utf8EncodeChar c ++ bytes) = c :: lossyFrom n bytes := by
  have hc : Char.ofNat c.val.toNat = c := Char.ofNat_toNat c
  have hvalid : c.val.toNat < 0xd800 ∨ 0xdfff < c.val.toNat ∧ c.val.toNat < 0x110000 := c.valid
  unfold String.utf8EncodeChar
  generalize c.val.toNat = v at *
  rw [← hc]
  dsimp only
  split_ifs with h₁ h₂ h₃
  · have hlow : UInt8.ofNat v < 0x80 := by
      rw [UInt8.lt_iff_toNat_lt, toNat_byte (by omega)]
      exact Nat.lt_succ_of_le h₁
    rw [List.singleton_append, lossyFrom, if_pos hlow, toNat_byte (by omega)]
  · exact lossyFrom_two n bytes (by omega) h₂
  · exact lossyFrom_three n bytes (by omega) h₃ (by omega)
  · exact lossyFrom_four n bytes (by omega) (by omega)

end

theorem lossy_utf8 (s : Str) : fromUtf8Lossy (s.flatMap String.utf8EncodeChar) = s := by
  have h : ∀ n, (s.flatMap String.utf8EncodeChar).length ≤ n →
      lossyFrom n (s.flatMap String.utf8EncodeChar) = s := by
    induction s with
    | nil =>
      intro n _
      cases n <;> rfl
    | cons c s ih =>
      intro n hn
      obtain ⟨first, more, hc, -⟩ := FractalD.Machine.Utf8.utf8_shape c
      rw [List.flatMap_cons, List.length_append, hc, List.length_cons] at hn
      obtain ⟨n, rfl⟩ : ∃ k, n = k + 1 := ⟨n - 1, by omega⟩
      rw [List.flatMap_cons, lossyFrom_char, ih n (by omega)]
  exact h _ (Nat.le_refl _)

end FractalD.Resolved.Lossy
