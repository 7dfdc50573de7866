import FractalD.Machine.Utf8
import FractalD.Tmpfiles.Globs
import Mathlib.Data.List.Forall2

namespace FractalD.Tmpfiles.Wildcards

open FractalD.Machine.CString FractalD.Machine.Utf8 FractalD.Tmpfiles.Globs

/-- What a pattern stands for. -/
inductive Glob : List UInt8 → List UInt8 → Prop
  | nil : Glob [] []
  | star {p v : List UInt8} (s : List UInt8) : Glob p v → Glob (star :: p) (s ++ v)
  | one {b x : UInt8} {p v : List UInt8} :
      b ≠ star → (b = question ∨ b = x) → Glob p v → Glob (b :: p) (x :: v)

theorem glob_of_forall₂ {p v : List UInt8}
    (h : List.Forall₂ (fun b x => b = star ∨ b = question ∨ b = x) p v) : Glob p v := by
  induction h with
  | nil => exact .nil
  | @cons b x p v hb _ ih =>
    by_cases hstar : b = star
    · subst hstar
      exact .star [x] ih
    · exact .one hstar (hb.resolve_left hstar) ih

theorem glob_self (p : List UInt8) : Glob p p :=
  glob_of_forall₂ (List.forall₂_same.mpr fun _ _ => .inr (.inr rfl))

theorem mem_of_glob {p v : List UInt8} (h : Glob p v) {b : UInt8} (hb : b ∈ p) (hstar : b ≠ star)
    (hquestion : b ≠ question) : b ∈ v := by
  induction h with
  | nil => exact hb
  | star s _ ih =>
    rcases List.mem_cons.mp hb with rfl | hb
    · exact absurd rfl hstar
    · exact List.mem_append_right s (ih hb)
  | one _ hx _ ih =>
    rcases List.mem_cons.mp hb with rfl | hb
    · rcases hx with rfl | rfl
      · exact absurd rfl hquestion
      · exact List.mem_cons_self
    · exact List.mem_cons_of_mem _ (ih hb)

/-- How a character of the pattern takes the matcher from one position to another. -/
def Moves (value : List UInt8) (b : UInt8) (i j : Nat) : Prop :=
  if b = star then i ≤ j ∧ j ≤ value.length
  else j = i + 1 ∧ i < value.length ∧ (b = question ∨ value[i]? = some b)

variable {value : List UInt8} {states next : List Bool} {b : UInt8}

theorem length_mark (i : Nat) : (mark value states b next i).length = next.length := by
  unfold mark
  by_cases hi : states.getD i false = false
  · rw [if_pos hi]
  · rw [if_neg hi]
    split_ifs <;> simp

theorem getD_mark {i j : Nat} (hnext : next.length = value.length + 1) :
    (mark value states b next i).getD j false = true ↔
      next.getD j false = true ∨ states.getD i false = true ∧ Moves value b i j := by
  unfold mark Moves
  by_cases hi : states.getD i false = false
  · rw [if_pos hi, hi]
    simp
  · rw [if_neg hi]
    have hi' : states.getD i false = true := by simpa using hi
    simp only [hi', true_and]
    by_cases hstar : b = star
    · simp only [hstar, if_true, List.getD_eq_getElem?_getD, List.getElem?_mapIdx]
      by_cases hj : j < next.length
      · have hj' : j ≤ value.length := by omega
        simp [List.getElem?_eq_getElem hj, hj']
      · have hj' : ¬ j ≤ value.length := by omega
        simp [List.getElem?_eq_none (Nat.le_of_not_lt hj), hj']
    · simp only [hstar, if_false]
      by_cases hc : i < value.length ∧ (b = question ∨ value[i]? = some b)
      · rw [if_pos hc]
        simp only [List.getD_eq_getElem?_getD, List.getElem?_set]
        by_cases hij : i + 1 = j
        · have hlt : i + 1 < next.length := by omega
          subst hij
          exact iff_of_true (by simp [hlt]) (.inr ⟨rfl, hc⟩)
        · have hji : j ≠ i + 1 := Ne.symm hij
          simp [hij, hji]
      · rw [if_neg hc]
        simp only [hc, and_false, or_false]

theorem getD_marks {j : Nat} (k : Nat) :
    ((List.range k).foldl (mark value states b) (List.replicate (value.length + 1) false)).length =
        value.length + 1 ∧
      (((List.range k).foldl (mark value states b)
          (List.replicate (value.length + 1) false)).getD j false = true ↔
        ∃ i < k, states.getD i false = true ∧ Moves value b i j) := by
  induction k with
  | zero =>
    have hnone : (List.replicate (value.length + 1) false)[j]?.getD false = false := by
      rw [List.getElem?_replicate]
      split <;> rfl
    simp [hnone]
  | succ k ih =>
    obtain ⟨hlength, ih⟩ := ih
    rw [List.range_succ, List.foldl_append, List.foldl_cons, List.foldl_nil]
    refine ⟨(length_mark k).trans hlength, ?_⟩
    rw [getD_mark hlength, ih]
    constructor
    · rintro (⟨i, hi, h⟩ | h)
      · exact ⟨i, Nat.lt_succ_of_lt hi, h⟩
      · exact ⟨k, Nat.lt_succ_self k, h⟩
    · rintro ⟨i, hi, h⟩
      rcases Nat.lt_succ_iff_lt_or_eq.mp hi with hi | rfl
      · exact .inl ⟨i, hi, h⟩
      · exact .inr h

theorem getD_wildcardStep {j : Nat} :
    (wildcardStep value states b).getD j false = true ↔
      ∃ i ≤ value.length, states.getD i false = true ∧ Moves value b i j := by
  unfold wildcardStep
  rw [(getD_marks (value.length + 1)).2]
  simp only [Nat.lt_succ_iff]

/-- The part of the value between two positions. -/
def between (value : List UInt8) (i j : Nat) : List UInt8 := (value.drop i).take (j - i)

theorem between_append {i k j : Nat} (hik : i ≤ k) (hkj : k ≤ j) :
    between value i k ++ between value k j = between value i j := by
  unfold between
  have hdrop : value.drop k = (value.drop i).drop (k - i) := by
    rw [List.drop_drop]
    congr 1
    omega
  have hj : j - i = (k - i) + (j - k) := by omega
  rw [hdrop, hj, List.take_add]

theorem length_between {i j : Nat} (hj : j ≤ value.length) : (between value i j).length = j - i := by
  unfold between
  rw [List.length_take, List.length_drop]
  omega

theorem between_cons {i j : Nat} (hi : i < j) (hj : j ≤ value.length) :
    between value i j = value[i] :: between value (i + 1) j := by
  unfold between
  have hji : j - i = (j - (i + 1)) + 1 := by omega
  rw [List.drop_eq_getElem_cons (by omega), hji, List.take_succ_cons]

theorem getD_foldl {pattern : List UInt8} {states : List Bool} {j : Nat} (hj : j ≤ value.length) :
    (pattern.foldl (wildcardStep value) states).getD j false = true ↔
      ∃ i ≤ j, states.getD i false = true ∧ Glob pattern (between value i j) := by
  induction pattern generalizing states with
  | nil =>
    constructor
    · intro h
      exact ⟨j, Nat.le_refl j, h, by simpa [between] using Glob.nil⟩
    · rintro ⟨i, hij, h, hglob⟩
      have hlength := length_between (i := i) hj
      generalize hv : between value i j = v at hglob hlength
      cases hglob
      obtain rfl : i = j := by
        simp only [List.length_nil] at hlength
        omega
      exact h
  | cons b pattern ih =>
    rw [List.foldl_cons, ih]
    constructor
    · rintro ⟨k, hkj, hk, hglob⟩
      obtain ⟨i, hi, hstate, hmoves⟩ := getD_wildcardStep.mp hk
      unfold Moves at hmoves
      split_ifs at hmoves with hstar
      · refine ⟨i, hmoves.1.trans hkj, hstate, ?_⟩
        rw [← between_append hmoves.1 hkj, hstar]
        exact .star _ hglob
      · obtain ⟨rfl, hlt, hb⟩ := hmoves
        refine ⟨i, by omega, hstate, ?_⟩
        rw [between_cons (by omega) hj]
        refine .one hstar ?_ hglob
        rw [List.getElem?_eq_getElem hlt] at hb
        exact hb.imp_right fun h => (Option.some.inj h).symm
    · rintro ⟨i, hij, hstate, hglob⟩
      have hlength := length_between (i := i) hj
      generalize hv : between value i j = v at hglob hlength
      cases hglob with
      | @star _ rest s hrest =>
        rw [List.length_append] at hlength
        have hk : i + s.length ≤ j := by omega
        have hsplit : between value i (i + s.length) ++ between value (i + s.length) j =
            between value i j := between_append (Nat.le_add_right i s.length) hk
        rw [hv] at hsplit
        obtain ⟨-, hrest'⟩ := List.append_inj hsplit
          (by rw [length_between (by omega)]; omega)
        refine ⟨i + s.length, hk, getD_wildcardStep.mpr ⟨i, by omega, hstate, ?_⟩, ?_⟩
        · rw [Moves, if_pos rfl]
          omega
        · rw [hrest']
          exact hrest
      | @one _ x _ rest hstar hb hrest =>
        have hlt : i < j := by
          simp only [List.length_cons] at hlength
          omega
        rw [between_cons hlt hj] at hv
        obtain ⟨hx, hrest'⟩ := List.cons.inj hv
        refine ⟨i + 1, hlt, getD_wildcardStep.mpr ⟨i, by omega, hstate, ?_⟩, ?_⟩
        · rw [Moves, if_neg hstar]
          refine ⟨rfl, by omega, ?_⟩
          rw [List.getElem?_eq_getElem (by omega), hx]
          exact hb.imp_right fun h => congrArg some h.symm
        · rw [hrest']
          exact hrest

theorem wildcardMatch_iff {pattern text : Str} :
    wildcardMatch pattern text = true ↔ Glob (bytes pattern) (bytes text) := by
  unfold wildcardMatch
  dsimp only
  rw [getD_foldl (Nat.le_refl _)]
  constructor
  · rintro ⟨i, -, hi, hglob⟩
    obtain rfl : i = 0 := by
      by_contra hne
      rw [List.getD_eq_getElem?_getD, List.getElem?_set_ne (Ne.symm hne),
        List.getElem?_replicate] at hi
      split at hi <;> cases hi
    simpa [between] using hglob
  · intro hglob
    exact ⟨0, Nat.zero_le _, by simp, by simpa [between] using hglob⟩

theorem mem_of_mem_bytes {s : Str} {c : Char} {b : UInt8} (hb : b.toNat < 128)
    (hc : c.toNat = b.toNat) (h : b ∈ bytes s) : c ∈ s := by
  obtain ⟨d, hd, hbd⟩ := List.mem_flatMap.mp h
  have heq : d = c := Char.toNat_inj.mp ((toNat_of_mem_utf8 hb hbd).trans hc.symm)
  exact heq ▸ hd

/-- Something that a pattern stands for. -/
def sample (s : Str) : Str := s.map fun c => if c = '*' ∨ c = '?' then 'x' else c

theorem wild_iff {s : Str} : wild s = true ↔ '*' ∈ s ∨ '?' ∈ s := by
  unfold wild
  simp only [List.any_eq_true, decide_eq_true_eq]
  constructor
  · rintro ⟨b, hb, rfl | rfl⟩
    · exact .inl (mem_of_mem_bytes (by decide) rfl hb)
    · exact .inr (mem_of_mem_bytes (by decide) rfl hb)
  · rintro (h | h)
    · exact ⟨star, List.mem_flatMap.mpr ⟨'*', h, by decide⟩, .inl rfl⟩
    · exact ⟨question, List.mem_flatMap.mpr ⟨'?', h, by decide⟩, .inr rfl⟩

theorem sample_eq_iff {s : Str} : sample s = s ↔ wild s = false := by
  rw [← Bool.not_eq_true, wild_iff]
  constructor
  · intro h hwild
    have hx : ∀ c ∈ s, c ≠ '*' ∧ c ≠ '?' := by
      intro c hc
      rw [← h] at hc
      obtain ⟨d, -, rfl⟩ := List.mem_map.mp hc
      split
      · exact ⟨by decide, by decide⟩
      next hd => exact ⟨fun he => hd (.inl he), fun he => hd (.inr he)⟩
    rcases hwild with hwild | hwild
    · exact (hx _ hwild).1 rfl
    · exact (hx _ hwild).2 rfl
  · intro h
    have hid : ∀ c ∈ s, (if c = '*' ∨ c = '?' then 'x' else c) = c := by
      intro c hc
      rw [if_neg]
      rintro (rfl | rfl)
      · exact h (.inl hc)
      · exact h (.inr hc)
    exact (List.map_congr_left hid).trans (List.map_id s)

theorem glob_sample (s : Str) : Glob (bytes s) (bytes (sample s)) := by
  apply glob_of_forall₂
  induction s with
  | nil => exact .nil
  | cons c s ih =>
    refine List.rel_append ?_ ih
    beta_reduce
    by_cases hc : c = '*' ∨ c = '?'
    · rw [if_pos hc]
      rcases hc with rfl | rfl
      · exact .cons (.inl rfl) .nil
      · exact .cons (.inr (.inl rfl)) .nil
    · rw [if_neg hc]
      exact List.forall₂_same.mpr fun _ _ => .inr (.inr rfl)

end FractalD.Tmpfiles.Wildcards
