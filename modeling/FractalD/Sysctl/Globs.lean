import FractalD.Machine.Globbing
import FractalD.Tmpfiles.Globs
import Mathlib.Data.List.GetD

namespace FractalD.Sysctl.Globs

open FractalD.Machine.CString FractalD.Machine.Globbing FractalD.Tmpfiles.Globs

def cell (value : List UInt8) (byte : UInt8) (above row : List Bool) (valueIndex : Nat) : Bool :=
  if byte = star then above.getD (valueIndex + 1) false || row.getD valueIndex false
  else if byte = question then above.getD valueIndex false
  else above.getD valueIndex false && value[valueIndex]? = some byte

def fillRow (value : List UInt8) (above : List Bool) (byte : UInt8) : List Bool :=
  (List.range value.length).foldl (fun row j => row ++ [cell value byte above row j])
    [if byte = star then above.getD 0 false else false]

def globMatches (pattern value : Str) : Bool :=
  let pattern := bytes pattern
  let value := bytes value
  let first := true :: List.replicate value.length false
  (pattern.foldl (fillRow value) first).getD value.length false

/-- What a cell says of the cells above it. -/
def Reached (value : List UInt8) (byte : UInt8) (above : List Bool) (j : Nat) : Prop :=
  if byte = star then ∃ k ≤ j, above.getD k false = true
  else ∃ k, j = k + 1 ∧ above.getD k false = true ∧ (byte = question ∨ value[k]? = some byte)

section

variable {value p : List UInt8} {byte : UInt8} {above row : List Bool} {j : Nat}

theorem getD_fillRow (n : Nat) :
    let row := (List.range n).foldl (fun row j => row ++ [cell value byte above row j])
      [if byte = star then above.getD 0 false else false]
    row.length = n + 1 ∧ ∀ j ≤ n, row.getD j false = true ↔ Reached value byte above j := by
  induction n with
  | zero =>
    refine ⟨rfl, fun j hj => ?_⟩
    obtain rfl := Nat.le_zero.mp hj
    rw [List.range_zero, List.foldl_nil, List.getD_cons_zero, Reached]
    by_cases hstar : byte = star
    · simp [hstar]
    · simp [hstar]
  | succ n ih =>
    rw [List.range_succ, List.foldl_append, List.foldl_cons, List.foldl_nil]
    generalize (List.range n).foldl _ _ = row at ih ⊢
    obtain ⟨hlength, hrow⟩ := ih
    refine ⟨by rw [List.length_append, hlength, List.length_singleton], fun j hj => ?_⟩
    obtain hlt | rfl : j ≤ n ∨ j = n + 1 := by omega
    · rw [List.getD_append _ _ _ _ (by omega), hrow j hlt]
    · rw [List.getD_append_right _ _ _ _ (by omega), hlength, Nat.sub_self, List.getD_cons_zero, cell,
        Reached]
      have hlast := hrow n (Nat.le_refl n)
      rw [Reached] at hlast
      by_cases hstar : byte = star
      · simp only [hstar, if_true, Bool.or_eq_true] at hlast ⊢
        rw [hlast]
        constructor
        · rintro (h | ⟨k, hk, h⟩)
          · exact ⟨n + 1, Nat.le_refl _, h⟩
          · exact ⟨k, by omega, h⟩
        · rintro ⟨k, hk, h⟩
          obtain rfl | hlt := Nat.eq_or_lt_of_le hk
          · exact .inl h
          · exact .inr ⟨k, by omega, h⟩
      · by_cases hquestion : byte = question
        · have hne : question ≠ star := by decide
          simp [hquestion, hne]
        · simp [hstar, hquestion]

/-- Each row of the table says which parts of the value the pattern so far stands for. -/
theorem getD_rows (j : Nat) (hj : j ≤ value.length) :
    (p.foldl (fillRow value) (true :: List.replicate value.length false)).getD j false = true ↔
      Matches star question p (value.take j) := by
  induction p using List.reverseRecOn generalizing j with
  | nil =>
    rw [List.foldl_nil, matches_nil, List.take_eq_nil_iff]
    cases j with
    | zero => simp
    | succ j =>
      have hne : value ≠ [] := List.ne_nil_of_length_pos (by omega)
      have hfalse : (List.replicate value.length false).getD j false = false := by
        rw [List.getD_eq_getElem?_getD]
        exact List.getElem?_getD_replicate_default_eq _ _ _
      simp only [List.getD_cons_succ, hfalse, hne, Bool.false_eq_true, Nat.succ_ne_zero, or_self]
  | append_singleton p byte ih =>
    rw [List.foldl_append, List.foldl_cons, List.foldl_nil, fillRow, (getD_fillRow _).2 j hj, Reached]
    by_cases hstar : byte = star
    · subst hstar
      rw [if_pos rfl, matches_take_star]
      constructor
      · rintro ⟨k, hk, h⟩
        exact ⟨k, hk, (ih k (by omega)).mp h⟩
      · rintro ⟨k, hk, h⟩
        exact ⟨k, hk, (ih k (by omega)).mpr h⟩
    · rw [if_neg hstar]
      cases j with
      | zero =>
        refine iff_of_false ?_ (not_matches_take_zero hstar)
        rintro ⟨k, hk, -⟩
        omega
      | succ j =>
        have hlt : j < value.length := hj
        rw [matches_take_one hstar hlt]
        constructor
        · rintro ⟨k, hk, h, hone⟩
          cases hk
          rw [List.getElem?_eq_getElem hlt, Option.some_inj] at hone
          exact ⟨hone.imp_right Eq.symm, (ih j (Nat.le_of_lt hlt)).mp h⟩
        · rintro ⟨hone, h⟩
          refine ⟨j, rfl, (ih j (Nat.le_of_lt hlt)).mpr h, ?_⟩
          rw [List.getElem?_eq_getElem hlt, Option.some_inj]
          exact hone.imp_right Eq.symm

theorem globMatches_iff {pattern text : Str} : globMatches pattern text = true ↔
    Matches star question (bytes pattern) (bytes text) := by
  rw [globMatches, getD_rows _ (Nat.le_refl _), List.take_length]

end

end FractalD.Sysctl.Globs
