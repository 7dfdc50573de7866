import FractalD.Machine.CString
import FractalD.Machine.Globbing
import Mathlib.Order.Basic
import Mathlib.Tactic.Tauto

namespace FractalD.Supervisor.Wildcards

open FractalD.Machine.CString FractalD.Machine.Globbing

/-- Which places of a value which places of a pattern are reached with. -/
abbrev Table := Nat → Nat → Bool

def Table.mark (table : Table) (index valueIndex : Nat) : Table := fun i j =>
  (i = index && j = valueIndex) || table i j

/-- Go on from one place, if it is reached. -/
def visit (pattern value : Str) (index : Nat) (table : Table) (valueIndex : Nat) : Table :=
  if table index valueIndex = false then table
  else
    match pattern[index]? with
    | none => table
    | some '*' =>
      let table := table.mark (index + 1) valueIndex
      if valueIndex < value.length then table.mark index (valueIndex + 1) else table
    | some character =>
      if valueIndex < value.length ∧ (character = '?' ∨ value[valueIndex]? = some character) then
        table.mark (index + 1) (valueIndex + 1)
      else table

def visitRow (pattern value : Str) (table : Table) (index : Nat) : Table :=
  (List.range (value.length + 1)).foldl (visit pattern value index) table

def wildcardMatch (pattern value : Str) : Bool :=
  let table := (List.range pattern.length).foldl (visitRow pattern value)
    (Table.mark (fun _ _ => false) 0 0)
  table pattern.length value.length

section

variable {pattern value : Str} {table : Table} {index i j v : Nat} {c : Char}

@[simp]
theorem mark_apply {a b : Nat} :
    table.mark a b i j = true ↔ i = a ∧ j = b ∨ table i j = true := by
  simp [Table.mark]

def Marks (value : Str) (c : Char) (index v i j : Nat) : Prop :=
  if c = '*' then i = index + 1 ∧ j = v ∨ i = index ∧ j = v + 1 ∧ v < value.length
  else i = index + 1 ∧ j = v + 1 ∧ v < value.length ∧ (c = '?' ∨ value[v]? = some c)

theorem visit_apply (hc : pattern[index]? = some c) :
    visit pattern value index table v i j = true ↔
      table i j = true ∨ table index v = true ∧ Marks value c index v i j := by
  rw [visit, Marks]
  by_cases hreached : table index v = true
  · rw [if_neg (by simp [hreached]), hc]
    by_cases hstar : c = '*'
    · subst hstar
      by_cases hv : v < value.length
      · simp only [hv, if_true, mark_apply, hreached, true_and, and_true]
        tauto
      · simp only [hv, if_false, if_true, mark_apply, hreached, true_and, and_false, or_false]
        tauto
    · by_cases hone : v < value.length ∧ (c = '?' ∨ value[v]? = some c)
      · simp only [hstar, if_false, hone, if_true, mark_apply, hreached, true_and, and_true]
        tauto
      · simp only [hstar, if_false, hone, hreached, and_false, or_false]
  · rw [if_pos (by simpa using hreached)]
    simp [hreached]

/-- A star marks all places from one that is reached, in its row and in the next one. -/
theorem visits_star (hc : pattern[index]? = some '*') (hnext : ∀ j, table (index + 1) j = false)
    (hv : v ≤ value.length + 1) :
    let after := (List.range v).foldl (visit pattern value index) table
    (∀ j, after index j = true ↔
      table index j = true ∨ j ≤ v ∧ j ≤ value.length ∧ ∃ k < j, table index k = true) ∧
    (∀ j, after (index + 1) j = true ↔ j < v ∧ ∃ k ≤ j, table index k = true) ∧
    ∀ i, i ≠ index → i ≠ index + 1 → ∀ j, after i j = table i j := by
  induction v with
  | zero =>
    refine ⟨fun j => ?_, fun j => ?_, fun i _ _ j => rfl⟩
    · simp only [List.range_zero, List.foldl_nil]
      constructor
      · exact .inl
      · rintro (h | ⟨h, -, k, hk, -⟩)
        · exact h
        · omega
    · simp [hnext]
  | succ v ih =>
    obtain ⟨hrow, hbelow, hother⟩ := ih (by omega)
    rw [List.range_succ, List.foldl_append, List.foldl_cons, List.foldl_nil]
    generalize (List.range v).foldl (visit pattern value index) table = after at *
    have hreached : after index v = true ↔ ∃ k ≤ v, table index k = true := by
      rw [hrow]
      constructor
      · rintro (h | ⟨-, -, k, hk, h⟩)
        · exact ⟨v, Nat.le_refl v, h⟩
        · exact ⟨k, Nat.le_of_lt hk, h⟩
      · rintro ⟨k, hk, h⟩
        obtain rfl | hlt := Nat.eq_or_lt_of_le hk
        · exact .inl h
        · exact .inr ⟨Nat.le_refl v, by omega, k, hlt, h⟩
    dsimp only
    simp only [visit_apply hc, Marks, if_true, hreached]
    refine ⟨fun j => ?_, fun j => ?_, fun i hi hi' j => ?_⟩
    · rw [hrow]
      constructor
      · rintro ((h | ⟨hj, hlast, h⟩) | ⟨⟨k, hk, h⟩, ⟨hindex, -⟩ | ⟨-, rfl, hlast⟩⟩)
        · exact .inl h
        · exact .inr ⟨by omega, hlast, h⟩
        · omega
        · exact .inr ⟨Nat.le_refl _, hlast, k, by omega, h⟩
      · rintro (h | ⟨hj, hlast, k, hk, h⟩)
        · exact .inl (.inl h)
        · obtain rfl | hlt := Nat.eq_or_lt_of_le hj
          · exact .inr ⟨⟨k, by omega, h⟩, .inr ⟨trivial, rfl, by omega⟩⟩
          · exact .inl (.inr ⟨by omega, hlast, k, hk, h⟩)
    · rw [hbelow]
      constructor
      · rintro (⟨hj, h⟩ | ⟨⟨k, hk, h⟩, ⟨-, rfl⟩ | ⟨hindex, -⟩⟩)
        · exact ⟨by omega, h⟩
        · exact ⟨by omega, k, hk, h⟩
        · omega
      · rintro ⟨hj, k, hk, h⟩
        obtain rfl | hlt := Nat.eq_or_lt_of_le (Nat.le_of_lt_succ hj)
        · exact .inr ⟨⟨k, hk, h⟩, .inl ⟨trivial, rfl⟩⟩
        · exact .inl ⟨hlt, k, hk, h⟩
    · rw [Bool.eq_iff_iff, visit_apply hc, Marks, if_pos rfl, hother i hi hi']
      simp [hi, hi']

/-- Anything else marks the next place in the next row. -/
theorem visits_one (hc : pattern[index]? = some c) (hstar : c ≠ '*')
    (hnext : ∀ j, table (index + 1) j = false) :
    let after := (List.range v).foldl (visit pattern value index) table
    (∀ j, after (index + 1) j = true ↔ ∃ k < v, j = k + 1 ∧ table index k = true ∧
      k < value.length ∧ (c = '?' ∨ value[k]? = some c)) ∧
    ∀ i, i ≠ index + 1 → ∀ j, after i j = table i j := by
  induction v with
  | zero => simp [hnext]
  | succ v ih =>
    obtain ⟨hbelow, hother⟩ := ih
    rw [List.range_succ, List.foldl_append, List.foldl_cons, List.foldl_nil]
    generalize (List.range v).foldl (visit pattern value index) table = after at *
    dsimp only
    refine ⟨fun j => ?_, fun i hi j => ?_⟩
    · rw [visit_apply hc, hbelow, hother index (by omega), Marks, if_neg hstar]
      constructor
      · rintro (⟨k, hk, h⟩ | ⟨h, -, hj, hrest⟩)
        · exact ⟨k, by omega, h⟩
        · exact ⟨v, Nat.lt_succ_self v, hj, h, hrest⟩
      · rintro ⟨k, hk, hj, h, hrest⟩
        obtain rfl | hlt := Nat.eq_or_lt_of_le (Nat.le_of_lt_succ hk)
        · exact .inr ⟨h, rfl, hj, hrest⟩
        · exact .inl ⟨k, hlt, hj, h, hrest⟩
    · rw [Bool.eq_iff_iff, visit_apply hc, Marks, if_neg hstar, hother i hi]
      simp [hi]

/-- The rows up to one say which parts of the pattern stand for which parts of the value. -/
structure Filled (pattern value : Str) (index : Nat) (table : Table) : Prop where
  row : ∀ j ≤ value.length, table index j = true ↔
    Matches '*' '?' (pattern.take index) (value.take j)
  later : ∀ i, index < i → ∀ j, table i j = false

theorem filled_visitRow (h : Filled pattern value index table) (hindex : index < pattern.length) :
    Filled pattern value (index + 1) (visitRow pattern value table index) := by
  have hc := List.getElem?_eq_getElem hindex
  have hnext := h.later (index + 1) (Nat.lt_succ_self index)
  have htake : pattern.take (index + 1) = pattern.take index ++ [pattern[index]] :=
    (List.take_append_getElem hindex).symm
  rw [visitRow]
  by_cases hstar : pattern[index] = '*'
  · rw [hstar] at hc
    obtain ⟨-, hbelow, hother⟩ := visits_star (v := value.length + 1) hc hnext (Nat.le_refl _)
    refine ⟨fun j hj => ?_, fun i hi j => ?_⟩
    · rw [hbelow, htake, hstar, matches_take_star]
      constructor
      · rintro ⟨-, k, hk, hrow⟩
        exact ⟨k, hk, (h.row k (by omega)).mp hrow⟩
      · rintro ⟨k, hk, hmatches⟩
        exact ⟨by omega, k, hk, (h.row k (by omega)).mpr hmatches⟩
    · rw [hother i (by omega) (by omega)]
      exact h.later i (by omega) j
  · obtain ⟨hbelow, hother⟩ := @visits_one _ value _ _ (value.length + 1) _ hc hstar hnext
    refine ⟨fun j hj => ?_, fun i hi j => ?_⟩
    · rw [hbelow, htake]
      cases j with
      | zero =>
        refine iff_of_false ?_ (not_matches_take_zero hstar)
        rintro ⟨k, -, hk, -⟩
        omega
      | succ j =>
        have hlt : j < value.length := hj
        rw [matches_take_one hstar hlt]
        constructor
        · rintro ⟨k, -, hk, hrow, -, hone⟩
          cases hk
          rw [List.getElem?_eq_getElem hlt, Option.some_inj] at hone
          exact ⟨hone.imp_right Eq.symm, (h.row j (Nat.le_of_lt hlt)).mp hrow⟩
        · rintro ⟨hone, hmatches⟩
          refine ⟨j, by omega, rfl, (h.row j (Nat.le_of_lt hlt)).mpr hmatches, hlt, ?_⟩
          rw [List.getElem?_eq_getElem hlt, Option.some_inj]
          exact hone.imp_right Eq.symm
    · rw [hother i (by omega)]
      exact h.later i (by omega) j

theorem filled_rows (n : Nat) (hn : n ≤ pattern.length) : Filled pattern value n
    ((List.range n).foldl (visitRow pattern value) (Table.mark (fun _ _ => false) 0 0)) := by
  induction n with
  | zero =>
    refine ⟨fun j hj => ?_, fun i hi j => ?_⟩
    · rw [List.range_zero, List.foldl_nil, mark_apply, List.take_zero, matches_nil,
        List.take_eq_nil_iff]
      constructor
      · rintro (⟨-, rfl⟩ | h)
        · exact .inl rfl
        · cases h
      · rintro (rfl | hnil)
        · exact .inl ⟨rfl, rfl⟩
        · rw [hnil] at hj
          exact .inl ⟨rfl, Nat.le_zero.mp hj⟩
    · rw [List.range_zero, List.foldl_nil, ← Bool.not_eq_true, mark_apply]
      rintro (⟨rfl, -⟩ | h)
      · omega
      · cases h
  | succ n ih =>
    rw [List.range_succ, List.foldl_append, List.foldl_cons, List.foldl_nil]
    exact filled_visitRow (ih (by omega)) (by omega)

theorem wildcardMatch_iff : wildcardMatch pattern value = true ↔ Matches '*' '?' pattern value := by
  have hlast := (@filled_rows _ value pattern.length (Nat.le_refl _)).row value.length
    (Nat.le_refl _)
  rwa [List.take_length, List.take_length] at hlast

end

end FractalD.Supervisor.Wildcards
