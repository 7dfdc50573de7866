import Mathlib.Data.List.Basic

namespace FractalD.Machine.Globbing

variable {α : Type} {star question b x : α} {p q t : List α}

/-- What a pattern stands for: a star for anything, a question mark for any one thing, and all
else for itself. -/
inductive Matches (star question : α) : List α → List α → Prop
  | nil : Matches star question [] []
  | star {p t : List α} (s : List α) (rest : Matches star question p t) :
      Matches star question (star :: p) (s ++ t)
  | one {b x : α} {p t : List α} (hstar : b ≠ star) (hone : b = question ∨ b = x)
      (rest : Matches star question p t) : Matches star question (b :: p) (x :: t)

theorem matches_nil : Matches star question [] t ↔ t = [] := by
  constructor
  · intro h
    cases h
    rfl
  · rintro rfl
    exact .nil

theorem matches_star :
    Matches star question (star :: p) t ↔ ∃ u v, t = u ++ v ∧ Matches star question p v := by
  constructor
  · intro h
    cases h with
    | star s rest => exact ⟨s, _, rfl, rest⟩
    | one hstar => exact absurd rfl hstar
  · rintro ⟨u, v, rfl, h⟩
    exact .star u h

theorem matches_one (hstar : b ≠ star) : Matches star question (b :: p) t ↔
    ∃ x v, t = x :: v ∧ (b = question ∨ b = x) ∧ Matches star question p v := by
  constructor
  · intro h
    cases h with
    | star => exact absurd rfl hstar
    | one _ hone rest => exact ⟨_, _, rfl, hone, rest⟩
  · rintro ⟨x, v, rfl, hone, h⟩
    exact .one hstar hone h

theorem matches_append : Matches star question (p ++ q) t ↔
    ∃ u v, t = u ++ v ∧ Matches star question p u ∧ Matches star question q v := by
  induction p generalizing t with
  | nil =>
    simp only [List.nil_append, matches_nil]
    constructor
    · intro h
      exact ⟨[], t, rfl, rfl, h⟩
    · rintro ⟨u, v, rfl, rfl, h⟩
      exact h
  | cons b p ih =>
    rw [List.cons_append]
    by_cases hstar : b = star
    · subst hstar
      rw [matches_star]
      simp only [ih, matches_star]
      constructor
      · rintro ⟨s, _, rfl, u, v, rfl, hu, hv⟩
        exact ⟨s ++ u, v, by rw [List.append_assoc], ⟨s, u, rfl, hu⟩, hv⟩
      · rintro ⟨_, v, rfl, ⟨s, u, rfl, hu⟩, hv⟩
        exact ⟨s, u ++ v, by rw [List.append_assoc], u, v, rfl, hu, hv⟩
    · rw [matches_one hstar]
      simp only [ih, matches_one hstar]
      constructor
      · rintro ⟨x, _, rfl, hone, u, v, rfl, hu, hv⟩
        exact ⟨x :: u, v, rfl, ⟨x, u, rfl, hone, hu⟩, hv⟩
      · rintro ⟨_, v, rfl, ⟨x, u, rfl, hone, hu⟩, hv⟩
        exact ⟨x, u ++ v, rfl, hone, u, v, rfl, hu, hv⟩

theorem matches_star_only : Matches star question [star] t := by
  rw [← List.append_nil t]
  exact .star t .nil

theorem matches_one_only (hstar : b ≠ star) :
    Matches star question [b] t ↔ ∃ x, t = [x] ∧ (b = question ∨ b = x) := by
  rw [matches_one hstar]
  simp only [matches_nil]
  constructor
  · rintro ⟨x, _, rfl, hone, rfl⟩
    exact ⟨x, rfl, hone⟩
  · rintro ⟨x, rfl, hone⟩
    exact ⟨x, [], rfl, hone, rfl⟩

/-- A star after a pattern lets the beginning of a text be longer. -/
theorem matches_take_star (j : Nat) : Matches star question (p ++ [star]) (t.take j) ↔
    ∃ k ≤ j, Matches star question p (t.take k) := by
  rw [matches_append]
  constructor
  · rintro ⟨u, v, ht, hu, -⟩
    have hlength := congrArg List.length ht
    rw [List.length_append, List.length_take] at hlength
    refine ⟨u.length, by omega, ?_⟩
    have htake := congrArg (List.take u.length) ht
    rw [List.take_left, List.take_take, Nat.min_eq_left (by omega)] at htake
    rwa [htake]
  · rintro ⟨k, hk, hu⟩
    refine ⟨t.take k, (t.take j).drop k, ?_, hu, matches_star_only⟩
    conv_lhs => rw [← List.take_append_drop k (t.take j)]
    rw [List.take_take, Nat.min_eq_left hk]

/-- Anything else after a pattern takes one thing more. -/
theorem matches_take_one (hstar : b ≠ star) {k : Nat} (hk : k < t.length) :
    Matches star question (p ++ [b]) (t.take (k + 1)) ↔
      (b = question ∨ b = t[k]) ∧ Matches star question p (t.take k) := by
  rw [matches_append, ← List.take_append_getElem hk]
  simp only [matches_one_only hstar]
  constructor
  · rintro ⟨u, _, ht, hu, x, rfl, hone⟩
    obtain ⟨rfl, hx⟩ := List.append_inj' ht rfl
    cases hx
    exact ⟨hone, hu⟩
  · rintro ⟨hone, hu⟩
    exact ⟨_, _, rfl, hu, _, rfl, hone⟩

theorem not_matches_take_zero (hstar : b ≠ star) :
    ¬ Matches star question (p ++ [b]) (t.take 0) := by
  rw [List.take_zero, matches_append]
  rintro ⟨u, v, ht, -, hv⟩
  obtain ⟨x, rfl, -⟩ := (matches_one_only hstar).mp hv
  simp at ht

theorem matches_questions (hne : question ≠ star) (n : Nat)
    (t : List α) : Matches star question (List.replicate n question) t ↔ t.length = n := by
  induction n generalizing t with
  | zero => rw [List.replicate_zero, matches_nil, List.length_eq_zero_iff]
  | succ n ih =>
    rw [List.replicate_succ, matches_one hne]
    simp only [true_or, true_and, ih]
    constructor
    · rintro ⟨x, v, rfl, rfl⟩
      rfl
    · intro h
      obtain ⟨x, v, rfl⟩ := List.exists_cons_of_length_eq_add_one h
      exact ⟨x, v, rfl, Nat.succ.inj h⟩

/-- A pattern stands for the end of a text, after at least so many things. -/
def Floating (star question : α) (n : Nat) (p t : List α) : Prop :=
  ∃ u v, t = u ++ v ∧ n ≤ u.length ∧ Matches star question p v

theorem floating_zero :
    Floating star question 0 p t ↔ Matches star question (star :: p) t := by
  rw [Floating, matches_star]
  simp

theorem floating_star {n : Nat} :
    Floating star question n (star :: p) t ↔ Floating star question n p t := by
  simp only [Floating, matches_star]
  constructor
  · rintro ⟨u, _, rfl, hn, v, w, rfl, h⟩
    exact ⟨u ++ v, w, by rw [List.append_assoc], by rw [List.length_append]; omega, h⟩
  · rintro ⟨u, v, rfl, hn, h⟩
    exact ⟨u, v, rfl, hn, [], v, rfl, h⟩

theorem floating_question (hne : question ≠ star) {n : Nat} :
    Floating star question n (question :: p) t ↔ Floating star question (n + 1) p t := by
  simp only [Floating, matches_one hne, true_or, true_and]
  constructor
  · rintro ⟨u, _, rfl, hn, x, v, rfl, h⟩
    exact ⟨u ++ [x], v, by simp, by simpa using hn, h⟩
  · rintro ⟨u, v, rfl, hn, h⟩
    have hne : u ≠ [] := List.ne_nil_of_length_pos (by omega)
    obtain ⟨u, x, rfl⟩ := (List.eq_nil_or_concat u).resolve_left hne
    rw [List.length_concat] at hn
    exact ⟨u, x :: v, by simp, by omega, x, v, rfl, h⟩

theorem question_star (hne : question ≠ star) {p t : List α} :
    Matches star question (question :: star :: p) t ↔ Floating star question 1 p t := by
  rw [matches_one hne]
  simp only [Floating, matches_star, true_or, true_and]
  constructor
  · rintro ⟨x, _, rfl, u, v, rfl, h⟩
    exact ⟨x :: u, v, rfl, by simp, h⟩
  · rintro ⟨u, v, rfl, hn, h⟩
    obtain ⟨x, u, rfl⟩ := List.exists_cons_of_length_pos hn
    exact ⟨x, u ++ v, rfl, u, v, rfl, h⟩

theorem floating_nil {n : Nat} :
    Floating star question n [] t ↔ n ≤ t.length := by
  simp only [Floating, matches_nil]
  constructor
  · rintro ⟨u, _, rfl, hn, rfl⟩
    rwa [List.append_nil]
  · exact fun hn => ⟨t, [], (List.append_nil t).symm, hn, rfl⟩

end FractalD.Machine.Globbing
