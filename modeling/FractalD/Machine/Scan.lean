import Mathlib.Data.List.Infix

namespace FractalD.Machine.Scan

theorem forall_of_all {α : Type} {p : α → Prop} [DecidablePred p] {l : List α}
    (h : l.all (fun a => decide (p a)) = true) : ∀ a ∈ l, p a :=
  fun a ha => of_decide_eq_true (List.all_eq_true.mp h a ha)

theorem exists_of_forall₂ {α β : Type} {R : α → β → Prop} {l : List α} {m : List β} {a : α}
    (h : List.Forall₂ R l m) (ha : a ∈ l) : ∃ b ∈ m, R a b := by
  induction h with
  | nil => cases ha
  | cons hfirst _ ih =>
    obtain rfl | ha := List.mem_cons.mp ha
    · exact ⟨_, List.mem_cons_self, hfirst⟩
    · obtain ⟨b, hb, hab⟩ := ih ha
      exact ⟨b, List.mem_cons_of_mem _ hb, hab⟩

section

variable {α β : Type} (step : α → List α → List β × Nat)

/-- A text is read from left to right. A step yields what is put out for an element, and how
many of those after it are passed over. -/
def scan : Nat → List α → List β
  | _, [] => []
  | k + 1, _ :: l => scan k l
  | 0, a :: l => (step a l).1 ++ scan (step a l).2 l

/-- A property of all the elements that a scan stops at, each with what is after it. -/
def Throughout (p : α → List α → Prop) : Nat → List α → Prop
  | _, [] => True
  | k + 1, _ :: l => Throughout p k l
  | 0, a :: l => p a l ∧ Throughout p (step a l).2 l

instance (p : α → List α → Prop) [∀ a l, Decidable (p a l)] :
    ∀ k l, Decidable (Throughout step p k l)
  | _, [] => .isTrue trivial
  | k + 1, _ :: l => instDecidableThroughout p k l
  | 0, a :: l =>
    have := instDecidableThroughout p (step a l).2 l
    inferInstanceAs (Decidable (p a l ∧ Throughout step p (step a l).2 l))

variable {step}

theorem scan_drop (k : Nat) (l : List α) : scan step k l = scan step 0 (l.drop k) := by
  induction k generalizing l with
  | zero => rfl
  | succ k ih => cases l with
    | nil => rfl
    | cons a l => exact ih l

theorem scan_cons (a : α) (l : List α) :
    scan step 0 (a :: l) = (step a l).1 ++ scan step 0 (l.drop (step a l).2) := by
  rw [← scan_drop]
  rfl

theorem throughout_drop {p : α → List α → Prop} (k : Nat) (l : List α) :
    Throughout step p k l ↔ Throughout step p 0 (l.drop k) := by
  induction k generalizing l with
  | zero => rfl
  | succ k ih => cases l with
    | nil => rfl
    | cons a l => exact ih l

theorem throughout_cons {p : α → List α → Prop} (a : α) (l : List α) :
    Throughout step p 0 (a :: l) ↔ p a l ∧ Throughout step p 0 (l.drop (step a l).2) := by
  rw [← throughout_drop]
  rfl

theorem scan_induction {motive : List α → Prop} (step : α → List α → List β × Nat)
    (nil : motive []) (cons : ∀ a l, motive (l.drop (step a l).2) → motive (a :: l))
    (l : List α) : motive l := by
  induction h : l.length using Nat.strong_induction_on generalizing l with
  | _ n ih => cases l with
    | nil => exact nil
    | cons a l =>
      apply cons
      apply ih _ _ _ rfl
      rw [← h, List.length_drop, List.length_cons]
      omega

end

section

variable {α : Type} [DecidableEq α] {pattern new l : List α}

/-- `str::replace`, for a pattern that is not empty. -/
def replace (pattern new l : List α) : List α :=
  scan (fun a l => if pattern <+: a :: l then (new, pattern.length - 1) else ([a], 0)) 0 l

@[simp]
theorem replace_nil : replace pattern new [] = [] := rfl

theorem replace_pattern (h : pattern ≠ []) :
    replace pattern new (pattern ++ l) = new ++ replace pattern new l := by
  cases pattern with
  | nil => exact absurd rfl h
  | cons a pattern =>
    have hprefix : a :: pattern <+: a :: (pattern ++ l) := List.prefix_append (a :: pattern) l
    rw [replace, List.cons_append, scan_cons, if_pos hprefix]
    simp only [List.length_cons, Nat.add_sub_cancel, List.drop_left]
    rfl

theorem replace_other {a : α} (h : ¬ pattern <+: a :: l) :
    replace pattern new (a :: l) = a :: replace pattern new l := by
  rw [replace, scan_cons, if_neg h]
  rfl

theorem replace_append {d : α} (hd : d ∈ pattern.head?) {w : List α} (hw : d ∉ w) :
    replace pattern new (w ++ l) = w ++ replace pattern new l := by
  induction w with
  | nil => rfl
  | cons a w ih =>
    obtain ⟨had, hw⟩ := not_or.mp (List.mem_cons.not.mp hw)
    rw [List.cons_append, replace_other, ih hw, List.cons_append]
    obtain ⟨p, rfl⟩ := List.head?_eq_some_iff.mp hd
    rw [List.cons_prefix_cons]
    exact fun h => had h.1

theorem mem_replace {a : α} (h : a ∈ replace pattern new l) : a ∈ new ∨ a ∈ l := by
  revert h
  induction l using scan_induction
    (fun a l => if pattern <+: a :: l then (new, pattern.length - 1) else ([a], 0)) with
  | nil => exact fun h => .inr h
  | cons c l ih =>
    rw [replace, scan_cons, List.mem_append]
    rintro (h | h)
    · split at h
      · exact .inl h
      · exact .inr (List.mem_cons.mpr (.inl (List.mem_singleton.mp h)))
    · exact (ih h).imp_right fun h => List.mem_cons_of_mem c (List.mem_of_mem_drop h)

/-- A replacement does not make a text begin with a word that neither a pattern nor what
takes its place can begin in. -/
theorem prefix_replace {d e : α} (hd : d ∈ pattern.head?) (he : e ∈ new.head?) {w : List α}
    (hdw : d ∉ w) (hew : e ∉ w) : w <+: replace pattern new l ↔ w <+: l := by
  induction w generalizing l with
  | nil => simp only [List.nil_prefix]
  | cons a w ih =>
    obtain ⟨hda, hdw⟩ := not_or.mp (List.mem_cons.not.mp hdw)
    obtain ⟨hea, hew⟩ := not_or.mp (List.mem_cons.not.mp hew)
    cases l with
    | nil => rfl
    | cons c l =>
      by_cases h : pattern <+: c :: l
      · obtain ⟨rest, hrest⟩ := h
        obtain ⟨p, rfl⟩ := List.head?_eq_some_iff.mp hd
        obtain ⟨n, rfl⟩ := List.head?_eq_some_iff.mp he
        rw [← hrest, replace_pattern (List.cons_ne_nil d p), List.cons_append, List.cons_append,
          List.cons_prefix_cons, List.cons_prefix_cons]
        exact iff_of_false (fun h => hea h.1.symm) (fun h => hda h.1.symm)
      · rw [replace_other h, List.cons_prefix_cons, List.cons_prefix_cons, ih hdw hew]

end

end FractalD.Machine.Scan
