import Mathlib.Data.List.Basic
import Mathlib.Data.List.Induction

namespace FractalD.Machine.EventRuns

variable {σ ε α : Type}

/-- What a machine does on an event: its next state and, if it accepts the event,
the actions it asks for. -/
abbrev EventMachine (σ ε α : Type) := σ → ε → σ × Option (List α)

variable (m : EventMachine σ ε α)

def emitted (s : σ) (e : ε) : List α := (m s e).2.getD []

def Accepts (s : σ) (e : ε) : Prop := (m s e).2.isSome

instance (s : σ) (e : ε) : Decidable (Accepts m s e) :=
  inferInstanceAs (Decidable ((m s e).2.isSome = true))

def final : σ → List ε → σ
  | s, [] => s
  | s, e :: es => final (m s e).1 es

def actions : σ → List ε → List α
  | _, [] => []
  | s, e :: es => emitted m s e ++ actions (m s e).1 es

/-- A condition holds at every event of a run. -/
def Along (q : σ → ε → Prop) : σ → List ε → Prop
  | _, [] => True
  | s, e :: es => q s e ∧ Along q (m s e).1 es

variable {m} {q : σ → ε → Prop}

theorem run_keeps {i : σ → Prop} {p : α → Prop}
    (h : ∀ s e, q s e → i s → i (m s e).1 ∧ ∀ a ∈ emitted m s e, p a) {s : σ} {es : List ε}
    (hs : i s) (hq : Along m q s es) : i (final m s es) ∧ ∀ a ∈ actions m s es, p a := by
  induction es generalizing s with
  | nil => exact ⟨hs, by simp [actions]⟩
  | cons e es ih =>
    obtain ⟨hi, hp⟩ := h s e hq.1 hs
    obtain ⟨hi', hp'⟩ := ih hi hq.2
    refine ⟨hi', fun a ha => ?_⟩
    exact (List.mem_append.mp ha).elim (hp a) (hp' a)

/-- Where an invariant holds, a run goes well, and keeps it, exactly if its events are such
that each step does. -/
theorem along_iff {i : σ → Prop} {c : σ → ε → Prop}
    (h : ∀ s e, i s → (q s e ∧ i (m s e).1 ↔ c s e)) {s : σ} (hs : i s) (es : List ε) :
    Along m (fun s e => q s e ∧ i (m s e).1) s es ↔ Along m c s es := by
  induction es generalizing s with
  | nil => exact Iff.rfl
  | cons e es ih =>
    rw [Along, Along, h s e hs]
    refine and_congr_right fun hc => ih ?_
    exact ((h s e hs).mpr hc).2

theorem final_keeps {i : σ → Prop} (h : ∀ s e, i s → i (m s e).1) {s : σ} (hs : i s)
    (es : List ε) : i (final m s es) := by
  induction es generalizing s with
  | nil => exact hs
  | cons e es ih => exact ih (h s e hs)

/-- A run does not emit more of a kind of action than is left at its start. -/
theorem countP_le_left {i : σ → Prop} {p : α → Bool} {left : σ → Nat}
    (hi : ∀ s e, i s → i (m s e).1)
    (h : ∀ s e, i s → q s e → (emitted m s e).countP p + left (m s e).1 ≤ left s)
    {s : σ} {es : List ε} (hs : i s) (hq : Along m q s es) :
    (actions m s es).countP p ≤ left s := by
  induction es generalizing s with
  | nil => simp [actions]
  | cons e es ih =>
    have hhead := h s e hs hq.1
    have htail := ih (hi s e hs) hq.2
    rw [actions, List.countP_append]
    omega

end FractalD.Machine.EventRuns
