import FractalD.Machine.Effect

namespace FractalD.Machine.Logs

open FractalD.Machine.Effect

variable {ε σ φ α β γ : Type}

/-- A computation that notes what happens. Its notes stay where it fails. -/
abbrev Logged (φ ε σ : Type) := EStateM ε (σ × List φ)

def note (fs : List φ) : Logged φ ε σ Unit := modify fun s => (s.1, s.2 ++ fs)

/-- A computation that notes nothing. -/
def quiet (x : EStateM ε σ α) : Logged φ ε σ α := fun s =>
  match x s.1 with
  | .ok a t => .ok a (t, s.2)
  | .error e t => .error e (t, s.2)

def forget : EStateM.Result ε (σ × List φ) α → EStateM.Result ε σ α
  | .ok a t => .ok a t.1
  | .error e t => .error e t.1

def Notes (r : Logged φ ε σ α) (x : EStateM ε σ α) : Prop := ∀ s, forget (r s) = x s.1

section

variable {r : Logged φ ε σ α} {x : EStateM ε σ α} {f : α → EStateM ε σ β}
  {g : α → Logged φ ε σ β}

theorem notes_quiet (x : EStateM ε σ α) : Notes (quiet x : Logged φ ε σ α) x := by
  intro s
  rw [quiet]
  cases x s.1 with
  | ok a t => rfl
  | error e t => rfl

theorem notes_pure (a : α) : Notes (pure a : Logged φ ε σ α) (pure a) := fun _ => rfl

theorem notes_throw (e : ε) : Notes (throw e : Logged φ ε σ α) (throw e) := fun _ => rfl

theorem notes_note (fs : List φ) : Notes (note fs : Logged φ ε σ Unit) (pure ()) := fun _ => rfl

theorem notes_bind (hr : Notes r x) (hg : ∀ a, Notes (g a) (f a)) :
    Notes (r >>= g) (x >>= f) := by
  intro s
  change forget (EStateM.bind r g s) = EStateM.bind x f s.1
  rw [EStateM.bind, EStateM.bind, ← hr s]
  cases r s with
  | ok a t => exact hg a t
  | error e t => rfl

theorem notes_ite {c : Prop} [Decidable c] {r' : Logged φ ε σ α} {x' : EStateM ε σ α}
    (h : Notes r x) (h' : Notes r' x') : Notes (if c then r else r') (if c then x else x') := by
  split
  · exact h
  · exact h'

theorem notes_foldlM {g : β → γ → Logged φ ε σ β} {f : β → γ → EStateM ε σ β}
    (h : ∀ b c, Notes (g b c) (f b c)) (l : List γ) (b : β) :
    Notes (l.foldlM g b) (l.foldlM f b) := by
  induction l generalizing b with
  | nil => exact notes_pure b
  | cons c l ih =>
    rw [List.foldlM_cons, List.foldlM_cons]
    exact notes_bind (h b c) ih

theorem notes_forM {g : γ → Logged φ ε σ PUnit} {f : γ → EStateM ε σ PUnit}
    (h : ∀ c, Notes (g c) (f c)) (l : List γ) : Notes (l.forM g) (l.forM f) := by
  induction l with
  | nil => exact notes_pure _
  | cons c l ih => exact notes_bind (h c) fun _ => ih

theorem final_of_notes (hr : Notes r x) (s : σ × List φ) : (final r s).1 = final x s.1 := by
  rw [final, final, ← hr s]
  cases r s with
  | ok a t => rfl
  | error e t => rfl

theorem notes_then_note {r : Logged φ ε σ Unit} {x : EStateM ε σ Unit} (hr : Notes r x)
    (fs : List φ) : Notes (do r; note fs) x := by
  have h := notes_bind hr fun _ => notes_note fs
  rwa [bind_pure_unit] at h

theorem quiet_ok {s : σ × List φ} {a : α} (h : x s.1 = .ok a s.1) :
    (quiet x : Logged φ ε σ α) s = .ok a s := by
  rw [quiet, h]

theorem ends_quiet {p : α → σ → Prop} {q : ε → σ → Prop} {s : σ × List φ} (h : Ends p q (x s.1)) :
    Ends (fun a t => p a t.1 ∧ t.2 = s.2) (fun e t => q e t.1 ∧ t.2 = s.2) (quiet x s) := by
  rw [quiet]
  cases hr : x s.1 with
  | ok a t =>
    rw [hr] at h
    exact ⟨h, rfl⟩
  | error e t =>
    rw [hr] at h
    exact ⟨h, rfl⟩

end

/-- From where a condition holds, the computation notes the given things, and then it holds
again. If it fails, it has noted the first of them. -/
def Emits (i : σ → Prop) (fs : List φ) (r : Logged φ ε σ α) : Prop :=
  ∀ s, i s.1 → Ends (fun _ t => i t.1 ∧ t.2 = s.2 ++ fs)
    (fun _ t => ∃ gs, gs <+: fs ∧ t.2 = s.2 ++ gs) (r s)

section

variable {i : σ → Prop} {fs gs : List φ} {r : Logged φ ε σ α} {g : α → Logged φ ε σ β}

theorem emits_bind (hr : Emits i fs r) (hg : ∀ a, Emits i gs (g a)) :
    Emits i (fs ++ gs) (r >>= g) := by
  intro s hs
  have hend := hr s hs
  change Ends _ _ (EStateM.bind r g s)
  rw [EStateM.bind]
  cases hrs : r s with
  | ok a t =>
    rw [hrs] at hend
    refine ends_mono ?_ ?_ (hg a t hend.1)
    · intro _ u hu
      exact ⟨hu.1, by rw [hu.2, hend.2, List.append_assoc]⟩
    · rintro _ u ⟨hs, hpre, hu⟩
      exact ⟨fs ++ hs, (List.prefix_append_right_inj fs).mpr hpre,
        by rw [hu, hend.2, List.append_assoc]⟩
  | error e t =>
    rw [hrs] at hend
    obtain ⟨hs, hpre, ht⟩ := hend
    exact ⟨hs, hpre.trans (List.prefix_append fs gs), ht⟩

theorem emits_note (fs : List φ) : Emits i fs (note fs : Logged φ ε σ Unit) :=
  fun _ hs => ⟨hs, rfl⟩

theorem emits_quiet {x : EStateM ε σ α} (h : ∀ s, i s → Ends (fun _ => i) (fun _ _ => True) (x s)) :
    Emits i [] (quiet x : Logged φ ε σ α) := by
  intro s hs
  refine ends_mono ?_ ?_ (ends_quiet (h s.1 hs))
  · intro _ t ht
    exact ⟨ht.1, by rw [ht.2, List.append_nil]⟩
  · intro _ t ht
    exact ⟨[], List.prefix_rfl, by rw [ht.2, List.append_nil]⟩

theorem emits_forM {g : γ → Logged φ ε σ PUnit} {f : γ → List φ} {l : List γ}
    (h : ∀ c ∈ l, Emits i (f c) (g c)) : Emits i (l.flatMap f) (l.forM g) := by
  induction l with
  | nil => exact fun s hs => ⟨hs, (List.append_nil s.2).symm⟩
  | cons c l ih =>
    obtain ⟨hc, hl⟩ := List.forall_mem_cons.mp h
    rw [List.flatMap_cons]
    exact emits_bind hc fun _ => ih hl

end

end FractalD.Machine.Logs
