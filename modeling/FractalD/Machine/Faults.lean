import FractalD.Machine.Effect
import Mathlib.Control.Monad.Writer

namespace FractalD.Machine.Faults

open FractalD.Machine.Effect

variable {ε σ φ α β γ : Type}

/-- A computation that goes on after faults and lists them. -/
abbrev Round (φ ε σ : Type) := WriterT (List φ) (EStateM ε σ)

/-- A step whose failure ends the round. -/
def plain (x : EStateM ε σ α) : Round φ ε σ α := .mk ((·, []) <$> x)

/-- A computation without the list of faults, which stops at a fault that is not
allowed. If it succeeds then all faults are of the kind `sure`; if no fault is of
another kind than `allowed` then it succeeds. -/
structure Follows (sure allowed : φ → Prop) (x : EStateM ε σ α) (r : Round φ ε σ α) : Prop where
  succeeds : ∀ {s a t}, x s = .ok a t → ∃ fs, r.run s = .ok (a, fs) t ∧ ∀ f ∈ fs, sure f
  allows : ∀ {s a fs t}, r.run s = .ok (a, fs) t → (∀ f ∈ fs, allowed f) → x s = .ok a t

section

variable {sure allowed : φ → Prop} {x y : EStateM ε σ α} {r : Round φ ε σ α}

theorem map_ok {f : α → β} {s t : σ} {b : β} :
    (f <$> x) s = .ok b t ↔ ∃ a, x s = .ok a t ∧ f a = b := by
  change EStateM.map f x s = .ok b t ↔ _
  cases h : x s with
  | ok a u =>
    simp only [EStateM.map, h, EStateM.Result.ok.injEq]
    constructor
    · rintro ⟨hf, hu⟩
      exact ⟨a, ⟨rfl, hu⟩, hf⟩
    · rintro ⟨_, ⟨rfl, hu⟩, hf⟩
      exact ⟨hf, hu⟩
  | error e t => simp [EStateM.map, h]

theorem run_bind_ok {f : α → Round φ ε σ β} {s t : σ} {b : β} {fs : List φ} :
    (r >>= f).run s = .ok (b, fs) t ↔
      ∃ a gs u hs, r.run s = .ok (a, gs) u ∧ (f a).run u = .ok (b, hs) t ∧ gs ++ hs = fs := by
  change (r.run >>= fun p => (fun q : β × List φ => (q.1, p.2 ++ q.2)) <$> (f p.1).run) s = _ ↔ _
  simp only [bind_ok, map_ok, Prod.exists, Prod.mk.injEq]
  constructor
  · rintro ⟨a, gs, u, hr, b, hs, hf, rfl, rfl⟩
    exact ⟨a, gs, u, hs, hr, hf, rfl⟩
  · rintro ⟨a, gs, u, hs, hr, hf, rfl⟩
    exact ⟨a, gs, u, hr, b, hs, hf, rfl, rfl⟩

theorem follows_plain : Follows sure allowed x (plain x) where
  succeeds := by
    intro s a t h
    exact ⟨[], map_ok.mpr ⟨a, h, rfl⟩, by simp⟩
  allows := by
    intro s a fs t h _
    obtain ⟨a', hx, he⟩ := map_ok.mp h
    cases he
    exact hx

theorem follows_pure (a : α) :
    Follows sure allowed (pure a : EStateM ε σ α) (pure a : Round φ ε σ α) where
  succeeds := by
    intro s a' t h
    cases h
    exact ⟨[], rfl, by simp⟩
  allows := by
    intro s a' fs t h _
    cases h
    rfl

theorem follows_bind {f : α → EStateM ε σ β} {g : α → Round φ ε σ β}
    (hx : Follows sure allowed x r) (hf : ∀ a, Follows sure allowed (f a) (g a)) :
    Follows sure allowed (x >>= f) (r >>= g) where
  succeeds := by
    intro s b t h
    obtain ⟨a, u, hxa, hfa⟩ := bind_ok.mp h
    obtain ⟨gs, hr, hgs⟩ := hx.succeeds hxa
    obtain ⟨hs, hg, hhs⟩ := (hf a).succeeds hfa
    refine ⟨gs ++ hs, run_bind_ok.mpr ⟨a, gs, u, hs, hr, hg, rfl⟩, fun f hm => ?_⟩
    exact (List.mem_append.mp hm).elim (hgs f) (hhs f)
  allows := by
    intro s b fs t h hall
    obtain ⟨a, gs, u, hs, hr, hg, rfl⟩ := run_bind_ok.mp h
    have hxa := hx.allows hr fun f hm => hall f (List.mem_append_left hs hm)
    have hfa := (hf a).allows hg fun f hm => hall f (List.mem_append_right gs hm)
    exact bind_ok.mpr ⟨a, u, hxa, hfa⟩

theorem follows_congr (h : ∀ s a t, x s = .ok a t ↔ y s = .ok a t)
    (hy : Follows sure allowed y r) : Follows sure allowed x r where
  succeeds hx := hy.succeeds ((h _ _ _).mp hx)
  allows hr hall := (h _ _ _).mpr (hy.allows hr hall)

theorem follows_forM {f : γ → EStateM ε σ PUnit} {g : γ → Round φ ε σ PUnit}
    (h : ∀ c, Follows sure allowed (f c) (g c)) (l : List γ) :
    Follows sure allowed (l.forM f) (l.forM g) := by
  induction l with
  | nil => exact follows_pure _
  | cons c l ih => exact follows_bind (h c) fun _ => ih

theorem follows_foldlM {f : β → γ → EStateM ε σ β} {g : β → γ → Round φ ε σ β}
    (h : ∀ b c, Follows sure allowed (f b c) (g b c)) (l : List γ) (b : β) :
    Follows sure allowed (l.foldlM f b) (l.foldlM g b) := by
  induction l generalizing b with
  | nil => exact follows_pure b
  | cons c l ih =>
    rw [List.foldlM_cons, List.foldlM_cons]
    exact follows_bind (h b c) ih

end

end FractalD.Machine.Faults
