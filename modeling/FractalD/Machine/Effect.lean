import Mathlib.Data.Bool.Basic
import Mathlib.Order.Defs.Unbundled

namespace FractalD.Machine.Effect

universe u

variable {ε σ α β : Type u}

theorem bind_ok {x : EStateM ε σ α} {f : α → EStateM ε σ β} {s t : σ} {b : β} :
    (x >>= f) s = .ok b t ↔ ∃ a s', x s = .ok a s' ∧ f a s' = .ok b t := by
  change EStateM.bind x f s = .ok b t ↔ _
  cases h : x s with
  | error e t => simp [EStateM.bind, h]
  | ok a t =>
    simp only [EStateM.bind, h, EStateM.Result.ok.injEq]
    constructor
    · exact fun hf => ⟨a, t, ⟨rfl, rfl⟩, hf⟩
    · rintro ⟨_, _, ⟨rfl, rfl⟩, hf⟩
      exact hf

@[simp]
theorem pure_ok {a b : α} {s t : σ} :
    (pure a : EStateM ε σ α) s = .ok b t ↔ a = b ∧ s = t := by
  simp [pure, EStateM.pure]

@[simp]
theorem throw_ok {e : ε} {a : α} {s t : σ} :
    (throw e : EStateM ε σ α) s = .ok a t ↔ False := by
  change EStateM.Result.error e s = .ok a t ↔ False
  simp

theorem ite_bind {c : Prop} [Decidable c] (x y : EStateM ε σ α) (f : α → EStateM ε σ β) :
    (if c then x else y) >>= f = if c then x >>= f else y >>= f := by
  split <;> rfl

/-- The state after a computation, whether it succeeds or not. -/
def final (x : EStateM ε σ α) (s : σ) : σ :=
  match x s with
  | .ok _ t => t
  | .error _ t => t

theorem final_of_ok {x : EStateM ε σ α} {s t : σ} {a : α} (h : x s = .ok a t) :
    final x s = t := by
  simp [final, h]

def succeeds (x : EStateM ε σ α) (s : σ) : Bool :=
  match x s with
  | .ok _ _ => true
  | .error _ _ => false

theorem ok_final {x : EStateM ε σ PUnit} {s : σ} (h : succeeds x s = true) :
    x s = .ok ⟨⟩ (final x s) := by
  unfold succeeds at h
  unfold final
  cases hr : x s with
  | ok a t => rfl
  | error e t =>
    rw [hr] at h
    cases h

theorem bind_error {x : EStateM ε σ α} {f : α → EStateM ε σ β} {s t : σ} {e : ε} :
    (x >>= f) s = .error e t ↔
      x s = .error e t ∨ ∃ a s', x s = .ok a s' ∧ f a s' = .error e t := by
  change EStateM.bind x f s = .error e t ↔ _
  cases h : x s with
  | error e' t' => simp [EStateM.bind, h]
  | ok a t' =>
    simp only [EStateM.bind, h, EStateM.Result.ok.injEq, reduceCtorEq, false_or]
    constructor
    · exact fun hf => ⟨a, t', ⟨rfl, rfl⟩, hf⟩
    · rintro ⟨_, _, ⟨rfl, rfl⟩, hf⟩
      exact hf

theorem bind_of_ok {x : EStateM ε σ α} {f : α → EStateM ε σ β} {s t : σ} {a : α}
    (h : x s = .ok a t) : (x >>= f) s = f a t := by
  change EStateM.bind x f s = f a t
  rw [EStateM.bind, h]

theorem bind_of_error {x : EStateM ε σ α} {f : α → EStateM ε σ β} {s t : σ} {e : ε}
    (h : x s = .error e t) : (x >>= f) s = .error e t := by
  change EStateM.bind x f s = .error e t
  rw [EStateM.bind, h]

/-- How a computation ends: a condition for its success and one for its failure. -/
def Ends (p : α → σ → Prop) (q : ε → σ → Prop) : EStateM.Result ε σ α → Prop
  | .ok a s => p a s
  | .error e s => q e s

section

variable {p p' : α → σ → Prop} {q q' : ε → σ → Prop} {r : β → σ → Prop}
variable {x : EStateM ε σ α} {f : α → EStateM ε σ β} {s : σ}

theorem ends_mono (hp : ∀ a t, p a t → p' a t) (hq : ∀ e t, q e t → q' e t)
    {x : EStateM.Result ε σ α} (h : Ends p q x) : Ends p' q' x := by
  cases x with
  | ok a t => exact hp a t h
  | error e t => exact hq e t h

theorem ends_and {x : EStateM.Result ε σ α} (h : Ends p q x) (h' : Ends p' q' x) :
    Ends (fun a t => p a t ∧ p' a t) (fun e t => q e t ∧ q' e t) x := by
  cases x with
  | ok a t => exact ⟨h, h'⟩
  | error e t => exact ⟨h, h'⟩

theorem ends_bind (hx : Ends p q (x s)) (hf : ∀ a t, p a t → Ends r q (f a t)) :
    Ends r q ((x >>= f) s) := by
  change Ends r q (EStateM.bind x f s)
  cases h : x s with
  | ok a t =>
    rw [h] at hx
    simpa only [EStateM.bind, h] using hf a t hx
  | error e t =>
    rw [h] at hx
    simp only [EStateM.bind, h]
    exact hx

theorem ends_trivial (x : EStateM.Result ε σ α) : Ends (fun _ _ => True) (fun _ _ => True) x := by
  cases x <;> trivial

theorem ends_forM {γ : Type u} {i : σ → Prop} {g : γ → EStateM ε σ PUnit} {l : List γ}
    (hg : ∀ c ∈ l, ∀ s, i s → Ends (fun _ => i) q (g c s)) (hs : i s) :
    Ends (fun _ => i) q (l.forM g s) := by
  induction l generalizing s with
  | nil => exact hs
  | cons c l ih =>
    obtain ⟨hc, hl⟩ := List.forall_mem_cons.mp hg
    exact ends_bind (hc s hs) fun _ _ => ih hl

theorem ends_foldlM {γ : Type u} {i : β → Prop} {g : β → γ → EStateM ε σ β}
    {q : ε → σ → Prop} (hg : ∀ b c, i b → ∀ s, Ends (fun b _ => i b) q (g b c s))
    {l : List γ} {b : β} {s : σ} (hb : i b) : Ends (fun b _ => i b) q (l.foldlM g b s) := by
  induction l generalizing b s with
  | nil => exact hb
  | cons c l ih =>
    rw [List.foldlM_cons]
    exact ends_bind (hg b c hb s) fun _ _ => ih

theorem ends_of_error {e : ε} {t : σ} (h : Ends p q (x s)) (he : x s = .error e t) : q e t := by
  rwa [he] at h

end

theorem ends_final {i : σ → Prop} {x : EStateM ε σ α} {s : σ}
    (h : Ends (fun _ => i) (fun _ => i) (x s)) : i (final x s) := by
  rw [final]
  cases hr : x s with
  | ok a t =>
    rw [hr] at h
    exact h
  | error e t =>
    rw [hr] at h
    exact h

/-- A computation keeps a condition on the state, also where it fails. -/
def Preserves (i : σ → Prop) (x : EStateM ε σ α) : Prop :=
  ∀ s, i s → Ends (fun _ => i) (fun _ => i) (x s)

section

variable {i j : σ → Prop} {x : EStateM ε σ α} {f : α → EStateM ε σ β} {γ : Type u}

theorem preserves_pure (a : α) : Preserves i (pure a : EStateM ε σ α) := fun _ hs => hs

theorem preserves_throw (e : ε) : Preserves i (throw e : EStateM ε σ α) := fun _ hs => hs

theorem preserves_bind (hx : Preserves i x) (hf : ∀ a, Preserves i (f a)) :
    Preserves i (x >>= f) :=
  fun s hs => ends_bind (hx s hs) fun a t ht => hf a t ht

theorem preserves_ite {c : Prop} [Decidable c] {y : EStateM ε σ α} (hx : c → Preserves i x)
    (hy : ¬ c → Preserves i y) : Preserves i (if c then x else y) := by
  split
  next hc => exact hx hc
  next hc => exact hy hc

theorem preserves_forM {g : γ → EStateM ε σ PUnit} (hg : ∀ c, Preserves i (g c)) (l : List γ) :
    Preserves i (l.forM g) :=
  fun _ hs => ends_forM (fun c _ => hg c) hs

theorem preserves_foldlM {g : β → γ → EStateM ε σ β} (hg : ∀ b c, Preserves i (g b c))
    (l : List γ) (b : β) : Preserves i (l.foldlM g b) := by
  induction l generalizing b with
  | nil => exact preserves_pure b
  | cons c l ih =>
    rw [List.foldlM_cons]
    exact preserves_bind (hg b c) ih

end

/-- A computation keeps a condition on the state, and returns something of a kind. -/
def Yields (i : σ → Prop) (p : α → Prop) (x : EStateM ε σ α) : Prop :=
  ∀ s, i s → Ends (fun a t => p a ∧ i t) (fun _ => i) (x s)

section

variable {i : σ → Prop} {p q : α → Prop} {r : β → Prop} {x : EStateM ε σ α} {γ : Type u}
variable {f : α → EStateM ε σ β}

theorem yields_pure {a : α} (h : p a) : Yields i p (pure a : EStateM ε σ α) := fun _ hs => ⟨h, hs⟩

theorem yields_throw (e : ε) : Yields i p (throw e : EStateM ε σ α) := fun _ hs => hs

theorem yields_of_preserves (h : Preserves i x) : Yields i (fun _ => True) x :=
  fun s hs => ends_mono (fun _ _ ha => ⟨trivial, ha⟩) (fun _ _ he => he) (h s hs)

theorem preserves_of_yields (h : Yields i p x) : Preserves i x :=
  fun s hs => ends_mono (fun _ _ ha => ha.2) (fun _ _ he => he) (h s hs)

theorem yields_bind (hx : Yields i p x) (hf : ∀ a, p a → Yields i r (f a)) :
    Yields i r (x >>= f) :=
  fun s hs => ends_bind (hx s hs) fun a t ht => hf a ht.1 t ht.2

theorem preserves_bind_yields (hx : Yields i p x) (hf : ∀ a, p a → Preserves i (f a)) :
    Preserves i (x >>= f) :=
  fun s hs => ends_bind (hx s hs) fun a t ht => hf a ht.1 t ht.2

theorem yields_ite {c : Prop} [Decidable c] {y : EStateM ε σ α} (hx : c → Yields i p x)
    (hy : ¬ c → Yields i p y) : Yields i p (if c then x else y) := by
  split
  next hc => exact hx hc
  next hc => exact hy hc

theorem yields_foldlM {g : β → γ → EStateM ε σ β} (hg : ∀ b c, r b → Yields i r (g b c))
    (l : List γ) {b : β} (hb : r b) : Yields i r (l.foldlM g b) := by
  induction l generalizing b with
  | nil => exact yields_pure hb
  | cons c l ih =>
    rw [List.foldlM_cons]
    exact yields_bind (hg b c hb) fun _ => ih

end

/-- From a state with the first property, a computation ends in one with the second,
or fails in one with the third. -/
def Leads (p : σ → Prop) (x : EStateM ε σ α) (q : α → σ → Prop) (e : σ → Prop) : Prop :=
  ∀ s, p s → Ends q (fun _ => e) (x s)

section

variable {p p' e e' : σ → Prop} {q q' : α → σ → Prop} {r : β → σ → Prop}
variable {x y : EStateM ε σ α} {f : α → EStateM ε σ β}

theorem leads_pure {a : α} (h : ∀ s, p s → q a s) : Leads p (pure a : EStateM ε σ α) q e :=
  fun s hs => h s hs

theorem leads_throw {err : ε} (h : ∀ s, p s → e s) : Leads p (throw err : EStateM ε σ α) q e :=
  fun s hs => h s hs

theorem leads_bind (hx : Leads p x q e) (hf : ∀ a, Leads (q a) (f a) r e) :
    Leads p (x >>= f) r e :=
  fun s hs => ends_bind (hx s hs) fun a t ht => hf a t ht

theorem leads_mono (hp : ∀ s, p' s → p s) (hq : ∀ a s, q a s → q' a s) (he : ∀ s, e s → e' s)
    (hx : Leads p x q e) : Leads p' x q' e' :=
  fun s hs => ends_mono hq (fun _ t ht => he t ht) (hx s (hp s hs))

theorem leads_pre (hp : ∀ s, p' s → p s) (hx : Leads p x q e) : Leads p' x q e :=
  fun s hs => hx s (hp s hs)

theorem leads_ite {c : Prop} [Decidable c] (hx : c → Leads p x q e) (hy : ¬ c → Leads p y q e) :
    Leads p (if c then x else y) q e := by
  split
  next hc => exact hx hc
  next hc => exact hy hc

theorem leads_foldlM {γ : Type u} {i : β → σ → Prop} {g : β → γ → EStateM ε σ β}
    (hg : ∀ b c, Leads (i b) (g b c) i e) (l : List γ) (b : β) :
    Leads (i b) (l.foldlM g b) i e := by
  induction l generalizing b with
  | nil => exact leads_pure fun _ hs => hs
  | cons c l ih =>
    rw [List.foldlM_cons]
    exact leads_bind (hg b c) ih

end

/-- A run that ends in an error ends in one of a kind. -/
def Within (p : ε → Prop) (x : EStateM ε σ α) (s : σ) : Prop := ∀ e t, x s = .error e t → p e

/-- All runs do. -/
def Raises (p : ε → Prop) (x : EStateM ε σ α) : Prop := ∀ s, Within p x s

section

variable {p q : ε → Prop} {x : EStateM ε σ α} {f : α → EStateM ε σ β} {s t : σ} {a : α}

theorem within_of_ok (h : x s = .ok a t) : Within p x s := by
  intro e t' he
  cases h.symm.trans he

theorem within_throw {e : ε} : Within p (throw e : EStateM ε σ α) s ↔ p e := by
  constructor
  · exact fun h => h e s rfl
  · intro h e' t he
    cases he
    exact h

theorem within_bind :
    Within p (x >>= f) s ↔ Within p x s ∧ ∀ a t, x s = .ok a t → Within p (f a) t := by
  constructor
  · intro h
    refine ⟨fun e t he => h e t (bind_error.mpr (.inl he)), fun a t ha e t' he => ?_⟩
    exact h e t' (bind_error.mpr (.inr ⟨a, t, ha, he⟩))
  · rintro ⟨hx, hf⟩ e t h
    obtain h | ⟨a, t', ha, h⟩ := bind_error.mp h
    · exact hx e t h
    · exact hf a t' ha e t h

theorem within_bind_of_ok (h : x s = .ok a t) : Within p (x >>= f) s ↔ Within p (f a) t := by
  rw [within_bind]
  constructor
  · exact fun hf => hf.2 a t h
  · intro hf
    refine ⟨within_of_ok h, fun a' t' h' => ?_⟩
    cases h.symm.trans h'
    exact hf

theorem raises_of_ok (h : ∀ s, ∃ a t, x s = .ok a t) : Raises p x := by
  intro s
  obtain ⟨a, t, ha⟩ := h s
  exact within_of_ok ha

theorem raises_pure (a : α) : Raises p (pure a : EStateM ε σ α) :=
  raises_of_ok fun s => ⟨a, s, rfl⟩

theorem raises_throw {e : ε} (h : p e) : Raises p (throw e : EStateM ε σ α) :=
  fun _ => within_throw.mpr h

theorem raises_bind (hx : Raises p x) (hf : ∀ a, Raises p (f a)) : Raises p (x >>= f) :=
  fun s => within_bind.mpr ⟨hx s, fun a t _ => hf a t⟩

theorem raises_mono (h : ∀ e, p e → q e) (hx : Raises p x) : Raises q x :=
  fun s e t he => h e (hx s e t he)

end

end FractalD.Machine.Effect
