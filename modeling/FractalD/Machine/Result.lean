import Mathlib.Data.Bool.Basic

namespace FractalD.Machine.Result

universe u v

variable {ε : Type u} {α β : Type v}

theorem bind_eq_ok {x : Except ε α} {f : α → Except ε β} {b : β} :
    (x >>= f) = .ok b ↔ ∃ a, x = .ok a ∧ f a = .ok b := by
  cases x with
  | error e => simp [bind, Except.bind]
  | ok a => simp [bind, Except.bind]

theorem pure_eq_ok {a b : α} : (pure a : Except ε α) = .ok b ↔ a = b := by
  simp [pure, Except.pure]

theorem throw_ne_ok {e : ε} {a : α} : (throw e : Except ε α) = .ok a ↔ False := by
  simp [throw, throwThe, MonadExceptOf.throw]

theorem check_eq_ok {p : Prop} [Decidable p] {e : ε} {f : α → Except ε β} {x : Except ε β} {b : β} :
    (if p then throw e >>= f else x) = .ok b ↔ ¬ p ∧ x = .ok b := by
  by_cases hp : p
  · simp [hp, bind_eq_ok, throw_ne_ok]
  · simp [hp]

theorem forM_ok {α : Type} {f : α → Except ε PUnit} {l : List α} :
    l.forM f = .ok () ↔ ∀ a ∈ l, f a = .ok () := by
  induction l with
  | nil => exact ⟨fun _ a ha => absurd ha List.not_mem_nil, fun _ => rfl⟩
  | cons a l ih =>
    rw [List.forall_mem_cons, ← ih]
    change (f a).bind (fun _ => l.forM f) = .ok () ↔ _
    cases f a with
    | error e => simp [Except.bind]
    | ok u => simp [Except.bind]

theorem foldlM_ok {ε α β : Type} {f : β → α → Except ε β} {p : List α → β → Prop}
    (hstep : ∀ done a b b', p done b → f b a = .ok b' → p (done ++ [a]) b') {l done : List α}
    {b r : β} (hb : p done b) (h : l.foldlM f b = .ok r) : p (done ++ l) r := by
  induction l generalizing done b with
  | nil =>
    cases h
    rwa [List.append_nil]
  | cons a l ih =>
    rw [List.foldlM_cons] at h
    obtain ⟨b', hb', h⟩ := bind_eq_ok.mp h
    have hrest := ih (hstep done a b b' hb hb') h
    rwa [List.append_assoc] at hrest

theorem mapError_eq_ok {ε' : Type u} {x : Except ε α} {f : ε → ε'} {a : α} :
    x.mapError f = .ok a ↔ x = .ok a := by
  cases x <;> simp [Except.mapError]

theorem map_eq_ok {x : Except ε α} {f : α → β} {b : β} :
    f <$> x = .ok b ↔ ∃ a, x = .ok a ∧ f a = b := by
  cases x <;> simp [Functor.map, Except.map]

theorem mapM_cons_eq_ok {ε α β : Type} {f : α → Except ε β} {a : α} {l : List α} {r : List β} :
    (a :: l).mapM f = .ok r ↔ ∃ b, f a = .ok b ∧ ∃ bs, l.mapM f = .ok bs ∧ b :: bs = r := by
  rw [List.mapM_cons, bind_eq_ok]
  simp only [bind_eq_ok, pure_eq_ok]

/-- What `mapM` gives is what the function gives of each element. -/
theorem mapM_eq_ok {ε α β : Type} {f : α → Except ε β} {l : List α} {r : List β} :
    l.mapM f = .ok r ↔ l.map f = r.map Except.ok := by
  induction l generalizing r with
  | nil => simp [pure, Except.pure, eq_comm]
  | cons a l ih =>
    rw [mapM_cons_eq_ok]
    cases r with
    | nil => simp
    | cons b r => simp [ih]

theorem exists_mapM_eq_ok {ε α β : Type} {f : α → Except ε β} {l : List α} :
    (∃ r, l.mapM f = .ok r) ↔ ∀ a ∈ l, ∃ b, f a = .ok b := by
  induction l with
  | nil => exact ⟨fun _ _ h => absurd h List.not_mem_nil, fun _ => ⟨[], rfl⟩⟩
  | cons a l ih =>
    simp only [mapM_cons_eq_ok, List.forall_mem_cons, ← ih]
    constructor
    · rintro ⟨_, b, hb, r, hr, rfl⟩
      exact ⟨⟨b, hb⟩, r, hr⟩
    · rintro ⟨⟨b, hb⟩, r, hr⟩
      exact ⟨_, b, hb, r, hr, rfl⟩

theorem mem_flatten_mapM {ε α β : Type} {f : α → Except ε (List β)} {l : List α}
    {r : List (List β)} (h : l.mapM f = .ok r) {b : β} :
    b ∈ r.flatten ↔ ∃ a ∈ l, ∃ bs, f a = .ok bs ∧ b ∈ bs := by
  have hmap := mapM_eq_ok.mp h
  rw [List.mem_flatten]
  constructor
  · rintro ⟨bs, hbs, hb⟩
    have hmem : Except.ok bs ∈ l.map f := hmap ▸ List.mem_map_of_mem hbs
    obtain ⟨a, ha, hf⟩ := List.mem_map.mp hmem
    exact ⟨a, ha, bs, hf, hb⟩
  · rintro ⟨a, ha, bs, hf, hb⟩
    have hmem : f a ∈ r.map Except.ok := hmap ▸ List.mem_map_of_mem ha
    obtain ⟨bs', hbs', he⟩ := List.mem_map.mp hmem
    obtain rfl : bs' = bs := Except.ok.inj (he.trans hf)
    exact ⟨bs', hbs', hb⟩

/-- A fold whose steps each read something and then use it reads all of it first. -/
theorem foldlM_map {ε α β γ : Type} {F : β → α → Except ε β} {f : α → Except ε γ} {g : β → γ → β}
    (h : ∀ b a, F b a = (f a).map (g b)) (l : List α) (b : β) :
    l.foldlM F b = (l.mapM f).map (List.foldl g b) := by
  induction l generalizing b with
  | nil => rfl
  | cons a l ih =>
    rw [List.foldlM_cons, List.mapM_cons, h]
    cases f a with
    | error e => rfl
    | ok c =>
      change l.foldlM F (g b c) = _
      rw [ih]
      change _ = Except.map _ ((l.mapM f).bind fun cs => .ok (c :: cs))
      cases l.mapM f <;> rfl

theorem foldlM_flatten {ε α β γ : Type} {F : β → α → Except ε β} {f : α → Except ε (List γ)}
    {g : β → γ → β} (h : ∀ b a, F b a = (f a).map (List.foldl g b)) (l : List α) (b : β) :
    l.foldlM F b = ((l.mapM f).map List.flatten).map (List.foldl g b) := by
  rw [foldlM_map h]
  cases l.mapM f with
  | error e => rfl
  | ok css =>
    change Except.ok _ = Except.ok _
    rw [List.foldl_flatten]

end FractalD.Machine.Result
