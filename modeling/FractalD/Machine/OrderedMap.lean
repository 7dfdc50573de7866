import Mathlib.Order.Defs.LinearOrder
import Mathlib.Data.List.Nodup
import Mathlib.Order.Lattice

namespace FractalD.Machine.OrderedMap

/-- A map whose entries stand in the order of their keys. -/
structure BTreeMap (κ α : Type) [LinearOrder κ] where
  entries : List (κ × α)
  sorted : entries.Pairwise fun a b => a.1 < b.1

variable {κ α β : Type} [LinearOrder κ]

def insertEntry (k : κ) (a : α) : List (κ × α) → List (κ × α)
  | [] => [(k, a)]
  | e :: l =>
    if k < e.1 then (k, a) :: e :: l else if k = e.1 then (k, a) :: l else e :: insertEntry k a l

theorem mem_insertEntry {k : κ} {a : α} {l : List (κ × α)} {e : κ × α}
    (h : e ∈ insertEntry k a l) : e = (k, a) ∨ e ∈ l := by
  induction l with
  | nil => exact Or.inl (by simpa [insertEntry] using h)
  | cons d l ih =>
    simp only [insertEntry] at h
    split_ifs at h with hlt heq
    · simpa using h
    · exact (List.mem_cons.mp h).imp_right (List.mem_cons_of_mem d)
    · obtain rfl | h := List.mem_cons.mp h
      · exact Or.inr List.mem_cons_self
      · exact (ih h).imp_right (List.mem_cons_of_mem d)

theorem insertEntry_sorted (k : κ) (a : α) {l : List (κ × α)}
    (h : l.Pairwise fun a b => a.1 < b.1) :
    (insertEntry k a l).Pairwise fun a b => a.1 < b.1 := by
  induction l with
  | nil => exact List.pairwise_singleton _ _
  | cons d l ih =>
    obtain ⟨hd, hl⟩ := List.pairwise_cons.mp h
    simp only [insertEntry]
    split_ifs with hlt heq
    · refine List.pairwise_cons.mpr ⟨fun e he => ?_, h⟩
      obtain rfl | he := List.mem_cons.mp he
      · exact hlt
      · exact lt_trans hlt (hd e he)
    · exact List.pairwise_cons.mpr ⟨fun e he => heq ▸ hd e he, hl⟩
    · refine List.pairwise_cons.mpr ⟨fun e he => ?_, ih hl⟩
      obtain rfl | he := mem_insertEntry he
      · exact lt_of_le_of_ne (le_of_not_gt hlt) (Ne.symm heq)
      · exact hd e he

def empty : BTreeMap κ α := ⟨[], List.Pairwise.nil⟩

def BTreeMap.get (t : BTreeMap κ α) (k : κ) : Option α := (t.entries.find? (·.1 = k)).map Prod.snd

def BTreeMap.contains (t : BTreeMap κ α) (k : κ) : Bool := (t.get k).isSome

def BTreeMap.keys (t : BTreeMap κ α) : List κ := t.entries.map Prod.fst

def BTreeMap.values (t : BTreeMap κ α) : List α := t.entries.map Prod.snd

def BTreeMap.insert (t : BTreeMap κ α) (k : κ) (a : α) : BTreeMap κ α :=
  ⟨insertEntry k a t.entries, insertEntry_sorted k a t.sorted⟩

theorem find_insertEntry_self (k : κ) (a : α) (l : List (κ × α)) :
    (insertEntry k a l).find? (·.1 = k) = some (k, a) := by
  induction l with
  | nil => simp [insertEntry]
  | cons d l ih =>
    simp only [insertEntry]
    split_ifs with hlt heq
    · simp
    · simp
    · rw [List.find?_cons_of_neg (by simpa using Ne.symm heq)]
      exact ih

theorem find_insertEntry_of_ne {k k' : κ} (h : k' ≠ k) (a : α) (l : List (κ × α)) :
    (insertEntry k a l).find? (·.1 = k') = l.find? (·.1 = k') := by
  induction l with
  | nil => simp [insertEntry, Ne.symm h]
  | cons d l ih =>
    simp only [insertEntry]
    split_ifs with hlt heq
    · rw [List.find?_cons_of_neg (by simpa using Ne.symm h)]
    · rw [List.find?_cons_of_neg (by simpa using Ne.symm h),
        List.find?_cons_of_neg (by simpa [← heq] using Ne.symm h)]
    · simp only [List.find?_cons, ih]

@[simp]
theorem get_insert_self (t : BTreeMap κ α) (k : κ) (a : α) : (t.insert k a).get k = some a := by
  simp only [BTreeMap.get, BTreeMap.insert, find_insertEntry_self, Option.map_some]

theorem get_insert_of_ne (t : BTreeMap κ α) {k k' : κ} (h : k' ≠ k) (a : α) :
    (t.insert k a).get k' = t.get k' := by
  simp only [BTreeMap.get, BTreeMap.insert, find_insertEntry_of_ne h]

theorem get_insert (t : BTreeMap κ α) (k k' : κ) (a : α) :
    (t.insert k a).get k' = if k' = k then some a else t.get k' := by
  by_cases h : k' = k
  · rw [if_pos h, h, get_insert_self]
  · rw [if_neg h, get_insert_of_ne t h]

def BTreeMap.erase (t : BTreeMap κ α) (k : κ) : BTreeMap κ α :=
  ⟨t.entries.filter (·.1 ≠ k), t.sorted.filter _⟩

def BTreeMap.map (f : α → β) (t : BTreeMap κ α) : BTreeMap κ β :=
  ⟨t.entries.map fun e => (e.1, f e.2), List.pairwise_map.mpr t.sorted⟩

def BTreeMap.mapKeyed (f : κ → α → β) (t : BTreeMap κ α) : BTreeMap κ β :=
  ⟨t.entries.map fun e => (e.1, f e.1 e.2), List.pairwise_map.mpr t.sorted⟩

def BTreeMap.extendWith (f : Option α → β → α) (t : BTreeMap κ α) (u : BTreeMap κ β) : BTreeMap κ α :=
  u.entries.foldl (fun t e => t.insert e.1 (f (t.get e.1) e.2)) t

abbrev BTreeSet (κ : Type) [LinearOrder κ] := BTreeMap κ Unit

def BTreeSet.add (t : BTreeSet κ) (k : κ) : BTreeSet κ := BTreeMap.insert t k ()

/-- The elements of a list as a `BTreeSet`, in order. -/
def ofList (l : List κ) : BTreeSet κ := l.foldl BTreeSet.add empty

/-- The keys of a map whose values are wanted, in order. -/
def BTreeMap.filterKeys (t : BTreeMap κ α) (p : κ → α → Bool) : BTreeSet κ :=
  ⟨(t.entries.filter fun e => p e.1 e.2).map fun e => (e.1, ()),
    List.pairwise_map.mpr (t.sorted.filter _)⟩

section

variable {t : BTreeMap κ α} {k k' : κ} {a : α}

theorem get_eq_some : t.get k = some a ↔ (k, a) ∈ t.entries := by
  have hs := t.sorted
  rw [BTreeMap.get]
  generalize t.entries = l at hs
  induction l with
  | nil => simp
  | cons e l ih =>
    obtain ⟨he, hl⟩ := List.pairwise_cons.mp hs
    by_cases hk : e.1 = k
    · have hnot : (k, a) ∉ l := fun h => absurd (he (k, a) h) (by simp [hk])
      rw [List.find?_cons_of_pos (by simpa using hk), Option.map_some, Option.some.injEq,
        List.mem_cons, or_iff_left hnot, Prod.ext_iff]
      simp [hk, eq_comm]
    · have hne : (k, a) ≠ e := fun h => hk (h ▸ rfl)
      rw [List.find?_cons_of_neg (by simpa using hk), List.mem_cons, or_iff_right hne]
      exact ih hl

theorem mem_keys : k ∈ t.keys ↔ t.contains k := by
  rw [BTreeMap.contains, Option.isSome_iff_exists, BTreeMap.keys, List.mem_map]
  constructor
  · rintro ⟨e, he, rfl⟩
    exact ⟨e.2, get_eq_some.mpr he⟩
  · rintro ⟨a, ha⟩
    exact ⟨(k, a), get_eq_some.mp ha, rfl⟩

theorem contains_iff : t.contains k ↔ ∃ a, t.get k = some a := by
  rw [BTreeMap.contains, Option.isSome_iff_exists]

theorem keys_sorted (t : BTreeMap κ α) : t.keys.Pairwise (· < ·) := List.pairwise_map.mpr t.sorted

theorem not_contains_of_keys (h : t.keys = []) : ¬ t.contains k :=
  fun hk => List.not_mem_nil (h ▸ mem_keys.mpr hk)

theorem le_getLast (h : t.keys.getLast? = some k) :
    t.contains k ∧ ∀ k', t.contains k' → k' ≤ k := by
  obtain ⟨l, hl⟩ := List.getLast?_eq_some_iff.mp h
  refine ⟨mem_keys.mp (by simp [hl]), fun k' hk' => ?_⟩
  have hmem := mem_keys.mpr hk'
  rw [hl, List.mem_append, List.mem_singleton] at hmem
  obtain hmem | rfl := hmem
  · have hsorted := keys_sorted t
    rw [hl] at hsorted
    exact le_of_lt ((List.pairwise_append.mp hsorted).2.2 k' hmem k List.mem_cons_self)
  · exact le_rfl

theorem keys_nodup (t : BTreeMap κ α) : t.keys.Nodup := (keys_sorted t).imp ne_of_lt

@[simp]
theorem get_empty : (empty : BTreeMap κ α).get k = none := rfl

theorem get_erase : (t.erase k).get k' = if k' = k then none else t.get k' := by
  refine Option.ext fun a => ?_
  rw [get_eq_some, BTreeMap.erase, List.mem_filter]
  by_cases h : k' = k
  · simp [h]
  · simp [h, get_eq_some]

theorem get_mapKeyed (f : κ → α → β) : (t.mapKeyed f).get k = (t.get k).map (f k) := by
  refine Option.ext fun b => ?_
  rw [get_eq_some, BTreeMap.mapKeyed, List.mem_map, Option.map_eq_some_iff]
  constructor
  · rintro ⟨e, he, heq⟩
    cases heq
    exact ⟨e.2, get_eq_some.mpr he, rfl⟩
  · rintro ⟨a, ha, rfl⟩
    exact ⟨(k, a), get_eq_some.mp ha, rfl⟩

theorem get_map (f : α → β) : (t.map f).get k = (t.get k).map f := get_mapKeyed fun _ => f

theorem keys_map (f : α → β) : (t.map f).keys = t.keys := by
  simp only [BTreeMap.keys, BTreeMap.map, List.map_map]
  rfl

theorem entries_nodup (t : BTreeMap κ α) : t.entries.Nodup :=
  t.sorted.imp fun {a b} (h : a.1 < b.1) (he : a = b) => lt_irrefl _ (he ▸ h)

theorem eq_of_entries {t t' : BTreeMap κ α} (h : t.entries = t'.entries) : t = t' := by
  obtain ⟨l, hl⟩ := t
  obtain ⟨l', hl'⟩ := t'
  obtain rfl : l = l' := h
  rfl

theorem insert_perm (t : BTreeMap κ α) (k : κ) (a : α) :
    (t.insert k a).entries.Perm ((k, a) :: (t.erase k).entries) := by
  have hnot : (k, a) ∉ (t.erase k).entries := by simp [BTreeMap.erase]
  have hnodup := List.nodup_cons.mpr ⟨hnot, entries_nodup (t.erase k)⟩
  apply (List.perm_ext_iff_of_nodup (entries_nodup _) hnodup).mpr
  rintro ⟨k', b⟩
  rw [← get_eq_some, get_insert, List.mem_cons, ← get_eq_some, get_erase, Prod.mk.injEq]
  by_cases h : k' = k
  · simp [h, eq_comm]
  · simp [h]

theorem erase_of_new (h : k ∉ t.keys) : (t.erase k).entries = t.entries := by
  apply List.filter_eq_self.mpr
  intro e he
  have hne : e.1 ≠ k := fun heq => h (heq ▸ List.mem_map_of_mem he)
  simpa using hne

theorem eq_of_get {t t' : BTreeMap κ α} (h : ∀ k, t.get k = t'.get k) : t = t' := by
  have hmem : ∀ e, e ∈ t.entries ↔ e ∈ t'.entries := fun e => by
    rw [← get_eq_some, ← get_eq_some, h]
  have hperm := (List.perm_ext_iff_of_nodup (entries_nodup t) (entries_nodup t')).mpr hmem
  apply eq_of_entries
  exact hperm.eq_of_pairwise (fun _ _ _ _ hab hba => (lt_asymm hab hba).elim) t.sorted t'.sorted

theorem map_insert (f : α → β) (t : BTreeMap κ α) (k : κ) (a : α) :
    (t.insert k a).map f = (t.map f).insert k (f a) := by
  apply eq_of_get
  intro k'
  rw [get_map, get_insert, get_insert, get_map]
  split <;> rfl

theorem get_extendWith (f : Option α → β → α) (t : BTreeMap κ α) (u : BTreeMap κ β) (k : κ) :
    (t.extendWith f u).get k = ((u.get k).map (f (t.get k))).or (t.get k) := by
  have hs := u.sorted
  rw [BTreeMap.extendWith, BTreeMap.get.eq_def u]
  generalize u.entries = l at hs
  induction l generalizing t with
  | nil => rfl
  | cons e l ih =>
    obtain ⟨he, hl⟩ := List.pairwise_cons.mp hs
    rw [List.foldl_cons, ih _ hl, get_insert]
    by_cases hk : e.1 = k
    · subst hk
      have hnone : l.find? (fun d => decide (d.1 = e.1)) = none := by
        rw [List.find?_eq_none]
        intro d hd heq
        exact absurd (he d hd) (by simp [of_decide_eq_true heq])
      rw [List.find?_cons_of_pos (by simp), hnone, if_pos rfl]
      rfl
    · rw [List.find?_cons_of_neg (by simpa using hk), if_neg (Ne.symm hk)]

theorem filterKeys_map (f : α → β) (t : BTreeMap κ α) (p : κ → β → Bool) :
    (t.map f).filterKeys p = t.filterKeys fun k a => p k (f a) := by
  simp only [BTreeMap.filterKeys, BTreeMap.map, List.filter_map, List.map_map]
  rfl

theorem contains_filterKeys {p : κ → α → Bool} :
    (t.filterKeys p).contains k ↔ ∃ a, t.get k = some a ∧ p k a := by
  rw [contains_iff]
  constructor
  · rintro ⟨u, hu⟩
    obtain ⟨e, he, heq⟩ := List.mem_map.mp (get_eq_some.mp hu)
    cases heq
    obtain ⟨he, hp⟩ := List.mem_filter.mp he
    exact ⟨e.2, get_eq_some.mpr he, hp⟩
  · rintro ⟨a, ha, hp⟩
    exact ⟨(), get_eq_some.mpr (List.mem_map.mpr
      ⟨(k, a), List.mem_filter.mpr ⟨get_eq_some.mp ha, hp⟩, rfl⟩)⟩

theorem contains_insert : (t.insert k a).contains k' ↔ k' = k ∨ t.contains k' := by
  rw [BTreeMap.contains, get_insert]
  by_cases h : k' = k
  · simp [h]
  · simp [h, BTreeMap.contains]

theorem contains_erase : (t.erase k).contains k' ↔ k' ≠ k ∧ t.contains k' := by
  rw [BTreeMap.contains, get_erase]
  by_cases h : k' = k
  · simp [h]
  · simp [h, BTreeMap.contains]

end

section

variable {t : BTreeSet κ} {k k' : κ} {l : List κ}

theorem contains_add : (t.add k).contains k' ↔ k' = k ∨ t.contains k' := contains_insert

theorem contains_foldl_add : (l.foldl BTreeSet.add t).contains k ↔ t.contains k ∨ k ∈ l := by
  induction l generalizing t with
  | nil => simp
  | cons a l ih => rw [List.foldl_cons, ih, contains_add, List.mem_cons, or_assoc, or_left_comm]

theorem mem_ofList : k ∈ (ofList l).keys ↔ k ∈ l := by
  rw [mem_keys, ofList, contains_foldl_add]
  simp [BTreeMap.contains]

/-- A fold whose steps add keys adds the keys of all of them. -/
theorem foldlM_collects {ε α : Type} {f : BTreeSet κ → α → Except ε (BTreeSet κ)}
    {p : α → κ → Prop} {l : List α}
    (hstep : ∀ a ∈ l, ∀ t, ∃ t', f t a = .ok t' ∧ ∀ k, t'.contains k ↔ t.contains k ∨ p a k)
    (t : BTreeSet κ) :
    ∃ t', l.foldlM f t = .ok t' ∧ ∀ k, t'.contains k ↔ t.contains k ∨ ∃ a ∈ l, p a k := by
  induction l generalizing t with
  | nil => exact ⟨t, rfl, by simp⟩
  | cons a l ih =>
    obtain ⟨u, hu, hcontains⟩ := hstep a List.mem_cons_self t
    obtain ⟨v, hv, hrest⟩ := ih (fun b hb => hstep b (List.mem_cons_of_mem a hb)) u
    refine ⟨v, ?_, fun k => ?_⟩
    · rw [List.foldlM_cons, hu]
      exact hv
    · rw [hrest, hcontains, or_assoc]
      simp only [List.mem_cons, exists_eq_or_imp]

end

end FractalD.Machine.OrderedMap
