import FractalD.Machine.OrderedMap
import Mathlib.Data.List.Induction
import Mathlib.Algebra.GroupWithZero.Nat

namespace FractalD.Machine.FirstCome

open FractalD.Machine.OrderedMap

/-- A value that is offered for a key, if there is one. A required one is taken whatever its
size. -/
structure Offer (κ α : Type) where
  key : κ
  value : Option α
  required : Bool

variable {κ α : Type} [LinearOrder κ] (size : α → Nat) (limit : Nat)

def total (taken : BTreeMap κ α) : Nat := (taken.values.map size).sum

/-- What an offer gives after others have been taken. -/
def Yields (taken : BTreeMap κ α) (o : Offer κ α) (a : α) : Prop :=
  o.value = some a ∧ (o.required = true ∨ total size taken + size a ≤ limit)

def take (taken : BTreeMap κ α) (o : Offer κ α) : BTreeMap κ α :=
  if taken.contains o.key then taken
  else
    match o.value with
    | some a =>
      if o.required = true ∨ total size taken + size a ≤ limit then taken.insert o.key a else taken
    | none => taken

def takeAll (offers : List (Offer κ α)) : BTreeMap κ α := offers.foldl (take size limit) empty

/-- The first of the offers for a key that gives something gives this. -/
def FirstYields (offers : List (Offer κ α)) (k : κ) (a : α) : Prop :=
  ∃ before o after, offers = before ++ o :: after ∧ o.key = k ∧
    Yields size limit (takeAll size limit before) o a ∧
    ∀ before' o' after', before = before' ++ o' :: after' → o'.key = k →
      ∀ b, ¬ Yields size limit (takeAll size limit before') o' b

section

variable {size limit} {taken : BTreeMap κ α} {o : Offer κ α} {k : κ} {a : α}
  {offers offers' : List (Offer κ α)}

theorem takeAll_append : takeAll size limit (offers ++ offers') =
    offers'.foldl (take size limit) (takeAll size limit offers) := List.foldl_append

theorem takeAll_concat : takeAll size limit (offers ++ [o]) =
    take size limit (takeAll size limit offers) o := takeAll_append

theorem get_take : (take size limit taken o).get k = some a ↔
    taken.get k = some a ∨ o.key = k ∧ ¬ taken.contains k ∧ Yields size limit taken o a := by
  rw [take]
  by_cases hkey : taken.contains o.key = true
  · rw [if_pos hkey]
    refine ⟨Or.inl, fun h => h.elim id ?_⟩
    rintro ⟨rfl, hnot, -⟩
    exact absurd hkey hnot
  · rw [if_neg hkey]
    have hnone : taken.get o.key = none := by simpa [BTreeMap.contains] using hkey
    cases hvalue : o.value with
    | none => simp [Yields, hvalue]
    | some b =>
      simp only [Yields, hvalue, Option.some.injEq]
      split_ifs with hfits
      · rw [get_insert]
        split_ifs with heq
        · subst heq
          rw [hnone]
          simp only [Option.some.injEq, reduceCtorEq, false_or, true_and]
          constructor
          · rintro rfl
            exact ⟨hkey, rfl, hfits⟩
          · exact fun h => h.2.1
        · exact ⟨Or.inl, fun h => h.elim id fun h => absurd h.1.symm heq⟩
      · refine ⟨Or.inl, fun h => h.elim id ?_⟩
        rintro ⟨-, -, rfl, h⟩
        exact absurd h hfits

theorem get_takeAll_append (h : (takeAll size limit offers).get k = some a) :
    (takeAll size limit (offers ++ offers')).get k = some a := by
  induction offers' using List.reverseRecOn with
  | nil => rwa [List.append_nil]
  | append_singleton offers' o ih =>
    rw [← List.append_assoc, takeAll_concat]
    exact get_take.mpr (Or.inl ih)

/-- What gives something is taken, if nothing has been taken before. -/
theorem contains_of_yields {before after : List (Offer κ α)}
    (h : Yields size limit (takeAll size limit before) o a) :
    ((takeAll size limit (before ++ o :: after)).contains o.key) = true := by
  have htake : ∃ b, (take size limit (takeAll size limit before) o).get o.key = some b := by
    by_cases hkey : (takeAll size limit before).contains o.key = true
    · obtain ⟨b, hb⟩ := contains_iff.mp hkey
      exact ⟨b, get_take.mpr (Or.inl hb)⟩
    · exact ⟨a, get_take.mpr (Or.inr ⟨rfl, hkey, h⟩)⟩
  obtain ⟨b, hb⟩ := htake
  rw [← takeAll_concat] at hb
  rw [List.append_cons]
  exact contains_iff.mpr ⟨b, get_takeAll_append hb⟩

/-- A key has what the first offer for it that gives something gives. -/
theorem get_takeAll_iff :
    (takeAll size limit offers).get k = some a ↔ FirstYields size limit offers k a := by
  induction offers using List.reverseRecOn generalizing a with
  | nil => simp [takeAll, FirstYields]
  | append_singleton offers o ih =>
    rw [takeAll_concat, get_take]
    constructor
    · rintro (h | ⟨hkey, hnot, hyields⟩)
      · obtain ⟨before, o', after, heq, h⟩ := ih.mp h
        exact ⟨before, o', after ++ [o], by rw [heq, List.append_assoc]; rfl, h⟩
      · refine ⟨offers, o, [], rfl, hkey, hyields, ?_⟩
        rintro before' o' after' rfl rfl b hb
        exact hnot (contains_of_yields hb)
    · rintro ⟨before, o', after, heq, hkey, hyields, hfirst⟩
      obtain rfl | ⟨after, last, rfl⟩ := List.eq_nil_or_concat' after
      · obtain ⟨rfl, hlast⟩ := List.append_inj' heq rfl
        obtain rfl : o = o' := (List.cons.inj hlast).1
        refine Or.inr ⟨hkey, fun hcontains => ?_, hyields⟩
        obtain ⟨b, hb⟩ := contains_iff.mp hcontains
        obtain ⟨before', o'', after', rfl, hkey', hyields', -⟩ := ih.mp hb
        exact hfirst before' o'' after' rfl hkey' b hyields'
      · refine Or.inl (ih.mpr ⟨before, o', after, ?_, hkey, hyields, hfirst⟩)
        have heq' : offers ++ [o] = (before ++ o' :: after) ++ [last] := by
          rw [heq, List.append_assoc]
          rfl
        exact (List.append_inj' heq' rfl).1

theorem total_insert (h : ¬ taken.contains k = true) :
    total size (taken.insert k a) = total size taken + size a := by
  have hnew : k ∉ taken.keys := fun hk => h (mem_keys.mp hk)
  have hperm := insert_perm taken k a
  rw [erase_of_new hnew] at hperm
  rw [total, total, BTreeMap.values, BTreeMap.values, ((hperm.map Prod.snd).map size).sum_nat]
  simp only [List.map_cons, List.sum_cons]
  exact Nat.add_comm _ _

end

end FractalD.Machine.FirstCome
