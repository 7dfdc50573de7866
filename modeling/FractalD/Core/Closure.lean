import FractalD.Core.Graph
import Mathlib.Algebra.BigOperators.Group.List.Basic
import Mathlib.Logic.Relation

namespace FractalD.Core.Closure

open FractalD.Core.Graph FractalD.Machine.CString FractalD.Machine.OrderedMap Relation

def Leads (next : Str → List Str) (name dependency : Str) : Prop := dependency ∈ next name

def Reached (next : Str → List Str) : Str → Str → Prop := ReflTransGen (Leads next)

section

variable (g : DependencyGraph) (next : Str → List Str)

def Registered (name : Str) : Prop := g.services.contains name

def Complete (name : Str) : Prop :=
  ∀ dependency ∈ (g.requiredDependencies name).keys, Registered g dependency

/-- How much the services that are not selected still lead to. -/
def remaining (selected : BTreeSet Str) : Nat :=
  (g.services.keys.map fun name => if selected.contains name then 0 else (next name).length).sum

variable {g next} {root name : Str}

theorem firstMissing_none : g.firstMissing name = none ↔ Complete g name := by
  simp [DependencyGraph.firstMissing, Complete, Registered]

theorem firstMissing_some {dependency : Str} (h : g.firstMissing name = some dependency) :
    ¬ Complete g name :=
  fun hc => by simp [firstMissing_none.mpr hc] at h

theorem remaining_add (next : Str → List Str) {selected : BTreeSet Str} (h : Registered g name)
    (hs : ¬ selected.contains name) :
    remaining g next (selected.add name) + (next name).length = remaining g next selected := by
  have hperm := List.perm_cons_erase (mem_keys.mpr h)
  have hsame : ∀ x ∈ g.services.keys.erase name,
      (if (selected.add name).contains x then 0 else (next x).length) =
        if selected.contains x then 0 else (next x).length := by
    intro x hx
    have hne : x ≠ name := fun he =>
      (keys_nodup g.services).not_mem_erase (he ▸ hx)
    have hiff : (selected.add name).contains x ↔ selected.contains x := by
      rw [contains_add, or_iff_right hne]
    simp only [hiff]
  have hname : (selected.add name).contains name := contains_add.mpr (.inl rfl)
  rw [remaining, remaining, (hperm.map _).sum_eq, (hperm.map _).sum_eq, List.map_cons,
    List.map_cons, List.sum_cons, List.sum_cons, List.map_congr_left hsame, if_pos hname,
    if_neg hs]
  omega

/-- What holds of the services that are selected and those that are pending. -/
structure Visiting (g : DependencyGraph) (next : Str → List Str) (root : Str) (fuel : Nat)
    (pending : List Str) (selected : BTreeSet Str) : Prop where
  start : selected.contains root ∨ root ∈ pending
  waiting : ∀ x ∈ pending, Reached next root x ∧ Registered g x
  visited : ∀ x, selected.contains x → Reached next root x ∧ Complete g x ∧
    ∀ y ∈ next x, selected.contains y ∨ y ∈ pending
  enough : pending.length + remaining g next selected < fuel

variable {fuel : Nat} {pending : List Str} {selected : BTreeSet Str}

theorem visiting_skip (h : Visiting g next root (fuel + 1) (name :: pending) selected)
    (hs : selected.contains name) : Visiting g next root fuel pending selected where
  start := h.start.elim .inl fun hr => (List.mem_cons.mp hr).elim (fun he => .inl (he ▸ hs)) .inr
  waiting x hx := h.waiting x (List.mem_cons_of_mem name hx)
  visited x hx := by
    obtain ⟨hr, hc, hn⟩ := h.visited x hx
    refine ⟨hr, hc, fun y hy => (hn y hy).elim .inl fun hm => ?_⟩
    exact (List.mem_cons.mp hm).elim (fun he => .inl (he ▸ hs)) .inr
  enough := by
    have := h.enough
    simp only [List.length_cons] at this
    omega

theorem visiting_expand (hnext : ∀ x, Complete g x → ∀ y ∈ next x, Registered g y)
    (h : Visiting g next root (fuel + 1) (name :: pending) selected)
    (hs : ¬ selected.contains name) (hc : Complete g name) :
    Visiting g next root fuel (pending ++ next name) (selected.add name) where
  start := by
    obtain hr | hr := h.start
    · exact .inl (contains_add.mpr (.inr hr))
    · obtain rfl | hr := List.mem_cons.mp hr
      · exact .inl (contains_add.mpr (.inl rfl))
      · exact .inr (List.mem_append_left _ hr)
  waiting x hx := by
    obtain hx | hx := List.mem_append.mp hx
    · exact h.waiting x (List.mem_cons_of_mem name hx)
    · exact ⟨(h.waiting name List.mem_cons_self).1.tail hx, hnext name hc x hx⟩
  visited x hx := by
    obtain rfl | hx := contains_add.mp hx
    · refine ⟨(h.waiting x List.mem_cons_self).1, hc, fun y hy => .inr ?_⟩
      exact List.mem_append_right _ hy
    · obtain ⟨hr, hcx, hn⟩ := h.visited x hx
      refine ⟨hr, hcx, fun y hy => ?_⟩
      obtain hy | hy := hn y hy
      · exact .inl (contains_add.mpr (.inr hy))
      · obtain rfl | hy := List.mem_cons.mp hy
        · exact .inl (contains_add.mpr (.inl rfl))
        · exact .inr (List.mem_append_left _ hy)
  enough := by
    have hfuel := h.enough
    have hadd := remaining_add next (h.waiting name List.mem_cons_self).2 hs
    simp only [List.length_cons, List.length_append] at hfuel ⊢
    omega

/-- The worklist ends with all that the root leads to, or with a service that
requires an unknown one. -/
theorem closure_cases (hnext : ∀ x, Complete g x → ∀ y ∈ next x, Registered g y)
    (h : Visiting g next root fuel pending selected) :
    (∃ all, g.closure next fuel pending selected = .ok all ∧
      (∀ x, all.contains x ↔ Reached next root x) ∧ ∀ x, Reached next root x → Complete g x) ∨
    ∃ x dependency, g.closure next fuel pending selected =
      .error (.missingRequired x dependency) ∧ Reached next root x ∧ ¬ Complete g x := by
  induction fuel generalizing pending selected with
  | zero => exact absurd h.enough (Nat.not_lt_zero _)
  | succ fuel ih =>
    cases pending with
    | nil =>
      have hall : ∀ x, Reached next root x → selected.contains x := by
        intro x hx
        induction hx with
        | refl => exact h.start.resolve_right List.not_mem_nil
        | tail _ hbc ih' => exact ((h.visited _ ih').2.2 _ hbc).resolve_right List.not_mem_nil
      refine .inl ⟨selected, rfl, fun x => ⟨fun hx => (h.visited x hx).1, hall x⟩, fun x hx => ?_⟩
      exact (h.visited x (hall x hx)).2.1
    | cons name pending =>
      rw [DependencyGraph.closure]
      by_cases hs : selected.contains name
      · rw [if_pos hs]
        exact ih (visiting_skip h hs)
      · rw [if_neg hs]
        cases hm : g.firstMissing name with
        | some dependency =>
          have hreached := (h.waiting name List.mem_cons_self).1
          exact .inr ⟨name, dependency, rfl, hreached, firstMissing_some hm⟩
        | none => exact ih (visiting_expand hnext h hs (firstMissing_none.mp hm))

theorem closureOf_cases (hnext : ∀ x, Complete g x → ∀ y ∈ next x, Registered g y)
    (hroot : root ≠ []) (hr : Registered g root) :
    (∃ all, g.closureOf next root = .ok all ∧
      (∀ x, all.contains x ↔ Reached next root x) ∧ ∀ x, Reached next root x → Complete g x) ∨
    ∃ x dependency, g.closureOf next root = .error (.missingRequired x dependency) ∧
      Reached next root x ∧ ¬ Complete g x := by
  have hcontains : g.services.contains root = true := hr
  rw [DependencyGraph.closureOf, if_neg hroot, hcontains]
  refine closure_cases hnext ⟨.inr List.mem_cons_self, fun x hx => ?_, fun x hx => ?_, ?_⟩
  · rw [List.mem_singleton.mp hx]
    exact ⟨ReflTransGen.refl, hr⟩
  · simp [BTreeMap.contains] at hx
  · simp only [remaining, DependencyGraph.closureSteps, BTreeMap.contains, get_empty,
      Option.isSome_none, Bool.false_eq_true, if_false, List.length_singleton]
    omega

end

end FractalD.Core.Closure
