import Mathlib.Data.List.Range
import Mathlib.Logic.Function.Basic

namespace FractalD.Machine.Descriptors

universe u

variable {φ : Type u}

/-- An open file under a number. -/
structure Descriptor (φ : Type u) where
  file : φ
  closeOnExec : Bool
  deriving DecidableEq, Repr

/-- The descriptors of a process. Only numbers below the limit are given out. -/
structure Table (φ : Type u) where
  slot : Nat → Option (Descriptor φ)
  limit : Nat

inductive Fault
  | badDescriptor
  | tooMany
  | invalid
  deriving DecidableEq, Repr

namespace Table

variable (t : Table φ)

/-- What a number stands for, which may be negative. -/
def lookup (fd : Int) : Option (Descriptor φ) := if 0 ≤ fd then t.slot fd.toNat else none

def put (n : Nat) (d : Option (Descriptor φ)) : Table φ :=
  { t with slot := Function.update t.slot n d }

/-- The lowest number that is free, from the given one on. -/
def free (least : Nat) : Option Nat :=
  (List.range' least (t.limit - least)).find? fun n => (t.slot n).isNone

/-- F_DUPFD_CLOEXEC -/
def dupCloseOnExec (fd : Int) (least : Nat) : Except Fault (Nat × Table φ) :=
  match t.lookup fd with
  | none => .error .badDescriptor
  | some d =>
    if t.limit ≤ least then .error .invalid
    else
      match t.free least with
      | none => .error .tooMany
      | some n => .ok (n, t.put n (some ⟨d.file, true⟩))

/-- The target is closed first if it is open. -/
def dup2 (old new : Nat) : Except Fault (Table φ) :=
  match t.slot old with
  | none => .error .badDescriptor
  | some d =>
    if t.limit ≤ new then .error .badDescriptor
    else if old = new then .ok t
    else .ok (t.put new (some ⟨d.file, false⟩))

/-- F_GETFD and F_SETFD -/
def keepOnExec (n : Nat) : Except Fault (Table φ) :=
  match t.slot n with
  | none => .error .badDescriptor
  | some d => .ok (t.put n (some { d with closeOnExec := false }))

def close (n : Nat) : Table φ := t.put n none

def closeAll (ns : List Nat) : Table φ := ns.foldl close t

end Table

section

variable {t t' : Table φ} {n m : Nat} {fd : Int}

@[simp]
theorem slot_put (d : Option (Descriptor φ)) :
    (t.put n d).slot m = if m = n then d else t.slot m := by
  simp only [Table.put, Function.update_apply]

@[simp]
theorem limit_put (d : Option (Descriptor φ)) : (t.put n d).limit = t.limit := rfl

theorem slot_closeAll (ns : List Nat) :
    (t.closeAll ns).slot m = if m ∈ ns then none else t.slot m := by
  induction ns generalizing t with
  | nil => rfl
  | cons n ns ih =>
    rw [Table.closeAll, List.foldl_cons, ← Table.closeAll, ih, Table.close, slot_put]
    by_cases hm : m ∈ ns
    · simp [hm]
    · simp [hm]

theorem free_some {least : Nat} (h : t.free least = some n) :
    least ≤ n ∧ t.slot n = none ∧ ∀ m, least ≤ m → m < n → t.slot m ≠ none := by
  obtain ⟨hfree, before, after, hsplit, hbefore⟩ := List.find?_eq_some_iff_append.mp h
  have hmem : n ∈ List.range' least (t.limit - least) := by
    rw [hsplit]
    exact List.mem_append_right _ List.mem_cons_self
  obtain ⟨hleast, hlimit⟩ := List.mem_range'_1.mp hmem
  refine ⟨hleast, Option.isNone_iff_eq_none.mp hfree, fun m hm hmn => ?_⟩
  have hin : m ∈ before ++ n :: after := by
    rw [← hsplit, List.mem_range'_1]
    omega
  have hsorted : (before ++ n :: after).Pairwise (· < ·) := by
    rw [← hsplit]
    exact List.pairwise_lt_range'
  obtain hm | hm := List.mem_append.mp hin
  · exact Option.isSome_iff_ne_none.mp (by simpa using hbefore m hm)
  · have hle : n ≤ m := by
      obtain rfl | hm := List.mem_cons.mp hm
      · exact Nat.le_refl _
      · have hafter := (List.pairwise_append.mp hsorted).2.1
        exact Nat.le_of_lt ((List.pairwise_cons.mp hafter).1 m hm)
    omega

theorem dupCloseOnExec_ok {least : Nat} (h : t.dupCloseOnExec fd least = .ok (n, t')) :
    ∃ d, t.lookup fd = some d ∧ t.free least = some n ∧ t' = t.put n (some ⟨d.file, true⟩) := by
  rw [Table.dupCloseOnExec] at h
  cases hd : t.lookup fd with
  | none =>
    rw [hd] at h
    cases h
  | some d =>
    simp only [hd] at h
    split at h
    · cases h
    cases hfree : t.free least with
    | none =>
      rw [hfree] at h
      cases h
    | some n' =>
      simp only [hfree] at h
      cases h
      exact ⟨d, rfl, rfl, rfl⟩

/-- A descriptor is copied to another number, and nothing else changes. -/
theorem dup2_ok (h : t.dup2 n m = .ok t') (hne : n ≠ m) :
    ∃ d, t.slot n = some d ∧ t' = t.put m (some ⟨d.file, false⟩) := by
  rw [Table.dup2] at h
  cases hd : t.slot n with
  | none =>
    rw [hd] at h
    cases h
  | some d =>
    simp only [hd, hne, if_false] at h
    split at h
    · cases h
    · cases h
      exact ⟨d, rfl, rfl⟩

theorem keepOnExec_ok (h : t.keepOnExec n = .ok t') :
    ∃ d, t.slot n = some d ∧ t' = t.put n (some { d with closeOnExec := false }) := by
  rw [Table.keepOnExec] at h
  cases hd : t.slot n with
  | none =>
    rw [hd] at h
    cases h
  | some d =>
    rw [hd] at h
    cases h
    exact ⟨d, rfl, rfl⟩

end

end FractalD.Machine.Descriptors
