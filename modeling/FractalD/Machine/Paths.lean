import FractalD.Machine.CString
import Mathlib.Data.List.Basic
import Mathlib.Tactic.SplitIfs

namespace FractalD.Machine.Paths

open FractalD.Machine.CString

/-- A component of a Unix path. -/
inductive Component
  | rootDir
  | curDir
  | parentDir
  | normal (name : Str)
  deriving DecidableEq, Repr, Ord

/-- A component that is not the first of a relative path; there a dot stands for nothing. -/
def laterComponent (part : Str) : Option Component :=
  if part = ['.'] then none
  else if part = ['.', '.'] then some .parentDir
  else some (.normal part)

def pathParts (path : Str) : List Str := (path.splitOn '/').filter (· ≠ [])

/-- `Path::components`. Two paths are equal if they have the same components. -/
def components (path : Str) : List Component :=
  if path.head? = some '/' then .rootDir :: (pathParts path).filterMap laterComponent
  else
    match pathParts path with
    | [] => []
    | part :: parts =>
      (if part = ['.'] then some .curDir else laterComponent part).toList ++
        parts.filterMap laterComponent

def Component.name? : Component → Option Str
  | .normal name => some name
  | .rootDir | .curDir | .parentDir => none

/-- What holds no separator goes on with the last part of a path. -/
theorem splitOn_append_last {c : Char} {w : Str} (hw : c ∉ w) (s : Str) :
    ∃ parts last, s.splitOn c = parts ++ [last] ∧ (s ++ w).splitOn c = parts ++ [last ++ w] := by
  induction s with
  | nil => exact ⟨[], [], rfl, List.splitOn_eq_singleton hw⟩
  | cons a s ih =>
    obtain ⟨parts, last, hs, hsw⟩ := ih
    rw [List.cons_append, List.splitOn_cons_eq_if_modifyHead, List.splitOn_cons_eq_if_modifyHead, hs, hsw]
    split
    next => exact ⟨[] :: parts, last, rfl, rfl⟩
    next =>
      cases parts with
      | nil => exact ⟨[], a :: last, rfl, rfl⟩
      | cons part parts => exact ⟨(a :: part) :: parts, last, rfl, rfl⟩

theorem laterComponent_normal {part name : Str} (h : laterComponent part = some (.normal name)) :
    part = name := by
  unfold laterComponent at h
  split_ifs at h
  · cases h
  · exact Component.normal.inj (Option.some.inj h)

theorem components_append_ne {w : Str} (hne : w ≠ []) (hslash : '/' ∉ w) (hdot : '.' ∉ w) (s : Str) :
    components (s ++ w) ≠ components s := by
  obtain ⟨parts, last, hs, hsw⟩ := splitOn_append_last hslash s
  obtain ⟨c, hc⟩ := List.exists_mem_of_ne_nil w hne
  have hpart : c ∈ last ++ w := List.mem_append_right _ hc
  have hdots : last ++ w ≠ ['.'] ∧ last ++ w ≠ ['.', '.'] := by
    constructor <;>
    · intro he
      rw [he] at hpart
      obtain rfl : c = '.' := by simpa using hpart
      exact hdot hc
  have hlater : laterComponent (last ++ w) = some (.normal (last ++ w)) := by
    rw [laterComponent, if_neg hdots.1, if_neg hdots.2]
  have hlonger : last ≠ last ++ w := fun he => hne (List.self_eq_append_right.mp he)
  have hhead : (s ++ w).head? = some '/' ↔ s.head? = some '/' := by
    cases s with
    | nil =>
      refine iff_of_false (fun h => hslash ?_) (by simp)
      exact List.mem_of_mem_head? h
    | cons a s => rfl
  -- the two differ in what the last part adds
  have hfirst {l : List Component} (hl : ∀ name, .normal name ∈ l → last = name) :
      [Component.normal (last ++ w)] ≠ l := by
    rintro rfl
    exact hlonger (hl _ (List.mem_singleton_self _))
  have hparts : pathParts s = parts.filter (· ≠ []) ++ [last].filter (· ≠ []) := by
    rw [pathParts, hs, List.filter_append]
  have hpartsw : pathParts (s ++ w) = parts.filter (· ≠ []) ++ [last ++ w] := by
    rw [pathParts, hsw, List.filter_append, List.filter_cons_of_pos (by simpa using .inr hne)]
    rfl
  have hmore : ∀ name, Component.normal name ∈ ([last].filter (· ≠ [])).filterMap laterComponent →
      last = name := by
    intro name hname
    obtain ⟨part, hp, hl⟩ := List.mem_filterMap.mp hname
    rw [← laterComponent_normal hl, List.mem_singleton.mp (List.mem_of_mem_filter hp)]
  rw [components, components, hparts, hpartsw]
  by_cases habs : s.head? = some '/'
  · rw [if_pos (hhead.mpr habs), if_pos habs, List.filterMap_append, List.filterMap_append,
      List.filterMap_cons_some hlater]
    intro he
    exact hfirst hmore (List.append_cancel_left (List.cons.inj he).2)
  · rw [if_neg (fun h => habs (hhead.mp h)), if_neg habs]
    cases hp : parts.filter (· ≠ []) with
    | cons part rest =>
      simp only [List.cons_append, List.filterMap_append, List.filterMap_cons_some hlater]
      rw [← List.append_assoc, ← List.append_assoc]
      intro he
      exact hfirst hmore (List.append_cancel_left he)
    | nil =>
      simp only [List.nil_append, if_neg hdots.1, hlater]
      refine hfirst fun name hname => ?_
      by_cases hlast : last = []
      · simp [hlast] at hname
      · rw [List.filter_cons_of_pos (by simpa using hlast), List.filter_nil] at hname
        simp only [List.filterMap_nil, List.append_nil, Option.mem_toList] at hname
        split_ifs at hname
        · cases hname
        · exact laterComponent_normal hname

end FractalD.Machine.Paths
