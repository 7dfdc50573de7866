import FractalD.Kernel.BootEntry

namespace FractalD.Kernel.Interference

open FractalD.Kernel.FileSystem FractalD.Kernel.Install FractalD.Kernel.Steps
open FractalD.Kernel.BootEntry FractalD.Machine.CString FractalD.Machine.Effect

/-- What is installed: a version with its image and its initrds. -/
structure Selection where
  version : Str
  image : Path
  initrds : List Path

def Selection.initrdNames (k : Selection) : List Str := k.initrds.filterMap Path.fileName

def bootCopies (os : Os) (c : Context) (k : Selection) : List (Location × Location) :=
  if usesEntry c then entryCopies os c k.version k.image k.initrds
  else flatCopies os c k.version k.image k.initrds

/-- The boot files of a kernel: its image, its initrds and its loader entry. -/
def bootFiles (os : Os) (c : Context) (k : Selection) : List Location :=
  (bootCopies os c k).map Prod.snd ++
    (if usesEntry c then [resolve os (entryPath c k.version)] else [])

section

variable {env : Environment} {c : Context} {k : Selection}

theorem initrdCopies_targets (os : Os) (directory : Location) (initrds : List Path) :
    (initrdCopies os directory initrds).map Prod.snd =
      (initrds.filterMap Path.fileName).map (fun name => directory ++ [name]) := by
  simp [initrdCopies, List.map_filterMap, Function.comp_def]

theorem bootFiles_entry (he : usesEntry c = true) (hv : validName k.version = true) :
    bootFiles env.os c k = ("linux".toList :: k.initrdNames).map
      (fun name => bootFile env.os c [c.entryToken, k.version, name]) ++
        [bootFile env.os c ["loader".toList, "entries".toList, entryFile c k.version]] := by
  simp only [bootFiles, bootCopies, if_pos he, entryCopies, List.map_cons, initrdCopies_targets,
    entryFile_location hv, resolve_entryPath, Selection.initrdNames]

theorem bootFiles_flat (he : usesEntry c = false) :
    bootFiles env.os c k = (("vmlinuz-".toList ++ k.version) :: k.initrdNames).map
      (fun name => bootFile env.os c [name]) := by
  simp only [bootFiles, bootCopies, he, Bool.false_eq_true, if_false, flatCopies, List.map_cons,
    initrdCopies_targets, Selection.initrdNames, List.append_nil]
  rfl

end

section

variable {env : Environment} {c : Context} {k : Selection} {operands : List Str}
  {t t₁ t' : Tree}

end

section

variable {env : Environment} {c : Context}

theorem bootFile_inj {a b : List Str} : bootFile env.os c a = bootFile env.os c b ↔ a = b :=
  List.append_right_inj _

theorem bootFile_prefix {a b : List Str} :
    bootFile env.os c a <+: bootFile env.os c b ↔ a <+: b :=
  List.prefix_append_right_inj _

theorem removes_bootFile {dirs : Path → Bool} {version : Str} (hv : validName version = true)
    (names : List Str) : Removes env c dirs version (bootFile env.os c names) ↔
      (∃ l ∈ indexTargets env c dirs version, l <+: bootFile env.os c names) ∨
      ["loader".toList, "entries".toList, entryFile c version] <+: names ∨
      [c.entryToken, version] <+: names ∨
      (c.layout ≠ bls ∧ ["vmlinuz-".toList ++ version] <+: names) := by
  have hd : resolve env.os (entryDirectory c version) =
      bootFile env.os c [c.entryToken, version] := resolve_entryDirectory hv
  have hf : resolve env.os (flatImage c version) =
      bootFile env.os c ["vmlinuz-".toList ++ version] := resolve_flatImage version
  rw [Removes, resolve_entryPath, hd, hf, bootFile_prefix, bootFile_prefix, bootFile_prefix]

variable {v w : Selection} {dirs : Path → Bool}

end

/-- A later installation and a removal leave the boot files of `v` as they are, and
the removal takes away what the installation has created. -/
structure Undisturbed (env : Environment) (c : Context) (v : Selection)
    (start added removed cleared : Tree) : Prop where
  add : ∀ q ∈ bootFiles env.os c v, textOf added q = textOf start q
  remove : ∀ q ∈ bootFiles env.os c v, textOf removed q = textOf start q
  leaves : ∀ q, textOf start q = none → textOf added q ≠ none → textOf cleared q = none

def createdFiles (env : Environment) (c : Context) (made : List Str) (k : Selection)
    (start : Tree) : List Location :=
  bootFiles env.os c k ++ indexMade env c made (dirsAfter env.os c k.version start) k.version

/-- The list of what is removed has every file on it that is new. -/
def Cleared (env : Environment) (c : Context) (made : List Str) (k : Selection) (start : Tree) :
    Prop :=
  ∀ q ∈ createdFiles env c made k start, textOf start q = none →
    Removes env c (dirsAfter env.os c k.version start) k.version q

instance (env : Environment) (c : Context) (made : List Str) (k : Selection) (start : Tree) :
    Decidable (Cleared env c made k start) := inferInstanceAs (Decidable (∀ q ∈ _, _))

section

variable {env : Environment} {c : Context} {w : Selection} {s : Tree} {made : List Str}

/-- With directories of its own, a kernel leaves no boot file behind. -/
theorem cleared_entry_iff (he : usesEntry c = true) (hw : validName w.version = true) :
    Cleared env c made w s ↔
      ∀ q ∈ indexMade env c made (dirsAfter env.os c w.version s) w.version, textOf s q = none →
        Removes env c (dirsAfter env.os c w.version s) w.version q := by
  rw [Cleared, createdFiles, List.forall_mem_append]
  refine and_iff_right fun q hq _ => ?_
  rw [bootFiles_entry he hw, List.mem_append, List.mem_map, List.mem_singleton] at hq
  obtain ⟨name, -, rfl⟩ | rfl := hq <;> rw [removes_bootFile hw] <;> simp [List.cons_prefix_cons]

/-- Without them, it leaves its initrds behind, and its image in the layout with entries. -/
theorem cleared_flat_iff (he : usesEntry c = false) (hw : validName w.version = true) :
    Cleared env c made w s ↔
      (∀ q ∈ bootFiles env.os c w, textOf s q = none →
        (∃ l ∈ indexTargets env c (dirsAfter env.os c w.version s) w.version, l <+: q) ∨
          (c.layout ≠ bls ∧ q = resolve env.os (flatImage c w.version))) ∧
      ∀ q ∈ indexMade env c made (dirsAfter env.os c w.version s) w.version, textOf s q = none →
        Removes env c (dirsAfter env.os c w.version s) w.version q := by
  rw [Cleared, createdFiles, List.forall_mem_append]
  refine and_congr_left fun _ => forall₂_congr fun q hq => imp_congr_right fun _ => ?_
  have hf : resolve env.os (flatImage c w.version) =
      bootFile env.os c ["vmlinuz-".toList ++ w.version] := resolve_flatImage w.version
  rw [bootFiles_flat he, List.mem_map] at hq
  obtain ⟨name, -, rfl⟩ := hq
  rw [removes_bootFile hw, hf, bootFile_inj, eq_comm]
  simp [List.cons_prefix_cons]

end

section

variable {env : Environment} {c : Context} {v w : Selection} {operands : List Str}
  {s s₁ s₂ s₃ s₄ : Tree} {made : List Str} {own : Str → Location → Prop}

end

end FractalD.Kernel.Interference
