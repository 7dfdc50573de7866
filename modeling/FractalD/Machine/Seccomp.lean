import FractalD.Machine.ClassicBpf
import Mathlib.Tactic.FinCases

namespace FractalD.Machine.Seccomp

open FractalD.Machine.ClassicBpf

/-- The record that the kernel hands to a seccomp filter, `struct seccomp_data`. -/
structure SeccompData where
  nr : BitVec 32
  arch : BitVec 32
  instructionPointer : BitVec 64
  args : Fin 6 → BitVec 64

instance sixNeZero : NeZero 6 := ⟨by decide⟩

def low (x : BitVec 64) : BitVec 32 := x.setWidth 32

def high (x : BitVec 64) : BitVec 32 := (x >>> 32).setWidth 32

def offsetNr : BitVec 32 := 0
def offsetArch : BitVec 32 := 4
def offsetArg (i : Fin 6) : BitVec 32 := BitVec.ofNat 32 (16 + 8 * i.val)

/-- The words of the record in the order of its layout on a little-endian
machine. -/
def words (d : SeccompData) : List (BitVec 32) :=
  [d.nr, d.arch, low d.instructionPointer, high d.instructionPointer] ++
    (List.finRange 6).flatMap (fun i => [low (d.args i), high (d.args i)])

/-- An absolute load reads one aligned word of the record. -/
def load (d : SeccompData) (k : BitVec 32) : Option (BitVec 32) :=
  if k.toNat % 4 = 0 then (words d)[k.toNat / 4]? else none

def retKillProcess : BitVec 32 := 0x80000000
def retErrno : BitVec 32 := 0x00050000
def retAllow : BitVec 32 := 0x7fff0000

@[simp]
theorem load_nr (d : SeccompData) : load d offsetNr = some d.nr := rfl

@[simp]
theorem load_arch (d : SeccompData) : load d offsetArch = some d.arch := rfl

@[simp]
theorem load_arg (d : SeccompData) (i : Fin 6) : load d (offsetArg i) = some (low (d.args i)) := by
  fin_cases i <;> rfl

/-- The verdict of a filter on one system call. -/
def verdict (filter : List Insn) (d : SeccompData) : Option (BitVec 32) := run (load d) 0 filter 0

/-- A part of a filter that answers a call in the same way, whatever was loaded before. -/
def Answers (d : SeccompData) (filter : List Insn) (value : BitVec 32) : Prop :=
  ∀ a, run (load d) 0 filter a = some value

theorem answers_ret (d : SeccompData) (value : BitVec 32) :
    Answers d [bpfStmt (bpfRet ||| bpfK) value] value := fun a => run_ret (load d) [] a value

/-- Kill the process when the call comes from a foreign architecture, and go
on with the rest of the filter otherwise. -/
def archGuard (auditArch : BitVec 32) : List Insn :=
  [bpfStmt (bpfLd ||| bpfW ||| bpfAbs) offsetArch,
    bpfJump (bpfJmp ||| bpfJeq ||| bpfK) auditArch 1 0,
    bpfStmt (bpfRet ||| bpfK) retKillProcess]

theorem verdict_archGuard (auditArch : BitVec 32) (rest : List Insn) (d : SeccompData) :
    verdict (archGuard auditArch ++ rest) d =
      if d.arch = auditArch then run (load d) 0 rest d.arch else some retKillProcess := by
  by_cases h : d.arch = auditArch <;> simp [verdict, archGuard, h]

theorem verdict_native {auditArch value : BitVec 32} {rest : List Insn} {d : SeccompData}
    (hd : d.arch = auditArch) (h : Answers d rest value) :
    verdict (archGuard auditArch ++ rest) d = some value := by
  rw [verdict_archGuard, if_pos hd]
  exact h d.arch

theorem setWidth_low_and (x : BitVec 64) (m : BitVec 32) :
    (low x &&& m).setWidth 64 = x &&& m.setWidth 64 := by
  ext i hi
  by_cases h : i < 32
  · simp [low, h, BitVec.getLsbD_eq_getElem hi]
  · simp [low, h, BitVec.getLsbD_of_ge m i (by omega)]

/-- A mask of 32 bits sees the same bits in the low word as in the whole
argument. -/
theorem low_and_eq_zero (x : BitVec 64) (m : BitVec 32) :
    low x &&& m = 0#32 ↔ x &&& m.setWidth 64 = 0#64 := by
  rw [← setWidth_low_and]
  constructor
  · intro h
    rw [h]
    rfl
  · intro h
    have h' := congrArg (BitVec.setWidth 32) h
    simpa using h'

/-- What a filter wants done with a call, as far as it matters which of several filters wins. -/
def action (value : BitVec 32) : Int := (value.extractLsb' 16 16).toInt

/-- The lower of two values as far as their actions go, the older one if they want the same. -/
def prevail (d : SeccompData) (value : BitVec 32) (filter : List Insn) : BitVec 32 :=
  let found := (verdict filter d).getD retKillProcess
  if action found < action value then found else value

/-- The value of the filters of a process, the newest first. -/
def stackVerdict (filters : List (List Insn)) (d : SeccompData) : BitVec 32 :=
  filters.foldl (prevail d) retAllow

/-- Whether a filter leaves a call alone. -/
def Passes (d : SeccompData) (filter : List Insn) : Prop :=
  action ((verdict filter d).getD retKillProcess) = action retAllow

instance (d : SeccompData) (filter : List Insn) : Decidable (Passes d filter) :=
  inferInstanceAs (Decidable (_ = _))

theorem action_le (value : BitVec 32) : action value ≤ action retAllow := by
  have hlt := BitVec.toInt_lt (x := value.extractLsb' 16 16)
  have hallow : action retAllow = 32767 := by decide
  rw [action, hallow]
  omega

theorem foldl_prevail_le (d : SeccompData) (filters : List (List Insn)) (value : BitVec 32) :
    action (filters.foldl (prevail d) value) ≤ action value := by
  induction filters generalizing value with
  | nil => exact le_refl _
  | cons filter filters ih =>
    refine (ih _).trans ?_
    rw [prevail]
    split_ifs with h
    · exact h.le
    · exact le_refl _

/-- A call goes through if and only if each filter leaves it alone. -/
theorem stackVerdict_allow {filters : List (List Insn)} {d : SeccompData} :
    stackVerdict filters d = retAllow ↔ ∀ filter ∈ filters, Passes d filter := by
  induction filters with
  | nil => exact ⟨fun _ filter h => absurd h List.not_mem_nil, fun _ => rfl⟩
  | cons filter filters ih =>
    rw [stackVerdict, List.foldl_cons, List.forall_mem_cons]
    by_cases hpass : Passes d filter
    · have hstay : prevail d retAllow filter = retAllow := by
        refine if_neg fun hlt => ?_
        exact lt_irrefl _ (hpass ▸ hlt)
      rw [hstay, ← stackVerdict, ih]
      exact (and_iff_right hpass).symm
    · have hlt := lt_of_le_of_ne (action_le _) hpass
      have hfall : prevail d retAllow filter = (verdict filter d).getD retKillProcess := if_pos hlt
      have hle := foldl_prevail_le d filters (prevail d retAllow filter)
      refine iff_of_false (fun hall => ?_) fun h => hpass h.1
      rw [hall, hfall] at hle
      exact not_le.mpr hlt hle

end FractalD.Machine.Seccomp
