import Mathlib.Data.BitVec

namespace FractalD.Machine.ClassicBpf

/-- One instruction of a classic BPF program, `struct sock_filter`. -/
structure Insn where
  code : BitVec 16
  jt : BitVec 8
  jf : BitVec 8
  k : BitVec 32
  deriving DecidableEq, Repr

def bpfLd : BitVec 16 := 0x00
def bpfJmp : BitVec 16 := 0x05
def bpfRet : BitVec 16 := 0x06
def bpfW : BitVec 16 := 0x00
def bpfAbs : BitVec 16 := 0x20
def bpfK : BitVec 16 := 0x00
def bpfJeq : BitVec 16 := 0x10
def bpfJgt : BitVec 16 := 0x20
def bpfJset : BitVec 16 := 0x40

def bpfStmt (code : BitVec 16) (k : BitVec 32) : Insn := ⟨code, 0, 0, k⟩

def bpfJump (code : BitVec 16) (k : BitVec 32) (jt jf : BitVec 8) : Insn := ⟨code, jt, jf, k⟩

inductive Op
  | load
  | jeq
  | jgt
  | jset
  | ret
  deriving DecidableEq, Repr

def decode (code : BitVec 16) : Option Op :=
  if code = bpfLd ||| bpfW ||| bpfAbs then some .load
  else if code = bpfJmp ||| bpfJeq ||| bpfK then some .jeq
  else if code = bpfJmp ||| bpfJgt ||| bpfK then some .jgt
  else if code = bpfJmp ||| bpfJset ||| bpfK then some .jset
  else if code = bpfRet ||| bpfK then some .ret
  else none

/-- A jump of classic BPF only moves forward, over as many instructions as
the chosen offset says. -/
def target (i : Insn) (b : Bool) : Nat := if b then i.jt.toNat else i.jf.toNat

/-- Interpret a program on the packet words `data`. The first argument counts
the instructions that a taken jump still passes over; `none` is a fault: an
unknown instruction, a load outside the data, or the end of the program. -/
def run (data : BitVec 32 → Option (BitVec 32)) : Nat → List Insn → BitVec 32 → Option (BitVec 32)
  | _, [], _ => none
  | n + 1, _ :: rest, a => run data n rest a
  | 0, i :: rest, a =>
    match decode i.code with
    | some .load => (data i.k).bind (run data 0 rest)
    | some .jeq => run data (target i (a == i.k)) rest a
    | some .jgt => run data (target i (i.k.ult a)) rest a
    | some .jset => run data (target i (a &&& i.k != 0)) rest a
    | some .ret => some i.k
    | none => none

section

variable (data : BitVec 32 → Option (BitVec 32)) (rest : List Insn) (a : BitVec 32)

@[simp]
theorem run_skip_nil (n : Nat) : run data n [] a = none := by cases n <;> rfl

@[simp]
theorem run_skip_cons (n : Nat) (i : Insn) : run data (n + 1) (i :: rest) a = run data n rest a := rfl

@[simp]
theorem run_load (k v : BitVec 32) (h : data k = some v) :
    run data 0 (bpfStmt (bpfLd ||| bpfW ||| bpfAbs) k :: rest) a = run data 0 rest v := by
  simp only [run, bpfStmt, show decode (bpfLd ||| bpfW ||| bpfAbs) = some .load from rfl, h,
    Option.bind_some]

@[simp]
theorem run_jeq (k : BitVec 32) (jt jf : BitVec 8) :
    run data 0 (bpfJump (bpfJmp ||| bpfJeq ||| bpfK) k jt jf :: rest) a =
      run data (if a = k then jt.toNat else jf.toNat) rest a := by
  simp only [run, bpfJump, target, show decode (bpfJmp ||| bpfJeq ||| bpfK) = some .jeq from rfl,
    beq_iff_eq]

@[simp]
theorem run_jgt (k : BitVec 32) (jt jf : BitVec 8) :
    run data 0 (bpfJump (bpfJmp ||| bpfJgt ||| bpfK) k jt jf :: rest) a =
      run data (if k < a then jt.toNat else jf.toNat) rest a := by
  simp only [run, bpfJump, target, show decode (bpfJmp ||| bpfJgt ||| bpfK) = some .jgt from rfl,
    BitVec.ult_iff_lt]

@[simp]
theorem run_jset (k : BitVec 32) (jt jf : BitVec 8) :
    run data 0 (bpfJump (bpfJmp ||| bpfJset ||| bpfK) k jt jf :: rest) a =
      run data (if a &&& k ≠ 0 then jt.toNat else jf.toNat) rest a := by
  simp only [run, bpfJump, target, show decode (bpfJmp ||| bpfJset ||| bpfK) = some .jset from rfl,
    bne_iff_ne]

@[simp]
theorem run_ret (k : BitVec 32) :
    run data 0 (bpfStmt (bpfRet ||| bpfK) k :: rest) a = some k := rfl

end

/-- Return a value if the accumulator holds a word. -/
def returnIf (k value : BitVec 32) : List Insn :=
  [bpfJump (bpfJmp ||| bpfJeq ||| bpfK) k 0 1, bpfStmt (bpfRet ||| bpfK) value]

theorem run_returnIf (data : BitVec 32 → Option (BitVec 32)) (rest : List Insn)
    (a k value : BitVec 32) :
    run data 0 (returnIf k value ++ rest) a = if a = k then some value else run data 0 rest a := by
  by_cases h : a = k <;> simp [returnIf, h]

theorem run_returnIfs {α : Type} (data : BitVec 32 → Option (BitVec 32)) (rest : List Insn)
    (a : BitVec 32) (key value : α → BitVec 32) (tests : List α) :
    run data 0 (tests.flatMap (fun t => returnIf (key t) (value t)) ++ rest) a =
      ((tests.find? fun t => key t = a).map fun t => some (value t)).getD (run data 0 rest a) := by
  induction tests with
  | nil => rfl
  | cons t tests ih =>
    rw [List.flatMap_cons, List.append_assoc, run_returnIf, ih]
    by_cases h : key t = a
    · simp [h]
    · simp [h, Ne.symm h]

theorem length_returnIfs {α : Type} (key value : α → BitVec 32) (tests : List α) :
    (tests.flatMap fun t => returnIf (key t) (value t)).length = 2 * tests.length := by
  induction tests with
  | nil => rfl
  | cons t tests ih =>
    rw [List.flatMap_cons, List.length_append, ih, List.length_cons]
    simp only [returnIf, List.length_cons, List.length_nil]
    omega

end FractalD.Machine.ClassicBpf
