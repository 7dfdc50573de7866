import Mathlib.Data.BitVec

namespace FractalD.Machine.ExtendedBpf

/-- One instruction of an extended BPF program, `struct bpf_insn`. -/
structure Insn where
  code : BitVec 8
  dstReg : BitVec 4
  srcReg : BitVec 4
  off : BitVec 16
  imm : BitVec 32
  deriving DecidableEq, Repr

def bpfLdx : BitVec 8 := 0x01
def bpfAlu : BitVec 8 := 0x04
def bpfJmp : BitVec 8 := 0x05
def bpfAlu64 : BitVec 8 := 0x07
def bpfW : BitVec 8 := 0x00
def bpfMem : BitVec 8 := 0x60
def bpfK : BitVec 8 := 0x00
def bpfAnd : BitVec 8 := 0x50
def bpfRsh : BitVec 8 := 0x70
def bpfMov : BitVec 8 := 0xb0
def bpfJeq : BitVec 8 := 0x10
def bpfExit : BitVec 8 := 0x90

inductive Op
  | loadWord
  | and32
  | rsh32
  | mov64
  | jeq
  | exit
  deriving DecidableEq, Repr

def decode (code : BitVec 8) : Option Op :=
  if code = bpfLdx ||| bpfW ||| bpfMem then some .loadWord
  else if code = bpfAlu ||| bpfAnd ||| bpfK then some .and32
  else if code = bpfAlu ||| bpfRsh ||| bpfK then some .rsh32
  else if code = bpfAlu64 ||| bpfMov ||| bpfK then some .mov64
  else if code = bpfJmp ||| bpfJeq ||| bpfK then some .jeq
  else if code = bpfJmp ||| bpfExit then some .exit
  else none

abbrev Regs := BitVec 4 → BitVec 64

def set (r : Regs) (dst : BitVec 4) (v : BitVec 64) : Regs :=
  fun reg => if reg = dst then v else r reg

@[simp]
theorem set_self (r : Regs) (dst : BitVec 4) (v : BitVec 64) : set r dst v dst = v := by
  simp [set]

theorem set_other (r : Regs) (dst reg : BitVec 4) (v : BitVec 64) (h : reg ≠ dst) :
    set r dst v reg = r reg := by
  simp [set, h]

/-- A 32-bit operation zeroes the upper half of its destination. -/
def alu32 (f : BitVec 32 → BitVec 32) (v : BitVec 64) : BitVec 64 :=
  (f (v.setWidth 32)).setWidth 64

/-- Interpret a program on a memory that loads words by address. The first
argument counts the instructions that a taken jump still passes over. A jump
compares all 64 bits with the sign-extended immediate. The result is register
0 at the exit; `none` is a fault: an unknown instruction, a load outside the
memory, a jump backwards, or the end of the program. -/
def run (mem : BitVec 64 → Option (BitVec 32)) : Nat → List Insn → Regs → Option (BitVec 64)
  | _, [], _ => none
  | n + 1, _ :: rest, r => run mem n rest r
  | 0, i :: rest, r =>
    match decode i.code with
    | some .loadWord =>
      match mem (r i.srcReg + i.off.signExtend 64) with
      | some v => run mem 0 rest (set r i.dstReg (v.setWidth 64))
      | none => none
    | some .and32 => run mem 0 rest (set r i.dstReg (alu32 (· &&& i.imm) (r i.dstReg)))
    | some .rsh32 =>
      run mem 0 rest (set r i.dstReg (alu32 (· >>> (i.imm &&& 31).toNat) (r i.dstReg)))
    | some .mov64 => run mem 0 rest (set r i.dstReg (i.imm.signExtend 64))
    | some .jeq =>
      if r i.dstReg = i.imm.signExtend 64 then
        if i.off.msb then none else run mem i.off.toNat rest r
      else run mem 0 rest r
    | some .exit => some (r 0)
    | none => none

section

variable (mem : BitVec 64 → Option (BitVec 32)) (rest : List Insn) (r : Regs)
variable (dst src : BitVec 4) (off : BitVec 16) (imm : BitVec 32)

@[simp]
theorem run_skip_cons (n : Nat) (i : Insn) : run mem (n + 1) (i :: rest) r = run mem n rest r := rfl

theorem run_skip_append (block : List Insn) :
    run mem block.length (block ++ rest) r = run mem 0 rest r := by
  induction block with
  | nil => rfl
  | cons i block ih => simpa using ih

@[simp]
theorem run_loadWord (v : BitVec 32) (h : mem (r src + off.signExtend 64) = some v) :
    run mem 0 (⟨bpfLdx ||| bpfW ||| bpfMem, dst, src, off, imm⟩ :: rest) r =
      run mem 0 rest (set r dst (v.setWidth 64)) := by
  simp only [run, show decode (bpfLdx ||| bpfW ||| bpfMem) = some .loadWord from rfl, h]

@[simp]
theorem run_and32 :
    run mem 0 (⟨bpfAlu ||| bpfAnd ||| bpfK, dst, src, off, imm⟩ :: rest) r =
      run mem 0 rest (set r dst (alu32 (· &&& imm) (r dst))) := rfl

@[simp]
theorem run_rsh32 :
    run mem 0 (⟨bpfAlu ||| bpfRsh ||| bpfK, dst, src, off, imm⟩ :: rest) r =
      run mem 0 rest (set r dst (alu32 (· >>> (imm &&& 31).toNat) (r dst))) := rfl

@[simp]
theorem run_mov64 :
    run mem 0 (⟨bpfAlu64 ||| bpfMov ||| bpfK, dst, src, off, imm⟩ :: rest) r =
      run mem 0 rest (set r dst (imm.signExtend 64)) := rfl

@[simp]
theorem run_jeq (h : off.msb = false) :
    run mem 0 (⟨bpfJmp ||| bpfJeq ||| bpfK, dst, src, off, imm⟩ :: rest) r =
      run mem (if r dst = imm.signExtend 64 then off.toNat else 0) rest r := by
  simp only [run, show decode (bpfJmp ||| bpfJeq ||| bpfK) = some .jeq from rfl, h]
  split <;> rfl

@[simp]
theorem run_exit :
    run mem 0 (⟨bpfJmp ||| bpfExit, dst, src, off, imm⟩ :: rest) r = some (r 0) := rfl

end

end FractalD.Machine.ExtendedBpf
