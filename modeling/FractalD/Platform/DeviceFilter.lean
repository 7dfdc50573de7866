import FractalD.Machine.ExtendedBpf
import FractalD.Platform.Errno

namespace FractalD.Platform.DeviceFilter

open FractalD.Machine.ExtendedBpf

/-- One rule of a device policy, `struct fractald_device_rule`. -/
structure DeviceRule where
  deviceType : BitVec 32
  major : BitVec 32
  minor : BitVec 32
  access : BitVec 32
  deriving DecidableEq, Repr

def uint32Max : BitVec 32 := 0xffffffff
def uint16Max : Nat := 0xffff
def sizeMax : Nat := 2 ^ 64 - 1

/-- The instructions emitted so far, with the indices of the jumps of the
current rule that still wait for their offset. -/
structure Assembly where
  instructions : List Insn
  conditionIndices : List Nat

def Assembly.emit (a : Assembly) (i : Insn) : Assembly :=
  ⟨a.instructions ++ [i], a.conditionIndices⟩

def Assembly.emitCondition (a : Assembly) (i : Insn) : Assembly :=
  ⟨a.instructions ++ [i], a.conditionIndices ++ [a.instructions.length]⟩

def loadContext (off : BitVec 16) : Insn := ⟨bpfLdx ||| bpfW ||| bpfMem, 2#4, 1#4, off, 0#32⟩
def andImmediate (imm : BitVec 32) : Insn := ⟨bpfAlu ||| bpfAnd ||| bpfK, 2#4, 0#4, 0#16, imm⟩
def shiftRight (imm : BitVec 32) : Insn := ⟨bpfAlu ||| bpfRsh ||| bpfK, 2#4, 0#4, 0#16, imm⟩
def jumpEqual (off : BitVec 16) (imm : BitVec 32) : Insn :=
  ⟨bpfJmp ||| bpfJeq ||| bpfK, 2#4, 0#4, off, imm⟩
def setResult (imm : BitVec 32) : Insn := ⟨bpfAlu64 ||| bpfMov ||| bpfK, 0#4, 0#4, 0#16, imm⟩
def exit : Insn := ⟨bpfJmp ||| bpfExit, 0#4, 0#4, 0#16, 0#32⟩

def assembleType (rule : DeviceRule) (a : Assembly) : Assembly :=
  if rule.deviceType ≠ 0#32 then
    ((a.emit (loadContext 0#16)).emit (andImmediate 0xffff#32)).emitCondition (jumpEqual 0#16 rule.deviceType)
  else a

def assembleMajor (rule : DeviceRule) (a : Assembly) : Assembly :=
  if rule.major ≠ uint32Max then
    (a.emit (loadContext 4#16)).emitCondition (jumpEqual 0#16 rule.major)
  else a

def assembleMinor (rule : DeviceRule) (a : Assembly) : Assembly :=
  if rule.minor ≠ uint32Max then
    (a.emit (loadContext 8#16)).emitCondition (jumpEqual 0#16 rule.minor)
  else a

def assembleAccess (rule : DeviceRule) (a : Assembly) : Assembly :=
  ((((a.emit (loadContext 0#16)).emit (shiftRight 16#32)).emit (andImmediate 7#32)).emit
    (andImmediate (~~~rule.access &&& 7#32))).emitCondition (jumpEqual 0#16 0#32)

def assembleRule (rule : DeviceRule) (a : Assembly) : Assembly :=
  ((assembleAccess rule (assembleMinor rule (assembleMajor rule (assembleType rule a)))).emit
    (setResult 1#32)).emit exit

/-- Give a waiting jump the offset of the next rule. -/
def patch (nextRule : Nat) (instructions : List Insn) (index : Nat) : Except Errno (List Insn) :=
  let jump := nextRule - index - 1
  if jump > uint16Max then .error e2Big
  else .ok (instructions.modify index (fun i => { i with off := BitVec.ofNat 16 jump }))

def emitRule (instructions : List Insn) (rule : DeviceRule) : Except Errno (List Insn) :=
  let a := assembleRule rule ⟨instructions, []⟩
  a.conditionIndices.foldlM (patch a.instructions.length) a.instructions

def instructionCapacity (ruleCount : Nat) : Nat := 2 + ruleCount * 14

/-- The program that `fractald_bpf_load_device_filter` assembles. -/
def assembleDeviceFilter (calloc : Nat → Bool) (rules : List DeviceRule) (defaultAllow : BitVec 32) :
    Except Errno (List Insn) := do
  if rules.length > (sizeMax - 2) / 14 then throw e2Big
  if calloc (instructionCapacity rules.length) = false then throw eNoMem
  let instructions ← rules.foldlM emitRule []
  return instructions ++ [setResult (if defaultAllow ≠ 0#32 then 1#32 else 0#32), exit]

def loadDeviceFilter (calloc : Nat → Bool) (progLoad : List Insn → Except Errno Nat)
    (rules : List DeviceRule) (defaultAllow : BitVec 32) : Except Errno Nat := do
  let instructions ← assembleDeviceFilter calloc rules defaultAllow
  progLoad instructions

def translate (pre : List Insn) (a : Assembly) : Assembly :=
  ⟨pre ++ a.instructions, a.conditionIndices.map (pre.length + ·)⟩

@[simp]
theorem translate_emit (pre : List Insn) (a : Assembly) (i : Insn) :
    (translate pre a).emit i = translate pre (a.emit i) := by
  simp [translate, Assembly.emit]

@[simp]
theorem translate_emitCondition (pre : List Insn) (a : Assembly) (i : Insn) :
    (translate pre a).emitCondition i = translate pre (a.emitCondition i) := by
  simp [translate, Assembly.emitCondition]

theorem translate_assembleRule (pre : List Insn) (rule : DeviceRule) (a : Assembly) :
    assembleRule rule (translate pre a) = translate pre (assembleRule rule a) := by
  have ht : assembleType rule (translate pre a) = translate pre (assembleType rule a) := by
    unfold assembleType
    split <;> simp
  have hj (b : Assembly) :
      assembleMajor rule (translate pre b) = translate pre (assembleMajor rule b) := by
    unfold assembleMajor
    split <;> simp
  have hn (b : Assembly) :
      assembleMinor rule (translate pre b) = translate pre (assembleMinor rule b) := by
    unfold assembleMinor
    split <;> simp
  simp [assembleRule, assembleAccess, ht, hj, hn]

theorem modify_append (pre rest : List Insn) (n : Nat) (f : Insn → Insn) :
    (pre ++ rest).modify (pre.length + n) f = pre ++ rest.modify n f := by
  induction pre with
  | nil => simp
  | cons i pre ih => simpa [Nat.succ_add] using ih

theorem patch_append (pre instructions : List Insn) (nextRule index : Nat) :
    patch (pre.length + nextRule) (pre ++ instructions) (pre.length + index) =
      (patch nextRule instructions index).map (pre ++ ·) := by
  have hj : pre.length + nextRule - (pre.length + index) - 1 = nextRule - index - 1 := by omega
  simp only [patch, hj]
  split
  · rfl
  · simp only [modify_append, Except.map]

theorem foldlM_patch_append (pre instructions : List Insn) (nextRule : Nat) (indices : List Nat) :
    (indices.map (pre.length + ·)).foldlM (patch (pre.length + nextRule)) (pre ++ instructions) =
      (indices.foldlM (patch nextRule) instructions).map (pre ++ ·) := by
  induction indices generalizing instructions with
  | nil => rfl
  | cons index indices ih =>
    rw [List.map_cons, List.foldlM_cons, List.foldlM_cons, patch_append]
    cases patch nextRule instructions index with
    | error e => rfl
    | ok patched => exact ih patched

theorem emitRule_append (pre : List Insn) (rule : DeviceRule) :
    emitRule pre rule = (emitRule [] rule).map (pre ++ ·) := by
  have ht := translate_assembleRule pre rule ⟨[], []⟩
  have hs : translate pre ⟨[], []⟩ = ⟨pre, []⟩ := by simp [translate]
  rw [hs] at ht
  simp only [emitRule, ht]
  simpa [translate] using foldlM_patch_append pre (assembleRule rule ⟨[], []⟩).instructions _ _

def accept : List Insn := [setResult 1#32, exit]

def jumpOver (tail : List Insn) (imm : BitVec 32) : Insn :=
  jumpEqual (BitVec.ofNat 16 tail.length) imm

def accessTest (rule : DeviceRule) (tail : List Insn) : List Insn :=
  [loadContext 0#16, shiftRight 16#32, andImmediate 7#32, andImmediate (~~~rule.access &&& 7#32),
    jumpOver tail 0#32] ++ tail

def minorTest (rule : DeviceRule) (tail : List Insn) : List Insn :=
  if rule.minor ≠ uint32Max then [loadContext 8#16, jumpOver tail rule.minor] ++ tail else tail

def majorTest (rule : DeviceRule) (tail : List Insn) : List Insn :=
  if rule.major ≠ uint32Max then [loadContext 4#16, jumpOver tail rule.major] ++ tail else tail

def typeTest (rule : DeviceRule) (tail : List Insn) : List Insn :=
  if rule.deviceType ≠ 0#32 then
    [loadContext 0#16, andImmediate 0xffff#32, jumpOver tail rule.deviceType] ++ tail
  else tail

/-- The code of one rule with all its offsets in place: each test jumps over
everything that follows it in the rule. -/
def ruleBlock (rule : DeviceRule) : List Insn :=
  typeTest rule (majorTest rule (minorTest rule (accessTest rule accept)))

theorem emitRule_nil (rule : DeviceRule) : emitRule [] rule = .ok (ruleBlock rule) := by
  simp only [emitRule, assembleRule, assembleMinor, assembleMajor, assembleType, ruleBlock,
    typeTest, majorTest, minorTest]
  by_cases ht : rule.deviceType = 0#32 <;> by_cases hj : rule.major = uint32Max <;>
    by_cases hn : rule.minor = uint32Max <;>
    simp only [ht, hj, hn, ne_eq, not_true_eq_false, not_false_eq_true, if_true, if_false] <;>
    simp [assembleAccess, Assembly.emit, Assembly.emitCondition, patch, uint16Max, jumpOver,
      jumpEqual, accessTest, accept, bind, Except.bind, pure, Except.pure]

theorem foldlM_emitRule (rules : List DeviceRule) (pre : List Insn) :
    rules.foldlM emitRule pre = .ok (pre ++ rules.flatMap ruleBlock) := by
  induction rules generalizing pre with
  | nil => simp [pure, Except.pure]
  | cons rule rules ih =>
    rw [List.foldlM_cons, emitRule_append, emitRule_nil]
    exact (ih (pre ++ ruleBlock rule)).trans (by rw [List.flatMap_cons, List.append_assoc])

def epilogue (defaultAllow : BitVec 32) : List Insn :=
  [setResult (if defaultAllow ≠ 0#32 then 1#32 else 0#32), exit]

theorem assembleDeviceFilter_ok {calloc : Nat → Bool} {rules : List DeviceRule}
    {defaultAllow : BitVec 32} {prog : List Insn}
    (h : assembleDeviceFilter calloc rules defaultAllow = .ok prog) :
    prog = rules.flatMap ruleBlock ++ epilogue defaultAllow := by
  simp only [assembleDeviceFilter, foldlM_emitRule, List.nil_append] at h
  by_cases hs : rules.length > (sizeMax - 2) / 14
  · simp only [hs, if_true] at h
    cases h
  · by_cases hc : calloc (instructionCapacity rules.length) = false
    · simp only [hs, hc, if_true, if_false] at h
      cases h
    · simp only [hs, hc, if_false] at h
      cases h
      rfl

theorem ruleBlock_length (rule : DeviceRule) : (ruleBlock rule).length ≤ 14 := by
  unfold ruleBlock typeTest majorTest minorTest
  split <;> split <;> split <;> simp [accessTest, accept]

theorem length_le_capacity (rules : List DeviceRule) (defaultAllow : BitVec 32) :
    (rules.flatMap ruleBlock ++ epilogue defaultAllow).length ≤
      instructionCapacity rules.length := by
  have hr : (rules.flatMap ruleBlock).length ≤ rules.length * 14 := by
    induction rules with
    | nil => simp
    | cons rule rules ih =>
      have hb := ruleBlock_length rule
      simp only [List.flatMap_cons, List.length_append, List.length_cons]
      omega
  simp only [List.length_append, epilogue, List.length_cons, List.length_nil, instructionCapacity]
  omega

/-- The request that the kernel passes to a device program,
`struct bpf_cgroup_dev_ctx`. -/
structure DeviceContext where
  accessType : BitVec 32
  major : BitVec 32
  minor : BitVec 32

def DeviceContext.deviceType (c : DeviceContext) : BitVec 32 := c.accessType &&& 0xffff#32

def DeviceContext.access (c : DeviceContext) : BitVec 32 := (c.accessType >>> 16) &&& 7#32

def contextMemory (base : BitVec 64) (c : DeviceContext) (addr : BitVec 64) : Option (BitVec 32) :=
  if addr = base then some c.accessType
  else if addr = base + 4#64 then some c.major
  else if addr = base + 8#64 then some c.minor
  else none

/-- The answer of a device program: register 1 points to the request. -/
def verdict (prog : List Insn) (base : BitVec 64) (c : DeviceContext) : Option (BitVec 64) :=
  run (contextMemory base c) 0 prog (set (fun _ => 0) 1#4 base)

def matchesRule (c : DeviceContext) (rule : DeviceRule) : Bool :=
  (rule.deviceType == 0#32 || c.deviceType == rule.deviceType) &&
    (rule.major == uint32Max || c.major == rule.major) &&
    (rule.minor == uint32Max || c.minor == rule.minor) &&
    c.access &&& ~~~rule.access == 0#32

/-- What the device policy promises about a request. -/
def allows (rules : List DeviceRule) (defaultAllow : BitVec 32) (c : DeviceContext) : Bool :=
  rules.any (matchesRule c) || defaultAllow != 0#32

/-- A jump compares with the sign-extended field, so that a field with its
top bit set equals no word of the request. -/
def equalsField (word field : BitVec 32) : Bool := word == field && !field.msb

/-- The request differs from the rule in every field that the rule fixes, and
asks for an access that the rule does not grant. -/
def escapesRule (c : DeviceContext) (rule : DeviceRule) : Bool :=
  (rule.deviceType == 0#32 || !equalsField c.deviceType rule.deviceType) &&
    (rule.major == uint32Max || !equalsField c.major rule.major) &&
    (rule.minor == uint32Max || !equalsField c.minor rule.minor) &&
    c.access &&& ~~~rule.access != 0#32

theorem setWidth_eq_signExtend (word field : BitVec 32) :
    word.setWidth 64 = field.signExtend 64 ↔ equalsField word field = true := by
  have hf : (field.signExtend 64).setWidth 32 = field := by
    ext i hi
    rw [BitVec.getElem_setWidth, BitVec.getLsbD_signExtend]
    simp [hi, show i < 64 by omega]
  simp only [equalsField, Bool.and_eq_true, beq_iff_eq, Bool.not_eq_true']
  constructor
  · intro h
    have hw : word = field := by
      have hs := congrArg (BitVec.setWidth 32) h
      simpa [hf] using hs
    subst hw
    have hm := congrArg BitVec.msb h
    exact ⟨rfl, by simpa [BitVec.msb_signExtend, BitVec.msb_setWidth] using hm.symm⟩
  · rintro ⟨rfl, h⟩
    rw [BitVec.signExtend_eq_setWidth_of_msb_false h]

@[simp]
theorem contextMemory_accessType (base : BitVec 64) (c : DeviceContext) :
    contextMemory base c (base + (0#16).signExtend 64) = some c.accessType := by
  simp [contextMemory]

@[simp]
theorem contextMemory_major (base : BitVec 64) (c : DeviceContext) :
    contextMemory base c (base + (4#16).signExtend 64) = some c.major := by
  have h : base + 4#64 ≠ base := by bv_omega
  rw [show (4#16).signExtend 64 = 4#64 by decide]
  simp only [contextMemory, h, if_true, if_false]

@[simp]
theorem contextMemory_minor (base : BitVec 64) (c : DeviceContext) :
    contextMemory base c (base + (8#16).signExtend 64) = some c.minor := by
  have h : base + 8#64 ≠ base := by bv_omega
  have h4 : base + 8#64 ≠ base + 4#64 := by bv_omega
  rw [show (8#16).signExtend 64 = 8#64 by decide]
  simp only [contextMemory, h, h4, if_true, if_false]

/-- From every register file that still points to the request, the program
answers `x`. -/
def Answers (base : BitVec 64) (c : DeviceContext) (prog : List Insn) (x : Option (BitVec 64)) :
    Prop :=
  ∀ r : Regs, r 1#4 = base → run (contextMemory base c) 0 prog r = x

theorem jumpOver_msb (tail : List Insn) (h : tail.length < 2 ^ 15) :
    (BitVec.ofNat 16 tail.length).msb = false := by
  rw [BitVec.msb_eq_decide]
  simp
  omega

theorem run_jumpOver (mem : BitVec 64 → Option (BitVec 32)) (tail rest : List Insn)
    (imm : BitVec 32) (r : Regs) (h : tail.length < 2 ^ 15) :
    run mem 0 (jumpOver tail imm :: (tail ++ rest)) r =
      if r 2#4 = imm.signExtend 64 then run mem 0 rest r else run mem 0 (tail ++ rest) r := by
  have hn : (BitVec.ofNat 16 tail.length).toNat = tail.length := by
    rw [BitVec.toNat_ofNat]
    omega
  rw [jumpOver, jumpEqual, run_jeq _ _ _ _ _ _ _ (jumpOver_msb tail h), hn]
  by_cases he : r 2#4 = imm.signExtend 64
  · simp only [he, if_true]
    exact run_skip_append mem rest r tail
  · simp only [he, if_false]

/-- The code leaves `word` in register 2 and keeps the pointer to the request. -/
def Loads (base : BitVec 64) (c : DeviceContext) (code : List Insn) (word : BitVec 32) : Prop :=
  ∀ (r : Regs) (prog : List Insn), r 1#4 = base → ∃ r' : Regs,
    r' 1#4 = base ∧ r' 2#4 = word.setWidth 64 ∧
      run (contextMemory base c) 0 (code ++ prog) r = run (contextMemory base c) 0 prog r'

theorem loads_context {base : BitVec 64} {c : DeviceContext} {off : BitVec 16} {word : BitVec 32}
    (h : contextMemory base c (base + off.signExtend 64) = some word) :
    Loads base c [loadContext off] word := by
  intro r prog hr
  refine ⟨set r 2#4 (word.setWidth 64), by simp [set_other, hr], by simp, ?_⟩
  exact run_loadWord _ _ _ _ _ _ _ _ (by rw [hr]; exact h)

theorem Loads.alu {base : BitVec 64} {c : DeviceContext} {code : List Insn} {word : BitVec 32}
    {i : Insn} {f : BitVec 32 → BitVec 32} (h : Loads base c code word)
    (hi : ∀ (r : Regs) (prog : List Insn), run (contextMemory base c) 0 (i :: prog) r =
      run (contextMemory base c) 0 prog (set r 2#4 (alu32 f (r 2#4)))) :
    Loads base c (code ++ [i]) (f word) := by
  intro r prog hr
  obtain ⟨r', hr', hword, hrun⟩ := h r (i :: prog) hr
  refine ⟨set r' 2#4 ((f word).setWidth 64), by simp [set_other, hr'], by simp, ?_⟩
  rw [List.append_assoc, List.singleton_append, hrun, hi, hword]
  simp [alu32]

theorem Loads.and {base : BitVec 64} {c : DeviceContext} {code : List Insn} {word : BitVec 32}
    (h : Loads base c code word) (mask : BitVec 32) :
    Loads base c (code ++ [andImmediate mask]) (word &&& mask) :=
  h.alu (f := (· &&& mask)) (fun _ _ => rfl)

theorem Loads.shift {base : BitVec 64} {c : DeviceContext} {code : List Insn} {word : BitVec 32}
    (h : Loads base c code word) :
    Loads base c (code ++ [shiftRight 16#32]) (word >>> 16) :=
  h.alu (f := (· >>> 16)) (fun _ _ => rfl)

theorem loads_access (base : BitVec 64) (c : DeviceContext) (access : BitVec 32) :
    Loads base c [loadContext 0#16, shiftRight 16#32, andImmediate 7#32,
      andImmediate (~~~access &&& 7#32)] (c.access &&& ~~~access) := by
  have hmask : c.access &&& (~~~access &&& 7#32) = c.access &&& ~~~access := by
    have hidem : c.access &&& 7#32 = c.access := by
      rw [DeviceContext.access, BitVec.and_assoc, BitVec.and_self]
    rw [BitVec.and_comm (~~~access), ← BitVec.and_assoc, hidem]
  rw [← hmask]
  exact (((loads_context (contextMemory_accessType base c)).shift).and _).and _

theorem Answers.test {base : BitVec 64} {c : DeviceContext} {code tail rest : List Insn}
    {word : BitVec 32} {x y : Option (BitVec 64)} (field : BitVec 32) (hlen : tail.length < 2 ^ 15)
    (hcode : Loads base c code word) (hrest : Answers base c rest x)
    (htail : Answers base c (tail ++ rest) y) :
    Answers base c (code ++ ([jumpOver tail field] ++ (tail ++ rest)))
      (if equalsField word field then x else y) := by
  intro r hr
  obtain ⟨r', hr', hword, hrun⟩ := hcode r ([jumpOver tail field] ++ (tail ++ rest)) hr
  rw [hrun, List.singleton_append, run_jumpOver _ _ _ _ _ hlen, hword]
  simp only [setWidth_eq_signExtend]
  split
  · exact hrest r' hr'
  · exact htail r' hr'

theorem answers_accept (base : BitVec 64) (c : DeviceContext) (rest : List Insn) :
    Answers base c (accept ++ rest) (some 1#64) := by
  intro r _
  simp [accept, setResult, exit]

section

variable {base : BitVec 64} {c : DeviceContext} {tail rest : List Insn}
variable {x y : Option (BitVec 64)}

theorem answers_accessTest (rule : DeviceRule) (hrest : Answers base c rest x) :
    Answers base c (accessTest rule accept ++ rest)
      (if c.access &&& ~~~rule.access = 0#32 then x else some 1#64) := by
  have h := Answers.test 0#32 (by decide : accept.length < 2 ^ 15)
    (loads_access base c rule.access) hrest (answers_accept base c rest)
  simpa [accessTest, equalsField] using h

theorem answers_minorTest (rule : DeviceRule) (hlen : tail.length < 2 ^ 15)
    (hrest : Answers base c rest x) (htail : Answers base c (tail ++ rest) y) :
    Answers base c (minorTest rule tail ++ rest)
      (if rule.minor ≠ uint32Max ∧ equalsField c.minor rule.minor then x else y) := by
  unfold minorTest
  by_cases hm : rule.minor = uint32Max
  · simpa [hm] using htail
  · have h := Answers.test rule.minor hlen (loads_context (contextMemory_minor base c))
      hrest htail
    simpa [hm] using h

theorem answers_majorTest (rule : DeviceRule) (hlen : tail.length < 2 ^ 15)
    (hrest : Answers base c rest x) (htail : Answers base c (tail ++ rest) y) :
    Answers base c (majorTest rule tail ++ rest)
      (if rule.major ≠ uint32Max ∧ equalsField c.major rule.major then x else y) := by
  unfold majorTest
  by_cases hm : rule.major = uint32Max
  · simpa [hm] using htail
  · have h := Answers.test rule.major hlen (loads_context (contextMemory_major base c))
      hrest htail
    simpa [hm] using h

theorem answers_typeTest (rule : DeviceRule) (hlen : tail.length < 2 ^ 15)
    (hrest : Answers base c rest x) (htail : Answers base c (tail ++ rest) y) :
    Answers base c (typeTest rule tail ++ rest)
      (if rule.deviceType ≠ 0#32 ∧ equalsField c.deviceType rule.deviceType then x else y) := by
  unfold typeTest
  by_cases hm : rule.deviceType = 0#32
  · simpa [hm] using htail
  · have h := Answers.test rule.deviceType hlen
      ((loads_context (contextMemory_accessType base c)).and 0xffff#32) hrest htail
    simpa [hm, DeviceContext.deviceType] using h

theorem answers_ruleBlock (rule : DeviceRule) (hrest : Answers base c rest x) :
    Answers base c (ruleBlock rule ++ rest)
      (if escapesRule c rule then some 1#64 else x) := by
  have haccess : (accessTest rule accept).length = 7 := rfl
  have hminor : (minorTest rule (accessTest rule accept)).length ≤ 9 := by
    unfold minorTest
    split <;> simp [haccess]
  have hmajor : (majorTest rule (minorTest rule (accessTest rule accept))).length ≤ 11 := by
    unfold majorTest
    split
    · simp only [List.length_append, List.length_cons, List.length_nil]
      omega
    · omega
  have h := answers_typeTest rule (by omega) hrest
    (answers_majorTest rule (by omega) hrest
      (answers_minorTest rule (by omega) hrest (answers_accessTest rule hrest)))
  have he : (if escapesRule c rule then some 1#64 else x) =
      if rule.deviceType ≠ 0#32 ∧ equalsField c.deviceType rule.deviceType then x
      else if rule.major ≠ uint32Max ∧ equalsField c.major rule.major then x
      else if rule.minor ≠ uint32Max ∧ equalsField c.minor rule.minor then x
      else if c.access &&& ~~~rule.access = 0#32 then x else some 1#64 := by
    simp only [escapesRule, Bool.and_eq_true, Bool.or_eq_true, beq_iff_eq, Bool.not_eq_true',
      bne_iff_ne]
    grind
  rw [he]
  exact h

end

theorem answers_program {base : BitVec 64} {c : DeviceContext} (rules : List DeviceRule)
    (defaultAllow : BitVec 32) :
    Answers base c (rules.flatMap ruleBlock ++ epilogue defaultAllow)
      (some (if rules.any (escapesRule c) || defaultAllow != 0#32 then 1#64 else 0#64)) := by
  induction rules with
  | nil =>
    intro r _
    by_cases h : defaultAllow = 0#32 <;> simp [epilogue, setResult, exit, h]
  | cons rule rules ih =>
    have h := answers_ruleBlock rule ih
    rw [List.flatMap_cons, List.append_assoc]
    cases he : escapesRule c rule with
    | true => simpa [he] using h
    | false => simpa [he] using h

theorem verdict_iff {calloc : Nat → Bool} {rules : List DeviceRule} {defaultAllow : BitVec 32}
    {prog : List Insn} (h : assembleDeviceFilter calloc rules defaultAllow = .ok prog)
    (base : BitVec 64) (c : DeviceContext) :
    verdict prog base c = some 1#64 ↔
      rules.any (escapesRule c) = true ∨ defaultAllow ≠ 0#32 := by
  rw [verdict, assembleDeviceFilter_ok h,
    answers_program rules defaultAllow _ (set_self _ _ _), Option.some_inj]
  cases rules.any (escapesRule c) <;> by_cases hd : defaultAllow = 0#32 <;> simp [hd]

/-- A rule that neither covers a request nor lets one escape: its type is none
that a request can name, and it grants every access. -/
def inert (rule : DeviceRule) : Prop := 0xffff#32 < rule.deviceType ∧ rule.access &&& 7#32 = 7#32

theorem deviceType_le (c : DeviceContext) : c.deviceType ≤ 0xffff#32 := by
  rw [DeviceContext.deviceType, BitVec.le_def, BitVec.toNat_and]
  exact Nat.and_le_right

theorem not_matchesRule_of_lt {rule : DeviceRule} (h : 0xffff#32 < rule.deviceType)
    (c : DeviceContext) : matchesRule c rule = false := by
  have hle := deviceType_le c
  have hz : rule.deviceType ≠ 0#32 := by
    intro hz
    rw [hz] at h
    exact absurd h (by decide)
  have hne : c.deviceType ≠ rule.deviceType := by
    intro he
    rw [he] at hle
    exact absurd h (BitVec.not_lt.mpr hle)
  simp [matchesRule, hz, hne]

theorem not_escapesRule_of_access {c : DeviceContext} {rule : DeviceRule}
    (h : c.access &&& ~~~rule.access = 0#32) : escapesRule c rule = false := by
  simp [escapesRule, h]

theorem access_of_grants {rule : DeviceRule} (h : rule.access &&& 7#32 = 7#32) (c : DeviceContext) :
    c.access &&& ~~~rule.access = 0#32 := by
  have hx : c.access = c.accessType >>> 16 &&& (rule.access &&& 7#32) := by
    rw [h]
    rfl
  rw [hx]
  ext i hi
  simp
  grind

theorem grants_of_access {access : BitVec 32} (h : 7#32 &&& ~~~access = 0#32) :
    access &&& 7#32 = 7#32 := by
  have hsplit : 7#32 = (7#32 &&& ~~~access) ||| (access &&& 7#32) := by
    ext i hi
    simp
    grind
  rw [h, BitVec.zero_or] at hsplit
  exact hsplit.symm

/-- The request for exactly the device of a rule, with no access asked. -/
def ownRequest (rule : DeviceRule) : DeviceContext := ⟨rule.deviceType, rule.major, rule.minor⟩

/-- A request that differs from a rule in every field and asks for everything. -/
def foreignRequest (rule : DeviceRule) : DeviceContext :=
  ⟨0x70000#32, rule.major + 1#32, rule.minor + 1#32⟩

theorem ownRequest_access {rule : DeviceRule} (h : rule.deviceType ≤ 0xffff#32) :
    (ownRequest rule).access = 0#32 := by
  have hs : rule.deviceType >>> 16 = 0#32 := by
    rw [BitVec.le_def] at h
    apply BitVec.eq_of_toNat_eq
    simp only [BitVec.toNat_ofNat, BitVec.toNat_ushiftRight, Nat.shiftRight_eq_div_pow] at *
    omega
  simp [DeviceContext.access, ownRequest, hs]

theorem ownRequest_deviceType {rule : DeviceRule} (h : rule.deviceType ≤ 0xffff#32) :
    (ownRequest rule).deviceType = rule.deviceType := by
  rw [BitVec.le_def] at h
  apply BitVec.eq_of_toNat_eq
  rw [DeviceContext.deviceType, BitVec.toNat_and]
  have hm := Nat.and_two_pow_sub_one_eq_mod rule.deviceType.toNat 16
  simp [ownRequest] at *
  omega

theorem matchesRule_ownRequest {rule : DeviceRule} (h : rule.deviceType ≤ 0xffff#32) :
    matchesRule (ownRequest rule) rule = true := by
  simp only [matchesRule, ownRequest_access h, ownRequest_deviceType h]
  simp [ownRequest]

theorem escapesRule_foreignRequest {rule : DeviceRule} (ht : 0xffff#32 < rule.deviceType)
    (ha : rule.access &&& 7#32 ≠ 7#32) : escapesRule (foreignRequest rule) rule = true := by
  have htype : (foreignRequest rule).deviceType ≠ rule.deviceType := by
    intro he
    exact absurd (he ▸ deviceType_le (foreignRequest rule)) (BitVec.not_le.mpr ht)
  have haccess : 7#32 &&& ~~~rule.access ≠ 0#32 := fun h => ha (grants_of_access h)
  have hmajor : rule.major + 1#32 ≠ rule.major := by bv_omega
  have hminor : rule.minor + 1#32 ≠ rule.minor := by bv_omega
  have ha7 : (foreignRequest rule).access = 7#32 := by
    simp [DeviceContext.access, foreignRequest]
  have hmaj : (foreignRequest rule).major ≠ rule.major := hmajor
  have hmin : (foreignRequest rule).minor ≠ rule.minor := hminor
  simp [escapesRule, equalsField, htype, ha7, haccess, hmaj, hmin]

/-- Without a default of allow the filter is right about every request only
when all its rules are inert. -/
theorem escapes_iff_matches (rules : List DeviceRule) :
    (∀ c, rules.any (escapesRule c) = rules.any (matchesRule c)) ↔ ∀ rule ∈ rules, inert rule := by
  constructor
  · intro h
    have htype : ∀ rule ∈ rules, 0xffff#32 < rule.deviceType := by
      intro rule hrule
      by_contra hle
      have hle' := BitVec.not_lt.mp hle
      have hm : rules.any (matchesRule (ownRequest rule)) = true :=
        List.any_eq_true.mpr ⟨rule, hrule, matchesRule_ownRequest hle'⟩
      rw [← h, List.any_eq_true] at hm
      obtain ⟨other, -, he⟩ := hm
      rw [not_escapesRule_of_access (by simp [ownRequest_access hle'])] at he
      cases he
    intro rule hrule
    refine ⟨htype rule hrule, ?_⟩
    by_contra ha
    have he : rules.any (escapesRule (foreignRequest rule)) = true :=
      List.any_eq_true.mpr ⟨rule, hrule, escapesRule_foreignRequest (htype rule hrule) ha⟩
    rw [h, List.any_eq_true] at he
    obtain ⟨other, hother, hm⟩ := he
    rw [not_matchesRule_of_lt (htype other hother)] at hm
    cases hm
  · intro h c
    have hm : rules.any (matchesRule c) = false :=
      List.any_eq_false.mpr fun rule hrule => by simp [not_matchesRule_of_lt (h rule hrule).1 c]
    have he : rules.any (escapesRule c) = false :=
      List.any_eq_false.mpr fun rule hrule => by
        simp [not_escapesRule_of_access (access_of_grants (h rule hrule).2 c)]
    rw [hm, he]

theorem verdict_correct_iff {calloc : Nat → Bool} {rules : List DeviceRule}
    {defaultAllow : BitVec 32} {prog : List Insn}
    (h : assembleDeviceFilter calloc rules defaultAllow = .ok prog)
    (base : BitVec 64) (c : DeviceContext) :
    (verdict prog base c = some 1#64 ↔ allows rules defaultAllow c = true) ↔
      defaultAllow ≠ 0#32 ∨ rules.any (escapesRule c) = rules.any (matchesRule c) := by
  rw [verdict_iff h]
  by_cases hd : defaultAllow = 0#32
  · simp only [allows, hd, ne_eq, not_true_eq_false, or_false, false_or, bne_self_eq_false,
      Bool.or_false]
    exact Bool.eq_iff_iff.symm
  · simp [allows, hd]

/-- The device filter fits its buffer. It answers one request as promised
exactly when the default is to allow, or when some rule covers the request
just in case one lets it escape; and it answers every request as promised
exactly when the default is to allow or all rules are inert. -/
theorem deviceFilter_correct_iff {calloc : Nat → Bool} {rules : List DeviceRule}
    {defaultAllow : BitVec 32} {prog : List Insn}
    (h : assembleDeviceFilter calloc rules defaultAllow = .ok prog) :
    prog.length ≤ instructionCapacity rules.length ∧
      (∀ base c, (verdict prog base c = some 1#64 ↔ allows rules defaultAllow c = true) ↔
        defaultAllow ≠ 0#32 ∨ rules.any (escapesRule c) = rules.any (matchesRule c)) ∧
      ((∀ base c, verdict prog base c = some 1#64 ↔ allows rules defaultAllow c = true) ↔
        defaultAllow ≠ 0#32 ∨ ∀ rule ∈ rules, inert rule) := by
  refine ⟨?_, fun base c => verdict_correct_iff h base c, ?_⟩
  · rw [assembleDeviceFilter_ok h]
    exact length_le_capacity rules defaultAllow
  · simp only [verdict_correct_iff h, ← escapes_iff_matches]
    by_cases hd : defaultAllow = 0#32
    · simp [hd]
    · simp [hd]

/-- Read and write access to the character device 1:3. -/
def nullRule : DeviceRule := ⟨2#32, 1#32, 3#32, 6#32⟩

/-- A request to read the character device 1:3. -/
def readNull : DeviceContext := ⟨0x20002#32, 1#32, 3#32⟩

theorem deviceFilter_correct_iff_nullRule :
    assembleDeviceFilter (fun _ => true) [nullRule] 1#32 = .ok (ruleBlock nullRule ++ epilogue 1#32) ∧
      ∀ base c, verdict (ruleBlock nullRule ++ epilogue 1#32) base c = some 1#64 ↔
        allows [nullRule] 1#32 c = true :=
  ⟨rfl,
    (@deviceFilter_correct_iff (fun _ => true) [nullRule] 1#32 _ rfl).2.2.mpr (Or.inl (by decide))⟩

theorem deviceFilter_refuses_null :
    assembleDeviceFilter (fun _ => true) [nullRule] 0#32 = .ok (ruleBlock nullRule ++ epilogue 0#32) ∧
      ¬ (verdict (ruleBlock nullRule ++ epilogue 0#32) 0 readNull = some 1#64 ↔
        allows [nullRule] 0#32 readNull = true) :=
  ⟨rfl, by decide⟩

end FractalD.Platform.DeviceFilter
