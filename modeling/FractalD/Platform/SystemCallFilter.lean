import FractalD.Platform.RestrictionFilters

namespace FractalD.Platform.SystemCallFilter

open FractalD.Machine.ClassicBpf FractalD.Machine.CString FractalD.Machine.Result
open FractalD.Machine.Seccomp FractalD.Platform.SeccompFilters
open FractalD.Platform.RestrictionFilters

def retTrap : BitVec 32 := 0x00030000

def retData : BitVec 32 := 0x0000ffff

/-- What a filter returns for an action: -1 allows, an error number is that error, and
anything else is the default. -/
def fractaldSyscallAction (action defaultErrno : BitVec 32) : BitVec 32 :=
  if action = -1 then retAllow
  else if 0 < action.toInt then retErrno ||| (action &&& retData)
  else if 0 < defaultErrno.toInt then retErrno ||| (defaultErrno &&& retData)
  else retTrap

/-- The architecture that calls have to come from; 0 for any. -/
def expectedArch (h : Headers) (architecture : Int) : Except Errno (BitVec 32) :=
  if architecture = 1 then
    match h.processor with
    | some processor => .ok processor.auditArch
    | none => .error eNotSup
  else if architecture = 2 then
    if h.processor = some .x86_64 then .ok Processor.x86_64.auditArch else .error eNotSup
  else .ok 0

/-- The rules whose names have a number in this build, with their numbers. -/
def resolveRules (h : Headers) (rules : List (Str × BitVec 32)) :
    List (BitVec 32 × BitVec 32) :=
  rules.filterMap fun rule =>
    let number := fractaldSyscallNumber h rule.1
    if number < 0 then none else some (BitVec.ofInt 32 number, rule.2)

/-- The calls that a filter lets through without a rule, where it has no default to allow. -/
def safeCalls : List String :=
  ["execve", "exit", "exit_group", "getrlimit", "rt_sigreturn", "sigreturn", "gettimeofday",
    "clock_gettime", "clock_getres", "clock_nanosleep", "nanosleep", "time"]

def safeTests (h : Headers) : List Insn :=
  safeCalls.flatMap fun name => withNumber h name fun nr => returnIf nr retAllow

def defaultAction (defaultAllow : Int) (defaultErrno : BitVec 32) : BitVec 32 :=
  if defaultAllow ≠ 0 then retAllow else fractaldSyscallAction 0 defaultErrno

def systemCallFilter (h : Headers) (resolved : List (BitVec 32 × BitVec 32)) (defaultAllow : Int)
    (defaultErrno arch : BitVec 32) : List Insn :=
  (if arch ≠ 0 then archGuard arch else []) ++
    (bpfStmt (bpfLd ||| bpfW ||| bpfAbs) offsetNr ::
      (resolved.flatMap (fun rule => returnIf rule.1 (fractaldSyscallAction rule.2 defaultErrno)) ++
        ((if defaultAllow = 0 then safeTests h else []) ++
          [bpfStmt (bpfRet ||| bpfK) (defaultAction defaultAllow defaultErrno)])))

def installSystemCallFilter (prctl : Prctl) (h : Headers) (rules : List (Str × BitVec 32))
    (defaultAllow : Int) (defaultErrno : BitVec 32) (architecture : Int) :
    Except Errno (List Insn) := do
  if rules.length = 0 then throw eInval
  if defaultAllow ≠ 0 ∧ defaultAllow ≠ 1 then throw eInval
  if defaultErrno.toInt < 0 ∨ 4095 < defaultErrno.toInt then throw eInval
  if architecture < 0 ∨ 2 < architecture then throw eInval
  let arch ← expectedArch h architecture
  prctl.setNoNewPrivs
  if 1024 < rules.length then throw e2Big
  let resolved := resolveRules h rules
  if resolved = [] then throw eNoSys
  let filter := systemCallFilter h resolved defaultAllow defaultErrno arch
  prctl.setSeccomp filter
  pure filter

/-- The architecture that a caller asks for: 1 is the one of the build, 2 is x86-64. -/
def selectedArch (h : Headers) (architecture : Int) : Option (BitVec 32) :=
  if architecture = 1 then h.processor.map Processor.auditArch
  else if architecture = 2 then some Processor.x86_64.auditArch
  else none

/-- What a filter promises about a call. -/
def promised (h : Headers) (rules : List (Str × BitVec 32)) (defaultAllow : Int)
    (defaultErrno : BitVec 32) (architecture : Int) (d : SeccompData) : BitVec 32 :=
  if (selectedArch h architecture).any (· ≠ d.arch) then retKillProcess
  else
    match rules.find? fun rule => fractaldSyscallNumber h rule.1 = d.nr.toNat with
    | some rule => fractaldSyscallAction rule.2 defaultErrno
    | none =>
      if defaultAllow = 0 ∧ some d.nr ∈ safeCalls.map h.nr then retAllow
      else defaultAction defaultAllow defaultErrno

section

variable {h : Headers} {d : SeccompData}

theorem number_lt (name : Str) : fractaldSyscallNumber h name < 2 ^ 31 := by
  have hlt (n : BitVec 31) : (n.toNat : Int) < 2 ^ 31 := by
    have := n.isLt
    omega
  unfold fractaldSyscallNumber
  dsimp only
  split
  · exact hlt _
  · split
    · cases h.sys "lseek".toList with
      | none => decide
      | some n => exact hlt n
    · decide

theorem ofInt_eq_iff {number : Int} (hpos : 0 ≤ number) (hlt : number < 2 ^ 31) :
    BitVec.ofInt 32 number = d.nr ↔ number = d.nr.toNat := by
  obtain ⟨n, rfl⟩ := Int.eq_ofNat_of_zero_le hpos
  rw [BitVec.ofInt_natCast, BitVec.toNat_eq, BitVec.toNat_ofNat]
  omega

/-- The rule that answers a call is the first whose name has the number of the call. -/
theorem find_resolveRules (rules : List (Str × BitVec 32)) :
    ((resolveRules h rules).find? fun rule => rule.1 = d.nr).map Prod.snd =
      (rules.find? fun rule => fractaldSyscallNumber h rule.1 = d.nr.toNat).map Prod.snd := by
  induction rules with
  | nil => rfl
  | cons rule rules ih =>
    rw [List.find?_cons]
    by_cases hneg : fractaldSyscallNumber h rule.1 < 0
    · have hne : fractaldSyscallNumber h rule.1 ≠ d.nr.toNat := by omega
      have hskip : resolveRules h (rule :: rules) = resolveRules h rules := by
        simp [resolveRules, hneg]
      rw [hskip, ih, decide_eq_false hne]
    · have hkeep : resolveRules h (rule :: rules) =
          (BitVec.ofInt 32 (fractaldSyscallNumber h rule.1), rule.2) :: resolveRules h rules := by
        simp [resolveRules, hneg]
      have hiff := ofInt_eq_iff (d := d) (Int.not_lt.mp hneg) (number_lt rule.1)
      rw [hkeep, List.find?_cons]
      by_cases hnr : fractaldSyscallNumber h rule.1 = d.nr.toNat
      · rw [decide_eq_true hnr, decide_eq_true (hiff.mpr hnr)]
        rfl
      · rw [decide_eq_false hnr, decide_eq_false fun he => hnr (hiff.mp he)]
        exact ih

/-- The rest of a filter, once the number of the call is loaded. -/
theorem run_rules (rules : List (Str × BitVec 32)) (defaultAllow : Int)
    (defaultErrno : BitVec 32) :
    run (load d) 0 ((resolveRules h rules).flatMap
        (fun rule => returnIf rule.1 (fractaldSyscallAction rule.2 defaultErrno)) ++
      ((if defaultAllow = 0 then safeTests h else []) ++
        [bpfStmt (bpfRet ||| bpfK) (defaultAction defaultAllow defaultErrno)])) d.nr =
      some (match rules.find? fun rule => fractaldSyscallNumber h rule.1 = d.nr.toNat with
        | some rule => fractaldSyscallAction rule.2 defaultErrno
        | none =>
          if defaultAllow = 0 ∧ some d.nr ∈ safeCalls.map h.nr then retAllow
          else defaultAction defaultAllow defaultErrno) := by
  have hfind := find_resolveRules (h := h) (d := d) rules
  rw [run_returnIfs (load d) _ d.nr Prod.fst fun rule => fractaldSyscallAction rule.2 defaultErrno]
  cases hrule : rules.find? fun rule => fractaldSyscallNumber h rule.1 = d.nr.toNat with
  | some rule =>
    rw [hrule] at hfind
    obtain ⟨found, hfound, hsnd⟩ := Option.map_eq_some_iff.mp hfind
    rw [hfound]
    simp [hsnd]
  | none =>
    rw [hrule] at hfind
    rw [Option.map_eq_none_iff.mp hfind]
    by_cases hallow : defaultAllow = 0
    · have hsafe := run_namedTests h (load d)
        [bpfStmt (bpfRet ||| bpfK) (defaultAction defaultAllow defaultErrno)] d.nr retAllow safeCalls
      rw [Option.map_none, Option.getD_none, if_pos hallow, safeTests, hsafe, run_ret]
      by_cases hmem : some d.nr ∈ safeCalls.map h.nr
      · simp only [if_pos hmem, if_pos (And.intro hallow hmem)]
      · simp only [if_neg hmem, if_neg fun hc : defaultAllow = 0 ∧ _ => hmem hc.2]
    · simp [hallow]

theorem expectedArch_ok {architecture : Int} {arch : BitVec 32}
    (hrange : ¬ (architecture < 0 ∨ 2 < architecture))
    (ha : expectedArch h architecture = .ok arch) :
    (arch = 0 ∧ selectedArch h architecture = none) ∨
      arch ≠ 0 ∧ selectedArch h architecture = some arch := by
  have hne (processor : Processor) : processor.auditArch ≠ 0 := by cases processor <;> decide
  obtain rfl | rfl | rfl : architecture = 0 ∨ architecture = 1 ∨ architecture = 2 := by omega
  · exact .inl ⟨(Except.ok.inj ha).symm, rfl⟩
  · cases hp : h.processor with
    | none => simp [expectedArch, hp] at ha
    | some processor =>
      have he : processor.auditArch = arch := by simpa [expectedArch, hp] using ha
      exact .inr ⟨he ▸ hne processor, by simp [selectedArch, hp, he]⟩
  · by_cases hp : h.processor = some .x86_64
    · have he : Processor.x86_64.auditArch = arch := by simpa [expectedArch, hp] using ha
      exact .inr ⟨he ▸ hne _, by simp [selectedArch, he]⟩
    · simp [expectedArch, hp] at ha

theorem length_safeTests (names : List String) :
    (names.flatMap fun name => withNumber h name fun nr => returnIf nr retAllow).length ≤
      2 * names.length := by
  induction names with
  | nil => rfl
  | cons name names ih =>
    have hname := length_withNumber h name (fun nr => returnIf nr retAllow) (n := 2) fun _ => rfl
    rw [List.flatMap_cons, List.length_append, List.length_cons]
    omega

theorem install_ok {prctl : Prctl} {rules : List (Str × BitVec 32)} {defaultAllow : Int}
    {defaultErrno : BitVec 32} {architecture : Int} {filter : List Insn}
    (hf : installSystemCallFilter prctl h rules defaultAllow defaultErrno architecture =
      .ok filter) :
    ¬ (architecture < 0 ∨ 2 < architecture) ∧ rules.length ≤ 1024 ∧
      ∃ arch, expectedArch h architecture = .ok arch ∧
        filter = systemCallFilter h (resolveRules h rules) defaultAllow defaultErrno arch := by
  unfold installSystemCallFilter at hf
  obtain ⟨-, hf⟩ := check_eq_ok.mp hf
  obtain ⟨-, hf⟩ := check_eq_ok.mp hf
  obtain ⟨-, hf⟩ := check_eq_ok.mp hf
  obtain ⟨hrange, hf⟩ := check_eq_ok.mp hf
  obtain ⟨arch, harch, hf⟩ := bind_eq_ok.mp hf
  obtain ⟨-, -, hf⟩ := bind_eq_ok.mp hf
  obtain ⟨hcount, hf⟩ := check_eq_ok.mp hf
  obtain ⟨-, hf⟩ := check_eq_ok.mp hf
  obtain ⟨-, -, hf⟩ := bind_eq_ok.mp hf
  exact ⟨hrange, Nat.not_lt.mp hcount, arch, harch, (pure_eq_ok.mp hf).symm⟩

theorem verdict_systemCallFilter {rules : List (Str × BitVec 32)} {defaultAllow : Int}
    {defaultErrno arch : BitVec 32} :
    verdict (systemCallFilter h (resolveRules h rules) defaultAllow defaultErrno arch) d =
      some (if arch ≠ 0 ∧ arch ≠ d.arch then retKillProcess
      else
        match rules.find? fun rule => fractaldSyscallNumber h rule.1 = d.nr.toNat with
        | some rule => fractaldSyscallAction rule.2 defaultErrno
        | none =>
          if defaultAllow = 0 ∧ some d.nr ∈ safeCalls.map h.nr then retAllow
          else defaultAction defaultAllow defaultErrno) := by
  have hrules := run_rules (h := h) (d := d) rules defaultAllow defaultErrno
  rw [systemCallFilter]
  by_cases hz : arch = 0
  · rw [if_neg (not_not.mpr hz), if_neg fun hc : arch ≠ 0 ∧ _ => hc.1 hz, List.nil_append, verdict,
      run_load _ _ _ _ _ (load_nr d), hrules]
  · rw [if_pos hz, verdict_archGuard, run_load _ _ _ _ _ (load_nr d), hrules]
    by_cases ha : d.arch = arch
    · rw [if_pos ha, if_neg fun hc : arch ≠ 0 ∧ arch ≠ d.arch => hc.2 ha.symm]
    · rw [if_neg ha, if_pos ⟨hz, Ne.symm ha⟩]

theorem length_systemCallFilter {rules : List (Str × BitVec 32)} {defaultAllow : Int}
    {defaultErrno arch : BitVec 32} (hcount : rules.length ≤ 1024) :
    (systemCallFilter h (resolveRules h rules) defaultAllow defaultErrno arch).length ≤ 4096 := by
  have hrules := length_returnIfs Prod.fst
    (fun rule : BitVec 32 × BitVec 32 => fractaldSyscallAction rule.2 defaultErrno)
    (resolveRules h rules)
  have hresolved : (resolveRules h rules).length ≤ rules.length := List.length_filterMap_le _ _
  have harch : (if arch ≠ 0 then archGuard arch else []).length ≤ 3 := by
    split <;> simp [archGuard]
  have hsafe : (if defaultAllow = 0 then safeTests h else []).length ≤ 24 := by
    split
    · exact length_safeTests safeCalls
    · exact Nat.zero_le _
  rw [systemCallFilter, List.length_append, List.length_cons, List.length_append, hrules,
    List.length_append, List.length_singleton]
  omega

end

/-- The filter gives every call the verdict that its rules promise. -/
theorem installSystemCallFilter_correct (prctl : Prctl) (h : Headers)
    (rules : List (Str × BitVec 32)) (defaultAllow : Int) (defaultErrno : BitVec 32)
    (architecture : Int) (filter : List Insn)
    (hf : installSystemCallFilter prctl h rules defaultAllow defaultErrno architecture =
      .ok filter) (d : SeccompData) :
    verdict filter d = some (promised h rules defaultAllow defaultErrno architecture d) ∧
      filter.length ≤ 4096 := by
  obtain ⟨hrange, hcount, arch, harch, rfl⟩ := install_ok hf
  refine ⟨?_, length_systemCallFilter hcount⟩
  have hkill : (arch ≠ 0 ∧ arch ≠ d.arch) ↔ (selectedArch h architecture).any (· ≠ d.arch) := by
    obtain ⟨rfl, hs⟩ | ⟨hne, hs⟩ := expectedArch_ok hrange harch
    · simp [hs]
    · simp only [hs, Option.any_some, decide_eq_true_eq]
      exact and_iff_right hne
  rw [verdict_systemCallFilter, promised]
  simp only [hkill]

/-- A list that lets `read` through and answers `write` with an error. -/
def readOnly : List (Str × BitVec 32) := [("read".toList, -1), ("nonesuch".toList, 5), ("write".toList, 9)]

def readOnlyFilter : List Insn := systemCallFilter x86_64Headers [(0, -1), (1, 9)] 0 0 0xc000003e

theorem nonesuch_unnumbered : fractaldSyscallNumber x86_64Headers "nonesuch".toList = -1 := by
  have hname : "nonesuch" ∉ syscallNames := by decide +kernel
  have hmem : "nonesuch".toList ∉ syscallNames.map String.toList := fun h => by
    obtain ⟨name, hname', heq⟩ := List.mem_map.mp h
    exact hname (String.toList_inj.mp heq ▸ hname')
  rw [fractaldSyscallNumber]
  simp only [if_neg hmem]
  decide

theorem read_number : fractaldSyscallNumber x86_64Headers "read".toList = 0 := by decide +kernel

theorem write_number : fractaldSyscallNumber x86_64Headers "write".toList = 1 := by decide +kernel

theorem readOnly_resolves : resolveRules x86_64Headers readOnly = [(0, -1), (1, 9)] := by
  simp [resolveRules, readOnly, nonesuch_unnumbered, read_number, write_number,
    -String.reduceToList]

theorem readOnly_installs :
    installSystemCallFilter willingPrctl x86_64Headers readOnly 0 0 1 = .ok readOnlyFilter := by
  rw [installSystemCallFilter]
  simp only [readOnly_resolves]
  rfl

theorem installSystemCallFilter_correct_readOnly :
    verdict readOnlyFilter ⟨1, 0xc000003e, 0, fun _ => 0⟩ = some 0x00050009 := by
  refine (installSystemCallFilter_correct willingPrctl x86_64Headers readOnly 0 0 1 readOnlyFilter
    readOnly_installs ⟨1, 0xc000003e, 0, fun _ => 0⟩).1.trans ?_
  have hrule : (readOnly.find? fun rule => fractaldSyscallNumber x86_64Headers rule.1 =
      (1 : BitVec 32).toNat) = some ("write".toList, 9) := by
    simp [readOnly, nonesuch_unnumbered, read_number, write_number, -String.reduceToList]
  rw [promised]
  dsimp only
  rw [hrule]
  rfl

end FractalD.Platform.SystemCallFilter
