import FractalD.Machine.Result
import FractalD.Platform.Headers
import FractalD.Platform.SeccompFilters

namespace FractalD.Platform.RestrictionFilters

open FractalD.Machine.ClassicBpf FractalD.Machine.Result FractalD.Machine.Seccomp
open FractalD.Platform.SeccompFilters

/-- A block between `#ifdef SYS_x` and `#endif`. -/
def withNumber (h : Headers) (name : String) (block : BitVec 32 → List Insn) : List Insn :=
  match h.nr name with
  | some nr => block nr
  | none => []

def requireProcessor (h : Headers) : Except Errno Processor :=
  match h.processor with
  | some processor => .ok processor
  | none => .error eNotSup

def allNamespaces : BitVec 32 := 0x7e020080

def blockedNamespaces (allowed : BitVec 32) : BitVec 32 := allNamespaces &&& ~~~allowed

/-- The test of a call that says what it makes in its first argument. -/
def flagsBlock (blocked nr : BitVec 32) : List Insn :=
  [bpfStmt (bpfLd ||| bpfW ||| bpfAbs) offsetNr,
    bpfJump (bpfJmp ||| bpfJeq ||| bpfK) nr 0 3,
    bpfStmt (bpfLd ||| bpfW ||| bpfAbs) (offsetArg 0),
    bpfJump (bpfJmp ||| bpfJset ||| bpfK) blocked 0 1,
    bpfStmt (bpfRet ||| bpfK) errnoPerm]

def clone3Block (nr : BitVec 32) : List Insn :=
  [bpfStmt (bpfLd ||| bpfW ||| bpfAbs) offsetNr,
    bpfJump (bpfJmp ||| bpfJeq ||| bpfK) nr 0 1,
    bpfStmt (bpfRet ||| bpfK) errnoPerm]

def setnsBlock (blocked nr : BitVec 32) : List Insn :=
  [bpfStmt (bpfLd ||| bpfW ||| bpfAbs) offsetNr,
    bpfJump (bpfJmp ||| bpfJeq ||| bpfK) nr 0 5,
    bpfStmt (bpfLd ||| bpfW ||| bpfAbs) (offsetArg 1),
    bpfJump (bpfJmp ||| bpfJeq ||| bpfK) 0 0 1,
    bpfStmt (bpfRet ||| bpfK) errnoPerm,
    bpfJump (bpfJmp ||| bpfJset ||| bpfK) blocked 0 1,
    bpfStmt (bpfRet ||| bpfK) errnoPerm]

def namespaceFilter (h : Headers) (processor : Processor) (blocked : BitVec 32) : List Insn :=
  archGuard processor.auditArch ++
    (withNumber h "unshare" (flagsBlock blocked) ++
      (withNumber h "clone" (flagsBlock blocked) ++
        (withNumber h "clone3" clone3Block ++
          (withNumber h "setns" (setnsBlock blocked) ++
            [bpfStmt (bpfRet ||| bpfK) retAllow]))))

/-- There is no filter where nothing is blocked. -/
def restrictNamespaces (prctl : Prctl) (h : Headers) (allowed : BitVec 32) :
    Except Errno (Option (List Insn)) :=
  let blocked := blockedNamespaces allowed
  if blocked = 0 then .ok none
  else do
    let processor ← requireProcessor h
    let filter ← install prctl (namespaceFilter h processor blocked)
    pure (some filter)

/-- A call that makes or enters a namespace of a kind that is blocked, or does not say of
which kind it is. -/
def EntersBlocked (h : Headers) (blocked : BitVec 32) (d : SeccompData) : Prop :=
  (h.nr "unshare" = some d.nr ∨ h.nr "clone" = some d.nr) ∧ low (d.args 0) &&& blocked ≠ 0 ∨
    h.nr "clone3" = some d.nr ∨
    h.nr "setns" = some d.nr ∧ (low (d.args 1) = 0 ∨ low (d.args 1) &&& blocked ≠ 0)

instance (h : Headers) (blocked : BitVec 32) (d : SeccompData) :
    Decidable (EntersBlocked h blocked d) :=
  inferInstanceAs (Decidable (_ ∨ _ ∨ _))

section

variable {h : Headers} {d : SeccompData} {rest : List Insn} {value blocked nr : BitVec 32}

theorem answers_flagsBlock (blocked nr : BitVec 32) (hrest : Answers d rest value) :
    Answers d (flagsBlock blocked nr ++ rest)
      (if d.nr = nr ∧ low (d.args 0) &&& blocked ≠ 0 then errnoPerm else value) := by
  intro a
  by_cases hn : d.nr = nr <;> by_cases hb : low (d.args 0) &&& blocked = 0#32 <;>
    simp [flagsBlock, hn, hb, hrest _]

theorem answers_clone3Block (nr : BitVec 32) (hrest : Answers d rest value) :
    Answers d (clone3Block nr ++ rest) (if d.nr = nr ∧ True then errnoPerm else value) := by
  intro a
  by_cases hn : d.nr = nr <;> simp [clone3Block, hn, hrest _]

theorem answers_setnsBlock (blocked nr : BitVec 32) (hrest : Answers d rest value) :
    Answers d (setnsBlock blocked nr ++ rest)
      (if d.nr = nr ∧ (low (d.args 1) = 0 ∨ low (d.args 1) &&& blocked ≠ 0) then errnoPerm
      else value) := by
  intro a
  by_cases hn : d.nr = nr <;> by_cases hz : low (d.args 1) = 0#32 <;>
    by_cases hb : low (d.args 1) &&& blocked = 0#32 <;>
    simp [setnsBlock, hn, hz, hb, hrest _]

theorem answers_withNumber (h : Headers) (name : String) {block : BitVec 32 → List Insn}
    {refused : Prop} [Decidable refused] (hrest : Answers d rest value)
    (hblock : ∀ nr, Answers d (block nr ++ rest)
      (if d.nr = nr ∧ refused then errnoPerm else value)) :
    Answers d (withNumber h name block ++ rest)
      (if h.nr name = some d.nr ∧ refused then errnoPerm else value) := by
  cases hnr : h.nr name with
  | none => simpa [withNumber, hnr] using hrest
  | some nr => simpa [withNumber, hnr, eq_comm] using hblock nr

theorem verdict_namespaceFilter {processor : Processor} (hd : d.arch = processor.auditArch) :
    verdict (namespaceFilter h processor blocked) d =
      some (if EntersBlocked h blocked d then errnoPerm else retAllow) := by
  have hallow := answers_ret d retAllow
  have hsetns := answers_withNumber h "setns" hallow fun nr => answers_setnsBlock blocked nr hallow
  have hclone3 := answers_withNumber h "clone3" hsetns fun nr => answers_clone3Block nr hsetns
  have hclone := answers_withNumber h "clone" hclone3 fun nr => answers_flagsBlock blocked nr hclone3
  have hunshare := answers_withNumber h "unshare" hclone fun nr => answers_flagsBlock blocked nr hclone
  rw [namespaceFilter, verdict_native hd hunshare]
  simp only [EntersBlocked, or_and_right, or_assoc, ite_or, and_true]

/-- A row of tests of the number returns one value for the calls that have a number. -/
theorem run_namedTests (h : Headers) (data : BitVec 32 → Option (BitVec 32)) (rest : List Insn)
    (nr value : BitVec 32) (names : List String) :
    run data 0 (names.flatMap (fun name => withNumber h name fun n => returnIf n value) ++ rest) nr =
      if some nr ∈ names.map h.nr then some value else run data 0 rest nr := by
  induction names with
  | nil => rfl
  | cons name names ih =>
    rw [List.flatMap_cons, List.append_assoc]
    cases hname : h.nr name with
    | none => simpa [withNumber, hname] using ih
    | some n =>
      have htest := run_returnIf data
        (names.flatMap (fun name => withNumber h name fun n => returnIf n value) ++ rest) nr n value
      simp only [withNumber, hname] at htest ih ⊢
      rw [htest, ih]
      by_cases hn : nr = n
      · simp [hname, hn]
      · simp [hname, hn]

theorem length_withNumber (h : Headers) (name : String) (block : BitVec 32 → List Insn) {n : Nat}
    (hn : ∀ nr, (block nr).length = n) : (withNumber h name block).length ≤ n := by
  cases hnr : h.nr name with
  | none => simp [withNumber, hnr]
  | some nr => simp [withNumber, hnr, hn nr]

theorem length_namespaceFilter (processor : Processor) :
    (namespaceFilter h processor blocked).length ≤ 48 := by
  have hunshare := length_withNumber h "unshare" (flagsBlock blocked) (n := 5) fun _ => rfl
  have hclone := length_withNumber h "clone" (flagsBlock blocked) (n := 5) fun _ => rfl
  have hclone3 := length_withNumber h "clone3" clone3Block (n := 3) fun _ => rfl
  have hsetns := length_withNumber h "setns" (setnsBlock blocked) (n := 7) fun _ => rfl
  simp only [namespaceFilter, archGuard, List.length_append, List.length_cons, List.length_nil]
  omega

theorem install_ok {prctl : Prctl} {filter installed : List Insn}
    (hi : install prctl filter = .ok installed) : installed = filter := by
  simp only [install] at hi
  cases hp : prctl.setNoNewPrivs with
  | error e => simp [hp, bind, Except.bind] at hi
  | ok _ =>
    cases hs : prctl.setSeccomp filter with
    | error e => simp [hp, hs, bind, Except.bind] at hi
    | ok _ =>
      simp only [hp, hs, bind, Except.bind, pure, Except.pure, Except.ok.injEq] at hi
      exact hi.symm

theorem requireProcessor_ok {processor : Processor} (hp : requireProcessor h = .ok processor) :
    h.processor = some processor := by
  unfold requireProcessor at hp
  cases he : h.processor with
  | none => simp [he] at hp
  | some p => simpa [he] using hp

theorem refuses_iff (p : Prop) [Decidable p] :
    some (if p then errnoPerm else retAllow) = some errnoPerm ↔ p := by
  by_cases h : p
  · simp [h]
  · simp [h, errnoPerm_ne_retAllow.symm]

end

/-- The filter refuses the calls that make or enter a blocked namespace, and lets the others
of the native architecture through. -/
theorem restrictNamespaces_correct (prctl : Prctl) (h : Headers) (allowed : BitVec 32)
    (filter : List Insn) (hf : restrictNamespaces prctl h allowed = .ok (some filter))
    (processor : Processor) (hp : h.processor = some processor) (d : SeccompData)
    (hd : d.arch = processor.auditArch) :
    (verdict filter d = some errnoPerm ↔ EntersBlocked h (blockedNamespaces allowed) d) ∧
      (¬ EntersBlocked h (blockedNamespaces allowed) d → verdict filter d = some retAllow) ∧
      filter.length ≤ 48 := by
  have hfilter : filter = namespaceFilter h processor (blockedNamespaces allowed) := by
    unfold restrictNamespaces at hf
    dsimp only at hf
    by_cases hb : blockedNamespaces allowed = 0
    · rw [if_pos hb] at hf
      cases Except.ok.inj hf
    · rw [if_neg hb] at hf
      obtain ⟨processor', hp', hf⟩ := bind_eq_ok.mp hf
      obtain ⟨installed, hi, hf⟩ := bind_eq_ok.mp hf
      have hsame : processor' = processor := by
        rw [requireProcessor_ok hp'] at hp
        exact Option.some.inj hp
      rw [← Option.some.inj (pure_eq_ok.mp hf), install_ok hi, hsame]
  rw [hfilter, verdict_namespaceFilter hd]
  exact ⟨refuses_iff _, fun he => by rw [if_neg he], length_namespaceFilter processor⟩

/-- The calls of an x86-64 build that the filters name. -/
def x86_64Headers : Headers where
  processor := some .x86_64
  sys name := (([("read", 0), ("write", 1), ("lseek", 8), ("rt_sigreturn", 15), ("nanosleep", 35),
    ("socket", 41), ("socketpair", 53), ("clone", 56), ("execve", 59), ("exit", 60),
    ("gettimeofday", 96), ("getrlimit", 97), ("time", 201), ("clock_gettime", 228),
    ("clock_getres", 229), ("clock_nanosleep", 230), ("exit_group", 231), ("unshare", 272),
    ("setns", 308), ("clone3", 435)] : List (String × BitVec 31)).map fun c =>
      (c.1.toList, c.2)).lookup name

def willingPrctl : Prctl := ⟨.ok (), fun _ => .ok ()⟩

/-- Entering a namespace of any kind, where network namespaces alone are allowed. -/
def setnsAny : SeccompData := ⟨308, 0xc000003e, 0, fun _ => 0⟩

theorem restrictNamespaces_correct_setns :
    verdict (namespaceFilter x86_64Headers .x86_64 (blockedNamespaces 0x40000000)) setnsAny =
      some errnoPerm :=
  (restrictNamespaces_correct willingPrctl x86_64Headers 0x40000000 _ rfl .x86_64 rfl setnsAny
    rfl).1.mpr (by decide +kernel)

/-- The test of the families that the mask leaves out, up to the highest one known. -/
def familyTests (allowed : BitVec 64) : List Insn :=
  (List.range 45).flatMap fun family =>
    if allowed &&& (1#64 <<< family) ≠ 0 then []
    else returnIf (BitVec.ofNat 32 family) errnoPerm

def addressFamilyFilter (processor : Processor) (socket socketpair : BitVec 32)
    (allowed : BitVec 64) : List Insn :=
  archGuard processor.auditArch ++
    ([bpfStmt (bpfLd ||| bpfW ||| bpfAbs) offsetNr,
      bpfJump (bpfJmp ||| bpfJeq ||| bpfK) socket 2 0,
      bpfJump (bpfJmp ||| bpfJeq ||| bpfK) socketpair 1 0,
      bpfStmt (bpfRet ||| bpfK) retAllow,
      bpfStmt (bpfLd ||| bpfW ||| bpfAbs) (offsetArg 0)] ++
    (familyTests allowed ++
      [bpfJump (bpfJmp ||| bpfJgt ||| bpfK) 44 0 1,
        bpfStmt (bpfRet ||| bpfK) errnoPerm,
        bpfStmt (bpfRet ||| bpfK) retAllow]))

def restrictAddressFamilies (prctl : Prctl) (h : Headers) (allowed : BitVec 64) :
    Except Errno (List Insn) :=
  match h.nr "socket", h.nr "socketpair" with
  | some socket, some socketpair => do
    let processor ← requireProcessor h
    install prctl (addressFamilyFilter processor socket socketpair allowed)
  | _, _ => .error eNoSys

/-- A call that makes sockets of a family that is not allowed. -/
def MakesForbidden (h : Headers) (allowed : BitVec 64) (d : SeccompData) : Prop :=
  (h.nr "socket" = some d.nr ∨ h.nr "socketpair" = some d.nr) ∧
    (44 < low (d.args 0) ∨ allowed.getLsbD (low (d.args 0)).toNat = false)

instance (h : Headers) (allowed : BitVec 64) (d : SeccompData) :
    Decidable (MakesForbidden h allowed d) :=
  inferInstanceAs (Decidable (_ ∧ _))

theorem and_one_shiftLeft (x : BitVec 64) (n : Nat) :
    x &&& (1#64 <<< n) ≠ 0 ↔ x.getLsbD n = true := by
  have hpow : 1#64 <<< n = BitVec.twoPow 64 n := rfl
  rw [hpow, BitVec.and_twoPow]
  cases hx : x.getLsbD n with
  | false => simp
  | true =>
    have hn : n < 64 := BitVec.lt_of_getLsbD hx
    have hbit : (BitVec.twoPow 64 n).getLsbD n = true := by simp [hn]
    simp only [if_true, ne_eq, iff_true]
    intro hzero
    rw [hzero] at hbit
    simp at hbit

def forbiddenFamilies (allowed : BitVec 64) : List Nat :=
  (List.range 45).filter fun family => allowed.getLsbD family = false

theorem flatMap_ite {α β : Type} (p : α → Prop) [DecidablePred p] (f : α → List β) (l : List α) :
    (l.flatMap fun a => if p a then [] else f a) = (l.filter fun a => ¬ p a).flatMap f := by
  induction l with
  | nil => rfl
  | cons a l ih =>
    rw [List.flatMap_cons, ih, List.filter_cons]
    by_cases h : p a <;> simp [h]

theorem familyTests_eq (allowed : BitVec 64) :
    familyTests allowed = (forbiddenFamilies allowed).flatMap fun family =>
      returnIf (BitVec.ofNat 32 family) errnoPerm := by
  rw [familyTests, flatMap_ite, forbiddenFamilies]
  congr 2
  funext family
  rw [decide_eq_decide, and_one_shiftLeft, Bool.not_eq_true]

theorem mem_forbiddenFamilies {allowed : BitVec 64} {family : Nat} :
    family ∈ forbiddenFamilies allowed ↔ family ≤ 44 ∧ allowed.getLsbD family = false := by
  simp only [forbiddenFamilies, List.mem_filter, List.mem_range, decide_eq_true_eq]
  refine and_congr_left fun _ => ?_
  omega

theorem run_familyTests (data : BitVec 32 → Option (BitVec 32)) (allowed : BitVec 64)
    (rest : List Insn) (family : BitVec 32) :
    run data 0 (familyTests allowed ++ rest) family =
      if family ≤ 44 ∧ allowed.getLsbD family.toNat = false then some errnoPerm
      else run data 0 rest family := by
  have hmem : family ≤ 44 ∧ allowed.getLsbD family.toNat = false ↔
      family.toNat ∈ forbiddenFamilies allowed := mem_forbiddenFamilies.symm
  rw [familyTests_eq, run_returnIfs data rest family (fun n => BitVec.ofNat 32 n)
    (fun _ => errnoPerm)]
  cases hfind : (forbiddenFamilies allowed).find? fun n => BitVec.ofNat 32 n = family with
  | none =>
    have hnot : ¬ (family ≤ 44 ∧ allowed.getLsbD family.toNat = false) := by
      intro h
      have hne := List.find?_eq_none.mp hfind _ (hmem.mp h)
      simp at hne
    rw [if_neg hnot]
    rfl
  | some n =>
    have hn := List.mem_of_find?_eq_some hfind
    have heq : BitVec.ofNat 32 n = family := by simpa using List.find?_some hfind
    have hnat : family.toNat = n := by
      have hle := (mem_forbiddenFamilies.mp hn).1
      rw [← heq, BitVec.toNat_ofNat]
      omega
    rw [if_pos (hmem.mpr (hnat ▸ hn))]
    rfl

theorem verdict_addressFamilyFilter {processor : Processor} {socket socketpair : BitVec 32}
    {allowed : BitVec 64} {d : SeccompData} (hd : d.arch = processor.auditArch) :
    verdict (addressFamilyFilter processor socket socketpair allowed) d =
      some (if (d.nr = socket ∨ d.nr = socketpair) ∧
        (44 < low (d.args 0) ∨ allowed.getLsbD (low (d.args 0)).toNat = false) then errnoPerm
      else retAllow) := by
  refine verdict_native hd fun a => ?_
  have htests := run_familyTests (load d) allowed
    [bpfJump (bpfJmp ||| bpfJgt ||| bpfK) 44 0 1, bpfStmt (bpfRet ||| bpfK) errnoPerm,
      bpfStmt (bpfRet ||| bpfK) retAllow] (low (d.args 0))
  have hcall : run (load d) 0 ([bpfStmt (bpfLd ||| bpfW ||| bpfAbs) offsetNr,
      bpfJump (bpfJmp ||| bpfJeq ||| bpfK) socket 2 0,
      bpfJump (bpfJmp ||| bpfJeq ||| bpfK) socketpair 1 0,
      bpfStmt (bpfRet ||| bpfK) retAllow,
      bpfStmt (bpfLd ||| bpfW ||| bpfAbs) (offsetArg 0)] ++ (familyTests allowed ++
        [bpfJump (bpfJmp ||| bpfJgt ||| bpfK) 44 0 1, bpfStmt (bpfRet ||| bpfK) errnoPerm,
          bpfStmt (bpfRet ||| bpfK) retAllow])) a =
      if d.nr = socket ∨ d.nr = socketpair then
        run (load d) 0 (familyTests allowed ++
          [bpfJump (bpfJmp ||| bpfJgt ||| bpfK) 44 0 1, bpfStmt (bpfRet ||| bpfK) errnoPerm,
            bpfStmt (bpfRet ||| bpfK) retAllow]) (low (d.args 0))
      else some retAllow := by
    by_cases hs : d.nr = socket
    · simp [hs]
    · by_cases hp : d.nr = socketpair
      · have hne : socketpair ≠ socket := hp ▸ hs
        simp [hp, hne]
      · simp [hs, hp]
  rw [hcall, htests]
  by_cases hnr : d.nr = socket ∨ d.nr = socketpair
  · rw [if_pos hnr]
    by_cases hgt : 44 < low (d.args 0)
    · have hle : ¬ low (d.args 0) ≤ 44 := BitVec.not_le.mpr hgt
      rw [if_neg fun h => hle h.1, if_pos ⟨hnr, .inl hgt⟩, run_jgt, if_pos hgt]
      rfl
    · have hle : low (d.args 0) ≤ 44 := BitVec.not_lt.mp hgt
      by_cases hbit : allowed.getLsbD (low (d.args 0)).toNat = false
      · rw [if_pos ⟨hle, hbit⟩, if_pos ⟨hnr, .inr hbit⟩]
      · rw [if_neg fun h => hbit h.2, if_neg fun h => h.2.elim hgt hbit, run_jgt, if_neg hgt]
        rfl
  · rw [if_neg hnr, if_neg fun h => hnr h.1]

theorem length_addressFamilyFilter (processor : Processor) (socket socketpair : BitVec 32)
    (allowed : BitVec 64) :
    (addressFamilyFilter processor socket socketpair allowed).length ≤ 128 := by
  have htests := length_returnIfs (fun n => BitVec.ofNat 32 n) (fun _ => errnoPerm)
    (forbiddenFamilies allowed)
  have hforbidden : (forbiddenFamilies allowed).length ≤ 45 := by
    have h := List.length_filter_le (fun family => decide (allowed.getLsbD family = false))
      (List.range 45)
    rwa [List.length_range] at h
  rw [← familyTests_eq] at htests
  simp only [addressFamilyFilter, archGuard, List.length_append, List.length_cons,
    List.length_nil, htests]
  omega

/-- The filter refuses sockets of the families that the mask does not have, and lets every
other call of the native architecture through. -/
theorem restrictAddressFamilies_correct (prctl : Prctl) (h : Headers) (allowed : BitVec 64)
    (filter : List Insn) (hf : restrictAddressFamilies prctl h allowed = .ok filter)
    (processor : Processor) (hp : h.processor = some processor) (d : SeccompData)
    (hd : d.arch = processor.auditArch) :
    (verdict filter d = some errnoPerm ↔ MakesForbidden h allowed d) ∧
      (¬ MakesForbidden h allowed d → verdict filter d = some retAllow) ∧
      filter.length ≤ 128 := by
  unfold restrictAddressFamilies at hf
  cases hs : h.nr "socket" with
  | none => simp [hs] at hf
  | some socket =>
    cases hq : h.nr "socketpair" with
    | none => simp [hs, hq] at hf
    | some socketpair =>
      rw [hs, hq] at hf
      obtain ⟨processor', hp', hi⟩ := bind_eq_ok.mp hf
      have hsame : processor' = processor := by
        rw [requireProcessor_ok hp'] at hp
        exact Option.some.inj hp
      have hforbidden : MakesForbidden h allowed d ↔ (d.nr = socket ∨ d.nr = socketpair) ∧
          (44 < low (d.args 0) ∨ allowed.getLsbD (low (d.args 0)).toNat = false) := by
        rw [MakesForbidden, hs, hq, Option.some_inj, Option.some_inj, eq_comm,
          eq_comm (a := socketpair)]
      rw [install_ok hi, hsame, verdict_addressFamilyFilter hd, hforbidden]
      exact ⟨refuses_iff _, fun he => by rw [if_neg he], length_addressFamilyFilter _ _ _ _⟩

/-- A socket of the family 45, which no mask can allow. -/
def socketUnknown : SeccompData :=
  ⟨41, 0xc000003e, 0, fun i => if i = 0 then 45 else 0⟩

theorem restrictAddressFamilies_correct_unknown :
    verdict (addressFamilyFilter .x86_64 41 53 (-1)) socketUnknown = some errnoPerm :=
  (restrictAddressFamilies_correct willingPrctl x86_64Headers (-1) _ rfl .x86_64 rfl socketUnknown
    rfl).1.mpr (by decide +kernel)

end FractalD.Platform.RestrictionFilters
