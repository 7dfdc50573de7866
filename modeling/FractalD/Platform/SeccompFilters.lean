import FractalD.Machine.Seccomp
import FractalD.Platform.Errno
import Mathlib.Data.BitVec

namespace FractalD.Platform

/-- The system calls that the filters below refer to by number. -/
inductive Syscall
  | chmod
  | fchmod
  | fchmodat
  | fchmodat2
  | sethostname
  | setdomainname
  deriving DecidableEq, Repr

/-- What the compiler and the kernel headers fix for one build: the audit
architecture and the numbers of the system calls. A call without a number is
one whose `SYS_` macro the headers do not define. -/
structure Target where
  auditArch : BitVec 32
  number : Syscall → Option (BitVec 32)
  distinct : ∀ a b, (number a).isSome → number a = number b → a = b
  sethostname : BitVec 32
  setdomainname : BitVec 32
  sethostname_eq : number .sethostname = some sethostname
  setdomainname_eq : number .setdomainname = some setdomainname

theorem Target.sethostname_ne (t : Target) : t.sethostname ≠ t.setdomainname := by
  intro h
  have he : t.number .sethostname = t.number .setdomainname := by
    rw [t.sethostname_eq, t.setdomainname_eq, h]
  cases t.distinct _ _ (by simp [t.sethostname_eq]) he

def x86_64 : Target where
  auditArch := 0xc000003e
  number
    | .chmod => some 90
    | .fchmod => some 91
    | .fchmodat => some 268
    | .fchmodat2 => some 452
    | .sethostname => some 170
    | .setdomainname => some 171
  distinct a b := by cases a <;> cases b <;> decide
  sethostname := 170
  setdomainname := 171
  sethostname_eq := rfl
  setdomainname_eq := rfl

def aarch64 : Target where
  auditArch := 0xc00000b7
  number
    | .chmod => none
    | .fchmod => some 52
    | .fchmodat => some 53
    | .fchmodat2 => some 452
    | .sethostname => some 161
    | .setdomainname => some 162
  distinct a b := by cases a <;> cases b <;> decide
  sethostname := 161
  setdomainname := 162
  sethostname_eq := rfl
  setdomainname_eq := rfl

def i386 : Target where
  auditArch := 0x40000003
  number
    | .chmod => some 15
    | .fchmod => some 94
    | .fchmodat => some 306
    | .fchmodat2 => some 452
    | .sethostname => some 74
    | .setdomainname => some 121
  distinct a b := by cases a <;> cases b <;> decide
  sethostname := 74
  setdomainname := 121
  sethostname_eq := rfl
  setdomainname_eq := rfl

def arm : Target where
  auditArch := 0x40000028
  number
    | .chmod => some 15
    | .fchmod => some 94
    | .fchmodat => some 333
    | .fchmodat2 => some 452
    | .sethostname => some 74
    | .setdomainname => some 121
  distinct a b := by cases a <;> cases b <;> decide
  sethostname := 74
  setdomainname := 121
  sethostname_eq := rfl
  setdomainname_eq := rfl

end FractalD.Platform

namespace FractalD.Platform.SeccompFilters

open FractalD.Machine.ClassicBpf FractalD.Machine.Seccomp

/-- The answers of `prctl` to the two requests that put a filter in place. -/
structure Prctl where
  setNoNewPrivs : Except Errno Unit
  setSeccomp : List Insn → Except Errno Unit

def install (prctl : Prctl) (filter : List Insn) : Except Errno (List Insn) := do
  prctl.setNoNewPrivs
  prctl.setSeccomp filter
  return filter

/-- A block between `#ifdef SYS_x` and `#endif`. -/
def ifdef (t : Target) (call : Syscall) (block : BitVec 32 → List Insn) : List Insn :=
  match t.number call with
  | some nr => block nr
  | none => []

def errnoPerm : BitVec 32 := retErrno ||| BitVec.ofNat 32 ePerm

def suidSgidMask : BitVec 32 := 0o6000

def suidSgidBlock (arg : Fin 6) (nr : BitVec 32) : List Insn :=
  [bpfStmt (bpfLd ||| bpfW ||| bpfAbs) offsetNr,
    bpfJump (bpfJmp ||| bpfJeq ||| bpfK) nr 0 2,
    bpfStmt (bpfLd ||| bpfW ||| bpfAbs) (offsetArg arg),
    bpfJump (bpfJmp ||| bpfJset ||| bpfK) suidSgidMask 0 1,
    bpfStmt (bpfRet ||| bpfK) errnoPerm]

def suidSgidFilter (t : Target) : List Insn :=
  archGuard t.auditArch ++
    (ifdef t .chmod (suidSgidBlock 1) ++
      (ifdef t .fchmod (suidSgidBlock 1) ++
        (ifdef t .fchmodat (suidSgidBlock 2) ++
          (ifdef t .fchmodat2 (suidSgidBlock 2) ++
            [bpfStmt (bpfRet ||| bpfK) retAllow]))))

def restrictSuidSgid (prctl : Prctl) (t : Target) : Except Errno (List Insn) :=
  install prctl (suidSgidFilter t)

/-- The mode-changing calls in the order of their blocks, each with the
position of its mode argument. -/
def modeSyscalls : List (Syscall × Fin 6) :=
  [(.chmod, 1), (.fchmod, 1), (.fchmodat, 2), (.fchmodat2, 2)]

def modeCalls (t : Target) : List (BitVec 32 × Fin 6) :=
  modeSyscalls.filterMap (fun c => (t.number c.1).map (fun nr => (nr, c.2)))

theorem suidSgidFilter_eq (t : Target) :
    suidSgidFilter t = archGuard t.auditArch ++
      ((modeCalls t).flatMap (fun c => suidSgidBlock c.2 c.1) ++
        [bpfStmt (bpfRet ||| bpfK) retAllow]) := by
  simp only [suidSgidFilter, ifdef, modeCalls, modeSyscalls, List.filterMap_cons, List.filterMap_nil]
  cases t.number .chmod <;> cases t.number .fchmod <;> cases t.number .fchmodat <;>
    cases t.number .fchmodat2 <;> rfl

theorem modeCalls_nodup (t : Target) : ((modeCalls t).map Prod.fst).Nodup := by
  have he : (modeCalls t).map Prod.fst = (modeSyscalls.map Prod.fst).filterMap t.number := by
    simp only [modeCalls, List.map_filterMap, List.filterMap_map, Option.map_map]
    congr 1
    funext c
    simp [Function.comp_def]
  rw [he]
  refine List.Nodup.filterMap ?_ (by decide)
  intro a b nr ha hb
  rw [Option.mem_def] at ha hb
  exact t.distinct a b (by simp [ha]) (ha.trans hb.symm)

def setsId (d : SeccompData) (arg : Fin 6) : Bool := d.args arg &&& 0o6000 != 0

/-- A block ends the filter with an error for every call but its own, and
passes its own call on to the next block when the mode sets no identity bit. -/
theorem run_suidSgidBlock (d : SeccompData) (arg : Fin 6) (nr a : BitVec 32) (rest : List Insn) :
    run (load d) 0 (suidSgidBlock arg nr ++ rest) a =
      if d.nr = nr ∧ setsId d arg = false then run (load d) 0 rest (low (d.args arg))
      else some errnoPerm := by
  have hm : low (d.args arg) &&& suidSgidMask = 0#32 ↔ setsId d arg = false := by
    rw [low_and_eq_zero]
    simp [setsId, suidSgidMask]
  by_cases hn : d.nr = nr <;> by_cases hs : setsId d arg = false <;>
    simp [suidSgidBlock, hn, hm, hs]

/-- The verdict of the blocks of the given calls on a native system call. -/
def modesVerdict (d : SeccompData) : List (BitVec 32 × Fin 6) → BitVec 32
  | [] => retAllow
  | c :: calls =>
    if d.nr = c.1 ∧ setsId d c.2 = false then modesVerdict d calls else errnoPerm

theorem run_suidSgidBlocks (d : SeccompData) (calls : List (BitVec 32 × Fin 6)) (a : BitVec 32) :
    run (load d) 0 (calls.flatMap (fun c => suidSgidBlock c.2 c.1) ++
      [bpfStmt (bpfRet ||| bpfK) retAllow]) a = some (modesVerdict d calls) := by
  induction calls generalizing a with
  | nil => rfl
  | cons c calls ih =>
    rw [List.flatMap_cons, List.append_assoc, run_suidSgidBlock, ih, modesVerdict]
    split <;> rfl

theorem verdict_suidSgidFilter (t : Target) (d : SeccompData) :
    verdict (suidSgidFilter t) d =
      some (if d.arch = t.auditArch then modesVerdict d (modeCalls t) else retKillProcess) := by
  rw [suidSgidFilter_eq, verdict_archGuard, run_suidSgidBlocks]
  split <;> rfl

theorem modesVerdict_two (d : SeccompData) (c e : BitVec 32 × Fin 6)
    (calls : List (BitVec 32 × Fin 6)) (h : c.1 ≠ e.1) :
    modesVerdict d (c :: e :: calls) = errnoPerm := by
  simp only [modesVerdict]
  by_cases hc : d.nr = c.1
  · have he : d.nr ≠ e.1 := fun he => h (hc.symm.trans he)
    simp [he]
  · simp [hc]

/-- The call is a mode change that asks for a set-user-id or set-group-id bit. -/
def denied (t : Target) (d : SeccompData) : Prop :=
  ((t.number .chmod = some d.nr ∨ t.number .fchmod = some d.nr) ∧ d.args 1 &&& 0o6000 ≠ 0) ∨
    ((t.number .fchmodat = some d.nr ∨ t.number .fchmodat2 = some d.nr) ∧
      d.args 2 &&& 0o6000 ≠ 0)

instance (t : Target) (d : SeccompData) : Decidable (denied t d) :=
  inferInstanceAs (Decidable (_ ∨ _))

/-- What the restriction promises about one system call. -/
def suidSgidVerdict (t : Target) (d : SeccompData) : BitVec 32 :=
  if d.arch ≠ t.auditArch then retKillProcess
  else if denied t d then errnoPerm
  else retAllow

theorem denied_iff (t : Target) (d : SeccompData) :
    denied t d ↔ ∃ c ∈ modeCalls t, d.nr = c.1 ∧ setsId d c.2 = true := by
  have hm : ∀ c, c ∈ modeCalls t ↔ ∃ e ∈ modeSyscalls, t.number e.1 = some c.1 ∧ e.2 = c.2 := by
    rintro ⟨nr, arg⟩
    simp [modeCalls, Option.map_eq_some_iff]
  simp only [hm, denied, setsId, bne_iff_ne]
  constructor
  · rintro (⟨h | h, hb⟩ | ⟨h | h, hb⟩)
    · exact ⟨(d.nr, 1), ⟨(.chmod, 1), by simp [modeSyscalls], h, rfl⟩, rfl, hb⟩
    · exact ⟨(d.nr, 1), ⟨(.fchmod, 1), by simp [modeSyscalls], h, rfl⟩, rfl, hb⟩
    · exact ⟨(d.nr, 2), ⟨(.fchmodat, 2), by simp [modeSyscalls], h, rfl⟩, rfl, hb⟩
    · exact ⟨(d.nr, 2), ⟨(.fchmodat2, 2), by simp [modeSyscalls], h, rfl⟩, rfl, hb⟩
  · rintro ⟨⟨nr, arg⟩, ⟨⟨call, pos⟩, he, hn, hp⟩, hnr, hb⟩
    dsimp only at hn hp hnr hb
    subst hnr hp
    simp only [modeSyscalls, List.mem_cons, Prod.mk.injEq, List.not_mem_nil, or_false] at he
    obtain ⟨rfl, rfl⟩ | ⟨rfl, rfl⟩ | ⟨rfl, rfl⟩ | ⟨rfl, rfl⟩ := he
    · exact Or.inl ⟨Or.inl hn, hb⟩
    · exact Or.inl ⟨Or.inr hn, hb⟩
    · exact Or.inr ⟨Or.inl hn, hb⟩
    · exact Or.inr ⟨Or.inr hn, hb⟩

theorem errnoPerm_ne_retAllow : errnoPerm ≠ retAllow := by decide

theorem modesVerdict_allow_or (d : SeccompData) (calls : List (BitVec 32 × Fin 6)) :
    modesVerdict d calls = retAllow ∨ modesVerdict d calls = errnoPerm := by
  induction calls with
  | nil => exact Or.inl rfl
  | cons c calls ih =>
    rw [modesVerdict]
    split
    · exact ih
    · exact Or.inr rfl

/-- The blocks let a native call through only when at most one of them exists
and the call is the one it waits for. -/
theorem modesVerdict_allow_iff (t : Target) (d : SeccompData) :
    modesVerdict d (modeCalls t) = retAllow ↔
      ¬ denied t d ∧ (modeCalls t).length ≤ 1 ∧ ∀ c ∈ modeCalls t, d.nr = c.1 := by
  have hnodup := modeCalls_nodup t
  rw [denied_iff]
  cases hcalls : modeCalls t with
  | nil => simp [modesVerdict]
  | cons c calls =>
    cases calls with
    | nil =>
      by_cases hn : d.nr = c.1 <;> cases hs : setsId d c.2 <;>
        simp [modesVerdict, hn, hs, errnoPerm_ne_retAllow]
    | cons e calls =>
      have hce : c.1 ≠ e.1 := by
        rw [hcalls] at hnodup
        simp only [List.map_cons, List.nodup_cons, List.mem_cons, not_or] at hnodup
        exact hnodup.1.1
      simp [modesVerdict_two d c e calls hce, errnoPerm_ne_retAllow]

/-- The filter gives the promised verdict exactly on foreign calls, on calls
that are to be denied, and on builds that know at most one mode-changing call
and are asked for that one: every other native call is refused. -/
theorem suidSgidFilter_correct_iff (t : Target) (d : SeccompData) :
    verdict (suidSgidFilter t) d = some (suidSgidVerdict t d) ↔
      d.arch ≠ t.auditArch ∨ denied t d ∨
        (modeCalls t).length ≤ 1 ∧ ∀ c ∈ modeCalls t, d.nr = c.1 := by
  rw [verdict_suidSgidFilter, suidSgidVerdict, Option.some_inj]
  by_cases ha : d.arch = t.auditArch
  · have hallow := modesVerdict_allow_iff t d
    simp only [ha, if_true, ne_eq, not_true_eq_false, if_false, false_or]
    by_cases hd : denied t d
    · have hne : modesVerdict d (modeCalls t) ≠ retAllow := fun h => (hallow.mp h).1 hd
      simp [hd, (modesVerdict_allow_or d (modeCalls t)).resolve_left hne]
    · simpa [hd] using hallow
  · simp [ha]

/-- A native call with the given number and no arguments. -/
def nativeCall (t : Target) (nr : BitVec 32) : SeccompData := ⟨nr, t.auditArch, 0, fun _ => 0⟩

theorem suidSgidFilter_denies_read :
    verdict (suidSgidFilter x86_64) (nativeCall x86_64 0) ≠
      some (suidSgidVerdict x86_64 (nativeCall x86_64 0)) := by
  decide

/-- `ProtectHostname=`: the filter against the two calls that rename the host. -/
def hostnameFilter (t : Target) : List Insn :=
  archGuard t.auditArch ++
    [bpfStmt (bpfLd ||| bpfW ||| bpfAbs) offsetNr,
      bpfJump (bpfJmp ||| bpfJeq ||| bpfK) t.sethostname 1 2,
      bpfJump (bpfJmp ||| bpfJeq ||| bpfK) t.setdomainname 0 1,
      bpfStmt (bpfRet ||| bpfK) errnoPerm,
      bpfStmt (bpfRet ||| bpfK) retAllow]

def installHostnameFilter (prctl : Prctl) (t : Target) : Except Errno (List Insn) :=
  install prctl (hostnameFilter t)

def hostnameVerdict (t : Target) (d : SeccompData) : BitVec 32 :=
  if d.arch ≠ t.auditArch then retKillProcess
  else if d.nr = t.sethostname ∨ d.nr = t.setdomainname then errnoPerm
  else retAllow

theorem verdict_hostnameFilter (t : Target) (d : SeccompData) :
    verdict (hostnameFilter t) d =
      some (if d.arch = t.auditArch then
        if d.nr = t.sethostname then errnoPerm else retAllow
      else retKillProcess) := by
  rw [hostnameFilter, verdict_archGuard]
  by_cases ha : d.arch = t.auditArch <;> by_cases hn : d.nr = t.sethostname <;> simp [ha, hn]

/-- The filter gives the promised verdict exactly when the call does not set
the domain name from a native architecture: that call is let through. -/
theorem hostnameFilter_correct_iff (t : Target) (d : SeccompData) :
    verdict (hostnameFilter t) d = some (hostnameVerdict t d) ↔
      d.arch ≠ t.auditArch ∨ d.nr ≠ t.setdomainname := by
  have hne : retAllow ≠ errnoPerm := by decide
  rw [verdict_hostnameFilter, hostnameVerdict, Option.some_inj]
  by_cases ha : d.arch = t.auditArch
  · by_cases hd : d.nr = t.setdomainname
    · simp [ha, hd, t.sethostname_ne.symm, hne]
    · simp [ha, hd]
  · simp [ha]

theorem hostnameFilter_allows_setdomainname :
    verdict (hostnameFilter x86_64) (nativeCall x86_64 171) ≠
      some (hostnameVerdict x86_64 (nativeCall x86_64 171)) := by
  decide

end FractalD.Platform.SeccompFilters
