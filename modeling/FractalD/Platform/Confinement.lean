import FractalD.Config.SyscallFilter
import FractalD.Machine.Scan
import FractalD.Platform.SystemCallFilter

namespace FractalD.Platform.Confinement

open FractalD.Config.SyscallFilter FractalD.Config.Words FractalD.Machine.CString
open FractalD.Machine.ClassicBpf FractalD.Machine.OrderedMap
open FractalD.Machine.Result FractalD.Machine.Scan FractalD.Machine.Seccomp
open FractalD.Platform.RestrictionFilters
open FractalD.Platform.SeccompFilters FractalD.Platform.SystemCallFilter

structure CapabilityData where
  effective : BitVec 32
  permitted : BitVec 32
  inheritable : BitVec 32
  deriving DecidableEq, Repr

/-- The two words of each capability set of a process. -/
structure Capabilities where
  low : CapabilityData
  high : CapabilityData
  deriving DecidableEq, Repr

/-- A process on its way to the program of a service: the filters that it has put in place, the
newest first, and its capabilities. -/
structure Process where
  filters : List (List Insn)
  capabilities : Capabilities

/-- What the kernel itself answers to a process, and where that has its code and its programs. -/
structure Kernel where
  prctl : Prctl
  capbsetRead : Int
  capbsetDrop : Except Errno Unit
  capget : Except Errno Unit
  capset : Capabilities → Except Errno Unit
  codeAt : BitVec 64
  programAt : BitVec 64

inductive SystemCallArchitectures
  | native
  | x86_64
  | all
  deriving DecidableEq, Repr

structure PreparedSystemCallFilter where
  rules : List (Str × BitVec 32)
  defaultAllow : Bool
  defaultErrno : Option (BitVec 32)
  architecture : Int

/-- The settings of a service that its process is confined by after it has its identity. -/
structure Settings where
  protectClock : Bool := false
  protectHostname : Bool := false
  lockPersonality : Bool := false
  restrictAddressFamilies : Option (BitVec 64) := none
  noNewPrivileges : Bool := false
  restrictSuidSgid : Bool := false
  restrictNamespaces : Option (BitVec 32) := none
  systemCallFilter : Option PreparedSystemCallFilter := none

/-- An action as it is handed on: -1 allows, 0 is the default of what is denied. -/
def actionCode : SystemCallRuleAction → BitVec 32
  | .allow => -1
  | .deny => 0
  | .denyWithErrno errno => BitVec.ofInt 32 errno

def architectureCode : Option SystemCallArchitectures → Int
  | none | some .all => 0
  | some .native => 1
  | some .x86_64 => 2

def prepareSystemCallFilter (service : Str) (filter : Option SystemCallFilter)
    (architectures : Option SystemCallArchitectures) (errorNumber : Option Int) :
    Except Str (Option PreparedSystemCallFilter) :=
  match filter with
  | none => .ok none
  | some filter =>
    if filter.rules.any fun rule => '\x00' ∈ rule.name then
      .error ("service ".toList ++ service ++ " has an invalid system call name".toList)
    else .ok (some {
      rules := filter.rules.map fun rule => (rule.name, actionCode rule.action)
      defaultAllow := filter.defaultAllow
      defaultErrno := errorNumber.map (BitVec.ofInt 32)
      architecture := architectureCode architectures })

def capSysTime : Nat := 25

def CapabilityData.union (c : CapabilityData) : BitVec 32 :=
  c.effective ||| c.permitted ||| c.inheritable

def CapabilityData.without (c : CapabilityData) (capability : Nat) : CapabilityData :=
  ⟨c.effective &&& ~~~(1#32 <<< capability), c.permitted &&& ~~~(1#32 <<< capability),
    c.inheritable &&& ~~~(1#32 <<< capability)⟩

def Capabilities.withoutTime (c : Capabilities) : Capabilities :=
  ⟨c.low.without capSysTime, c.high⟩

def clockCalls : List String :=
  ["adjtimex", "clock_adjtime", "clock_adjtime64", "clock_settime", "clock_settime64",
    "settimeofday", "stime"]

def clockFilter (h : Headers) (processor : Processor) : List Insn :=
  archGuard processor.auditArch ++
    (bpfStmt (bpfLd ||| bpfW ||| bpfAbs) offsetNr ::
      (clockCalls.flatMap (fun name => withNumber h name fun nr => returnIf nr errnoPerm) ++
        [bpfStmt (bpfRet ||| bpfK) retAllow]))

/-- A step of the way, under the answers that `prctl` gives there. -/
abbrev Measure := Prctl → Process → Except Errno Process

/-- Take a capability from the bounding set; that it may not be taken is no error. -/
def dropBounding (k : Kernel) : Except Errno Unit :=
  if 0 < k.capbsetRead then
    match k.capbsetDrop with
    | .ok () => .ok ()
    | .error error => if error ≠ ePerm ∧ error ≠ eInval then .error error else .ok ()
  else .ok ()

/-- Take the capability to set the clock, if the process has it. -/
def dropTime (k : Kernel) (c : Capabilities) : Except Errno Capabilities := do
  k.capget
  if c.low.union ≠ c.withoutTime.low.union ∨ c.high.union ≠ c.withoutTime.high.union then
    k.capset c.withoutTime
    pure c.withoutTime
  else pure c

def protectClock (k : Kernel) (h : Headers) : Measure := fun prctl p => do
  dropBounding k
  let capabilities ← dropTime k p.capabilities
  let processor ← requireProcessor h
  let filter ← install prctl (clockFilter h processor)
  pure ⟨filter :: p.filters, capabilities⟩

/-- The filter against `personality`, which does not look at the architecture. -/
def personalityFilter (nr : BitVec 32) : List Insn :=
  bpfStmt (bpfLd ||| bpfW ||| bpfAbs) offsetNr ::
    (returnIf nr errnoPerm ++ [bpfStmt (bpfRet ||| bpfK) retAllow])

def lockPersonality (prctl : Prctl) (h : Headers) : Except Errno (List Insn) :=
  match h.nr "personality" with
  | none => .error eNotSup
  | some nr => install prctl (personalityFilter nr)

/-- `i32::from`. -/
def i32OfBool (b : Bool) : Int := if b then 1 else 0

def installPreparedSystemCallFilter (prctl : Prctl) (h : Headers)
    (filter : Option PreparedSystemCallFilter) : Except Errno (Option (List Insn)) :=
  match filter with
  | none => .ok none
  | some filter =>
    if filter.rules = [] then .ok none
    else some <$> installSystemCallFilter prctl h filter.rules (i32OfBool filter.defaultAllow)
      (filter.defaultErrno.getD 0) filter.architecture

/-- The calls that the filters tell by their names, besides those that change modes. -/
def namedCalls : List String :=
  clockCalls ++ ["personality", "sethostname", "socket", "socketpair", "unshare", "clone", "clone3",
    "setns"]

def callName : Syscall → String
  | .chmod => "chmod"
  | .fchmod => "fchmod"
  | .fchmodat => "fchmodat"
  | .fchmodat2 => "fchmodat2"
  | .sethostname => "sethostname"
  | .setdomainname => "setdomainname"

/-- One build: its headers, and that these give `prctl` a number of its own. -/
structure Build where
  headers : Headers
  processor : Processor
  target : Target
  processor_eq : headers.processor = some processor
  auditArch_eq : target.auditArch = processor.auditArch
  number_eq : ∀ call, target.number call = headers.nr (callName call)
  prctl : BitVec 32
  prctl_eq : headers.nr "prctl" = some prctl
  prctl_ne : ∀ name ∈ namedCalls, headers.nr name ≠ some prctl

section

variable (b : Build) (k : Kernel)

/-- A call of `prctl` with its first three arguments. -/
def prctlCall (request second third : BitVec 64) : SeccompData :=
  ⟨b.prctl, b.processor.auditArch, k.codeAt,
    fun i => if i = 0 then request else if i = 1 then second else if i = 2 then third else 0⟩

/-- What a call comes back with if filters are in place: what the kernel answers, or the error of
the filter that wins. -/
def answerTo (filters : List (List Insn)) (d : SeccompData) (answer : Except Errno Unit) :
    Except Errno Unit :=
  let value := stackVerdict filters d
  if value = retAllow then answer else .error (value &&& retData).toNat

/-- `prctl` as a process with filters in place sees it. -/
def answered (filters : List (List Insn)) : Prctl where
  setNoNewPrivs := answerTo filters (prctlCall b k 38 1 0) k.prctl.setNoNewPrivs
  setSeccomp filter := answerTo filters (prctlCall b k 22 2 k.programAt) (k.prctl.setSeccomp filter)

def adding (make : Prctl → Except Errno (List Insn)) : Measure := fun prctl p => do
  let filter ← make prctl
  pure { p with filters := filter :: p.filters }

def addingAny (make : Prctl → Except Errno (Option (List Insn))) : Measure := fun prctl p => do
  let filter ← make prctl
  pure { p with filters := filter.toList ++ p.filters }

def setNoNewPrivileges : Measure := fun prctl p => do
  prctl.setNoNewPrivs
  pure p

def onlyIf (wanted : Bool) (measure : Measure) : Measure :=
  if wanted then measure else fun _ p => .ok p

def ifGiven {α : Type} (given : Option α) (measure : α → Measure) : Measure :=
  match given with
  | some a => measure a
  | none => fun _ p => .ok p

/-- What is done before the filter of system calls is put in place, in order. -/
def measures (s : Settings) : List Measure :=
  [onlyIf s.protectClock (protectClock k b.headers),
    onlyIf s.protectHostname (adding fun prctl => installHostnameFilter prctl b.target),
    onlyIf s.lockPersonality (adding fun prctl => lockPersonality prctl b.headers),
    ifGiven s.restrictAddressFamilies fun allowed =>
      adding fun prctl => restrictAddressFamilies prctl b.headers allowed,
    onlyIf s.noNewPrivileges setNoNewPrivileges,
    onlyIf s.restrictSuidSgid (adding fun prctl => restrictSuidSgid prctl b.target),
    ifGiven s.restrictNamespaces fun allowed =>
      addingAny fun prctl => restrictNamespaces prctl b.headers allowed]

def lastMeasure (s : Settings) : Measure :=
  addingAny fun prctl => installPreparedSystemCallFilter prctl b.headers s.systemCallFilter

/-- The end of the `pre_exec` closure: each measure sees `prctl` through the filters that are in
place by then. -/
def confine (answers : List (List Insn) → Prctl) (s : Settings) (p : Process) :
    Except Errno Process :=
  (measures b k s ++ [lastMeasure b s]).foldlM (fun p measure => measure (answers p.filters) p) p

end

/-- A process that has no filters. -/
def fresh (capabilities : Capabilities) : Process := ⟨[], capabilities⟩

section

variable (b : Build) (s : Settings) (d : SeccompData)

def SparesClock : Prop := s.protectClock = true →
  d.arch = b.processor.auditArch ∧ some d.nr ∉ clockCalls.map b.headers.nr

def SparesHostname : Prop := s.protectHostname = true →
  d.arch = b.processor.auditArch ∧ d.nr ≠ b.target.sethostname

def SparesPersonality : Prop := s.lockPersonality = true → b.headers.nr "personality" ≠ some d.nr

def SparesFamilies : Prop := ∀ allowed, s.restrictAddressFamilies = some allowed →
  d.arch = b.processor.auditArch ∧ ¬ MakesForbidden b.headers allowed d

def SparesModes : Prop := s.restrictSuidSgid = true →
  d.arch = b.processor.auditArch ∧ modesVerdict d (modeCalls b.target) = retAllow

def SparesNamespaces : Prop :=
  ∀ allowed, s.restrictNamespaces = some allowed → blockedNamespaces allowed ≠ 0 →
    d.arch = b.processor.auditArch ∧ ¬ EntersBlocked b.headers (blockedNamespaces allowed) d

def KeepsSystemCalls : Prop := ∀ filter, s.systemCallFilter = some filter → filter.rules ≠ [] →
  action (promised b.headers filter.rules (i32OfBool filter.defaultAllow)
    (filter.defaultErrno.getD 0) filter.architecture d) = action retAllow

/-- What the settings of a service leave to its process. -/
structure Permitted : Prop where
  clock : SparesClock b s d
  hostname : SparesHostname b s d
  personality : SparesPersonality b s d
  families : SparesFamilies b s d
  modes : SparesModes b s d
  namespaces : SparesNamespaces b s d
  systemCalls : KeepsSystemCalls b s d

/-- What the filter of each measure leaves alone, in the order of the measures. -/
def demands : List (SeccompData → Prop) :=
  [SparesClock b s, SparesHostname b s, SparesPersonality b s, SparesFamilies b s,
    fun _ => s.noNewPrivileges = true → True, SparesModes b s, SparesNamespaces b s]

end

/-- A measure after which exactly those calls go through that did before and are not among those
it is against. -/
def Admits (measure : Measure) (demand : SeccompData → Prop) : Prop :=
  ∀ prctl p q, measure prctl p = .ok q → ∀ d,
    stackVerdict q.filters d = retAllow ↔ stackVerdict p.filters d = retAllow ∧ demand d

section

variable {b : Build} {k : Kernel} {s : Settings} {p q : Process} {d : SeccompData}
  {filter : List Insn} {value : BitVec 32} {demand : SeccompData → Prop} {measure : Measure}

theorem passes_of_verdict (h : verdict filter d = some value) :
    Passes d filter ↔ action value = action retAllow := by
  rw [Passes, h, Option.getD_some]

theorem passes_refusing {p : Prop} [Decidable p]
    (h : verdict filter d = some (if p then errnoPerm else retAllow)) : Passes d filter ↔ ¬ p := by
  rw [passes_of_verdict h]
  by_cases hp : p
  · rw [if_pos hp]
    exact iff_of_false (by decide) (not_not.mpr hp)
  · rw [if_neg hp]
    exact iff_of_true rfl hp

/-- A filter that kills foreign calls leaves alone the native ones that it does not refuse. -/
theorem passes_guarded {auditArch : BitVec 32} {rest : List Insn} {p : Prop} [Decidable p]
    (h : d.arch = auditArch →
      verdict (archGuard auditArch ++ rest) d = some (if p then errnoPerm else retAllow)) :
    Passes d (archGuard auditArch ++ rest) ↔ d.arch = auditArch ∧ ¬ p := by
  by_cases harch : d.arch = auditArch
  · rw [passes_refusing (h harch), and_iff_right harch]
  · have hkill : verdict (archGuard auditArch ++ rest) d = some retKillProcess := by
      rw [verdict_archGuard, if_neg harch]
    rw [passes_of_verdict hkill]
    exact iff_of_false (by decide) fun h => harch h.1

theorem admits_adding {make : Prctl → Except Errno (List Insn)}
    (h : ∀ prctl filter, make prctl = .ok filter → ∀ d, Passes d filter ↔ demand d) :
    Admits (adding make) demand := by
  intro prctl p q hq d
  obtain ⟨filter, hmake, hq⟩ := bind_eq_ok.mp hq
  obtain rfl := pure_eq_ok.mp hq
  rw [stackVerdict_allow, stackVerdict_allow, List.forall_mem_cons, h prctl filter hmake, and_comm]

theorem admits_addingAny {make : Prctl → Except Errno (Option (List Insn))}
    (h : ∀ prctl filter, make prctl = .ok filter → ∀ d, (∀ f ∈ filter, Passes d f) ↔ demand d) :
    Admits (addingAny make) demand := by
  intro prctl p q hq d
  obtain ⟨filter, hmake, hq⟩ := bind_eq_ok.mp hq
  obtain rfl := pure_eq_ok.mp hq
  rw [stackVerdict_allow, stackVerdict_allow, List.forall_mem_append, ← h prctl filter hmake,
    and_comm]
  simp only [Option.mem_toList, Option.mem_def]

theorem setNoNewPrivileges_ok {prctl : Prctl} (h : setNoNewPrivileges prctl p = .ok q) : q = p := by
  obtain ⟨-, -, h⟩ := bind_eq_ok.mp h
  exact (pure_eq_ok.mp h).symm

theorem admits_onlyIf (wanted : Bool) (h : Admits measure demand) :
    Admits (onlyIf wanted measure) fun d => wanted = true → demand d := by
  cases wanted with
  | true => simpa [onlyIf] using h
  | false =>
    intro prctl p q hq d
    cases hq
    simp

theorem admits_ifGiven {α : Type} {given : Option α} {measure : α → Measure}
    {demand : α → SeccompData → Prop} (h : ∀ a, Admits (measure a) (demand a)) :
    Admits (ifGiven given measure) fun d => ∀ a, given = some a → demand a d := by
  cases given with
  | some a => simpa [ifGiven] using h a
  | none =>
    intro prctl p q hq d
    cases hq
    simp

theorem CapabilityData.without_of_union {c : CapabilityData} {n : Nat}
    (h : c.union = (c.without n).union) : c.without n = c := by
  have hbit (i : Nat) (hi : i < 32) : (1#32 <<< n)[i] = true →
      c.effective[i] = false ∧ c.permitted[i] = false ∧ c.inheritable[i] = false := by
    intro hmask
    have hi' := congrArg (·[i]) h
    simpa [CapabilityData.union, CapabilityData.without, hmask, and_assoc] using hi'
  have hkeep (x : BitVec 32) (hx : ∀ (i : Nat) (hi : i < 32), (1#32 <<< n)[i] = true → x[i] = false) :
      x &&& ~~~(1#32 <<< n) = x := by
    ext i hi
    cases hmask : (1#32 <<< n)[i] with
    | false => rw [BitVec.getElem_and, BitVec.getElem_not, hmask, Bool.not_false, Bool.and_true]
    | true => rw [BitVec.getElem_and, hx i hi hmask, Bool.false_and]
  rw [CapabilityData.without, hkeep _ fun i hi hmask => (hbit i hi hmask).1,
    hkeep _ fun i hi hmask => (hbit i hi hmask).2.1, hkeep _ fun i hi hmask => (hbit i hi hmask).2.2]

theorem dropTime_ok {c dropped : Capabilities} (h : dropTime k c = .ok dropped) :
    dropped = c.withoutTime := by
  obtain ⟨-, -, h⟩ := bind_eq_ok.mp h
  split_ifs at h with hchanged
  · obtain ⟨-, -, h⟩ := bind_eq_ok.mp h
    exact (pure_eq_ok.mp h).symm
  · have hlow : c.low.union = (c.low.without capSysTime).union := by
      by_contra hne
      exact hchanged (.inl hne)
    obtain rfl := pure_eq_ok.mp h
    rw [Capabilities.withoutTime, CapabilityData.without_of_union hlow]

theorem protectClock_ok {prctl : Prctl} (h : protectClock k b.headers prctl p = .ok q) :
    q = ⟨clockFilter b.headers b.processor :: p.filters, p.capabilities.withoutTime⟩ := by
  obtain ⟨-, -, h⟩ := bind_eq_ok.mp h
  obtain ⟨dropped, hdropped, h⟩ := bind_eq_ok.mp h
  obtain ⟨processor, hprocessor, h⟩ := bind_eq_ok.mp h
  obtain ⟨filter, hfilter, h⟩ := bind_eq_ok.mp h
  obtain rfl := pure_eq_ok.mp h
  obtain rfl := Option.some.inj ((requireProcessor_ok hprocessor).symm.trans b.processor_eq)
  rw [RestrictionFilters.install_ok hfilter, dropTime_ok hdropped]

theorem passes_clockFilter (h : Headers) (processor : Processor) :
    Passes d (clockFilter h processor) ↔
      d.arch = processor.auditArch ∧ some d.nr ∉ clockCalls.map h.nr := by
  apply passes_guarded
  intro harch
  rw [verdict_archGuard, if_pos harch, run_load _ _ _ _ _ (load_nr d), run_namedTests, run_ret]
  split <;> rfl

theorem admits_protectClock : Admits (protectClock k b.headers) fun d =>
    d.arch = b.processor.auditArch ∧ some d.nr ∉ clockCalls.map b.headers.nr := by
  intro prctl p q hq d
  rw [protectClock_ok hq, stackVerdict_allow, stackVerdict_allow, List.forall_mem_cons,
    passes_clockFilter, and_comm]

theorem passes_hostnameFilter (t : Target) :
    Passes d (hostnameFilter t) ↔ d.arch = t.auditArch ∧ d.nr ≠ t.sethostname := by
  apply passes_guarded
  intro harch
  exact (verdict_hostnameFilter t d).trans (by rw [if_pos harch])

theorem passes_personalityFilter (nr : BitVec 32) :
    Passes d (personalityFilter nr) ↔ d.nr ≠ nr := by
  apply passes_refusing
  rw [personalityFilter, verdict, run_load _ _ _ _ _ (load_nr d), run_returnIf, run_ret]
  split <;> rfl

theorem passes_suidSgidFilter (t : Target) :
    Passes d (suidSgidFilter t) ↔
      d.arch = t.auditArch ∧ modesVerdict d (modeCalls t) = retAllow := by
  rw [passes_of_verdict (verdict_suidSgidFilter t d)]
  by_cases harch : d.arch = t.auditArch
  · rw [if_pos harch, and_iff_right harch]
    obtain hallow | hperm := modesVerdict_allow_or d (modeCalls t)
    · exact iff_of_true (by rw [hallow]) hallow
    · rw [hperm]
      decide
  · rw [if_neg harch]
    exact iff_of_false (by decide) fun h => harch h.1

theorem passes_addressFamilyFilter {socket socketpair : BitVec 32} {allowed : BitVec 64}
    (hsocket : b.headers.nr "socket" = some socket)
    (hpair : b.headers.nr "socketpair" = some socketpair) :
    Passes d (addressFamilyFilter b.processor socket socketpair allowed) ↔
      d.arch = b.processor.auditArch ∧ ¬ MakesForbidden b.headers allowed d := by
  have hforbidden : MakesForbidden b.headers allowed d ↔ (d.nr = socket ∨ d.nr = socketpair) ∧
      (44 < Machine.Seccomp.low (d.args 0) ∨
        allowed.getLsbD (Machine.Seccomp.low (d.args 0)).toNat = false) := by
    rw [MakesForbidden, hsocket, hpair, Option.some_inj, Option.some_inj, eq_comm,
      eq_comm (a := socketpair)]
  rw [hforbidden]
  exact passes_guarded verdict_addressFamilyFilter

theorem passes_namespaceFilter {blocked : BitVec 32} :
    Passes d (namespaceFilter b.headers b.processor blocked) ↔
      d.arch = b.processor.auditArch ∧ ¬ EntersBlocked b.headers blocked d :=
  passes_guarded verdict_namespaceFilter

theorem admits_measures : List.Forall₂ Admits (measures b k s) (demands b s) := by
  have hhostname : Admits (adding fun prctl => installHostnameFilter prctl b.target) fun d =>
      d.arch = b.processor.auditArch ∧ d.nr ≠ b.target.sethostname := by
    apply admits_adding
    intro prctl filter hfilter d
    rw [RestrictionFilters.install_ok hfilter, passes_hostnameFilter, b.auditArch_eq]
  have hpersonality : Admits (adding fun prctl => lockPersonality prctl b.headers) fun d =>
      b.headers.nr "personality" ≠ some d.nr := by
    apply admits_adding
    intro prctl filter hfilter d
    rw [lockPersonality] at hfilter
    cases hnr : b.headers.nr "personality" with
    | none =>
      rw [hnr] at hfilter
      cases hfilter
    | some nr =>
      rw [hnr] at hfilter
      rw [RestrictionFilters.install_ok hfilter, passes_personalityFilter, ne_eq, ne_eq,
        Option.some_inj, eq_comm]
  have hfamilies (allowed : BitVec 64) : Admits (adding fun prctl =>
      restrictAddressFamilies prctl b.headers allowed) fun d =>
      d.arch = b.processor.auditArch ∧ ¬ MakesForbidden b.headers allowed d := by
    apply admits_adding
    intro prctl filter hfilter d
    unfold restrictAddressFamilies at hfilter
    cases hsocket : b.headers.nr "socket" with
    | none =>
      rw [hsocket] at hfilter
      cases hfilter
    | some socket =>
      cases hpair : b.headers.nr "socketpair" with
      | none =>
        rw [hsocket, hpair] at hfilter
        cases hfilter
      | some socketpair =>
        rw [hsocket, hpair] at hfilter
        obtain ⟨processor, hprocessor, hfilter⟩ := bind_eq_ok.mp hfilter
        obtain rfl := Option.some.inj ((requireProcessor_ok hprocessor).symm.trans b.processor_eq)
        rw [RestrictionFilters.install_ok hfilter, passes_addressFamilyFilter hsocket hpair]
  have hprivileges : Admits setNoNewPrivileges fun _ => True := by
    intro prctl p q hq d
    rw [setNoNewPrivileges_ok hq, and_true]
  have hmodes : Admits (adding fun prctl => restrictSuidSgid prctl b.target) fun d =>
      d.arch = b.processor.auditArch ∧ modesVerdict d (modeCalls b.target) = retAllow := by
    apply admits_adding
    intro prctl filter hfilter d
    rw [RestrictionFilters.install_ok hfilter, passes_suidSgidFilter, b.auditArch_eq]
  have hnamespaces (allowed : BitVec 32) : Admits (addingAny fun prctl =>
      restrictNamespaces prctl b.headers allowed) fun d => blockedNamespaces allowed ≠ 0 →
      d.arch = b.processor.auditArch ∧ ¬ EntersBlocked b.headers (blockedNamespaces allowed) d := by
    apply admits_addingAny
    intro prctl filter hfilter d
    unfold restrictNamespaces at hfilter
    dsimp only at hfilter
    split_ifs at hfilter with hblocked
    · obtain rfl := Except.ok.inj hfilter
      simp [hblocked]
    · obtain ⟨processor, hprocessor, hfilter⟩ := bind_eq_ok.mp hfilter
      obtain ⟨installed, hinstalled, hsome⟩ := bind_eq_ok.mp hfilter
      obtain rfl := pure_eq_ok.mp hsome
      obtain rfl := Option.some.inj ((requireProcessor_ok hprocessor).symm.trans b.processor_eq)
      simp only [Option.mem_def, Option.some_inj, forall_eq']
      rw [RestrictionFilters.install_ok hinstalled, passes_namespaceFilter]
      exact ⟨fun h _ => h, fun h => h hblocked⟩
  exact .cons (admits_onlyIf _ admits_protectClock) (.cons (admits_onlyIf _ hhostname)
    (.cons (admits_onlyIf _ hpersonality) (.cons (admits_ifGiven hfamilies)
      (.cons (admits_onlyIf _ hprivileges) (.cons (admits_onlyIf _ hmodes)
        (.cons (admits_ifGiven hnamespaces) .nil))))))

theorem passes_systemCallFilter {h : Headers} {rules : List (Str × BitVec 32)} {defaultAllow architecture : Int}
    {defaultErrno arch : BitVec 32} (hrange : ¬ (architecture < 0 ∨ 2 < architecture))
    (harch : expectedArch h architecture = .ok arch) :
    Passes d (systemCallFilter h (resolveRules h rules) defaultAllow defaultErrno
      arch) ↔ action (promised h rules defaultAllow defaultErrno architecture d) =
        action retAllow := by
  have hkill : (arch ≠ 0 ∧ arch ≠ d.arch) ↔
      (selectedArch h architecture).any (· ≠ d.arch) = true := by
    obtain ⟨rfl, hs⟩ | ⟨hne, hs⟩ := expectedArch_ok hrange harch
    · simp [hs]
    · simp only [hs, Option.any_some, decide_eq_true_eq]
      exact and_iff_right hne
  rw [passes_of_verdict verdict_systemCallFilter, promised]
  simp only [hkill]

/-- Filters that leave the calls of `prctl` alone. -/
def Quiet (b : Build) (filters : List (List Insn)) : Prop :=
  ∀ d : SeccompData, d.arch = b.processor.auditArch → d.nr = b.prctl →
    stackVerdict filters d = retAllow

theorem answered_quiet {filters : List (List Insn)} (h : Quiet b filters) :
    answered b k filters = k.prctl := by
  have hcall (request second third : BitVec 64) (answer : Except Errno Unit) :
      answerTo filters (prctlCall b k request second third) answer = answer :=
    if_pos (h _ rfl rfl)
  rw [answered]
  simp only [hcall]

/-- As long as nothing is against `prctl`, a row of measures goes as if no filter were there. -/
theorem undisturbed_row {row : List Measure} {wanted : List (SeccompData → Prop)} {last : Measure}
    (h : List.Forall₂ Admits row wanted) (hp : Quiet b p.filters)
    (hfree : ∀ demand ∈ wanted, ∀ d : SeccompData, d.arch = b.processor.auditArch →
      d.nr = b.prctl → demand d) :
    (row ++ [last]).foldlM (fun p measure => measure (answered b k p.filters) p) p =
      (row ++ [last]).foldlM (fun p measure => measure k.prctl p) p := by
  induction h generalizing p with
  | nil => rw [List.nil_append, List.foldlM_cons, List.foldlM_cons, answered_quiet hp]; rfl
  | @cons measure demand row wanted hmeasure _ ih =>
    obtain ⟨hdemand, hfree⟩ := List.forall_mem_cons.mp hfree
    rw [List.cons_append, List.foldlM_cons, List.foldlM_cons, answered_quiet hp]
    cases hr : measure k.prctl p with
    | error e => rfl
    | ok r =>
      refine ih (fun d harch hnr => ?_) hfree
      exact (hmeasure _ p r hr d).mpr ⟨hp d harch hnr, hdemand d harch hnr⟩

theorem demands_free (hs : s.restrictSuidSgid = false) :
    ∀ demand ∈ demands b s, ∀ d : SeccompData, d.arch = b.processor.auditArch → d.nr = b.prctl →
      demand d := by
  intro demand hmem d harch hnr
  have hne (name : String) (hname : name ∈ namedCalls) : b.headers.nr name ≠ some d.nr :=
    hnr ▸ b.prctl_ne name hname
  have hhostname : d.nr ≠ b.target.sethostname := by
    intro he
    have hnumber := b.number_eq .sethostname
    rw [b.target.sethostname_eq, ← he] at hnumber
    exact hne "sethostname" (by decide) hnumber.symm
  simp only [demands, List.mem_cons, List.not_mem_nil, or_false] at hmem
  rcases hmem with rfl | rfl | rfl | rfl | rfl | rfl | rfl
  · intro _
    refine ⟨harch, fun hclock => ?_⟩
    obtain ⟨name, hname, hnr'⟩ := List.mem_map.mp hclock
    exact hne name (List.mem_append_left _ hname) hnr'
  · exact fun _ => ⟨harch, hhostname⟩
  · exact fun _ => hne "personality" (by decide)
  · rintro allowed -
    refine ⟨harch, fun hforbidden => ?_⟩
    obtain ⟨hsocket | hpair, -⟩ := hforbidden
    · exact hne "socket" (by decide) hsocket
    · exact hne "socketpair" (by decide) hpair
  · exact fun _ => trivial
  · intro hon
    rw [hs] at hon
    cases hon
  · rintro allowed - -
    refine ⟨harch, fun henters => ?_⟩
    obtain ⟨hunshare | hclone, -⟩ | hclone3 | ⟨hsetns, -⟩ := henters
    · exact hne "unshare" (by decide) hunshare
    · exact hne "clone" (by decide) hclone
    · exact hne "clone3" (by decide) hclone3
    · exact hne "setns" (by decide) hsetns

end

/-- Without `RestrictSUIDSGID=` no filter is in the way of those that follow it: a process is
confined as if `prctl` were never filtered. -/
theorem confine_undisturbed (b : Build) (k : Kernel) (s : Settings) (c : Capabilities) :
    confine b k (answered b k) { s with restrictSuidSgid := false } (fresh c) =
      confine b k (fun _ => k.prctl) { s with restrictSuidSgid := false } (fresh c) :=
  undisturbed_row admits_measures (fun _ _ _ => rfl) (demands_free rfl)

section

variable {expandGroup : Str → Option (List Str)} {deny : Bool} {line : Nat} {rules rules' : Rules}
  {directive : Directive}

/-- Rules whose errors are numbers that a filter can return. -/
def Ranged (rules : Rules) : Prop :=
  ∀ name errno, rules.get name = some (.denyWithErrno errno) → 0 ≤ errno ∧ errno ≤ 4095

theorem errnoNames_ranged : ∀ e ∈ errnoNames, 0 ≤ e.2 ∧ e.2 ≤ 4095 := forall_of_all (by decide)

theorem parseErrno_ranged {value key : Str} {errno : Int} (h : parseErrno value key = .ok errno) :
    0 ≤ errno ∧ errno ≤ 4095 := by
  unfold parseErrno at h
  split at h
  · next n hlookup =>
    obtain rfl := Except.ok.inj h
    obtain ⟨before, after, heq, -⟩ := List.lookup_eq_some_iff.mp hlookup
    exact errnoNames_ranged (value.map Char.toUpper, n) (by rw [heq]; simp)
  · split at h
    · next n hfilter =>
      obtain rfl := Except.ok.inj h
      have hn := of_decide_eq_true (Option.filter_eq_some_iff.mp hfilter).2
      exact ⟨by omega, hn.2⟩
    · cases h

theorem parseEntry_ranged {word name : Str} {errno : Option Int}
    (h : parseEntry word = .ok (name, errno)) : ∀ n ∈ errno, 0 ≤ n ∧ n ≤ 4095 := by
  unfold parseEntry at h
  split at h
  · obtain ⟨n, hn, heq⟩ := map_eq_ok.mp h
    cases heq
    rintro _ ⟨⟩
    exact parseErrno_ranged hn
  · cases h
    rintro _ ⟨⟩

theorem insert_ranged {errno : Option Int} (hrange : ∀ n ∈ errno, 0 ≤ n ∧ n ≤ 4095)
    (names : List Str) (hrules : Ranged rules) :
    Ranged (names.foldl (·.insert · (actionOf deny errno)) rules) := by
  induction names generalizing rules with
  | nil => exact hrules
  | cons name names ih =>
    apply ih
    intro name' n hget
    rw [get_insert] at hget
    split_ifs at hget
    · cases deny with
      | false => cases hget
      | true =>
        cases errno with
        | none => cases hget
        | some errno =>
          cases hget
          exact hrange n rfl
    · exact hrules name' n hget

theorem addWord_ranged {word : Str} (hrules : Ranged rules)
    (h : addWord expandGroup deny line rules word = .ok rules') : Ranged rules' := by
  obtain ⟨⟨name, errno⟩, hentry, h⟩ := bind_eq_ok.mp h
  dsimp only at h
  by_cases hname : name = []
  · rw [if_pos hname] at h
    exact (throw_ne_ok.mp h).elim
  · rw [if_neg hname] at h
    rw [← pure_eq_ok.mp h]
    exact insert_ranged (parseEntry_ranged hentry) _ hrules

theorem addDirective_ranged (hrules : Ranged rules)
    (h : addDirective expandGroup directive rules = .ok (deny, rules')) : Ranged rules' := by
  obtain ⟨words, -, h⟩ := bind_eq_ok.mp h
  cases words with
  | nil => exact (throw_ne_ok.mp h).elim
  | cons first rest =>
    obtain ⟨added, hadded, h⟩ := bind_eq_ok.mp h
    obtain ⟨-, rfl⟩ := Prod.mk.inj (pure_eq_ok.mp h)
    exact @foldlM_ok _ _ _ _ (fun _ => Ranged) (fun _ _ _ _ => addWord_ranged) _ [] _ _ hrules hadded

theorem parseDirectives_ranged {directives : List Directive}
    (h : parseDirectives expandGroup directives = .ok (deny, rules)) : Ranged rules := by
  have hempty : Ranged empty := by
    intro name errno hget
    cases hget
  exact @foldlM_ok _ _ _ _ (fun _ result => Ranged result.2)
    (fun _ _ _ _ => addDirective_ranged) _ [] _ _ hempty h

theorem action_errno (x : BitVec 32) : action (retErrno ||| (x &&& retData)) ≠ action retAllow := by
  have hdata : retData.extractLsb' 16 16 = 0#16 := by decide
  rw [action, BitVec.extractLsb'_or, BitVec.extractLsb'_and, hdata, BitVec.and_zero]
  decide

theorem action_actionCode {rule : SystemCallRuleAction} {defaultErrno : BitVec 32}
    (hrange : ∀ errno, rule = .denyWithErrno errno → 0 ≤ errno ∧ errno ≤ 4095) :
    action (fractaldSyscallAction (actionCode rule) defaultErrno) = action retAllow ↔
      rule = .allow := by
  have hdenied (code : BitVec 32) (hcode : code ≠ -1) :
      action (fractaldSyscallAction code defaultErrno) ≠ action retAllow := by
    rw [fractaldSyscallAction, if_neg hcode]
    split_ifs
    · exact action_errno code
    · exact action_errno defaultErrno
    · decide
  cases rule with
  | allow => exact iff_of_true rfl rfl
  | deny => exact iff_of_false (hdenied 0 (by decide)) (by simp)
  | denyWithErrno errno =>
    obtain ⟨hlow, hhigh⟩ := hrange errno rfl
    refine iff_of_false (hdenied _ fun hcode => ?_) (by simp)
    have hint := congrArg BitVec.toInt hcode
    rw [actionCode, BitVec.toInt_ofInt_eq_self (by decide) (by omega) (by omega)] at hint
    have hminus : (-1 : BitVec 32).toInt = -1 := by decide
    omega

theorem prepare_ok {service : Str} {f : SystemCallFilter}
    {architectures : Option SystemCallArchitectures} {errorNumber : Option Int}
    {prepared : PreparedSystemCallFilter}
    (h : prepareSystemCallFilter service (some f) architectures errorNumber = .ok (some prepared)) :
    prepared = ⟨f.rules.map fun rule => (rule.name, actionCode rule.action), f.defaultAllow,
      errorNumber.map (BitVec.ofInt 32), architectureCode architectures⟩ := by
  unfold prepareSystemCallFilter at h
  dsimp only at h
  split_ifs at h
  exact (Option.some.inj (Except.ok.inj h)).symm

theorem rules_ranged {file : NativeFile} {f : SystemCallFilter}
    (h : parseSyscallFilter expandGroup file = .ok (some f)) :
    ∀ rule ∈ f.rules, ∀ errno, rule.action = .denyWithErrno errno → 0 ≤ errno ∧ errno ≤ 4095 := by
  obtain ⟨-, deny, rules, hrules, rfl⟩ := parse_ok h
  intro rule hrule errno herrno
  obtain ⟨e, he, rfl⟩ := List.mem_map.mp hrule
  dsimp only at herrno
  exact parseDirectives_ranged hrules e.1 errno (get_eq_some.mpr (herrno ▸ he))

theorem action_promised {h : Headers} {d : SeccompData} {rules : List SystemCallRule}
    {defaultAllow : Bool} {defaultErrno : BitVec 32} {architecture : Int}
    (hrange : ∀ rule ∈ rules, ∀ errno, rule.action = .denyWithErrno errno →
      0 ≤ errno ∧ errno ≤ 4095) :
    action (promised h (rules.map fun rule => (rule.name, actionCode rule.action))
        (i32OfBool defaultAllow) defaultErrno architecture d) = action retAllow ↔
      (∀ arch ∈ selectedArch h architecture, d.arch = arch) ∧
        ((∃ rule, (rules.find? fun rule => fractaldSyscallNumber h rule.name = d.nr.toNat) =
            some rule ∧ rule.action = .allow) ∨
          (rules.find? fun rule => fractaldSyscallNumber h rule.name = d.nr.toNat) = none ∧
            (defaultAllow = true ∨ some d.nr ∈ safeCalls.map h.nr)) := by
  have harch : (selectedArch h architecture).any (· ≠ d.arch) = true ↔
      ¬ ∀ arch ∈ selectedArch h architecture, d.arch = arch := by
    cases selectedArch h architecture with
    | none => simp
    | some arch =>
      simp only [Option.any_some, decide_eq_true_eq, Option.mem_def, Option.some_inj, forall_eq']
      exact ne_comm
  have hfound : (rules.map fun rule => (rule.name, actionCode rule.action)).find?
      (fun rule => fractaldSyscallNumber h rule.1 = d.nr.toNat) =
        (rules.find? fun rule => fractaldSyscallNumber h rule.name = d.nr.toNat).map
          fun rule => (rule.name, actionCode rule.action) := List.find?_map
  rw [promised]
  by_cases hforeign : (selectedArch h architecture).any (· ≠ d.arch) = true
  · rw [if_pos hforeign]
    exact iff_of_false (by decide) fun h => harch.mp hforeign h.1
  · rw [if_neg hforeign, and_iff_right (not_not.mp fun h => hforeign (harch.mpr h)), hfound]
    cases hfind : rules.find? fun rule => fractaldSyscallNumber h rule.name = d.nr.toNat with
    | some rule =>
      rw [Option.map_some]
      dsimp only
      rw [action_actionCode (hrange rule (List.mem_of_find?_eq_some hfind))]
      simp
    | none =>
      rw [Option.map_none]
      dsimp only
      cases defaultAllow with
      | true => simp [i32OfBool, defaultAction]
      | false =>
        have hdenied : action (defaultAction 0 defaultErrno) ≠ action retAllow := by
          have hrule : action (fractaldSyscallAction (actionCode .deny) defaultErrno) =
              action retAllow ↔ SystemCallRuleAction.deny = .allow := action_actionCode (by simp)
          exact fun h => by cases hrule.mp h
        by_cases hsafe : some d.nr ∈ safeCalls.map h.nr
        · simp [i32OfBool, hsafe]
        · simp [i32OfBool, hsafe, hdenied]

end

/-- From the configuration to the kernel: the filter of a service lets a call through if it comes
from the architecture that the service asks for and the first rule with the number of the call
allows it or, where there is none, the last list is one of calls to deny or the call is one that
every program makes. -/
theorem configured_passes (expandGroup : Str → Option (List Str)) (file : NativeFile)
    (f : SystemCallFilter) (hparse : parseSyscallFilter expandGroup file = .ok (some f))
    (service : Str) (architectures : Option SystemCallArchitectures) (errorNumber : Option Int)
    (prepared : PreparedSystemCallFilter)
    (hprepare : prepareSystemCallFilter service (some f) architectures errorNumber =
      .ok (some prepared))
    (prctl : Prctl) (h : Headers) (filter : List Insn)
    (hinstall : installPreparedSystemCallFilter prctl h (some prepared) = .ok (some filter))
    (d : SeccompData) :
    Passes d filter ↔ (∀ arch ∈ selectedArch h (architectureCode architectures), d.arch = arch) ∧
      ((∃ rule, (f.rules.find? fun rule => fractaldSyscallNumber h rule.name = d.nr.toNat) =
          some rule ∧ rule.action = .allow) ∨
        (f.rules.find? fun rule => fractaldSyscallNumber h rule.name = d.nr.toNat) = none ∧
          (f.defaultAllow = true ∨ some d.nr ∈ safeCalls.map h.nr)) := by
  obtain rfl := prepare_ok hprepare
  unfold installPreparedSystemCallFilter at hinstall
  dsimp only at hinstall
  split_ifs at hinstall with hrules
  · cases hinstall
  obtain ⟨installed, hinstalled, hsome⟩ := map_eq_ok.mp hinstall
  obtain rfl := Option.some.inj hsome
  obtain ⟨hrange, -, arch, harch, rfl⟩ := SystemCallFilter.install_ok hinstalled
  rw [passes_systemCallFilter hrange harch]
  exact action_promised (rules_ranged hparse)

def twoCalls : List SystemCallRule := [⟨"read".toList, .allow⟩, ⟨"write".toList, .allow⟩]

def twoCallsFilter : List Insn := systemCallFilter x86_64Headers [(0, -1), (1, -1)] 0 0 0

theorem twoCalls_installs : installPreparedSystemCallFilter willingPrctl x86_64Headers
    (some ⟨twoCalls.map fun rule => (rule.name, actionCode rule.action), false, none, 0⟩) =
      .ok (some twoCallsFilter) := by
  have hresolve : resolveRules x86_64Headers
      (twoCalls.map fun rule => (rule.name, actionCode rule.action)) = [(0, -1), (1, -1)] := by
    simp [resolveRules, twoCalls, actionCode, read_number, write_number, -String.reduceToList]
  rw [installPreparedSystemCallFilter, installSystemCallFilter]
  simp only [hresolve]
  rfl

theorem configured_passes_write :
    Passes ⟨1, 0xc000003e, 0, fun _ => 0⟩ twoCallsFilter := by
  apply (configured_passes (fun _ => none) (onlyList "read write") ⟨false, twoCalls⟩
    (by decide +kernel) [] none none _ rfl willingPrctl x86_64Headers twoCallsFilter
    twoCalls_installs _).mpr
  refine ⟨fun arch harch => (by cases harch), .inl ⟨⟨"write".toList, .allow⟩, ?_, rfl⟩⟩
  simp [twoCalls, read_number, write_number, -String.reduceToList]

end FractalD.Platform.Confinement
