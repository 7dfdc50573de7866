import FractalD.Core.Spec
import FractalD.Machine.OrderedMap
import FractalD.Machine.Result
import FractalD.Machine.Scan

namespace FractalD.Control.State

open FractalD.Core.Spec FractalD.Machine.CString FractalD.Machine.OrderedMap
open FractalD.Machine.Result FractalD.Machine.Scan FractalD.Machine.Text

inductive Marker
  | file
  | symlink
  | directory
  deriving DecidableEq, Repr

/-- What lies in the directory of enabled or of masked services. -/
abbrev Markers := BTreeMap Str Marker

/-- The markers and the directory itself, which some names lead to. -/
def lookup (m : Markers) (name : Str) : Option Marker :=
  if name ∈ [[], ['.'], ['.', '.']] then some .directory else m.get name

def validateServiceName (name : Str) : Except Str Unit :=
  if name = [] ∨ name = ['.'] ∨ name = ['.', '.'] ∨ '/' ∈ name ∨
      name.any fun c => c.toNat = 0 || isWhitespace c then
    .error "invalid service name".toList
  else .ok ()

def nativeServiceName (name : Str) : Str := (removeSuffix svcSuffix name).getD name

def serviceNameCandidates (name : Str) : List Str := [nativeServiceName name]

def enable (name : Str) (m : Markers) : Except Str Markers := do
  validateServiceName name
  let name := nativeServiceName name
  match lookup m name with
  | some .symlink => throw "enabled marker is a symlink".toList
  | some .directory => throw "enabled marker is not a regular file".toList
  | some .file => pure m
  | none => pure (m.insert name .file)

def removeMarker (m : Markers) (name : Str) : Except Str Markers :=
  match lookup m name with
  | some .file | some .symlink => .ok (m.erase name)
  | some .directory => .error "Is a directory (os error 21)".toList
  | none => .ok m

def disable (name : Str) (m : Markers) : Except Str Markers := do
  validateServiceName name
  (serviceNameCandidates name).foldlM removeMarker m

def marked (label : Str) (m : Markers) : List Str → Except Str Bool
  | [] => .ok false
  | name :: names =>
    match lookup m name with
    | some .file => .ok true
    | some .symlink => .error (label ++ " marker is a symlink".toList)
    | some .directory => .error (label ++ " marker is not a regular file".toList)
    | none => marked label m names

def isMasked (name : Str) (m : Markers) : Except Str Bool := do
  validateServiceName name
  marked "masked".toList m (serviceNameCandidates name)

/-- Mark a service in the directory of a label, as `enable` and `mask` do. -/
def mark (label name : Str) (m : Markers) : Except Str Markers := do
  validateServiceName name
  let name := nativeServiceName name
  match lookup m name with
  | some .symlink => throw (label ++ " marker is a symlink".toList)
  | some .directory => throw (label ++ " marker is not a regular file".toList)
  | some .file => pure m
  | none => pure (m.insert name .file)

theorem enable_eq : enable = mark "enabled".toList := rfl

def mask (name : Str) (m : Markers) : Except Str Markers := mark "masked".toList name m

def unmask (name : Str) (m : Markers) : Except Str Markers := disable name m

/-- Whether a service is marked in the directory of a label. -/
def isMarked (label name : Str) (m : Markers) : Except Str Bool := do
  validateServiceName name
  marked label m (serviceNameCandidates name)

def isEnabled (name : Str) (m : Markers) : Except Str Bool := isMarked "enabled".toList name m

/-- The names of the regular files that may be those of services, sorted as the entries are. -/
def enabledNames (m : Markers) : List Str :=
  (m.entries.filter fun e => e.2 = .file && (validateServiceName e.1).isOk).map Prod.fst

/-- What lies in the two directories of `StatePaths`. -/
structure StatePaths where
  enabled : Markers
  masked : Markers

inductive Command
  | enable (name : Str)
  | disable (name : Str)
  | mask (name : Str)
  | unmask (name : Str)

namespace StatePaths

def perform (s : StatePaths) : Command → Except Str StatePaths
  | .enable name => (fun m => { s with enabled := m }) <$> State.enable name s.enabled
  | .disable name => (fun m => { s with enabled := m }) <$> State.disable name s.enabled
  | .mask name => (fun m => { s with masked := m }) <$> State.mask name s.masked
  | .unmask name => (fun m => { s with masked := m }) <$> State.unmask name s.masked

/-- The commands of a run that succeed, and what they leave. -/
def run (s : StatePaths) : List Command → List Command × StatePaths
  | [] => ([], s)
  | c :: cs =>
    match s.perform c with
    | .ok s' => (c :: (run s' cs).1, (run s' cs).2)
    | .error _ => run s cs

end StatePaths

def Command.enabling (name : Str) : Command → Option Bool
  | .enable n => if nativeServiceName n = nativeServiceName name then some true else none
  | .disable n => if nativeServiceName n = nativeServiceName name then some false else none
  | .mask _ | .unmask _ => none

def Command.masking (name : Str) : Command → Option Bool
  | .mask n => if nativeServiceName n = nativeServiceName name then some true else none
  | .unmask n => if nativeServiceName n = nativeServiceName name then some false else none
  | .enable _ | .disable _ => none

/-- The last thing that commands say. -/
def last (f : Command → Option Bool) : List Command → Option Bool
  | [] => none
  | c :: cs => (last f cs).or (f c)

section

variable {label name n x : Str} {m m' : Markers} {s s' : StatePaths} {c : Command}

theorem lookup_directory (h : x ∈ [[], ['.'], ['.', '.']]) : lookup m x = some .directory :=
  if_pos h

/-- What becomes of one marker shows at its name alone. -/
theorem lookup_changed {o : Option Marker} (hn : lookup m n ≠ some .directory)
    (hself : m'.get n = o) (hother : ∀ x, x ≠ n → m'.get x = m.get x) (x : Str) :
    lookup m' x = if x = n then o else lookup m x := by
  by_cases hx : x = n
  · subst hx
    have hplain : x ∉ [[], ['.'], ['.', '.']] := fun hspecial => hn (lookup_directory hspecial)
    rw [if_pos rfl, lookup, if_neg hplain, hself]
  · rw [if_neg hx, lookup, lookup, hother x hx]

theorem validateServiceName_ok : validateServiceName name = .ok () ↔
    name ∉ [[], ['.'], ['.', '.']] ∧
      ∀ c ∈ name, c ≠ '/' ∧ c.toNat ≠ 0 ∧ isWhitespace c = false := by
  unfold validateServiceName
  split_ifs with h
  · refine iff_of_false (by simp) ?_
    rintro ⟨hspecial, hall⟩
    simp only [List.mem_cons, List.not_mem_nil, or_false, not_or] at hspecial
    obtain h | h | h | h | h := h
    · exact hspecial.1 h
    · exact hspecial.2.1 h
    · exact hspecial.2.2 h
    · exact (hall _ h).1 rfl
    · obtain ⟨c, hc, hbad⟩ := List.any_eq_true.mp h
      have hgood := (hall c hc).2
      simp [hgood.1, hgood.2] at hbad
  · simp only [not_or] at h
    refine iff_of_true rfl ⟨by simp [h.1, h.2.1, h.2.2.1], fun c hc => ?_⟩
    refine ⟨fun he => h.2.2.2.1 (he ▸ hc), ?_⟩
    have hgood : ¬ (decide (c.toNat = 0) || isWhitespace c) = true := fun hbad =>
      h.2.2.2.2 (List.any_eq_true.mpr ⟨c, hc, hbad⟩)
    simpa using hgood

theorem nativeServiceName_cases (name : Str) :
    name = nativeServiceName name ∨ name = nativeServiceName name ++ svcSuffix := by
  unfold nativeServiceName
  cases h : removeSuffix svcSuffix name with
  | none => exact .inl rfl
  | some stem => exact .inr (removeSuffix_some.mp h)

theorem nativeServiceName_append (x : Str) : nativeServiceName (x ++ svcSuffix) = x := by
  rw [nativeServiceName, removeSuffix_append]
  rfl

theorem mem_of_mem_native {c : Char} (h : c ∈ nativeServiceName name) : c ∈ name := by
  obtain he | he := nativeServiceName_cases name
  · rwa [he]
  · rw [he]
    exact List.mem_append_left _ h

theorem valid_of_native (hplain : nativeServiceName name ∉ [[], ['.'], ['.', '.']])
    (hall : ∀ c ∈ nativeServiceName name, c ≠ '/' ∧ c.toNat ≠ 0 ∧ isWhitespace c = false) :
    validateServiceName name = .ok () := by
  have hsuffix : ∀ c ∈ svcSuffix, c ≠ '/' ∧ c.toNat ≠ 0 ∧ isWhitespace c = false :=
    forall_of_all (by decide)
  refine validateServiceName_ok.mpr ⟨fun hspecial => hplain ?_, fun c hc => ?_⟩
  · have hnative : ∀ y ∈ [[], ['.'], ['.', '.']], nativeServiceName y = y := by decide
    rwa [hnative name hspecial]
  · obtain he | he := nativeServiceName_cases name
    · rw [he] at hc
      exact hall c hc
    · rw [he, List.mem_append] at hc
      exact hc.elim (hall c) (hsuffix c)

theorem plain_of_lookup (h : lookup m x ≠ some .directory) : x ∉ [[], ['.'], ['.', '.']] :=
  fun hspecial => h (lookup_directory hspecial)

theorem valid_of_same (hvalid : validateServiceName n = .ok ())
    (hplain : lookup m (nativeServiceName n) ≠ some .directory)
    (hsame : nativeServiceName n = nativeServiceName name) : validateServiceName name = .ok () := by
  have hgood := (validateServiceName_ok.mp hvalid).2
  apply valid_of_native
  · rw [← hsame]
    exact plain_of_lookup hplain
  · intro c hc
    rw [← hsame] at hc
    exact hgood c (mem_of_mem_native hc)

theorem mark_ok (h : mark label n m = .ok m') :
    validateServiceName n = .ok () ∧ lookup m (nativeServiceName n) ≠ some .directory ∧
      ∀ x, lookup m' x = if x = nativeServiceName n then some .file else lookup m x := by
  obtain ⟨u, hvalid, h⟩ := bind_eq_ok.mp h
  cases hk : lookup m (nativeServiceName n) with
  | none =>
    simp only [hk, pure_eq_ok] at h
    subst h
    refine ⟨hvalid, by simp, lookup_changed (by simp [hk]) (get_insert_self ..) fun x hx => get_insert_of_ne _ hx _⟩
  | some k =>
    cases k with
    | file =>
      simp only [hk, pure_eq_ok] at h
      subst h
      refine ⟨hvalid, by simp, fun x => ?_⟩
      by_cases hx : x = nativeServiceName n
      · rw [if_pos hx, hx, hk]
      · rw [if_neg hx]
    | symlink => simp only [hk, throw_ne_ok] at h
    | directory => simp only [hk, throw_ne_ok] at h

theorem disable_ok (h : disable n m = .ok m') :
    validateServiceName n = .ok () ∧ lookup m (nativeServiceName n) ≠ some .directory ∧
      ∀ x, lookup m' x = if x = nativeServiceName n then none else lookup m x := by
  obtain ⟨u, hvalid, h⟩ := bind_eq_ok.mp h
  rw [serviceNameCandidates, List.foldlM_cons] at h
  obtain ⟨_, h, hend⟩ := bind_eq_ok.mp h
  cases hend
  unfold removeMarker at h
  cases hk : lookup m (nativeServiceName n) with
  | none =>
    rw [hk] at h
    cases h
    refine ⟨hvalid, by simp, fun x => ?_⟩
    by_cases hx : x = nativeServiceName n
    · rw [if_pos hx, hx, hk]
    · rw [if_neg hx]
  | some k =>
    have hplain : k ≠ .directory → lookup m (nativeServiceName n) ≠ some .directory := by
      rw [hk]
      exact fun hne he => hne (Option.some.inj he)
    cases k with
    | file =>
      rw [hk] at h
      cases h
      exact ⟨hvalid, by simp, lookup_changed (hplain (by simp)) (by rw [get_erase, if_pos rfl])
        fun x hx => by rw [get_erase, if_neg hx]⟩
    | symlink =>
      rw [hk] at h
      cases h
      exact ⟨hvalid, by simp, lookup_changed (hplain (by simp)) (by rw [get_erase, if_pos rfl])
        fun x hx => by rw [get_erase, if_neg hx]⟩
    | directory =>
      rw [hk] at h
      cases h

theorem isMarked_congr (h : lookup m' (nativeServiceName name) = lookup m (nativeServiceName name)) :
    isMarked label name m' = isMarked label name m := by
  simp only [isMarked, serviceNameCandidates, marked, h]

theorem isMarked_file (hvalid : validateServiceName name = .ok ())
    (h : lookup m (nativeServiceName name) = some .file) : isMarked label name m = .ok true := by
  simp only [isMarked, hvalid, serviceNameCandidates, marked, h]
  rfl

theorem isMarked_none (hvalid : validateServiceName name = .ok ())
    (h : lookup m (nativeServiceName name) = none) : isMarked label name m = .ok false := by
  simp only [isMarked, hvalid, serviceNameCandidates, marked, h]
  rfl

theorem isMarked_ok (h : isMarked label name m = .ok true) :
    validateServiceName name = .ok () ∧ lookup m (nativeServiceName name) = some .file := by
  obtain ⟨u, hvalid, h⟩ := bind_eq_ok.mp h
  refine ⟨hvalid, ?_⟩
  simp only [serviceNameCandidates, marked] at h
  cases hk : lookup m (nativeServiceName name) with
  | none => simp [hk] at h
  | some k => cases k <;> simp_all

theorem isMarked_changed {b : Bool} (hvalid : validateServiceName n = .ok ())
    (hplain : lookup m (nativeServiceName n) ≠ some .directory)
    (h : ∀ x, lookup m' x =
      if x = nativeServiceName n then if b then some .file else none else lookup m x) :
    isMarked label name m' =
      ((if nativeServiceName n = nativeServiceName name then some b else none).map .ok).getD
        (isMarked label name m) := by
  by_cases hsame : nativeServiceName n = nativeServiceName name
  · have hname := valid_of_same hvalid hplain hsame
    have hlookup := h (nativeServiceName name)
    rw [if_pos hsame.symm] at hlookup
    rw [if_pos hsame]
    cases b with
    | true => exact isMarked_file hname hlookup
    | false => exact isMarked_none hname hlookup
  · have hlookup := h (nativeServiceName name)
    rw [if_neg (Ne.symm hsame)] at hlookup
    rw [if_neg hsame]
    exact isMarked_congr hlookup

theorem perform_enabling (h : s.perform c = .ok s') :
    isEnabled name s'.enabled = ((c.enabling name).map .ok).getD (isEnabled name s.enabled) := by
  cases c with
  | enable n =>
    obtain ⟨m, hm, rfl⟩ := map_eq_ok.mp h
    rw [enable_eq] at hm
    obtain ⟨hvalid, hplain, hlookup⟩ := mark_ok hm
    exact isMarked_changed hvalid hplain hlookup
  | disable n =>
    obtain ⟨m, hm, rfl⟩ := map_eq_ok.mp h
    obtain ⟨hvalid, hplain, hlookup⟩ := disable_ok hm
    exact isMarked_changed hvalid hplain hlookup
  | mask n | unmask n =>
    obtain ⟨m, hm, rfl⟩ := map_eq_ok.mp h
    rfl

theorem perform_masking (h : s.perform c = .ok s') :
    isMasked name s'.masked = ((c.masking name).map .ok).getD (isMasked name s.masked) := by
  cases c with
  | mask n =>
    obtain ⟨m, hm, rfl⟩ := map_eq_ok.mp h
    obtain ⟨hvalid, hplain, hlookup⟩ := mark_ok hm
    exact isMarked_changed hvalid hplain hlookup
  | unmask n =>
    obtain ⟨m, hm, rfl⟩ := map_eq_ok.mp h
    obtain ⟨hvalid, hplain, hlookup⟩ := disable_ok hm
    exact isMarked_changed hvalid hplain hlookup
  | enable n | disable n =>
    obtain ⟨m, hm, rfl⟩ := map_eq_ok.mp h
    rfl

/-- A query that each command answers or leaves is answered by the last of a run that
answers it. -/
theorem run_last {f : Command → Option Bool} {q : StatePaths → Except Str Bool}
    (hstep : ∀ c s s', s.perform c = .ok s' → q s' = ((f c).map .ok).getD (q s))
    (s : StatePaths) (cs : List Command) :
    q (s.run cs).2 = ((last f (s.run cs).1).map .ok).getD (q s) := by
  induction cs generalizing s with
  | nil => rfl
  | cons c cs ih =>
    rw [StatePaths.run]
    cases h : s.perform c with
    | error e => exact ih s
    | ok s' =>
      simp only [last]
      rw [ih, hstep c s s' h]
      cases last f (s'.run cs).1 <;> rfl

theorem mem_enabledNames : x ∈ enabledNames m ↔
    m.get x = some .file ∧ validateServiceName x = .ok () := by
  simp only [enabledNames, List.mem_map, List.mem_filter, Bool.and_eq_true, decide_eq_true_eq]
  constructor
  · rintro ⟨⟨y, k⟩, ⟨hmem, rfl, hvalid⟩, rfl⟩
    refine ⟨get_eq_some.mpr hmem, ?_⟩
    cases h : validateServiceName y with
    | ok u => rfl
    | error e => simp [h, Except.isOk, Except.toBool] at hvalid
  · rintro ⟨hget, hvalid⟩
    refine ⟨(x, .file), ⟨get_eq_some.mp hget, rfl, ?_⟩, rfl⟩
    rw [hvalid]
    rfl

theorem mem_enabledNames_iff : x ∈ enabledNames m ↔
    ∃ name, nativeServiceName name = x ∧ isEnabled name m = .ok true := by
  rw [mem_enabledNames]
  constructor
  · rintro ⟨hget, hvalid⟩
    obtain ⟨hplain, hall⟩ := validateServiceName_ok.mp hvalid
    have hnative := nativeServiceName_append x
    refine ⟨x ++ svcSuffix, hnative, isMarked_file (valid_of_native ?_ ?_) ?_⟩
    · rwa [hnative]
    · rwa [hnative]
    · rw [hnative, lookup, if_neg hplain, hget]
  · rintro ⟨name, rfl, h⟩
    obtain ⟨hvalid, hlookup⟩ := isMarked_ok h
    have hplain := plain_of_lookup (m := m) (x := nativeServiceName name) (by simp [hlookup])
    rw [lookup, if_neg hplain] at hlookup
    refine ⟨hlookup, validateServiceName_ok.mpr ⟨hplain, fun c hc => ?_⟩⟩
    exact (validateServiceName_ok.mp hvalid).2 c (mem_of_mem_native hc)

theorem isEnabled_empty (name : Str) : isEnabled name empty ≠ .ok true := by
  intro h
  obtain ⟨-, hlookup⟩ := isMarked_ok h
  rw [lookup] at hlookup
  split_ifs at hlookup
  · cases hlookup
  · cases hlookup

theorem enabledNames_sorted (m : Markers) : (enabledNames m).Pairwise (· < ·) :=
  List.pairwise_map.mpr (m.sorted.filter _)

end

/-- After any run a query is answered by the last command for the service that succeeded, under
whichever of its names, and as before by none. -/
theorem run_answers (s : StatePaths) (cs : List Command) (name : Str) :
    isEnabled name (s.run cs).2.enabled =
        ((last (Command.enabling name) (s.run cs).1).map .ok).getD (isEnabled name s.enabled) ∧
      isMasked name (s.run cs).2.masked =
        ((last (Command.masking name) (s.run cs).1).map .ok).getD (isMasked name s.masked) := by
  constructor
  · exact run_last (q := fun s => isEnabled name s.enabled) (fun _ _ _ => perform_enabling) s cs
  · exact run_last (q := fun s => isMasked name s.masked) (fun _ _ _ => perform_masking) s cs

/-- After a run from empty directories the listing has each service once, in order: those whose
last command that succeeded enabled them. -/
theorem run_lists (cs : List Command) :
    (enabledNames (StatePaths.run ⟨empty, empty⟩ cs).2.enabled).Pairwise (· < ·) ∧
      ∀ x, x ∈ enabledNames (StatePaths.run ⟨empty, empty⟩ cs).2.enabled ↔
        ∃ name, nativeServiceName name = x ∧
          last (Command.enabling name) (StatePaths.run ⟨empty, empty⟩ cs).1 = some true := by
  refine ⟨enabledNames_sorted _, fun x => ?_⟩
  rw [mem_enabledNames_iff]
  refine exists_congr fun name => and_congr_right fun _ => ?_
  have hlast := run_last (q := fun s => isEnabled name s.enabled) (fun _ _ _ => perform_enabling)
    ⟨empty, empty⟩ cs
  rw [hlast]
  cases h : last (Command.enabling name) (StatePaths.run ⟨empty, empty⟩ cs).1 with
  | none => simpa using isEnabled_empty name
  | some b => simp

end FractalD.Control.State
