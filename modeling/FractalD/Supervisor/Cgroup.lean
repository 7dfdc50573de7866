import FractalD.Machine.Delimited
import FractalD.Machine.FileTree
import FractalD.Machine.Result
import FractalD.Machine.Wire
import FractalD.Supervisor.Expansion

namespace FractalD.Supervisor.Cgroup

open FractalD.Core.Spec FractalD.Machine.CString FractalD.Machine.Delimited
open FractalD.Machine.FileTree FractalD.Machine.Result FractalD.Machine.Text FractalD.Machine.Wire
open FractalD.Supervisor.Expansion

def sliceSuffix : Str := ".slice".toList

def rootSlice : Str := "-.slice".toList

/-- A service with the slice that it is placed in. -/
structure CgroupSpec extends ServiceSpec where
  cgroupSlice : Option Str := none

def unreadable (s : Str) : Bool := s.any fun c => isWhitespace c || isControl c

def validSliceName (value : Str) : Bool :=
  value = rootSlice || ((removeSuffix sliceSuffix value).any (· ≠ []) && '/' ∉ value &&
    Char.ofNat 0 ∉ value && !unreadable value)

/-- `ServiceSpec::validate` accepts a service, its slice included. -/
def CgroupSpec.Accepted (spec : CgroupSpec) : Prop :=
  spec.toServiceSpec.validate = .ok () ∧ spec.cgroupSlice.all validSliceName

instance : DecidablePred CgroupSpec.Accepted := fun _ => inferInstanceAs (Decidable (_ ∧ _))

/-- `PathBuf::push`. -/
def push (path : Path) (text : Str) : Path := path.join (Path.parse text)

/-- One part of a slice: a directory below that of the part before it. -/
def pushComponent (slice : Str) (s : Path × Str) (component : Str × Nat) :
    Except Str (Path × Str) :=
  if component.1 = [] || '/' ∈ component.1 || unreadable component.1 then
    .error ("invalid expanded Slice=".toList ++ slice)
  else
    let current := s.2 ++ (if component.2 ≠ 0 then ['-'] else []) ++ component.1
    .ok (push s.1 (current ++ sliceSuffix), current)

def pushSlice (slice : Str) (path : Path) : Except Str Path :=
  if slice = rootSlice then .ok path
  else
    match (removeSuffix sliceSuffix slice).filter (· ≠ []) with
    | none => .error ("invalid expanded Slice=".toList ++ slice)
    | some stem => (·.1) <$> (stem.splitOn '-').zipIdx.foldlM (pushComponent slice) (path, [])

def serviceCgroupPath (around : Surroundings) (managedRoot : Path) (spec : CgroupSpec) :
    Except Str Path :=
  (push · spec.name) <$>
    match spec.cgroupSlice with
    | none => .ok managedRoot
    | some slice => pushSlice (expandSpecifiers around slice spec.toServiceSpec) managedRoot

def parts (around : Surroundings) (spec : CgroupSpec) : List Str :=
  match spec.cgroupSlice.map (expandSpecifiers around · spec.toServiceSpec) with
  | none => []
  | some slice =>
    if slice = rootSlice then [] else ((removeSuffix sliceSuffix slice).getD []).splitOn '-'

/-- The name of the slice that some parts make up. -/
def sliceName (components : List Str) : Str := join ['-'] components ++ sliceSuffix

def sliceNames (components : List Str) : List Str :=
  (List.range components.length).map fun k => sliceName (components.take (k + 1))

/-- A service is named like the slice that another one is placed in, next to it. -/
def Clash (around : Surroundings) (a b : CgroupSpec) : Prop :=
  ∃ k < (parts around b).length,
    parts around a = (parts around b).take k ∧ a.name = sliceName ((parts around b).take (k + 1))

instance (around : Surroundings) (a b : CgroupSpec) : Decidable (Clash around a b) :=
  inferInstanceAs (Decidable (∃ k, k < (parts around b).length ∧ _))

/-- A path is another one, or a directory above it. -/
def Leads (p q : Path) : Prop := p.absolute = q.absolute ∧ p.components <+: q.components

instance (p q : Path) : Decidable (Leads p q) := inferInstanceAs (Decidable (_ ∧ _))

def Below (root p : Path) : Prop :=
  p.absolute = root.absolute ∧ ∃ names : List Name, names ≠ [] ∧
    p.components = root.components ++ names.map .name

section

variable {components : List Str} {c : Str}

theorem sliceNames_concat :
    sliceNames (components ++ [c]) = sliceNames components ++ [sliceName (components ++ [c])] := by
  rw [sliceNames, List.length_append, List.length_singleton, List.range_succ, List.map_append,
    List.map_singleton, List.take_of_length_le (by simp), sliceNames]
  congr 1
  apply List.map_congr_left
  intro k hk
  rw [List.take_append_of_le_length (List.mem_range.mp hk)]

theorem take_sliceNames (k : Nat) : (sliceNames components).take k = sliceNames (components.take k) := by
  rw [sliceNames, sliceNames, ← List.map_take, List.take_range, List.length_take]
  apply List.map_congr_left
  intro i hi
  have hik := List.mem_range.mp hi
  rw [List.take_take, Nat.min_eq_left (by omega)]

@[simp]
theorem length_sliceNames : (sliceNames components).length = components.length := by
  rw [sliceNames, List.length_map, List.length_range]

theorem take_succ_sliceNames {k : Nat} (hk : k < components.length) :
    (sliceNames components).take (k + 1) =
      sliceNames (components.take k) ++ [sliceName (components.take (k + 1))] := by
  rw [take_sliceNames, List.take_succ_eq_append_getElem hk, sliceNames_concat]

theorem sliceNames_inj {other : List Str} (h : ∀ part ∈ components, '-' ∉ part)
    (ho : ∀ part ∈ other, '-' ∉ part) (he : sliceNames components = sliceNames other) :
    components = other := by
  obtain rfl | ⟨l, c, rfl⟩ := components.eq_nil_or_concat'
  · cases other with
    | nil => rfl
    | cons part other => simp [sliceNames] at he
  · obtain rfl | ⟨m, d, rfl⟩ := other.eq_nil_or_concat'
    · simp [sliceNames] at he
    · rw [sliceNames_concat, sliceNames_concat] at he
      have hlast := (List.append_inj' he rfl).2
      rw [List.cons.injEq, sliceName, sliceName, List.append_cancel_right_eq] at hlast
      rw [← List.splitOn_intercalate '-' h (by simp), ← List.splitOn_intercalate '-' ho (by simp)]
      exact congrArg (List.splitOn '-') hlast.1

theorem parts_plain {around : Surroundings} {spec : CgroupSpec} :
    ∀ part ∈ parts around spec, '-' ∉ part := by
  intro part hpart
  rw [parts] at hpart
  split at hpart
  · exact absurd hpart List.not_mem_nil
  · split at hpart
    · exact absurd hpart List.not_mem_nil
    · exact not_mem_splitOn hpart

/-- One service is placed below another one when the other is named like a directory of its
slice. -/
theorem clash_iff {around : Surroundings} {a b : CgroupSpec} (h : a.name ≠ b.name) :
    sliceNames (parts around a) ++ [a.name] <+: sliceNames (parts around b) ++ [b.name] ↔
      Clash around a b := by
  rw [List.prefix_concat_iff, or_iff_right]
  · constructor
    · intro hp
      have hk : (parts around a).length < (parts around b).length := by
        have hle := hp.length_le
        rwa [List.length_append, length_sliceNames, length_sliceNames] at hle
      have htake := List.prefix_iff_eq_take.mp hp
      rw [List.length_append, length_sliceNames, List.length_singleton,
        take_succ_sliceNames hk] at htake
      obtain ⟨hparts, hname⟩ := List.append_inj' htake rfl
      exact ⟨_, hk, sliceNames_inj parts_plain
        (fun part hpart => parts_plain part (List.mem_of_mem_take hpart)) hparts,
        (List.cons.inj hname).1⟩
    · rintro ⟨k, hk, hparts, hname⟩
      rw [hparts, hname, ← take_succ_sliceNames hk]
      exact List.take_prefix _ _
  · intro he
    exact h (List.cons.inj (List.append_inj' he rfl).2).1

end

section

/-- The path of what is reached by the names of entries. -/
def descend (path : Path) (names : List Name) : Path := names.foldl Path.child path

variable {path : Path} {n : Name} {names : List Name}

theorem descend_concat : descend path (names ++ [n]) = (descend path names).child n := by
  rw [descend, List.foldl_append]
  rfl

theorem descend_components :
    (descend path names).absolute = path.absolute ∧
      (descend path names).components = path.components ++ names.map .name := by
  induction names generalizing path with
  | nil => exact ⟨rfl, (List.append_nil _).symm⟩
  | cons n names ih =>
    obtain ⟨habsolute, hcomponents⟩ := @ih (path.child n)
    refine ⟨habsolute, hcomponents.trans ?_⟩
    have hchild : (path.child n).components = path.components ++ [.name n] := by
      cases hs : path.segments with
      | nil => simp [Path.components, Path.child, hs]
      | cons s rest => simp [Path.components, Path.child, hs, List.filter_append]
    rw [hchild, List.append_assoc]
    rfl

theorem below_descend (h : names ≠ []) : Below path (descend path names) :=
  ⟨descend_components.1, names, h, descend_components.2⟩

theorem leads_descend {other : List Name} :
    Leads (descend path names) (descend path other) ↔
      names.map Name.text <+: other.map Name.text := by
  have hinj : Function.Injective Name.text := by
    rintro ⟨_, _⟩ ⟨_, _⟩ rfl
    rfl
  have hname : Function.Injective Segment.name := fun _ _ h => Segment.name.inj h
  rw [Leads, descend_components.1, descend_components.1, descend_components.2,
    descend_components.2, and_iff_right rfl, List.prefix_append_right_inj,
    List.prefix_map_iff_of_injective hname, List.prefix_map_iff_of_injective hinj]

theorem push_name (path : Path) (n : Name) : push path n.text = path.child n := by
  obtain ⟨text, hne, hdot, hup, hslash⟩ := n
  have hsplit : text.splitOn '/' = [text] := by
    rw [List.splitOn_eq_splitOnP]
    exact List.splitOnP_eq_singleton fun c hc => by
      rw [beq_eq_false_iff_ne]
      rintro rfl
      exact hslash hc
  have hhead : text.head? ≠ some '/' := fun h => hslash (List.mem_of_mem_head? h)
  have hlast : text.getLast? ≠ some '/' := fun h => hslash (List.mem_of_getLast? h)
  have hparse : Path.parse text = ⟨false, [.name ⟨text, hne, hdot, hup, hslash⟩], false⟩ := by
    simp [Path.parse, hsplit, Segment.parse, hne, hdot, hup, hslash, hhead, hlast]
  rw [push, hparse]
  rfl

end

section

variable {slice : Str} {path : Path} {components : List Str}

theorem sliceName_name (h : '/' ∉ join ['-'] components) :
    ∃ n : Name, n.text = sliceName components := by
  refine ⟨⟨sliceName components, ?_, ?_, ?_, ?_⟩, rfl⟩
  · simp [sliceName, sliceSuffix]
  · intro he
    have hlength := congrArg List.length he
    simp [sliceName, sliceSuffix] at hlength
  · intro he
    have hlength := congrArg List.length he
    simp [sliceName, sliceSuffix] at hlength
  · rw [sliceName, List.mem_append, not_or]
    exact ⟨h, by decide⟩

theorem pushComponents_ok {r : Path × Str}
    (h : components.zipIdx.foldlM (pushComponent slice) (path, []) = .ok r) :
    (∃ names : List Name, names.map Name.text = sliceNames components ∧ r.1 = descend path names) ∧
      r.2 = join ['-'] components ∧ '/' ∉ r.2 := by
  induction components using List.reverseRecOn generalizing r with
  | nil =>
    cases h
    exact ⟨⟨[], rfl, rfl⟩, rfl, List.not_mem_nil⟩
  | append_singleton components c ih =>
    rw [List.zipIdx_append, List.foldlM_append, bind_eq_ok] at h
    obtain ⟨⟨reached, current⟩, hdone, hlast⟩ := h
    obtain ⟨⟨names, hnames, rfl⟩, rfl, hslash⟩ := ih hdone
    rw [Nat.zero_add, List.zipIdx_singleton, List.foldlM_cons, bind_eq_ok] at hlast
    obtain ⟨s, hs, ⟨⟩⟩ := hlast
    rw [pushComponent] at hs
    split at hs
    · cases hs
    · next hplain =>
      cases hs
      rw [← join_concat]
      have hc : '/' ∉ join ['-'] (components ++ [c]) := by
        rw [mem_join (by decide)]
        rintro ⟨part, hpart, hin⟩
        obtain hpart | hpart := List.mem_append.mp hpart
        · exact hslash ((mem_join (by decide)).mpr ⟨part, hpart, hin⟩)
        · rw [List.mem_singleton.mp hpart] at hin
          simp [hin] at hplain
      obtain ⟨n, hn⟩ := sliceName_name hc
      rw [sliceNames_concat, ← hnames, ← hn, ← sliceName, ← hn, push_name, ← descend_concat]
      exact ⟨⟨names ++ [n], List.map_append, rfl⟩, rfl, hc⟩

theorem name_of_validate {spec : ServiceSpec} (h : spec.validate = .ok ()) :
    ∃ n : Name, n.text = spec.name := by
  have htrim : trim spec.name ≠ [] := by
    intro he
    simp only [ServiceSpec.validate, he] at h
    cases h
  have husable : unusableName spec.name = false := by
    by_contra hu
    simp only [ServiceSpec.validate, if_neg htrim, if_pos (Bool.not_eq_false _ ▸ hu)] at h
    cases h
  simp only [unusableName, Bool.or_eq_false_iff, decide_eq_false_iff_not] at husable
  obtain ⟨⟨⟨-, hslash⟩, hdot⟩, hup⟩ := husable
  refine ⟨⟨spec.name, ?_, hdot, hup, hslash⟩, rfl⟩
  intro he
  rw [he] at htrim
  exact htrim rfl

theorem pushSlice_ok {r : Path} (h : pushSlice slice path = .ok r) :
    ∃ names : List Name, r = descend path names ∧ names.map Name.text = sliceNames
      (if slice = rootSlice then [] else ((removeSuffix sliceSuffix slice).getD []).splitOn '-') := by
  rw [pushSlice] at h
  split at h
  · next hroot =>
    cases h
    exact ⟨[], rfl, by rw [if_pos hroot]; rfl⟩
  · next hroot =>
    rw [if_neg hroot]
    split at h
    · cases h
    · next stem hstem =>
      obtain ⟨s, hs, rfl⟩ := map_eq_ok.mp h
      obtain ⟨⟨names, hnames, hr⟩, -⟩ := pushComponents_ok hs
      rw [(Option.filter_eq_some_iff.mp hstem).1]
      exact ⟨names, hr, hnames⟩

theorem serviceCgroupPath_ok {around : Surroundings} {root p : Path} {spec : CgroupSpec}
    (hspec : spec.Accepted) (h : serviceCgroupPath around root spec = .ok p) :
    ∃ names : List Name, p = descend root names ∧
      names.map Name.text = sliceNames (parts around spec) ++ [spec.name] := by
  obtain ⟨n, hn⟩ := name_of_validate hspec.1
  obtain ⟨reached, hreached, rfl⟩ := map_eq_ok.mp h
  obtain ⟨names, rfl, hnames⟩ : ∃ names : List Name, reached = descend root names ∧
      names.map Name.text = sliceNames (parts around spec) := by
    rw [parts]
    cases hslice : spec.cgroupSlice with
    | none =>
      rw [hslice] at hreached
      cases hreached
      exact ⟨[], rfl, rfl⟩
    | some slice =>
      rw [hslice] at hreached
      exact pushSlice_ok hreached
  refine ⟨names ++ [n], ?_, ?_⟩
  · rw [descend_concat, ← hn, push_name]
  · rw [List.map_append, hnames, List.map_singleton, hn]

variable {around : Surroundings} {root p q : Path} {a b : CgroupSpec}

/-- The cgroups of two services are separate exactly where neither is named like a slice that
the other is placed in. -/
theorem separate_iff (ha : a.Accepted) (hb : b.Accepted) (hne : a.name ≠ b.name)
    (hp : serviceCgroupPath around root a = .ok p) (hq : serviceCgroupPath around root b = .ok q) :
    (Below root p ∧ Below root q ∧ ¬ Leads p q ∧ ¬ Leads q p) ↔
      ¬ Clash around a b ∧ ¬ Clash around b a := by
  obtain ⟨names, rfl, hnames⟩ := serviceCgroupPath_ok ha hp
  obtain ⟨other, rfl, hother⟩ := serviceCgroupPath_ok hb hq
  have hbelow {names : List Name} {l : List Str} {name : Str}
      (h : names.map Name.text = l ++ [name]) : Below root (descend root names) := by
    apply below_descend
    rintro rfl
    simp at h
  rw [and_iff_right (hbelow hnames), and_iff_right (hbelow hother), leads_descend, leads_descend,
    hnames, hother, clash_iff hne, clash_iff (Ne.symm hne)]

def placed (name : String) (slice : Option String) : CgroupSpec :=
  { name := name.toList, program := "/bin/serve".toList, cgroupSlice := slice.map String.toList }

def nowhere : Surroundings := ⟨fun _ => none, 0, fun _ => none⟩

def managed : Path := Path.parse "/sys/fs/cgroup/fractald".toList

/-- A nested slice does not meet the service in the slice around it. -/
theorem separate_iff_nested :
    Below managed (Path.parse "/sys/fs/cgroup/fractald/app.slice/web".toList) ∧
      Below managed (Path.parse "/sys/fs/cgroup/fractald/app.slice/app-data.slice/db".toList) ∧
      ¬ Leads (Path.parse "/sys/fs/cgroup/fractald/app.slice/web".toList)
        (Path.parse "/sys/fs/cgroup/fractald/app.slice/app-data.slice/db".toList) ∧
      ¬ Leads (Path.parse "/sys/fs/cgroup/fractald/app.slice/app-data.slice/db".toList)
        (Path.parse "/sys/fs/cgroup/fractald/app.slice/web".toList) :=
  (@separate_iff nowhere _ _ _ (placed "web" (some "app.slice"))
    (placed "db" (some "app-data.slice")) (by decide +kernel) (by decide +kernel) (by decide)
    (by decide +kernel) (by decide +kernel)).mpr (by decide +kernel)

/-- A service is named like the slice of another one. -/
theorem sliceNamed_leads :
    (placed "app.slice" none).Accepted ∧ (placed "web" (some "app.slice")).Accepted ∧
      serviceCgroupPath nowhere managed (placed "app.slice" none) =
        .ok (Path.parse "/sys/fs/cgroup/fractald/app.slice".toList) ∧
      serviceCgroupPath nowhere managed (placed "web" (some "app.slice")) =
        .ok (Path.parse "/sys/fs/cgroup/fractald/app.slice/web".toList) ∧
      Leads (Path.parse "/sys/fs/cgroup/fractald/app.slice".toList)
        (Path.parse "/sys/fs/cgroup/fractald/app.slice/web".toList) := by
  decide +kernel

end

end FractalD.Supervisor.Cgroup
