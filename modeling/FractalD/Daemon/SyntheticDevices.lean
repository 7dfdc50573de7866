import FractalD.Daemon.Reaching
import FractalD.Manager.Replacement

namespace FractalD.Daemon.SyntheticDevices

open FractalD.Control.State (Markers)
open FractalD.Core.Spec FractalD.Daemon.Discovery FractalD.Daemon.Loading FractalD.Daemon.Reaching
open FractalD.Daemon.Reload FractalD.Machine.CString FractalD.Machine.OrderedMap
open FractalD.Machine.Result FractalD.Machine.Text FractalD.Manager.Naming
open FractalD.Manager.Registration FractalD.Manager.Registry FractalD.Manager.Replacement
open FractalD.Manager.Resolution FractalD.Manager.Survival FractalD.Packages.Sync
open FractalD.Supervisor.System

def deviceNames (spec : ServiceSpec) : List Str :=
  (dependencyNames spec).filter ("device-".toList.isPrefixOf ·)

def nativeDeviceDependencies (spec : ServiceSpec) (known : BTreeSet Str) : List Str :=
  (deviceNames spec).filter (!known.contains ·)

/-- The services so far, and their names. -/
structure Devices where
  specs : List ServiceSpec
  known : BTreeSet Str

def Devices.of (specs : List ServiceSpec) : Devices := ⟨specs, ofList (specs.map (·.name))⟩

section

variable (load : Str → Except Str (Option ServiceSpec))

def loadDevice (devices : Devices) (dependency : Str) : Except Str Devices := do
  match ← load dependency with
  | some device => pure ⟨devices.specs ++ [device], devices.known.add device.name⟩
  | none => pure devices

def loadDevices (devices : Devices) (spec : ServiceSpec) : Except Str Devices :=
  (nativeDeviceDependencies spec devices.known).foldlM (loadDevice load) devices

/-- The loop from an index on, if it ends within so many turns. -/
def appendFrom : Nat → Nat → Devices → Except Str (Option (List ServiceSpec))
  | turns, index, devices =>
    match devices.specs[index]? with
    | none => pure (some devices.specs)
    | some spec =>
      match turns with
      | 0 => pure none
      | turns + 1 => do appendFrom turns (index + 1) (← loadDevices load devices spec)

def appendSyntheticDeviceSpecs (turns : Nat) (specs : List ServiceSpec) :
    Except Str (Option (List ServiceSpec)) :=
  appendFrom load turns 0 (.of specs)

def Returns (specs list : List ServiceSpec) : Prop :=
  ∃ turns, appendSyntheticDeviceSpecs load turns specs = .ok (some list)

/-- A service goes by a name, with or without the suffix. -/
def Goes (spec : ServiceSpec) (y : Str) : Prop := Stemmed spec y ∨ Stemmed spec (stem y)

/-- A name leads to one of the services, as `Supervisor::resolve_name` looks for it. -/
def Answered (specs : List ServiceSpec) (name : Str) : Prop :=
  ∃ spec ∈ specs, Goes spec name ∨ spec.name = stem name ++ svcSuffix

/-- No two services go by one name, and every device that one of them names is there. -/
structure Synthesized (list : List ServiceSpec) : Prop where
  separate : Separate Stemmed list
  answered : ∀ spec ∈ list, ∀ name ∈ deviceNames spec, Answered list name

variable (specs : List ServiceSpec)

/-- The services that are given, and those of the devices that they lead to. -/
inductive Involved : ServiceSpec → Prop
  | given {spec : ServiceSpec} (h : spec ∈ specs) : Involved spec
  | device {spec device : ServiceSpec} {name : Str} (h : Involved spec) (hname : name ∈ deviceNames spec)
      (hnew : ∀ other ∈ specs, other.name ≠ name) (hload : load name = .ok (some device)) :
      Involved device

/-- No device is spelled with the suffix of a descriptor. -/
def Unsuffixed : Prop :=
  ∀ spec, Involved load specs spec → ∀ name ∈ deviceNames spec, nativeServiceName name = name

/-- The services that are given and the devices they lead to go by different names, and each device
is given, has a service of its own or is a name of another one of them. -/
structure Distinct : Prop where
  given : Separate Stemmed specs
  apart : ∀ a b, Involved load specs a → Involved load specs b → a.name ≠ b.name →
    ∀ name, ¬ (Stemmed a name ∧ Stemmed b name)
  found : ∀ spec, Involved load specs spec → ∀ name ∈ deviceNames spec,
    (∃ other ∈ specs, other.name = name) ∨ (∃ device, load name = .ok (some device)) ∨
      load name = .ok none ∧ ∃ other, Involved load specs other ∧
        (Goes other name ∨ other.name = stem name ++ svcSuffix)

end

section

variable {load : Str → Except Str (Option ServiceSpec)} {specs list : List ServiceSpec}
  {devices after start : Devices} {spec : ServiceSpec} {name dependency : Str} {index turns : Nat}

theorem Answered.mono (h : Answered specs name) (hsub : specs ⊆ list) : Answered list name := by
  obtain ⟨spec, hspec, hname⟩ := h
  exact ⟨spec, hsub hspec, hname⟩

theorem loadDevice_ok : loadDevice load devices dependency = .ok after ↔
    (∃ device, load dependency = .ok (some device) ∧
      ⟨devices.specs ++ [device], devices.known.add device.name⟩ = after) ∨
    load dependency = .ok none ∧ devices = after := by
  rw [loadDevice, bind_eq_ok]
  constructor
  · rintro ⟨device, hload, h⟩
    cases device with
    | none => exact .inr ⟨hload, pure_eq_ok.mp h⟩
    | some device => exact .inl ⟨device, hload, pure_eq_ok.mp h⟩
  · rintro (⟨device, hload, h⟩ | ⟨hload, h⟩)
    · exact ⟨_, hload, pure_eq_ok.mpr h⟩
    · exact ⟨_, hload, pure_eq_ok.mpr h⟩

theorem specs_grow_device (h : loadDevice load devices dependency = .ok after) :
    devices.specs <+: after.specs := by
  obtain ⟨device, -, rfl⟩ | ⟨-, rfl⟩ := loadDevice_ok.mp h
  · exact List.prefix_append _ _
  · exact List.prefix_refl _

theorem specs_grow {dependencies : List Str}
    (h : dependencies.foldlM (loadDevice load) devices = .ok after) :
    devices.specs <+: after.specs := by
  induction dependencies generalizing devices with
  | nil =>
    cases h
    exact List.prefix_refl _
  | cons dependency dependencies ih =>
    rw [List.foldlM_cons] at h
    obtain ⟨mid, hmid, h⟩ := bind_eq_ok.mp h
    exact (specs_grow_device hmid).trans (ih h)

theorem appendFrom_turn (hspec : devices.specs[index]? = some spec) :
    appendFrom load turns index devices = .ok (some list) ↔
      ∃ fewer after, turns = fewer + 1 ∧ loadDevices load devices spec = .ok after ∧
        appendFrom load fewer (index + 1) after = .ok (some list) := by
  cases turns with
  | zero =>
    rw [appendFrom, hspec]
    constructor
    · intro h
      cases Except.ok.inj h
    · rintro ⟨fewer, after, hfewer, -⟩
      cases hfewer
  | succ fewer =>
    rw [appendFrom, hspec]
    refine bind_eq_ok.trans ⟨?_, ?_⟩
    · rintro ⟨after, hafter, h⟩
      exact ⟨fewer, after, rfl, hafter, h⟩
    · rintro ⟨_, after, hfewer, hafter, h⟩
      obtain rfl := Nat.succ.inj hfewer
      exact ⟨after, hafter, h⟩

theorem appendFrom_grows (h : appendFrom load turns index devices = .ok (some list)) :
    devices.specs <+: list := by
  induction turns generalizing index devices with
  | zero =>
    rw [appendFrom] at h
    split at h
    next => exact Option.some.inj (Except.ok.inj h) ▸ List.prefix_refl _
    next => cases h
  | succ turns ih =>
    cases hspec : devices.specs[index]? with
    | none =>
      rw [appendFrom, hspec] at h
      exact Option.some.inj (Except.ok.inj h) ▸ List.prefix_refl _
    | some spec =>
      obtain ⟨_, after, hturns, hload, h⟩ := (appendFrom_turn hspec).mp h
      obtain rfl := Nat.succ.inj hturns
      exact (specs_grow hload).trans (ih h)

theorem separate_prefix (h : Separate Stemmed list) (hpre : specs <+: list) :
    Separate Stemmed specs := List.Pairwise.sublist hpre.sublist h

end

section

variable {d : Descriptors} {specs list : List ServiceSpec} {devices after start : Devices}
  {spec device : ServiceSpec} {name dependency : Str} {index turns : Nat}

def Known (devices : Devices) : Prop :=
  ∀ name, devices.known.contains name ↔ ∃ spec ∈ devices.specs, spec.name = name

theorem known_of (specs : List ServiceSpec) : Known (.of specs) := by
  intro name
  rw [Devices.of, ← mem_keys, mem_ofList, List.mem_map]

theorem known_append (h : Known devices) (device : ServiceSpec) :
    Known ⟨devices.specs ++ [device], devices.known.add device.name⟩ := by
  intro name
  rw [contains_add, h name]
  simp [or_and_right, exists_or, or_comm, eq_comm]

variable (d specs)

/-- What the loop has at any time: the services that were given, and some that they lead to. -/
structure Gathered (devices : Devices) : Prop where
  given : specs <+: devices.specs
  involved : ∀ spec ∈ devices.specs, Involved d.load specs spec
  own : ∀ spec ∈ devices.specs, spec ∈ specs ∨ d.load spec.name = .ok (some spec)
  known : Known devices

/-- A device has been looked for. -/
def Tried (list : List ServiceSpec) (name : Str) : Prop :=
  (∃ other ∈ list, other.name = name) ∨ d.load name = .ok none

/-- The devices of the services before an index have been looked for. -/
def Served (index : Nat) (list : List ServiceSpec) : Prop :=
  ∀ i < index, ∀ spec, list[i]? = some spec → ∀ name ∈ deviceNames spec, Tried d list name

variable {d specs}

theorem gathered_of : Gathered d specs (.of specs) where
  given := List.prefix_refl _
  involved _ h := .given h
  own _ h := .inl h
  known := known_of specs

theorem Tried.mono (h : Tried d specs name) (hpre : specs <+: list) : Tried d list name :=
  h.imp_left fun hfound => hfound.imp fun _ hother => ⟨hpre.subset hother.1, hother.2⟩

theorem getElem?_leading {i : Nat} (hpre : specs <+: list) (hi : i < specs.length) :
    list[i]? = specs[i]? := by
  obtain ⟨rest, rfl⟩ := hpre
  exact List.getElem?_append_left hi

theorem Served.mono (h : Served d index specs) (hpre : specs <+: list)
    (hindex : index ≤ specs.length) : Served d index list := by
  intro i hi spec hspec name hname
  rw [getElem?_leading hpre (Nat.lt_of_lt_of_le hi hindex)] at hspec
  exact (h i hi spec hspec name hname).mono hpre

theorem gathered_loadDevice (hg : Gathered d specs devices) (hspec : Involved d.load specs spec)
    (hname : name ∈ deviceNames spec) (hplain : nativeServiceName name = name)
    (hnew : ∀ other ∈ specs, other.name ≠ name)
    (h : loadDevice d.load devices name = .ok after) :
    Gathered d specs after ∧ Tried d after.specs name := by
  obtain ⟨device, hload, rfl⟩ | ⟨hload, rfl⟩ := loadDevice_ok.mp h
  · have hdevice : device.name = name := (d.name_eq hload).trans hplain
    refine ⟨⟨hg.given.trans (List.prefix_append _ _), ?_, ?_, known_append hg.known device⟩,
      .inl ⟨device, List.mem_concat_self, hdevice⟩⟩
    · intro other hother
      obtain hother | hother := List.mem_append.mp hother
      · exact hg.involved other hother
      · obtain rfl := List.mem_singleton.mp hother
        exact hspec.device hname hnew hload
    · intro other hother
      obtain hother | hother := List.mem_append.mp hother
      · exact hg.own other hother
      · obtain rfl := List.mem_singleton.mp hother
        exact .inr (hdevice.symm ▸ hload)
  · exact ⟨hg, .inr hload⟩

theorem gathered_foldlM {names : List Str} (hg : Gathered d specs devices)
    (hspec : Involved d.load specs spec)
    (hnames : ∀ name ∈ names, name ∈ deviceNames spec ∧ nativeServiceName name = name ∧
      ∀ other ∈ specs, other.name ≠ name)
    (h : names.foldlM (loadDevice d.load) devices = .ok after) :
    Gathered d specs after ∧ ∀ name ∈ names, Tried d after.specs name := by
  induction names generalizing devices with
  | nil =>
    cases h
    exact ⟨hg, fun _ h => absurd h List.not_mem_nil⟩
  | cons name names ih =>
    rw [List.foldlM_cons] at h
    obtain ⟨mid, hmid, h⟩ := bind_eq_ok.mp h
    obtain ⟨⟨hmem, hplain, hnew⟩, hrest⟩ := List.forall_mem_cons.mp hnames
    obtain ⟨hgathered, htried⟩ := gathered_loadDevice hg hspec hmem hplain hnew hmid
    obtain ⟨hafter, htries⟩ := ih hgathered hrest h
    exact ⟨hafter, List.forall_mem_cons.mpr ⟨htried.mono (specs_grow h), htries⟩⟩

theorem mem_nativeDeviceDependencies (hk : Known devices) :
    name ∈ nativeDeviceDependencies spec devices.known ↔
      name ∈ deviceNames spec ∧ ∀ other ∈ devices.specs, other.name ≠ name := by
  rw [nativeDeviceDependencies, List.mem_filter]
  refine and_congr_right fun _ => ?_
  rw [Bool.not_eq_true', ← Bool.not_eq_true, hk name]
  simp

theorem gathered_turn (hu : Unsuffixed d.load specs) (hg : Gathered d specs start)
    (hserved : Served d index start.specs) (hspec : start.specs[index]? = some spec)
    (h : loadDevices d.load start spec = .ok after) :
    Gathered d specs after ∧ Served d (index + 1) after.specs := by
  have hlt := (List.getElem?_eq_some_iff.mp hspec).1
  have hinvolved := hg.involved spec (List.mem_of_getElem? hspec)
  have hpre := specs_grow h
  obtain ⟨hafter, htries⟩ := gathered_foldlM hg hinvolved (fun name hname => by
    obtain ⟨hmem, hnew⟩ := (mem_nativeDeviceDependencies hg.known).mp hname
    exact ⟨hmem, hu spec hinvolved name hmem, fun other hother => hnew other (hg.given.subset hother)⟩) h
  refine ⟨hafter, fun i hi other hother name hname => ?_⟩
  obtain hi | rfl := Nat.lt_succ_iff_lt_or_eq.mp hi
  · exact hserved.mono hpre (Nat.le_of_lt hlt) i hi other hother name hname
  · rw [getElem?_leading hpre hlt, hspec] at hother
    obtain rfl := Option.some.inj hother
    by_cases hthere : ∃ other ∈ start.specs, other.name = name
    · obtain ⟨other, hother, hn⟩ := hthere
      exact .inl ⟨other, hpre.subset hother, hn⟩
    · refine htries name ((mem_nativeDeviceDependencies hg.known).mpr ⟨hname, ?_⟩)
      exact fun other hother hn => hthere ⟨other, hother, hn⟩

/-- The loop ends with services all of whose devices have been looked for. -/
theorem gathered_appendFrom (hu : Unsuffixed d.load specs) (hg : Gathered d specs devices)
    (hserved : Served d index devices.specs)
    (h : appendFrom d.load turns index devices = .ok (some list)) :
    ∃ known, Gathered d specs ⟨list, known⟩ ∧ Served d list.length list := by
  induction turns generalizing index devices with
  | zero =>
    rw [appendFrom] at h
    split at h
    next hnone =>
      obtain rfl := Option.some.inj (Except.ok.inj h)
      exact ⟨devices.known, hg, fun i hi => hserved i
        (Nat.lt_of_lt_of_le hi (List.getElem?_eq_none_iff.mp hnone))⟩
    next => cases h
  | succ turns ih =>
    cases hspec : devices.specs[index]? with
    | none =>
      rw [appendFrom, hspec] at h
      obtain rfl := Option.some.inj (Except.ok.inj h)
      exact ⟨devices.known, hg, fun i hi => hserved i
        (Nat.lt_of_lt_of_le hi (List.getElem?_eq_none_iff.mp hspec))⟩
    | some spec =>
      obtain ⟨_, after, hturns, hload, h⟩ := (appendFrom_turn hspec).mp h
      obtain rfl := Nat.succ.inj hturns
      obtain ⟨hafter, hserves⟩ := gathered_turn hu hg hserved hspec hload
      exact ih hafter hserves h

theorem returns_involved (hu : Unsuffixed d.load specs) (h : Returns d.load specs list) :
    specs <+: list ∧ (∀ spec, spec ∈ list ↔ Involved d.load specs spec) ∧
      (∀ spec ∈ list, spec ∈ specs ∨ d.load spec.name = .ok (some spec)) ∧
      ∀ spec ∈ list, ∀ name ∈ deviceNames spec, Tried d list name := by
  obtain ⟨turns, hturns⟩ := h
  obtain ⟨known, hg, hserved⟩ := gathered_appendFrom hu gathered_of
    (fun i hi => absurd hi (Nat.not_lt_zero i)) hturns
  have htried : ∀ spec ∈ list, ∀ name ∈ deviceNames spec, Tried d list name := by
    intro spec hspec
    obtain ⟨i, hi, hget⟩ := List.getElem_of_mem hspec
    exact hserved i hi spec (List.getElem?_eq_some_iff.mpr ⟨hi, hget⟩)
  refine ⟨hg.given, fun spec => ⟨hg.involved spec, fun hinvolved => ?_⟩, hg.own, htried⟩
  induction hinvolved with
  | given h => exact hg.given.subset h
  | @device spec device name _ hname hnew hload ih =>
    obtain ⟨other, hother, hn⟩ | hnone := htried spec ih name hname
    · obtain hgiven | hown := hg.own other hother
      · exact absurd hn (hnew other hgiven)
      · rw [hn, hload] at hown
        exact Option.some.inj (Except.ok.inj hown) ▸ hother
    · cases hload.symm.trans hnone

theorem separate_append (h : Separate Stemmed specs)
    (hnew : ∀ other ∈ specs, ∀ name, ¬ (Stemmed other name ∧ Stemmed device name)) :
    Separate Stemmed (specs ++ [device]) :=
  List.pairwise_append.mpr ⟨h, List.pairwise_singleton _ _,
    fun other hother _ hd => List.mem_singleton.mp hd ▸ hnew other hother⟩

theorem distinct_of_synthesized (hu : Unsuffixed d.load specs) (h : Returns d.load specs list)
    (hs : Synthesized list) : Distinct d.load specs := by
  obtain ⟨hpre, hinvolved, hown, htried⟩ := returns_involved hu h
  constructor
  · exact separate_prefix hs.separate hpre
  · intro a b ha hb hne name hnames
    have hsame := separate_eq hs.separate ((hinvolved a).mpr ha) ((hinvolved b).mpr hb)
      hnames.1 hnames.2
    exact hne (congrArg ServiceSpec.name hsame)
  · intro spec hspec name hname
    obtain ⟨other, hother, rfl⟩ | hnone := htried spec ((hinvolved spec).mpr hspec) name hname
    · obtain hgiven | hload := hown other hother
      · exact .inl ⟨other, hgiven, rfl⟩
      · exact .inr (.inl ⟨other, hload⟩)
    · obtain ⟨other, hother, hnames⟩ :=
        hs.answered spec ((hinvolved spec).mpr hspec) name hname
      exact .inr (.inr ⟨hnone, other, (hinvolved other).mp hother, hnames⟩)

variable (d)

def remaining (specs : List ServiceSpec) : Finset Str :=
  d.described.toFinset.filter fun name => ∀ spec ∈ specs, spec.name ≠ name

/-- How many services may still come that name devices, and how many such are still to be asked. -/
def potential (index : Nat) (specs : List ServiceSpec) : Nat :=
  (remaining d specs).card + (specs.drop index).countP (deviceNames · ≠ [])

variable {d}

theorem deviceNames_leaf (h : references spec = []) : deviceNames spec = [] := by
  rw [references, List.map_eq_nil_iff, List.append_eq_nil_iff] at h
  rw [deviceNames, h.1, List.filter_nil]

theorem potential_append (hload : d.load dependency = .ok (some device))
    (hfresh : ∀ other ∈ specs, other.name ≠ device.name) (hindex : index ≤ specs.length) :
    potential d index (specs ++ [device]) ≤ potential d index specs := by
  have herase : remaining d (specs ++ [device]) = (remaining d specs).erase device.name := by
    ext name
    simp only [remaining, Finset.mem_filter, Finset.mem_erase, List.mem_append, List.mem_singleton]
    constructor
    · rintro ⟨hd, hall⟩
      exact ⟨fun he => hall device (.inr rfl) he.symm, hd, fun other ho => hall other (.inl ho)⟩
    · rintro ⟨hne, hd, hall⟩
      refine ⟨hd, fun other ho => ?_⟩
      obtain ho | rfl := ho
      · exact hall other ho
      · exact hne.symm
  rw [potential, potential, List.drop_append_of_le_length hindex, List.countP_append, herase]
  obtain hdescribed | hleaf := d.leaf hload
  · have hmem : device.name ∈ remaining d specs := by
      rw [remaining, Finset.mem_filter, List.mem_toFinset, d.name_eq hload]
      exact ⟨hdescribed, d.name_eq hload ▸ hfresh⟩
    have hcard := Finset.card_erase_add_one hmem
    have hone : [device].countP (deviceNames · ≠ []) ≤ 1 := List.countP_le_length
    omega
  · have hnone : [device].countP (deviceNames · ≠ []) = 0 := by simp [deviceNames_leaf hleaf]
    have hcard := Finset.card_erase_le (s := remaining d specs) (a := device.name)
    omega

theorem loads_rest (hu : Unsuffixed d.load specs) (hd : Distinct d.load specs)
    {names : List Str} (hnodup : names.Nodup)
    (hnames : ∀ name ∈ names, name ∈ deviceNames spec ∧ ∀ other ∈ devices.specs, other.name ≠ name)
    (hspec : Involved d.load specs spec) (hg : Gathered d specs devices)
    (hsep : Separate Stemmed devices.specs) (hindex : index ≤ devices.specs.length) :
    ∃ after, names.foldlM (loadDevice d.load) devices = .ok after ∧
      Separate Stemmed after.specs ∧
      potential d index after.specs ≤ potential d index devices.specs := by
  induction names generalizing devices with
  | nil => exact ⟨devices, rfl, hsep, Nat.le_refl _⟩
  | cons name names ih =>
    obtain ⟨hfirst, hnodup⟩ := List.nodup_cons.mp hnodup
    obtain ⟨⟨hmem, hnew⟩, hrest⟩ := List.forall_mem_cons.mp hnames
    have hplain := hu spec hspec name hmem
    obtain ⟨other, hother, hn⟩ | ⟨device, hload⟩ | ⟨hload, -⟩ := hd.found spec hspec name hmem
    · exact absurd hn (hnew other (hg.given.subset hother))
    · have hdevice : device.name = name := (d.name_eq hload).trans hplain
      have hmid : loadDevice d.load devices name =
          .ok ⟨devices.specs ++ [device], devices.known.add device.name⟩ :=
        loadDevice_ok.mpr (.inl ⟨device, hload, rfl⟩)
      have hgiven : ∀ other ∈ specs, other.name ≠ name := fun other hother =>
        hnew other (hg.given.subset hother)
      have hfresh : ∀ other ∈ devices.specs, other.name ≠ device.name := by
        rw [hdevice]
        exact hnew
      have hapart : Separate Stemmed (devices.specs ++ [device]) :=
        separate_append hsep fun other hother => hd.apart other device (hg.involved other hother)
          (hspec.device hmem hgiven hload) (hfresh other hother)
      obtain ⟨after, hafter, hsepAfter, hle⟩ := ih hnodup (fun later hlater => ⟨(hrest later hlater).1, by
          intro other hother
          obtain hother | hother := List.mem_append.mp hother
          · exact (hrest later hlater).2 other hother
          · obtain rfl := List.mem_singleton.mp hother
            rw [hdevice]
            exact fun he => hfirst (he ▸ hlater)⟩)
        (gathered_loadDevice hg hspec hmem hplain hgiven hmid).1 hapart
        (Nat.le_trans hindex (specs_grow_device hmid).length_le)
      exact ⟨after, bind_eq_ok.mpr ⟨_, hmid, hafter⟩, hsepAfter,
        Nat.le_trans hle (potential_append hload hfresh hindex)⟩
    · have hmid : loadDevice d.load devices name = .ok devices :=
        loadDevice_ok.mpr (.inr ⟨hload, rfl⟩)
      obtain ⟨after, hafter, hfinal⟩ := ih hnodup hrest hg hsep hindex
      exact ⟨after, bind_eq_ok.mpr ⟨_, hmid, hafter⟩, hfinal⟩

theorem loads_turn (hu : Unsuffixed d.load specs) (hd : Distinct d.load specs)
    (hg : Gathered d specs start) (hsep : Separate Stemmed start.specs)
    (hspec : start.specs[index]? = some spec) :
    ∃ after, loadDevices d.load start spec = .ok after ∧ Separate Stemmed after.specs ∧
      (potential d (index + 1) after.specs < potential d index start.specs ∨
        after = start ∧ potential d (index + 1) start.specs ≤ potential d index start.specs) := by
  obtain ⟨hlt, hget⟩ := List.getElem?_eq_some_iff.mp hspec
  have hnodup : (nativeDeviceDependencies spec start.known).Nodup :=
    ((keys_nodup _).filter _).filter _
  have hnext : index + 1 ≤ start.specs.length := hlt
  obtain ⟨after, hafter, hsepAfter, hle⟩ := loads_rest hu hd hnodup
    (fun name hname => (mem_nativeDeviceDependencies hg.known).mp hname)
    (hg.involved spec (List.mem_of_getElem? hspec)) hg hsep hnext
  have hdrop : (start.specs.drop index).countP (deviceNames · ≠ []) =
      (start.specs.drop (index + 1)).countP (deviceNames · ≠ []) +
        if deviceNames spec ≠ [] then 1 else 0 := by
    rw [List.drop_eq_getElem_cons hlt, hget, List.countP_cons]
    simp
  refine ⟨after, hafter, hsepAfter, ?_⟩
  by_cases hnone : deviceNames spec = []
  · right
    rw [nativeDeviceDependencies, hnone] at hafter
    obtain rfl := Except.ok.inj hafter
    rw [if_neg (not_not.mpr hnone)] at hdrop
    exact ⟨rfl, by rw [potential, potential, hdrop]; exact Nat.le_refl _⟩
  · left
    rw [if_pos hnone] at hdrop
    rw [potential, potential] at hle
    rw [potential, potential, hdrop]
    omega

/-- The loop ends: each turn uses up a service, and a service that names devices for good. -/
theorem returns_of_distinct (hu : Unsuffixed d.load specs) (hd : Distinct d.load specs)
    (hg : Gathered d specs devices) (hserved : Served d index devices.specs)
    (hsep : Separate Stemmed devices.specs) :
    ∃ turns list, appendFrom d.load turns index devices = .ok (some list) ∧
      Separate Stemmed list := by
  induction hq : potential d index devices.specs using Nat.strong_induction_on
    generalizing index devices with
  | _ q ih =>
    induction hu' : devices.specs.length - index generalizing index with
    | zero =>
      have hnone : devices.specs[index]? = none := List.getElem?_eq_none_iff.mpr (by omega)
      refine ⟨0, devices.specs, ?_, hsep⟩
      rw [appendFrom, hnone]
      rfl
    | succ u ihu =>
      have hspec := List.getElem?_eq_getElem (l := devices.specs) (i := index) (by omega)
      obtain ⟨after, hafter, hsepAfter, hless | ⟨rfl, hle⟩⟩ := loads_turn hu hd hg hsep hspec
      · obtain ⟨hgathered, hserves⟩ := gathered_turn hu hg hserved hspec hafter
        obtain ⟨turns, list, hlist, hfinal⟩ := ih _ (hq ▸ hless) hgathered hserves hsepAfter rfl
        exact ⟨turns + 1, list, (appendFrom_turn hspec).mpr ⟨turns, after, rfl, hafter, hlist⟩, hfinal⟩
      · have hserves := (gathered_turn hu hg hserved hspec hafter).2
        obtain hless | hsame := Nat.lt_or_eq_of_le (hq ▸ hle)
        · obtain ⟨turns, list, hlist, hfinal⟩ := ih _ hless hg hserves hsep rfl
          exact ⟨turns + 1, list, (appendFrom_turn hspec).mpr ⟨turns, _, rfl, hafter, hlist⟩, hfinal⟩
        · obtain ⟨turns, list, hlist, hfinal⟩ := ihu hserves hsame (by omega)
          exact ⟨turns + 1, list, (appendFrom_turn hspec).mpr ⟨turns, _, rfl, hafter, hlist⟩, hfinal⟩

theorem synthesized_of_distinct (hu : Unsuffixed d.load specs) (hd : Distinct d.load specs) :
    ∃ list, Returns d.load specs list ∧ Synthesized list := by
  obtain ⟨turns, list, hlist, hsep⟩ := returns_of_distinct hu hd gathered_of
    (fun i hi => absurd hi (Nat.not_lt_zero i)) hd.given
  have hreturns : Returns d.load specs list := ⟨turns, hlist⟩
  obtain ⟨hpre, hinvolved, -, htried⟩ := returns_involved hu hreturns
  refine ⟨list, hreturns, hsep, fun spec hspec name hname => ?_⟩
  obtain ⟨other, hother, hn⟩ | hnone := htried spec hspec name hname
  · exact ⟨other, hother, .inl (.inl (.inl hn.symm))⟩
  · obtain ⟨other, hother, hn⟩ | ⟨device, hload⟩ | ⟨-, other, hother, hnames⟩ :=
      hd.found spec ((hinvolved spec).mp hspec) name hname
    · exact ⟨other, hpre.subset hother, .inl (.inl (.inl hn.symm))⟩
    · cases hload.symm.trans hnone
    · exact ⟨other, (hinvolved other).mpr hother, hnames⟩

end

section

variable {ω : Type} (os : Os ω) {w : ω} {list : List ServiceSpec} {t : Supervisor × ω} {name : Str}

/-- Services with names of their own are registered as far as they are valid. -/
theorem addAll_of_separate (h : Separate Stemmed list) (hadmitted : Admitted os w [] list) :
    ∃ t, addAll os list (Supervisor.new, w) = .ok () t :=
  (addAll_iff os holds_new).mpr ⟨hadmitted, h, fun _ ha => absurd ha List.not_mem_nil⟩

theorem resolveName_isSome_iff (h : addAll os list (Supervisor.new, w) = .ok () t) :
    (t.1.resolveName name).isSome ↔ Answered list name := by
  have hsep := ((addAll_iff os holds_new).mp ⟨t, h⟩).2.1
  have hregisters := addAll_registers os holds_new h
  rw [List.nil_append] at hregisters
  simp only [Option.isSome_iff_exists, resolveName_iff stemmed_self hregisters hsep]
  constructor
  · rintro ⟨c, ⟨spec, hspec, -, hgoes⟩ | ⟨-, ⟨spec, hspec, -, hgoes⟩ | ⟨-, spec, hspec, hname, hc⟩⟩⟩
    · exact ⟨spec, hspec, .inl (.inl hgoes)⟩
    · exact ⟨spec, hspec, .inl (.inr hgoes)⟩
    · exact ⟨spec, hspec, .inr (hname.trans hc)⟩
  · rintro ⟨spec, hspec, hcases⟩
    by_cases hq : ∃ other ∈ list, Stemmed other name
    · obtain ⟨other, hother, hgoes⟩ := hq
      exact ⟨_, .inl ⟨other, hother, rfl, hgoes⟩⟩
    · have hnone : ∀ other ∈ list, ¬ Stemmed other name := fun other ho hg => hq ⟨other, ho, hg⟩
      by_cases hstem : ∃ other ∈ list, Stemmed other (stem name)
      · obtain ⟨other, hother, hgoes⟩ := hstem
        exact ⟨_, .inr ⟨hnone, .inl ⟨other, hother, rfl, hgoes⟩⟩⟩
      · have hnostem : ∀ other ∈ list, ¬ Stemmed other (stem name) :=
          fun other ho hg => hstem ⟨other, ho, hg⟩
        obtain (hgoes | hgoes) | hname := hcases
        · exact absurd hgoes (hnone spec hspec)
        · exact absurd hgoes (hnostem spec hspec)
        · exact ⟨_, .inr ⟨hnone, .inr ⟨hnostem, spec, hspec, rfl, hname⟩⟩⟩

end

section

variable {ω : Type} (os : Os ω) (parser : ServiceParser) (files : Files) (masks : Markers)
  (env : Environment) (specs : List ServiceSpec)

/-- The services that are returned are registered, and each device that one of them names leads to
a service. -/
def Registered (list : List ServiceSpec) : Prop :=
  ∀ w, (Admitted os w [] list → ∃ t, addAll os list (Supervisor.new, w) = .ok () t) ∧
    ∀ t, addAll os list (Supervisor.new, w) = .ok () t →
      ∀ spec ∈ list, ∀ name ∈ deviceNames spec, (t.1.resolveName name).isSome

/-- Where no device is spelled with the suffix, the function returns services with names of their
own, and with a service for each device, exactly if those that are involved are distinct. Then the
supervisor takes them. -/
theorem appendSyntheticDeviceSpecs_iff :
    (Unsuffixed (loadNamedServiceSpec parser files masks env) specs →
      ((∃ list, Returns (loadNamedServiceSpec parser files masks env) specs list ∧
          Synthesized list) ↔
        Distinct (loadNamedServiceSpec parser files masks env) specs)) ∧
    ∀ list, Synthesized list → Registered os list := by
  constructor
  · intro hu
    constructor
    · rintro ⟨list, hlist, hs⟩
      exact distinct_of_synthesized (d := descriptors parser files masks env) hu hlist hs
    · exact synthesized_of_distinct (d := descriptors parser files masks env) hu
  · intro list hs w
    exact ⟨addAll_of_separate os hs.separate, fun t ht spec hspec name hname =>
      (resolveName_isSome_iff os ht).mpr (hs.answered spec hspec name hname)⟩

end

/-- There are no descriptors. -/
def noLoad : Str → Except Str (Option ServiceSpec) :=
  loadNamedServiceSpec requiringParser (packageFiles empty) empty plainEnvironment

def needing : ServiceSpec := requiring "data".toList ["device-dev-vda".toList]

def vda : ServiceSpec := deviceSpec "device-dev-vda".toList "/dev/vda".toList

theorem needing_involved {spec : ServiceSpec} (h : Involved noLoad [needing] spec) :
    spec = needing ∨ spec = vda := by
  have hnone : deviceNames vda = [] := rfl
  have hone : deviceNames needing = ["device-dev-vda".toList] := by decide +kernel
  have hload : noLoad "device-dev-vda".toList = .ok (some vda) := rfl
  induction h with
  | given h => exact .inl (List.mem_singleton.mp h)
  | device _ hname _ hdevice ih =>
    obtain rfl | rfl := ih
    · rw [hone, List.mem_singleton] at hname
      rw [hname, hload] at hdevice
      exact .inr (Option.some.inj (Except.ok.inj hdevice)).symm
    · rw [hnone] at hname
      cases hname

theorem appendSyntheticDeviceSpecs_iff_needing :
    ∃ list, Returns noLoad [needing] list ∧ Synthesized list := by
  have hnone : deviceNames vda = [] := rfl
  have hone : deviceNames needing = ["device-dev-vda".toList] := by decide +kernel
  refine ((appendSyntheticDeviceSpecs_iff boxOs requiringParser (packageFiles empty) empty
    plainEnvironment [needing]).1 ?_).mpr ⟨List.pairwise_singleton _ _, ?_, ?_⟩
  · intro spec hspec name hname
    obtain rfl | rfl := needing_involved hspec
    · rw [hone, List.mem_singleton] at hname
      rw [hname]
      decide +kernel
    · rw [hnone] at hname
      cases hname
  · have hsingle : ∀ spec, spec = needing ∨ spec = vda → ∀ name, Stemmed spec name →
        name = spec.name := by
      rintro spec (rfl | rfl) name (rfl | ⟨a, ha, -⟩)
      · rfl
      · cases ha
      · rfl
      · cases ha
    rintro a b ha hb hne name ⟨han, hbn⟩
    exact hne ((hsingle a (needing_involved ha) name han).symm.trans
      (hsingle b (needing_involved hb) name hbn))
  · intro spec hspec name hname
    obtain rfl | rfl := needing_involved hspec
    · rw [hone, List.mem_singleton] at hname
      rw [hname]
      exact .inr (.inl ⟨vda, rfl⟩)
    · rw [hnone] at hname
      cases hname

/-- A service that names a device with the suffix and without. -/
def twice : ServiceSpec :=
  requiring "data".toList ["device-dev-vda".toList, "device-dev-vda.svc".toList]

/-- The service of the device comes twice. -/
theorem twice_synthesized :
    ¬ ∃ list, Returns noLoad [twice] list ∧ Synthesized list := by
  rintro ⟨list, ⟨turns, hturns⟩, hs⟩
  have hfirst : (Devices.of [twice]).specs[0]? = some twice := rfl
  obtain ⟨fewer, after, -, hload, hrest⟩ := (appendFrom_turn hfirst).mp hturns
  have hloads : loadDevices noLoad (.of [twice]) twice = .ok
      ⟨[twice, vda, vda], ((Devices.of [twice]).known.add vda.name).add vda.name⟩ := by
    have hdeps : nativeDeviceDependencies twice (Devices.of [twice]).known =
        ["device-dev-vda".toList, "device-dev-vda.svc".toList] := by
      decide +kernel
    rw [loadDevices, hdeps]
    rfl
  obtain rfl := Except.ok.inj (hloads.symm.trans hload)
  have hsep := separate_prefix hs.separate (appendFrom_grows hrest)
  have htwo := (List.pairwise_cons.mp hsep).2
  exact (List.pairwise_cons.mp htwo).1 vda List.mem_cons_self vda.name
    ⟨stemmed_self vda, stemmed_self vda⟩

/-- A device with a descriptor, which names the device itself with the suffix. -/
def selfish : ServiceSpec := requiring "device-a".toList ["device-a.svc".toList]

def selfishLoad : Str → Except Str (Option ServiceSpec) :=
  loadNamedServiceSpec requiringParser
    (packageFiles (empty.insert "device-a.svc".toList (.file (.ok "device-a.svc".toList)))) empty
    plainEnvironment

theorem selfish_endless (turns : Nat) :
    appendSyntheticDeviceSpecs selfishLoad turns [selfish] = .ok none := by
  suffices h : ∀ index (known : BTreeSet Str), ¬ known.contains "device-a.svc".toList →
      appendFrom selfishLoad turns index ⟨List.replicate (index + 1) selfish, known⟩ = .ok none from
    h 0 _ (by decide +kernel)
  induction turns with
  | zero =>
    intro index known _
    have hspec : (List.replicate (index + 1) selfish)[index]? = some selfish := by simp
    rw [appendFrom, hspec]
    rfl
  | succ turns ih =>
    intro index known hknown
    have hspec : (List.replicate (index + 1) selfish)[index]? = some selfish := by simp
    have hdeps : nativeDeviceDependencies selfish known = ["device-a.svc".toList] := by
      have hnames : deviceNames selfish = ["device-a.svc".toList] := by decide +kernel
      rw [nativeDeviceDependencies, hnames, List.filter_cons_of_pos (by simpa using hknown)]
      rfl
    have hloads : loadDevices selfishLoad ⟨List.replicate (index + 1) selfish, known⟩ selfish =
        .ok ⟨List.replicate (index + 1 + 1) selfish, known.add "device-a".toList⟩ := by
      rw [loadDevices, hdeps, List.replicate_succ' (n := index + 1)]
      rfl
    rw [appendFrom, hspec]
    refine bind_eq_ok.mpr ⟨_, hloads, ih (index + 1) _ ?_⟩
    rw [contains_add]
    exact not_or.mpr ⟨by decide, hknown⟩

end FractalD.Daemon.SyntheticDevices
