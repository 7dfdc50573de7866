import FractalD.Core.Planning
import FractalD.Machine.Scan
import FractalD.Storage.Descriptors
import FractalD.Storage.ServiceNames
import Mathlib.Order.WithBot

namespace FractalD.Storage.Ordering

open FractalD.Config.Fragments FractalD.Config.Native FractalD.Config.Words FractalD.Core.Graph
open FractalD.Config.SyscallFilter (NativeFile)
open FractalD.Core.Planning FractalD.Core.Spec FractalD.Machine.CString FractalD.Machine.Delimited
open FractalD.Machine.OrderedMap FractalD.Machine.Paths FractalD.Machine.Precedence
open FractalD.Machine.Result FractalD.Machine.Scan FractalD.Machine.Text
open FractalD.Storage.Descriptors FractalD.Storage.Fstab FractalD.Storage.ServiceNames
open FractalD.Storage.Services

/-- The targets of the mounts of a table, as `generate_services` hands them on. -/
def activeTargets (entries : List FstabEntry) : List (List Component) :=
  ((activeMounts entries).insertionSort (mountBefore · ·)).map fun entry => components entry.target

/-- The services that the profile wants and comes after. -/
def wanted (entries : List FstabEntry) : List Str :=
  storagePrepareService ::
    (((activeMounts entries).insertionSort (mountBefore · ·)).map FstabEntry.mountServiceName ++
      ((activeSwaps entries).insertionSort (swapBefore · ·)).map FstabEntry.swapServiceName)

/-- A service has those dependencies, of the ones that it is ordered by, that its descriptor gives. -/
structure Depends (spec : ServiceSpec) (listed : String → List Str → Prop) : Prop where
  requires : listed "requires" spec.dependencies.requires
  wants : listed "wants" spec.dependencies.wants
  after : listed "after" spec.dependencies.after
  before : listed "before" spec.dependencies.before
  bindsTo : listed "binds_to" spec.dependencies.bindsTo
  requisite : listed "requisite" spec.dependencies.requisite
  requiresMountsFor : listed "requires_mount" spec.requiresMountsFor
  wantsMountsFor : listed "wants_mount" spec.wantsMountsFor

/-- A list has what the words of a descriptor's directives are. -/
def ListedIn (file : NativeFile) (key : String) (list : List Str) : Prop :=
  ∃ words, listValues file "dependencies".toList key.toList = .ok words ∧ ∀ u, u ∈ list ↔ u ∈ words

section

variable (parseDuration : Str → Str → Except ConfigError Duration)

/-- What the services of a graph come from: the descriptors of a table as the parser reads them, or
others that do not depend on any service. -/
inductive Origin (entries : List FstabEntry) (name : Str) (spec : ServiceSpec) : Prop
  | mount (entry : FstabEntry) (active : entry ∈ activeMounts entries)
      (named : name = entry.mountServiceName) (file : NativeFile) (made : StorageSpec)
      (parsed : NativeFile.parse (mountService entry (activeTargets entries)) = .ok file)
      (read : parseMount parseDuration file name = .ok made)
      (type : spec.serviceType = made.serviceType) (point : spec.mountWhere = made.mountWhere)
      (depends : Depends spec (ListedIn file))
  | swap (entry : FstabEntry) (active : entry ∈ activeSwaps entries)
      (named : name = entry.swapServiceName) (file : NativeFile) (made : StorageSpec)
      (parsed : NativeFile.parse (swapService entry) = .ok file)
      (read : parseSwap parseDuration file name = .ok made)
      (type : spec.serviceType = made.serviceType) (depends : Depends spec (ListedIn file))
  | profile (named : name = storageProfile) (file : NativeFile)
      (parsed : NativeFile.parse (profileText (wanted entries)) = .ok file)
      (type : spec.serviceType ≠ .mount) (depends : Depends spec (ListedIn file))
  | other (type : spec.serviceType ≠ .mount) (depends : Depends spec fun _ list => list = [])

end

/-- An entry that names no dependencies of its own. -/
def Unordered (entry : FstabEntry) : Prop :=
  ∀ key ∈ ["requires", "wants", "after", "before"], optionWords key entry = []

/-- A table whose mounts have no steps up in their targets, whose entries name no dependencies, and
whose fields are read as they are written. -/
structure Regular (entries : List FstabEntry) : Prop where
  straight : ∀ entry ∈ activeMounts entries, Component.parentDir ∉ components entry.target
  unordered : ∀ entry ∈ activeMounts entries ++ activeSwaps entries, Unordered entry
  mounts : ∀ entry ∈ activeMounts entries, ∀ d ∈ mountDirectives entry, Written d.2
  swaps : ∀ entry ∈ activeSwaps entries, ∀ d ∈ swapDirectives entry, Written d.2

/-- How late a service comes at the earliest. -/
def rank (name : Str) : WithTop Nat :=
  if name = storageProfile then ⊤
  else if "mount-".toList.isPrefixOf name then .some name.length
  else if "swap-".toList.isPrefixOf name then .some 1
  else .some 0

def starts : List String := ["storage-prepare", "network-online", "device-", "mount-", "swap-"]

/-- A name of a service that the generator puts into a list. -/
def Generated (name : Str) : Prop :=
  ∃ start ∈ starts, ∃ rest read, name = start.toList ++ rest ∧ Spells rest read

section

variable {source name : Str} {entries : List FstabEntry} {entry : FstabEntry}
  {path : List Component}

theorem checkFields_absolute {line : Nat} {fields : List Str} (h : checkFields line fields = .ok ()) :
    fields[2]?.map lowercase = some "swap".toList ∨ (fields[1]?.bind List.head?) = some '/' := by
  unfold checkFields at h
  obtain ⟨hnone, h⟩ := check_eq_ok.mp h
  obtain ⟨habsolute, -⟩ := check_eq_ok.mp h
  by_cases hfield : fields[1]? = some "none".toList
  · exact .inl (not_not.mp fun hswap => hnone ⟨hfield, hswap⟩)
  · exact .inr (not_not.mp fun hslash => habsolute ⟨hfield, hslash⟩)

theorem parseLine_absolute {physical : Str × Nat} {t : TableEntry}
    (h : parseLine false physical = .ok (some t)) :
    t.entry.swap = true ∨ t.entry.target.head? = some '/' := by
  unfold parseLine at h
  dsimp only at h
  by_cases hcontent : trim (stripComment physical.1) = []
  · rw [if_pos hcontent] at h
    cases pure_eq_ok.mp h
  rw [if_neg hcontent] at h
  obtain ⟨-, h⟩ := check_eq_ok.mp h
  obtain ⟨fields, -, h⟩ := bind_eq_ok.mp h
  obtain ⟨checked, hcheck, h⟩ := bind_eq_ok.mp h
  obtain rfl := Option.some.inj (pure_eq_ok.mp h)
  obtain hswap | hslash := checkFields_absolute hcheck
  · left
    obtain ⟨value, hvalue, hlower⟩ := Option.map_eq_some_iff.mp hswap
    simp [FstabEntry.swap, TableEntry.entry, hvalue, hlower]
  · right
    obtain ⟨value, hvalue, hhead⟩ := Option.bind_eq_some_iff.mp hslash
    simp [TableEntry.entry, hvalue, hhead]

theorem activeMount_absolute (h : parseFstab source = .ok entries)
    (hentry : entry ∈ activeMounts entries) : entry.target.head? = some '/' := by
  obtain ⟨table, htable, rfl⟩ := map_eq_ok.mp h
  obtain ⟨lines, hlines, htable⟩ := bind_eq_ok.mp htable
  obtain rfl := pure_eq_ok.mp htable
  obtain ⟨hmem, hactive⟩ := List.mem_filter.mp hentry
  obtain ⟨t, ht, rfl⟩ := List.mem_map.mp hmem
  obtain ⟨line, hline, rfl⟩ := List.mem_filterMap.mp ht
  have hparsed : Except.ok (some t) ∈ (textLines source).zipIdx.map (parseLine false) := by
    rw [mapM_eq_ok.mp hlines]
    exact List.mem_map_of_mem hline
  obtain ⟨physical, -, hphysical⟩ := List.mem_map.mp hparsed
  obtain hswap | hslash := parseLine_absolute hphysical
  · simp [hswap] at hactive
  · exact hslash

/-- A path of names below the root. -/
def Straight (path : List Component) : Prop := ∃ names : List Str, path = .rootDir :: names.map .normal

theorem plainNames_straight (names : List Str) :
    plainNames (.rootDir :: names.map Component.normal) = names := by
  rw [plainNames, List.filterMap_cons_none rfl, List.filterMap_map]
  exact List.filterMap_some

theorem laterComponent_cases {part : Str} {c : Component} (h : laterComponent part = some c) :
    c = .parentDir ∧ part = ['.', '.'] ∨ c = .normal part ∧ part ≠ ['.'] ∧ part ≠ ['.', '.'] := by
  unfold laterComponent at h
  split_ifs at h with hdot hup
  · exact .inl ⟨(Option.some.inj h).symm, hup⟩
  · exact .inr ⟨(Option.some.inj h).symm, hdot, hup⟩

theorem laterComponents_straight {parts : List Str}
    (h : Component.parentDir ∉ parts.filterMap laterComponent) :
    ∃ names : List Str, parts.filterMap laterComponent = names.map .normal := by
  induction parts with
  | nil => exact ⟨[], rfl⟩
  | cons part parts ih =>
    cases hlater : laterComponent part with
    | none =>
      rw [List.filterMap_cons_none hlater] at h ⊢
      exact ih h
    | some c =>
      rw [List.filterMap_cons_some hlater, List.mem_cons, not_or] at h
      obtain ⟨names, hnames⟩ := ih h.2
      obtain ⟨rfl, -⟩ | ⟨rfl, -⟩ := laterComponent_cases hlater
      · exact absurd rfl h.1
      · exact ⟨part :: names, by rw [List.filterMap_cons_some hlater, hnames, List.map_cons]⟩

theorem components_straight {target : Str} (habsolute : target.head? = some '/')
    (hup : Component.parentDir ∉ components target) : Straight (components target) := by
  rw [components, if_pos habsolute] at hup ⊢
  obtain ⟨names, hnames⟩ := laterComponents_straight fun h => hup (List.mem_cons_of_mem _ h)
  exact ⟨names, by rw [hnames]⟩

/-- The parts of a path without a step up are joined as they are. -/
theorem foldl_normalize (parts found : List Str)
    (hparts : Component.parentDir ∉ (parts.filter (· ≠ [])).filterMap laterComponent) :
    parts.foldl (fun components part =>
      if part = [] ∨ part = ['.'] then components
      else if part = ['.', '.'] then components.dropLast
      else components ++ [part]) found =
        found ++ plainNames ((parts.filter (· ≠ [])).filterMap laterComponent) := by
  induction parts generalizing found with
  | nil => exact (List.append_nil _).symm
  | cons part parts ih =>
    rw [List.foldl_cons]
    by_cases hempty : part = []
    · rw [if_pos (.inl hempty)]
      rw [List.filter_cons_of_neg (by simpa using hempty)] at hparts ⊢
      exact ih found hparts
    · rw [List.filter_cons_of_pos (by simpa using hempty)] at hparts ⊢
      cases hlater : laterComponent part with
      | none =>
        have hdot : part = ['.'] := by
          unfold laterComponent at hlater
          split_ifs at hlater with hdot
          exact hdot
        rw [List.filterMap_cons_none hlater] at hparts ⊢
        rw [if_pos (.inr hdot)]
        exact ih found hparts
      | some c =>
        rw [List.filterMap_cons_some hlater, List.mem_cons, not_or] at hparts
        obtain ⟨rfl, -⟩ | ⟨rfl, hdot, hdots⟩ := laterComponent_cases hlater
        · exact absurd rfl hparts.1
        · rw [if_neg (not_or.mpr ⟨hempty, hdot⟩), if_neg hdots, ih _ hparts.2, List.append_assoc,
            List.filterMap_cons_some hlater]
          rfl

theorem normalizeAbsolutePath_straight {target : Str} (habsolute : target.head? = some '/')
    (hup : Component.parentDir ∉ components target) :
    normalizeAbsolutePath target = some (plainNames (components target)) := by
  obtain ⟨rest, rfl⟩ : ∃ rest, target = '/' :: rest := by
    cases target with
    | nil => cases habsolute
    | cons c rest => exact ⟨rest, by rw [Option.some.inj habsolute]⟩
  rw [components, if_pos habsolute] at hup ⊢
  have hparts := foldl_normalize (('/' :: rest).splitOnP (· = '/')) []
    fun h => hup (List.mem_cons_of_mem _ h)
  exact congrArg some hparts

end

section

variable {source name u : Str} {entries : List FstabEntry} {entry : FstabEntry}
  {target : Str} {names : List Str}

theorem rank_mount (rest : Str) : rank ("mount-".toList ++ rest) = .some (rest.length + 6) := by
  have hprofile : "mount-".toList ++ rest ≠ storageProfile := by
    intro h
    cases h
  have hmount : "mount-".toList.isPrefixOf ("mount-".toList ++ rest) = true := by simp
  rw [rank, if_neg hprofile, if_pos hmount, List.length_append, Nat.add_comm]
  rfl

theorem rank_swap (rest : Str) : rank ("swap-".toList ++ rest) = .some 1 := by
  have hprofile : "swap-".toList ++ rest ≠ storageProfile := by
    intro h
    cases h
  rw [rank, if_neg hprofile, if_neg (by simp), if_pos (by simp)]

theorem rank_device (rest : Str) : rank ("device-".toList ++ rest) = .some 0 := by
  have hprofile : "device-".toList ++ rest ≠ storageProfile := by
    intro h
    cases h
  rw [rank, if_neg hprofile, if_neg (by simp), if_neg (by simp)]

theorem rank_prepare (rest : Str) : rank ("storage-prepare".toList ++ rest) = .some 0 := by
  have hprofile : "storage-prepare".toList ++ rest ≠ storageProfile := by
    intro h
    cases h
  rw [rank, if_neg hprofile, if_neg (by simp), if_neg (by simp)]

theorem rank_network (rest : Str) : rank ("network-online".toList ++ rest) = .some 0 := by
  have hprofile : "network-online".toList ++ rest ≠ storageProfile := by
    intro h
    cases h
  rw [rank, if_neg hprofile, if_neg (by simp), if_neg (by simp)]

theorem starts_literal : ∀ start ∈ starts, start.toList ≠ [] ∧ ∀ c ∈ start.toList, Literal c := by
  intro start hstart
  have hall : starts.all (fun start => start.toList ≠ [] && start.toList.all (Literal ·)) = true := by
    decide
  obtain ⟨hne, hliteral⟩ := Bool.and_eq_true_iff.mp (List.all_eq_true.mp hall start hstart)
  exact ⟨of_decide_eq_true hne, forall_of_all hliteral⟩

theorem rank_generated (h : Generated name) : ∃ n, rank name = .some n := by
  obtain ⟨start, hstart, rest, -, rfl, -⟩ := h
  simp only [starts, List.mem_cons, List.not_mem_nil, or_false] at hstart
  obtain rfl | rfl | rfl | rfl | rfl := hstart
  · exact ⟨0, rank_prepare rest⟩
  · exact ⟨0, rank_network rest⟩
  · exact ⟨0, rank_device rest⟩
  · exact ⟨_, rank_mount rest⟩
  · exact ⟨1, rank_swap rest⟩

theorem generated_spelled (h : Generated name) : ∃ read, name ≠ [] ∧ Spells name read := by
  obtain ⟨start, hstart, rest, read, rfl, hread⟩ := h
  obtain ⟨hne, hliteral⟩ := starts_literal start hstart
  exact ⟨_, List.append_ne_nil_of_left_ne_nil hne _, (spells_literal hliteral).append hread⟩

theorem rank_read (h : Generated name) (hread : Spells name u) : rank u ≤ rank name := by
  obtain ⟨start, hstart, rest, -, rfl, -⟩ := h
  obtain ⟨found, rfl, hfound⟩ := hread.of_literal (starts_literal start hstart).2
  simp only [starts, List.mem_cons, List.not_mem_nil, or_false] at hstart
  obtain rfl | rfl | rfl | rfl | rfl := hstart
  · rw [rank_prepare, rank_prepare]
  · rw [rank_network, rank_network]
  · rw [rank_device, rank_device]
  · rw [rank_mount, rank_mount, WithTop.coe_le_coe]
    exact Nat.add_le_add_right hfound.length_le 6
  · rw [rank_swap, rank_swap]

theorem rank_above {front rest : List Str} (hfront : front ≠ []) (hrest : rest ≠ []) :
    rank ("mount-".toList ++ join ['-'] (front.map escapeComponent)) <
      rank ("mount-".toList ++ join ['-'] ((front ++ rest).map escapeComponent)) := by
  rw [rank_mount, rank_mount, WithTop.coe_lt_coe, List.map_append,
    join_append (by simpa using hfront) (by simpa using hrest), List.length_append, List.length_cons]
  omega

theorem foldl_parents {path whole : List Component}
    {step : List Component × List (List Component) → Component →
      List Component × List (List Component)}
    (hstep : ∀ known n, step known (.normal n) = (known.1 ++ [.normal n],
      if known.1 ++ [.normal n] ≠ whole then known.2 ++ [known.1 ++ [.normal n]] else known.2))
    (names : List Str) (known : List Component × List (List Component))
    (h : path ∈ ((names.map .normal).foldl step known).2) :
    path ∈ known.2 ∨ path ≠ whole ∧ ∃ front rest : List Str,
      front ≠ [] ∧ names = front ++ rest ∧ path = known.1 ++ front.map .normal := by
  induction names generalizing known with
  | nil => exact .inl h
  | cons n names ih =>
    rw [List.map_cons, List.foldl_cons] at h
    obtain hknown | ⟨hne, front, rest, hfront, rfl, hpath⟩ := ih _ h
    · rw [hstep] at hknown
      dsimp only at hknown
      split_ifs at hknown with hwhole
      · obtain hold | hnew := List.mem_append.mp hknown
        · exact .inl hold
        · obtain rfl := List.mem_singleton.mp hnew
          exact .inr ⟨hwhole, [n], names, by simp, rfl, rfl⟩
      · exact .inl hknown
    · refine .inr ⟨hne, n :: front, rest, by simp, rfl, ?_⟩
      rw [hpath, hstep]
      simp

theorem mem_parentTargets {path : List Component}
    (htarget : components entry.target = .rootDir :: names.map .normal)
    (h : path ∈ entry.parentTargets) : ∃ front rest : List Str,
      front ≠ [] ∧ rest ≠ [] ∧ names = front ++ rest ∧ path = .rootDir :: front.map .normal := by
  unfold FstabEntry.parentTargets at h
  rw [htarget, List.foldl_cons] at h
  obtain hnone | ⟨hne, front, rest, hfront, rfl, rfl⟩ := foldl_parents (fun _ _ => rfl) names _ h
  · cases hnone
  · refine ⟨front, rest, hfront, ?_, rfl, rfl⟩
    rintro rfl
    rw [List.append_nil] at hne
    exact hne rfl

theorem activeMount_straight (hparse : parseFstab source = .ok entries) (h : Regular entries)
    (hentry : entry ∈ activeMounts entries) : ∃ names : List Str,
      names ≠ [] ∧ components entry.target = .rootDir :: names.map .normal ∧
        normalizeAbsolutePath entry.target = some names := by
  have habsolute := activeMount_absolute hparse hentry
  have hup := h.straight entry hentry
  obtain ⟨names, hnames⟩ := components_straight habsolute hup
  have hnormal := normalizeAbsolutePath_straight habsolute hup
  rw [hnames, plainNames_straight] at hnormal
  refine ⟨names, ?_, hnames, hnormal⟩
  rintro rfl
  have hroot := (List.mem_filter.mp hentry).2
  simp [hnames] at hroot

theorem name_straight (htarget : components target = .rootDir :: names.map .normal) :
    Fstab.mountServiceName (components target) =
      "mount-".toList ++ join ['-'] (names.map escapeComponent) := by
  have hplain : plainNames (components target) = names := by rw [htarget, plainNames_straight]
  rw [← hplain]
  rfl

theorem generated_prepare : Generated storagePrepareService :=
  ⟨"storage-prepare", by simp [starts], [], [], (List.append_nil _).symm, .nil⟩

theorem generated_network : Generated "network-online".toList :=
  ⟨"network-online", by simp [starts], [], [], (List.append_nil _).symm, .nil⟩

theorem generated_mount (path : List Component) : Generated (Fstab.mountServiceName path) :=
  ⟨"mount-", by simp [starts], _, _, rfl, spells_parts _⟩

theorem generated_swap (entry : FstabEntry) : Generated entry.swapServiceName :=
  ⟨"swap-", by simp [starts], _, _, rfl, spells_parts _⟩

theorem mem_requiredDevice {device : Str} (h : device ∈ requiredDevice entry) :
    Generated device ∧ rank device = .some 0 := by
  unfold requiredDevice at h
  split_ifs at h
  · cases h
  · have hdevice := Option.mem_toList.mp h
    unfold deviceServiceName at hdevice
    dsimp only at hdevice
    split_ifs at hdevice
    obtain rfl := Option.some.inj hdevice
    exact ⟨⟨"device-", by simp [starts], _, _, rfl, spells_parts _⟩, rank_device _⟩

end

section

variable {source u v : Str} {entries : List FstabEntry} {entry : FstabEntry} {g : DependencyGraph}
  {spec : ServiceSpec} {names : List Str} {d found : Dependencies} {file : NativeFile}
  {parseDuration : Str → Str → Except ConfigError Duration}

theorem optionWords_unordered (h : Unordered entry) : optionWords "requires" entry = [] ∧
    optionWords "wants" entry = [] ∧ optionWords "after" entry = [] ∧
    optionWords "before" entry = [] := by
  simpa [Unordered] using h

theorem unordered_of_options
    (h : (entry.options.all fun option => !"x-fractald.".toList.isPrefixOf option) = true) :
    Unordered entry := by
  intro key _
  refine List.flatMap_eq_nil_iff.mpr fun option hoption => ?_
  have hforeign := List.all_eq_true.mp h option hoption
  have hkey : ¬ ("x-fractald." ++ key ++ "=").toList <+: option := by
    intro hprefix
    rw [String.toList_append, String.toList_append, List.append_assoc] at hprefix
    have hstart := List.isPrefixOf_iff_prefix.mpr ((List.prefix_append _ _).trans hprefix)
    rw [hstart] at hforeign
    cases hforeign
  rw [removePrefix, if_neg (by simpa [List.isPrefixOf_iff_prefix] using hkey)]
  rfl

/-- A list has generated names, each of which comes before a service. -/
def Early (list : List Str) (name : Str) : Prop := ∀ u ∈ list, Generated u ∧ rank u < rank name

theorem early_first (hgenerated : Generated u) (hfirst : rank u = .some 0)
    (hlate : .some 0 < rank v) : Generated u ∧ rank u < rank v := ⟨hgenerated, hfirst ▸ hlate⟩

theorem early_prepare (hlate : .some 0 < rank v) :
    Generated storagePrepareService ∧ rank storagePrepareService < rank v :=
  early_first generated_prepare (rank_prepare []) hlate

theorem early_device (hlate : .some 0 < rank v) : Early (requiredDevice entry) v := by
  intro u hu
  obtain ⟨hgenerated, hfirst⟩ := mem_requiredDevice hu
  exact early_first hgenerated hfirst hlate

theorem early_network (hlate : .some 0 < rank v) :
    Early (if entry.network then ["network-online".toList] else []) v := by
  intro u hu
  split_ifs at hu
  · obtain rfl := List.mem_singleton.mp hu
    exact early_first generated_network (rank_network []) hlate
  · cases hu

theorem early_parents (hparse : parseFstab source = .ok entries) (hregular : Regular entries)
    (hentry : entry ∈ activeMounts entries) :
    Early ((entry.parentTargets.filter (· ∈ activeTargets entries)).map Fstab.mountServiceName)
      entry.mountServiceName := by
  intro u hu
  obtain ⟨path, hpath, rfl⟩ := List.mem_map.mp hu
  obtain ⟨hparent, hactive⟩ := List.mem_filter.mp hpath
  obtain ⟨names, hne, htarget, -⟩ := activeMount_straight hparse hregular hentry
  obtain ⟨front, rest, hfront, hrest, rfl, rfl⟩ := mem_parentTargets htarget hparent
  obtain ⟨above, -, habove⟩ := List.mem_map.mp (of_decide_eq_true hactive)
  refine ⟨generated_mount _, ?_⟩
  rw [← habove, name_straight habove, FstabEntry.mountServiceName, name_straight htarget]
  exact rank_above hfront hrest

theorem mountDependencies_early (hparse : parseFstab source = .ok entries)
    (hregular : Regular entries) (hentry : entry ∈ activeMounts entries) :
    Early ((mountDependencies entry (activeTargets entries)).requires ++
      (mountDependencies entry (activeTargets entries)).wants ++
      (mountDependencies entry (activeTargets entries)).after) entry.mountServiceName ∧
    (mountDependencies entry (activeTargets entries)).before = [] := by
  obtain ⟨hrequires, hwants, hafter, hbefore⟩ :=
    optionWords_unordered (hregular.unordered entry (List.mem_append_left _ hentry))
  have hlate : .some 0 < rank entry.mountServiceName := by
    change .some 0 < rank ("mount-".toList ++ _)
    rw [rank_mount, WithTop.coe_lt_coe]
    exact Nat.succ_pos _
  have hparents := early_parents hparse hregular hentry
  have hnetwork := @early_network _ entry hlate
  have hdevice := @early_device _ entry hlate
  unfold mountDependencies
  dsimp only
  rw [hrequires, hwants, hafter, hbefore]
  refine ⟨fun u hu => ?_, rfl⟩
  simp only [List.append_nil, List.mem_append, List.mem_cons] at hu
  obtain ((hu | hu) | ((rfl | hu) | hu)) | (((rfl | hu) | hu) | hu) := hu
  · exact hdevice u hu
  · split_ifs at hu
    · cases hu
    · exact hparents u hu
  · exact early_prepare hlate
  · exact hnetwork u hu
  · split_ifs at hu
    · exact hparents u hu
    · cases hu
  · exact early_prepare hlate
  · exact hnetwork u hu
  · exact hdevice u hu
  · exact hparents u hu

theorem swapDependencies_early (hregular : Regular entries) (hentry : entry ∈ activeSwaps entries) :
    Early ((swapDependencies entry).requires ++ (swapDependencies entry).wants ++
      (swapDependencies entry).after) entry.swapServiceName := by
  obtain ⟨hrequires, hwants, hafter, -⟩ :=
    optionWords_unordered (hregular.unordered entry (List.mem_append_right _ hentry))
  have hlate : .some 0 < rank entry.swapServiceName := by
    change .some 0 < rank ("swap-".toList ++ _)
    rw [rank_swap, WithTop.coe_lt_coe]
    exact Nat.one_pos
  have hdevice := @early_device _ entry hlate
  unfold swapDependencies
  dsimp only
  rw [hrequires, hwants, hafter]
  intro u hu
  simp only [List.append_nil, List.mem_append, List.mem_cons, List.not_mem_nil, or_false] at hu
  obtain (hu | rfl) | rfl | hu := hu
  · exact hdevice u hu
  · exact early_prepare hlate
  · exact early_prepare hlate
  · exact hdevice u hu

theorem wanted_early : Early (wanted entries) storageProfile := by
  have htop : rank storageProfile = ⊤ := if_pos rfl
  intro u hu
  have hgenerated : Generated u := by
    obtain rfl | hu := List.mem_cons.mp hu
    · exact generated_prepare
    obtain hu | hu := List.mem_append.mp hu
    · obtain ⟨entry, -, rfl⟩ := List.mem_map.mp hu
      exact generated_mount _
    · obtain ⟨entry, -, rfl⟩ := List.mem_map.mp hu
      exact generated_swap entry
  obtain ⟨n, hn⟩ := rank_generated hgenerated
  rw [htop, hn]
  exact ⟨hgenerated, WithTop.coe_lt_top n⟩

theorem mem_named {list : DependencySet → List Str} (h : u ∈ g.named v list) :
    ∃ spec, g.services.get v = some spec ∧ u ∈ list spec.dependencies := by
  unfold DependencyGraph.named at h
  cases hspec : g.services.get v with
  | none =>
    rw [hspec] at h
    cases h
  | some spec =>
    rw [hspec] at h
    exact ⟨spec, rfl, h⟩

/-- What a service is ordered after is from its own lists, or a mount on its way. -/
theorem predecessors_cases (h : u ∈ g.predecessors v) : ∃ spec, g.services.get v = some spec ∧
    (u ∈ spec.dependencies.requires ∨ u ∈ spec.dependencies.bindsTo ∨
      u ∈ spec.dependencies.wants ∨ u ∈ spec.dependencies.after ∨
      u ∈ g.mountDependencies v ∨ u ∈ g.wantedMountDependencies v) := by
  simp only [DependencyGraph.predecessors, DependencyGraph.requiredDependencies,
    DependencyGraph.wantedDependencies, List.mem_append, mem_ofList] at h
  cases hspec : g.services.get v with
  | none =>
    simp [DependencyGraph.named, DependencyGraph.mountDependencies,
      DependencyGraph.wantedMountDependencies, hspec] at h
  | some spec =>
    simp only [DependencyGraph.named, hspec] at h
    refine ⟨spec, rfl, ?_⟩
    tauto

theorem mem_mountsOf {requested : List (List Str)} (h : u ∈ g.mountsOf v requested) :
    ∃ mount point, g.services.get u = some mount ∧ u ≠ v ∧ mount.serviceType = .mount ∧
      mount.mountWhere.bind normalizeAbsolutePath = some point ∧
      ∃ path ∈ requested, point <+: path := by
  obtain ⟨mount, hmount, hcase⟩ := contains_filterKeys.mp (mem_keys.mp h)
  simp only [ne_eq, Bool.and_eq_true, decide_eq_true_eq, Option.any_eq_true, List.any_eq_true,
    List.isPrefixOf_iff_prefix] at hcase
  obtain ⟨⟨hne, htype⟩, point, hpoint, hpath⟩ := hcase
  exact ⟨mount, point, hmount, by simpa using hne, htype, hpoint, hpath⟩

/-- A service is ordered by what has been read, and by nothing else. -/
structure Ordered (spec : ServiceSpec) (found : Dependencies) : Prop where
  requires : ∀ u, u ∈ spec.dependencies.requires ↔ u ∈ found.requires
  wants : ∀ u, u ∈ spec.dependencies.wants ↔ u ∈ found.wants
  after : ∀ u, u ∈ spec.dependencies.after ↔ u ∈ found.after
  before : ∀ u, u ∈ spec.dependencies.before ↔ u ∈ found.before
  bindsTo : spec.dependencies.bindsTo = []
  requisite : spec.dependencies.requisite = []
  requiresMountsFor : spec.requiresMountsFor = []
  wantsMountsFor : spec.wantsMountsFor = []

theorem listedIn_ok {key : String} {list words : List Str} (h : ListedIn file key list)
    (hwords : listValues file "dependencies".toList key.toList = .ok words) (u : Str) :
    u ∈ list ↔ u ∈ words := by
  obtain ⟨words', hwords', hlist⟩ := h
  obtain rfl := Except.ok.inj (hwords'.symm.trans hwords)
  exact hlist u

theorem ordered_of_depends (h : Depends spec (ListedIn file)) (hfile : HasDependencies file found) :
    Ordered spec found := by
  have hnone {key : String} {list : List Str} (hlist : ListedIn file key list)
      (hkey : key ∈ ["binds_to", "requisite", "requires_mount", "wants_mount"]) : list = [] := by
    refine List.eq_nil_iff_forall_not_mem.mpr fun u hu => ?_
    cases (listedIn_ok hlist (hfile.others key hkey) u).mp hu
  exact ⟨listedIn_ok h.requires hfile.requires, listedIn_ok h.wants hfile.wants,
    listedIn_ok h.after hfile.after, listedIn_ok h.before hfile.before, hnone h.bindsTo (by simp),
    hnone h.requisite (by simp), hnone h.requiresMountsFor (by simp), hnone h.wantsMountsFor (by simp)⟩

theorem spellsAll_of_early (list : List Str) (h : Early list v) :
    ∃ reads, SpellsAll list reads := by
  induction list with
  | nil => exact ⟨[], .nil⟩
  | cons word list ih =>
    obtain ⟨⟨hword, -⟩, hlist⟩ := List.forall_mem_cons.mp h
    obtain ⟨read, hread⟩ := generated_spelled hword
    obtain ⟨reads, hreads⟩ := ih hlist
    exact ⟨read :: reads, .cons hread hreads⟩

/-- Dependencies of which each comes before a service. -/
structure Leading (d : Dependencies) (name : Str) : Prop where
  early : Early (d.requires ++ d.wants ++ d.after) name
  before : d.before = []

theorem Leading.readAs (h : Leading d v) : ∃ found, ReadAs d found := by
  obtain ⟨requires, hrequires⟩ := spellsAll_of_early d.requires fun u hu => h.early u (by simp [hu])
  obtain ⟨wants, hwants⟩ := spellsAll_of_early d.wants fun u hu => h.early u (by simp [hu])
  obtain ⟨after, hafter⟩ := spellsAll_of_early d.after fun u hu => h.early u (by simp [hu])
  exact ⟨⟨requires, wants, after, []⟩, hrequires, hwants, hafter, by rw [h.before]; exact .nil⟩

/-- What has been read comes before the service, too. -/
theorem Leading.rank_lt (h : Leading d v) (hfound : ReadAs d found)
    (hu : u ∈ found.requires ∨ u ∈ found.wants ∨ u ∈ found.after) : rank u < rank v := by
  have hall {words reads : List Str} (hspells : SpellsAll words reads) (hu : u ∈ reads)
      (hwords : ∀ w ∈ words, w ∈ d.requires ++ d.wants ++ d.after) : rank u < rank v := by
    obtain ⟨word, hword, -, hread⟩ := hspells.right hu
    obtain ⟨hgenerated, hearly⟩ := h.early word (hwords word hword)
    exact (rank_read hgenerated hread).trans_lt hearly
  obtain hu | hu | hu := hu
  · exact hall hfound.requires hu fun w hw => by simp [hw]
  · exact hall hfound.wants hu fun w hw => by simp [hw]
  · exact hall hfound.after hu fun w hw => by simp [hw]

theorem Leading.before_nil (h : Leading d v) (hfound : ReadAs d found) : found.before = [] := by
  have hbefore := hfound.before
  rw [h.before] at hbefore
  exact List.forall₂_nil_left_iff.mp hbefore

theorem parseMount_place {name : Str} {made : StorageSpec} {place : Str}
    (h : parseMount parseDuration file name = .ok made)
    (hplace : required file "mount".toList "where".toList = .ok place) :
    made.serviceType = .mount ∧ made.mountWhere = some place := by
  unfold parseMount at h
  dsimp only at h
  obtain ⟨what, -, h⟩ := bind_eq_ok.mp h
  obtain ⟨wherePath, hwhere, h⟩ := bind_eq_ok.mp h
  obtain rfl := Except.ok.inj (hplace.symm.trans hwhere)
  obtain ⟨-, h⟩ := check_eq_ok.mp h
  obtain ⟨mode, -, h⟩ := bind_eq_ok.mp h
  obtain ⟨lazy, -, h⟩ := bind_eq_ok.mp h
  obtain ⟨force, -, h⟩ := bind_eq_ok.mp h
  obtain ⟨timeout, -, h⟩ := bind_eq_ok.mp h
  obtain rfl := pure_eq_ok.mp h
  exact ⟨rfl, rfl⟩

theorem mount_reads {name : Str} {made : StorageSpec} (hparse : parseFstab source = .ok entries)
    (hregular : Regular entries) (hentry : entry ∈ activeMounts entries)
    (hparsed : NativeFile.parse (mountService entry (activeTargets entries)) = .ok file)
    (hread : parseMount parseDuration file name = .ok made) :
    ∃ found, ReadAs (mountDependencies entry (activeTargets entries)) found ∧
      HasDependencies file found ∧ made.serviceType = .mount ∧ made.mountWhere = some entry.target := by
  obtain ⟨hearly, hbefore⟩ := mountDependencies_early hparse hregular hentry
  obtain ⟨found, hfound⟩ := Leading.readAs ⟨hearly, hbefore⟩
  have hwritten := hregular.mounts entry hentry
  have htarget : Written entry.target := hwritten ("where".toList, entry.target) (by simp [mountDirectives])
  have hne : entry.target ≠ [] := by
    intro hnil
    have habsolute := activeMount_absolute hparse hentry
    rw [hnil] at habsolute
    cases habsolute
  obtain ⟨file', hparsed', hfile, hvalues, -⟩ := mountService_parses hwritten hfound
  obtain rfl := Except.ok.inj (hparsed.symm.trans hparsed')
  have hplace : required file "mount".toList "where".toList = .ok entry.target := by
    refine required_given hne htarget ?_
    have hlower : lowercase "where".toList = "where".toList := by decide
    refine (hvalues (mountSection entry) (by simp) "where".toList).trans ?_
    rw [hlower]
    change picked _ (mountDirectives entry) = _
    rw [mount_picked]
    simp
  exact ⟨found, hfound, hfile, parseMount_place hread hplace⟩

theorem parseSwap_type {name : Str} {made : StorageSpec}
    (h : parseSwap parseDuration file name = .ok made) : made.serviceType ≠ .mount := by
  unfold parseSwap at h
  dsimp only at h
  obtain ⟨what, -, h⟩ := bind_eq_ok.mp h
  split at h
  · obtain ⟨-, h⟩ := check_eq_ok.mp h
    obtain ⟨timeout, -, h⟩ := bind_eq_ok.mp h
    obtain rfl := pure_eq_ok.mp h
    exact ServiceType.noConfusion
  · obtain ⟨timeout, -, h⟩ := bind_eq_ok.mp h
    obtain rfl := pure_eq_ok.mp h
    exact ServiceType.noConfusion

theorem swap_reads (hregular : Regular entries) (hentry : entry ∈ activeSwaps entries)
    (hparsed : NativeFile.parse (swapService entry) = .ok file) :
    ∃ found, ReadAs (swapDependencies entry) found ∧ HasDependencies file found := by
  obtain ⟨found, hfound⟩ := Leading.readAs ⟨swapDependencies_early hregular hentry, rfl⟩
  obtain ⟨file', hparsed', hfile, -⟩ := swapService_parses (hregular.swaps entry hentry) hfound
  obtain rfl := Except.ok.inj (hparsed.symm.trans hparsed')
  exact ⟨found, hfound, hfile⟩

theorem leading_profile :
    Leading ⟨[], wanted entries, (wanted entries).insertionSort (· ≤ ·), []⟩ storageProfile := by
  have hearly : Early (wanted entries) storageProfile := wanted_early
  refine ⟨fun u hu => hearly u ?_, rfl⟩
  simpa [List.mem_insertionSort] using hu

theorem profile_sections {words sorted : List Str} (hne : words ≠ []) (hsorted : sorted ≠ []) :
    fileText (serviceSection "group") [dependencySection ⟨[], words, sorted, []⟩] =
      "[service]\nkind=group\nremain_after_exit=true\n\n[dependencies]\nwants=".toList ++
        join [' '] words ++ "\nafter=".toList ++ join [' '] sorted ++ ['\n'] := by
  have hwants : pushWords "wants" words = "wants=".toList ++ join [' '] words ++ ['\n'] := by
    simp [pushWords, hne]
  have hafter : pushWords "after" sorted = "after=".toList ++ join [' '] sorted ++ ['\n'] := by
    simp [pushWords, hsorted]
  have hempty (key : String) : pushWords key [] = [] := if_pos rfl
  simp only [fileText_eq, List.flatMap_cons, List.flatMap_nil, List.append_nil, serviceSection_text,
    dependencySection_text, hwants, hafter, hempty]
  simp
theorem profileText_eq {words : List Str} (hne : words ≠ []) :
    profileText words = fileText (serviceSection "group")
      [dependencySection ⟨[], words, words.insertionSort (· ≤ ·), []⟩] := by
  have hsorted : words.insertionSort (· ≤ ·) ≠ [] := by
    intro hnil
    have hlength := congrArg List.length hnil
    rw [List.length_insertionSort] at hlength
    exact hne (List.length_eq_zero_iff.mp hlength)
  exact (profile_sections hne hsorted).symm

theorem profile_reads (hparsed : NativeFile.parse (profileText (wanted entries)) = .ok file) :
    ∃ found, ReadAs ⟨[], wanted entries, (wanted entries).insertionSort (· ≤ ·), []⟩ found ∧
      HasDependencies file found := by
  have hne : wanted entries ≠ [] := List.cons_ne_nil _ _
  obtain ⟨found, hfound⟩ := (@leading_profile entries).readAs
  rw [profileText_eq hne] at hparsed
  have hservice : (serviceSection "group").Clean :=
    serviceSection_clean (written_literal (forall_of_all (by decide)))
  have hothers : ∀ s ∈ [dependencySection ⟨[], wanted entries,
      (wanted entries).insertionSort (· ≤ ·), []⟩], s.Clean :=
    List.forall_mem_singleton.mpr (dependencySection_clean hfound)
  obtain ⟨file', hparsed', hpresent, -⟩ := parse_sections hservice hothers
    (by change ["service".toList, "dependencies".toList].Nodup; decide)
  obtain rfl := Except.ok.inj (hparsed.symm.trans hparsed')
  exact ⟨found, hfound, dependencies_read hfound (hpresent (dependencySection _) (by simp))⟩

/-- A service is a mount of the table, or no mount; what it is ordered by comes before it. -/
theorem origin_cases (hparse : parseFstab source = .ok entries) (hregular : Regular entries)
    (h : Origin parseDuration entries v spec) :
    (∃ d found, Leading d v ∧ ReadAs d found ∧ Ordered spec found) ∧
      (spec.serviceType ≠ .mount ∨ ∃ entry ∈ activeMounts entries, v = entry.mountServiceName ∧
        spec.serviceType = .mount ∧ spec.mountWhere = some entry.target) := by
  cases h with
  | mount entry hentry hnamed file made hparsed hread htype hpoint hdepends =>
    obtain ⟨hearly, hbefore⟩ := mountDependencies_early hparse hregular hentry
    obtain ⟨found, hfound, hfile, hmade, hplace⟩ :=
      mount_reads hparse hregular hentry hparsed hread
    exact ⟨⟨_, found, hnamed ▸ ⟨hearly, hbefore⟩, hfound, ordered_of_depends hdepends hfile⟩,
      .inr ⟨entry, hentry, hnamed, htype.trans hmade, hpoint.trans hplace⟩⟩
  | swap entry hentry hnamed file made hparsed hread htype hdepends =>
    obtain ⟨found, hfound, hfile⟩ := swap_reads hregular hentry hparsed
    have hmade := parseSwap_type hread
    exact ⟨⟨_, found, hnamed ▸ ⟨swapDependencies_early hregular hentry, rfl⟩, hfound,
      ordered_of_depends hdepends hfile⟩, .inl (htype.trans_ne hmade)⟩
  | profile hnamed file hparsed htype hdepends =>
    obtain ⟨found, hfound, hfile⟩ := profile_reads hparsed
    exact ⟨⟨_, found, hnamed ▸ leading_profile, hfound, ordered_of_depends hdepends hfile⟩, .inl htype⟩
  | other htype hdepends =>
    have hnone {list : List Str} (hlist : list = []) (u : Str) : u ∈ list ↔ u ∈ ([] : List Str) := by
      rw [hlist]
    exact ⟨⟨⟨[], [], [], []⟩, ⟨[], [], [], []⟩, ⟨fun u hu => absurd hu List.not_mem_nil, rfl⟩,
      ⟨.nil, .nil, .nil, .nil⟩, ⟨hnone hdepends.requires, hnone hdepends.wants, hnone hdepends.after,
        hnone hdepends.before, hdepends.bindsTo, hdepends.requisite, hdepends.requiresMountsFor,
        hdepends.wantsMountsFor⟩⟩, .inl htype⟩

theorem mountsOf_early (hparse : parseFstab source = .ok entries) (hregular : Regular entries)
    (horigin : ∀ name spec, g.services.get name = some spec → Origin parseDuration entries name spec)
    (hentry : entry ∈ activeMounts entries)
    (h : u ∈ g.mountsOf entry.mountServiceName (normalizeAbsolutePath entry.target).toList) :
    rank u < rank entry.mountServiceName := by
  obtain ⟨names, hne, htarget, hnormal⟩ := activeMount_straight hparse hregular hentry
  obtain ⟨mount, point, hmount, hother, htype, hpoint, path, hpath, hprefix⟩ := mem_mountsOf h
  rw [hnormal, Option.mem_toList] at hpath
  obtain rfl := Option.some.inj hpath
  obtain ⟨-, hplain | ⟨above, habove, hnamed, -, hwhere⟩⟩ :=
    origin_cases hparse hregular (horigin u mount hmount)
  · exact absurd htype hplain
  obtain ⟨front, hfront, hfrontTarget, hfrontNormal⟩ := activeMount_straight hparse hregular habove
  rw [hwhere, Option.bind_some, hfrontNormal] at hpoint
  obtain rfl := Option.some.inj hpoint
  obtain ⟨rest, rfl⟩ := hprefix
  have hrest : rest ≠ [] := by
    rintro rfl
    rw [List.append_nil] at htarget
    apply hother
    rw [hnamed, FstabEntry.mountServiceName, FstabEntry.mountServiceName, hfrontTarget, htarget]
  rw [hnamed, FstabEntry.mountServiceName, FstabEntry.mountServiceName, name_straight hfrontTarget,
    name_straight htarget]
  exact rank_above hfront hrest

theorem mountDependencies_plain (hspec : g.services.get v = some spec) (hordered : Ordered spec found) :
    g.wantedMountDependencies v = [] ∧
      (spec.serviceType ≠ .mount → g.mountDependencies v = []) := by
  have hnone : g.mountsOf v [] = [] := by
    refine List.eq_nil_iff_forall_not_mem.mpr fun u hu => ?_
    obtain ⟨-, -, -, -, -, -, path, hpath, -⟩ := mem_mountsOf hu
    cases hpath
  constructor
  · simp only [DependencyGraph.wantedMountDependencies, hspec, hordered.wantsMountsFor,
      DependencyGraph.expandedMounts, List.map_nil, List.filterMap_nil, hnone]
  · intro hplain
    simp only [DependencyGraph.mountDependencies, hspec, hordered.requiresMountsFor,
      DependencyGraph.expandedMounts, List.map_nil, List.filterMap_nil, if_neg hplain,
      Option.toList_none, List.append_nil, hnone]

theorem before_early (hparse : parseFstab source = .ok entries) (hregular : Regular entries)
    (horigin : ∀ name spec, g.services.get name = some spec → Origin parseDuration entries name spec)
    (h : Before g u v) : rank u < rank v := by
  obtain hpredecessor | hbefore | hrequisite := h
  · obtain ⟨spec, hspec, hcases⟩ := predecessors_cases hpredecessor
    obtain ⟨⟨d, found, hleading, hfound, hordered⟩, hkind⟩ :=
      origin_cases hparse hregular (horigin v spec hspec)
    obtain ⟨hwanted, hmounts⟩ := mountDependencies_plain hspec hordered
    rw [hordered.requires, hordered.bindsTo, hordered.wants, hordered.after, hwanted] at hcases
    obtain hu | hu | hu | hu | hu | hu := hcases
    · exact hleading.rank_lt hfound (.inl hu)
    · cases hu
    · exact hleading.rank_lt hfound (.inr (.inl hu))
    · exact hleading.rank_lt hfound (.inr (.inr hu))
    · obtain hplain | ⟨entry, hentry, rfl, htype, hpoint⟩ := hkind
      · rw [hmounts hplain] at hu
        cases hu
      · apply mountsOf_early hparse hregular horigin hentry
        simpa only [DependencyGraph.mountDependencies, hspec, hordered.requiresMountsFor,
          DependencyGraph.expandedMounts, List.map_nil, List.filterMap_nil, if_pos htype, hpoint,
          Option.bind_some, List.nil_append] using hu
    · cases hu
  · obtain ⟨spec, hspec, hmem⟩ := mem_named hbefore
    obtain ⟨⟨d, found, hleading, hfound, hordered⟩, -⟩ :=
      origin_cases hparse hregular (horigin u spec hspec)
    rw [hordered.before, hleading.before_nil hfound] at hmem
    cases hmem
  · obtain ⟨spec, hspec, hmem⟩ := mem_named hrequisite
    obtain ⟨⟨d, found, -, -, hordered⟩, -⟩ := origin_cases hparse hregular (horigin v spec hspec)
    rw [hordered.requisite] at hmem
    cases hmem

/-- The mount of one service is on the way to that of another. -/
def Above (g : DependencyGraph) (u v : Str) : Prop :=
  ∃ upper lower p q, g.services.get u = some upper ∧ g.services.get v = some lower ∧
    upper.serviceType = .mount ∧ lower.serviceType = .mount ∧
    upper.mountWhere = some p ∧ lower.mountWhere = some q ∧
    components p <+: components q ∧ components p ≠ components q

theorem above_before (hparse : parseFstab source = .ok entries) (hregular : Regular entries)
    (horigin : ∀ name spec, g.services.get name = some spec → Origin parseDuration entries name spec)
    (h : Above g u v) : Before g u v := by
  obtain ⟨upper, lower, p, q, hupper, hlower, htype, htype', hp, hq, hprefix, hne⟩ := h
  have hnames : ∀ name spec target, g.services.get name = some spec → spec.serviceType = .mount →
      spec.mountWhere = some target → ∃ names : List Str,
        components target = .rootDir :: names.map .normal ∧
          normalizeAbsolutePath target = some names := by
    intro name spec target hspec hmount hwhere
    obtain ⟨-, hplain | ⟨entry, hentry, -, -, hpoint⟩⟩ :=
      origin_cases hparse hregular (horigin name spec hspec)
    · exact absurd hmount hplain
    obtain rfl := Option.some.inj (hwhere.symm.trans hpoint)
    obtain ⟨names, -, htarget, hnormal⟩ := activeMount_straight hparse hregular hentry
    exact ⟨names, htarget, hnormal⟩
  obtain ⟨front, hfront, hfrontNormal⟩ := hnames u upper p hupper htype hp
  obtain ⟨names, hnames, hnormal⟩ := hnames v lower q hlower htype' hq
  have hinjective : Function.Injective Component.normal := fun _ _ => Component.normal.inj
  have hshorter : front <+: names := by
    rw [hfront, hnames, List.cons_prefix_cons, List.prefix_map_iff_of_injective hinjective] at hprefix
    exact hprefix.2
  have hother : u ≠ v := by
    rintro rfl
    obtain rfl := Option.some.inj (hupper.symm.trans hlower)
    exact hne (congrArg components (Option.some.inj (hp.symm.trans hq)))
  refine .inl (List.mem_append_left _ (List.mem_append_left _ (mem_ofList.mpr
    (List.mem_append_right _ ?_))))
  simp only [DependencyGraph.mountDependencies, hlower, if_pos htype', hq, Option.bind_some, hnormal]
  refine mem_keys.mpr (contains_filterKeys.mpr ⟨upper, hupper, ?_⟩)
  simp [hother, htype, hp, hfrontNormal, hshorter]

/-- The services of a regular table can always be ordered, whichever of them are selected, and
each mount then comes after the mounts on its way. -/
theorem generated_ordered (parseDuration : Str → Str → Except ConfigError Duration) (source : Str)
    (entries : List FstabEntry) (g : DependencyGraph) (hparse : parseFstab source = .ok entries)
    (hregular : Regular entries)
    (horigin : ∀ name spec, g.services.get name = some spec → Origin parseDuration entries name spec)
    (selected : BTreeSet Str) : ∃ order, g.topologicalOrder selected = .ok order ∧
      (∀ name, name ∈ order ↔ selected.contains name) ∧
      ∀ u v, u ∈ order → v ∈ order → Above g u v → order.idxOf u < order.idxOf v := by
  have hacyclic : Acyclic (BeforeIn g selected) :=
    acyclic_of_rank rank fun u v h => before_early hparse hregular horigin h.2.2
  obtain ⟨order, horder⟩ := topologicalOrder_of_acyclic g selected hacyclic
  obtain ⟨-, hmem, hbefore, -⟩ := topologicalOrder_ok g selected horder
  exact ⟨order, horder, hmem, fun u v hu hv h =>
    hbefore u v hu hv (above_before hparse hregular horigin h)⟩

end

/-- A disk, and another one on it. -/
def nestedTable : Str := "/dev/vda /srv/my-data ext4 rw\n/dev/vdb /srv/my-data/sub ext4 rw\n".toList

def upperDisk : FstabEntry :=
  ⟨"/dev/vda".toList, "/srv/my-data".toList, "ext4".toList, ["rw".toList], 0, 0, 1⟩

def lowerDisk : FstabEntry :=
  ⟨"/dev/vdb".toList, "/srv/my-data/sub".toList, "ext4".toList, ["rw".toList], 0, 0, 2⟩

def nestedEntries : List FstabEntry := [upperDisk, lowerDisk]

def upperFound : Dependencies where
  requires := ["device-dev-vda".toList]
  wants := [storagePrepareService]
  after := [storagePrepareService, "device-dev-vda".toList]
  before := []

/-- The disk requires a mount that is not the one that it lies in. -/
def lowerFound : Dependencies where
  requires := ["device-dev-vdb".toList, "mount-srv-my-data".toList]
  wants := [storagePrepareService]
  after := [storagePrepareService, "device-dev-vdb".toList, "mount-srv-my-data".toList]
  before := []

def mountOf (entry : FstabEntry) (found : Dependencies) : ServiceSpec where
  name := entry.mountServiceName
  program := "mount".toList
  serviceType := .mount
  mountWhere := some entry.target
  dependencies :=
    { requires := found.requires, wants := found.wants, after := found.after, before := found.before }

def nestedGraph : DependencyGraph :=
  ⟨(empty.insert upperDisk.mountServiceName (mountOf upperDisk upperFound)).insert
    lowerDisk.mountServiceName (mountOf lowerDisk lowerFound),
    ⟨"/run".toList, "/var/lib".toList, "/root".toList⟩⟩

theorem nested_regular : Regular nestedEntries := by
  refine ⟨forall_of_all (by decide), fun entry hentry => ?_, fun entry hentry d hd => ?_,
    fun entry hentry => ?_⟩
  · have hplain : ∀ entry ∈ activeMounts nestedEntries ++ activeSwaps nestedEntries,
        (entry.options.all fun option => !"x-fractald.".toList.isPrefixOf option) = true :=
      forall_of_all (by decide)
    exact unordered_of_options (hplain entry hentry)
  · have hliteral : ∀ entry ∈ activeMounts nestedEntries,
        ((mountDirectives entry).all fun d => d.2.all fun c => decide (Literal c)) = true :=
      forall_of_all (by decide)
    exact written_literal (forall_of_all (List.all_eq_true.mp (hliteral entry hentry) d hd))
  · have hnone : activeSwaps nestedEntries = [] := by decide
    rw [hnone] at hentry
    cases hentry

theorem upper_readAs :
    ReadAs (mountDependencies upperDisk (activeTargets nestedEntries)) upperFound := by
  have hdependencies : mountDependencies upperDisk (activeTargets nestedEntries) =
      ⟨upperFound.requires, upperFound.wants, upperFound.after, []⟩ := by
    rw [Dependencies.mk.injEq]
    decide
  rw [hdependencies]
  exact ⟨spellsAll_of_all (by decide), spellsAll_of_all (by decide), spellsAll_of_all (by decide), .nil⟩

theorem lower_readAs :
    ReadAs (mountDependencies lowerDisk (activeTargets nestedEntries)) lowerFound := by
  have hdependencies : mountDependencies lowerDisk (activeTargets nestedEntries) =
      ⟨["device-dev-vdb".toList, "mount-srv-my\\x2ddata".toList], [storagePrepareService],
        [storagePrepareService, "device-dev-vdb".toList, "mount-srv-my\\x2ddata".toList], []⟩ := by
    rw [Dependencies.mk.injEq]
    decide
  have hparent : "mount-srv-my\\x2ddata".toList ≠ [] ∧
      Spells "mount-srv-my\\x2ddata".toList "mount-srv-my-data".toList := by
    refine ⟨by decide, ?_⟩
    have hspells := (spells_of_all (w := "mount-".toList) (by decide)).2.append
      (spells_parts ["srv".toList, "my-data".toList])
    have hparts : join ['-'] (["srv".toList, "my-data".toList].map byteChars) = "srv-my-data".toList := by
      decide
    rwa [hparts] at hspells
  have hdevice := spells_of_all (w := "device-dev-vdb".toList) (by decide)
  rw [hdependencies]
  exact ⟨.cons hdevice (.cons hparent .nil), spellsAll_of_all (by decide),
    .cons (spells_of_all (by decide)) (.cons hdevice (.cons hparent .nil)), .nil⟩

theorem nested_parses : parseFstab nestedTable = .ok nestedEntries := by decide

theorem nested_plain {entry : FstabEntry} (hentry : entry ∈ nestedEntries) :
    entry ∈ activeMounts nestedEntries ∧ Plain entry ∧ PlainMount entry ∧ timeoutOf entry = none := by
  have hactive : ∀ entry ∈ nestedEntries, entry ∈ activeMounts nestedEntries :=
    forall_of_all (by decide)
  have hfields : ∀ entry ∈ nestedEntries, optionsOf entry = some "rw".toList ∧
      typeOf entry = some "ext4".toList ∧ timeoutOf entry = none ∧ entry.source ≠ [] ∧
        entry.mountOptions = ["rw".toList] ∧ entry.target.head? = some '/' ∧
          (entry.target.all fun c => decide (Literal c)) = true := forall_of_all (by decide)
  obtain ⟨hoptions, htype, htimeout, hsource, hmount, habsolute, htarget⟩ := hfields entry hentry
  have hwritten : Written entry.source := nested_regular.mounts entry (hactive entry hentry)
    ("what".toList, entry.source) (by simp [mountDirectives])
  refine ⟨hactive entry hentry, ⟨⟨hsource, hwritten⟩, ?_, fun value hvalue => ?_⟩,
    ⟨habsolute, forall_of_all htarget, fun value hvalue => ?_, by simp [htimeout]⟩, htimeout⟩
  · rw [hmount]
    exact forall_of_all (by decide)
  · obtain rfl := Option.some.inj (hoptions.symm.trans hvalue)
    exact written_literal (forall_of_all (by decide))
  · obtain rfl := Option.some.inj (htype.symm.trans hvalue)
    exact ⟨by decide, written_literal (forall_of_all (by decide))⟩

theorem nested_origin {entry : FstabEntry} {found : Dependencies} (hentry : entry ∈ nestedEntries)
    (hfound : ReadAs (mountDependencies entry (activeTargets nestedEntries)) found) :
    Origin (fun _ _ => .ok 0) nestedEntries entry.mountServiceName (mountOf entry found) := by
  obtain ⟨hactive, hplain, hplainMount, htimeout⟩ := nested_plain hentry
  obtain ⟨file, hparsed, hfile, hvalues, -⟩ :=
    mountService_parses (nested_regular.mounts entry hactive) hfound
  have hread : parseMount (fun _ _ => .ok 0) file entry.mountServiceName =
      .ok (mountSpec entry.mountServiceName entry none) :=
    parseMount_ok hplain hplainMount (by rw [htimeout]; rfl) (hvalues (mountSection entry) (by simp))
  have hlisted {key : String} {list : List Str}
      (h : listValues file "dependencies".toList key.toList = .ok list) : ListedIn file key list :=
    ⟨list, h, fun u => Iff.rfl⟩
  exact .mount entry hactive rfl file _ hparsed hread rfl rfl
    ⟨hlisted hfile.requires, hlisted hfile.wants, hlisted hfile.after, hlisted hfile.before,
      hlisted (hfile.others _ (by simp)), hlisted (hfile.others _ (by simp)),
      hlisted (hfile.others _ (by simp)), hlisted (hfile.others _ (by simp))⟩

theorem nestedGraph_origin {name : Str} {spec : ServiceSpec}
    (h : nestedGraph.services.get name = some spec) :
    Origin (fun _ _ => .ok 0) nestedEntries name spec := by
  simp only [nestedGraph, get_insert, get_empty] at h
  split_ifs at h with hlower hupper
  · obtain rfl := Option.some.inj h
    exact hlower ▸ nested_origin (by simp [nestedEntries]) lower_readAs
  · obtain rfl := Option.some.inj h
    exact hupper ▸ nested_origin (by simp [nestedEntries]) upper_readAs

theorem generated_ordered_nested :
    ∃ order, nestedGraph.topologicalOrder (ofList nestedGraph.services.keys) = .ok order ∧
      (∀ name, name ∈ order ↔ (ofList nestedGraph.services.keys).contains name) ∧
      ∀ u v, u ∈ order → v ∈ order → Above nestedGraph u v → order.idxOf u < order.idxOf v :=
  generated_ordered (fun _ _ => .ok 0) nestedTable nestedEntries nestedGraph nested_parses
    nested_regular (fun _ _ => nestedGraph_origin) _

end FractalD.Storage.Ordering
