import FractalD.Daemon.Discovery
import FractalD.Machine.Result
import Mathlib.Data.List.ReduceOption

namespace FractalD.Daemon.Overlay

open FractalD.Control.State FractalD.Core.Spec FractalD.Daemon.Discovery FractalD.Machine.CString
open FractalD.Machine.OrderedMap FractalD.Machine.Result FractalD.Machine.Text
open FractalD.Packages.Sync

/-- A manager of root whose environment names no directories. -/
structure RootManager (env : Environment) : Prop where
  root : env.root = true
  services : env.var "FRACTALD_SERVICE_DIR".toList = none
  storage : env.var "FRACTALD_STORAGE_SERVICE_DIR".toList = none
  runtime : env.var "FRACTALD_RUNTIME_DIR".toList = none
  session : env.var "XDG_RUNTIME_DIR".toList = none

def runServices : Str := "/run/fractald/services".toList

def etcServices : Str := "/etc/fractald/services".toList

theorem rootDirectories_eq :
    rootDirectories = rootDirectories.take 4 ++ [runServices] ++ [etcServices] := rfl

theorem storageDirectory_eq {env : Environment} (henv : RootManager env) :
    nativeStorageServiceDirectory env = some runServices := by
  unfold nativeStorageServiceDirectory runtimeDirectory
  simp only [henv.storage, henv.runtime, henv.session, henv.root, true_or, if_true]
  rfl

/-- The runtime directory is searched twice: in its place, and before all others. -/
theorem serviceDirectories_eq {env : Environment} (henv : RootManager env) :
    serviceDirectories env = rootDirectories ++ [runServices] := by
  rw [serviceDirectories, storageDirectory_eq henv, henv.services, henv.root]
  rfl

section

variable (files : Files)

/-- What the file of a name holds in a directory. -/
def descriptor (fileName directory : Str) : Option (Except Str Str) :=
  match metadata files ⟨directory, fileName⟩ with
  | some (.file source) => some source
  | _ => none

/-- All that is called a descriptor in the directories is a regular file. -/
def Regular (directories : List Str) : Prop :=
  ∀ directory ∈ directories, ∀ fileName entry, svcSuffix <:+ fileName →
    metadata files ⟨directory, fileName⟩ = some entry → ∃ source, entry = .file source

def highest (directories : List Str) (name : Str) : Option (Except Str Str) :=
  directories.reverse.findSome? (descriptor files (name ++ svcSuffix))

def Described (directories : List Str) (name : Str) : Prop :=
  ∃ directory ∈ directories, (descriptor files (name ++ svcSuffix) directory).isSome

end

section

variable {files : Files} {directories : List Str} {fileName name : Str}

theorem highest_isSome : (highest files directories name).isSome ↔
    Described files directories name := by
  simp [highest, Described, List.findSome?_isSome_iff]

theorem highest_append (directory : Str) : highest files (directories ++ [directory]) name =
    (descriptor files (name ++ svcSuffix) directory).or (highest files directories name) := by
  rw [highest, List.reverse_append, List.reverse_singleton, List.singleton_append,
    List.findSome?_cons]
  cases descriptor files (name ++ svcSuffix) directory <;> rfl

theorem Regular.append (h : Regular files directories) {directory : Str}
    (hmem : directory ∈ directories) : Regular files (directories ++ [directory]) := by
  intro d hd
  apply h
  obtain hd | hd := List.mem_append.mp hd
  · exact hd
  · rwa [List.mem_singleton.mp hd]

theorem metadata_eq_of_regular (h : Regular files directories) {directory : Str}
    (hmem : directory ∈ directories) (hsvc : svcSuffix <:+ fileName) :
    metadata files ⟨directory, fileName⟩ =
      (descriptor files fileName directory).map Entry.file := by
  unfold descriptor
  cases hm : metadata files ⟨directory, fileName⟩ with
  | none => rfl
  | some entry =>
    obtain ⟨source, rfl⟩ := h directory hmem fileName entry hsvc hm
    rfl

theorem findIn_eq (h : Regular files directories) (hsvc : svcSuffix <:+ fileName) :
    ∃ path, findIn files fileName directories = .ok path ∧
      path.map (readToString files) = directories.findSome? (descriptor files fileName) := by
  induction directories with
  | nil => exact ⟨none, rfl, rfl⟩
  | cons directory directories ih =>
    have hmeta := metadata_eq_of_regular h List.mem_cons_self hsvc
    rw [List.findSome?_cons]
    dsimp only [findIn]
    rw [hmeta]
    cases hd : descriptor files fileName directory with
    | none => exact ih fun d hd => h d (List.mem_cons_of_mem _ hd)
    | some source =>
      refine ⟨some ⟨directory, fileName⟩, rfl, ?_⟩
      rw [hd] at hmeta
      simp [readToString, hmeta]

theorem findNativeServicePath_eq {env : Environment} (h : Regular files (serviceDirectories env))
    (hname : ¬ svcSuffix <:+ name) :
    ∃ path, findNativeServicePath files env name = .ok path ∧
      path.map (readToString files) = highest files (serviceDirectories env) name := by
  have hnative : nativeServiceName name = name := by
    rw [nativeServiceName, removeSuffix_none.mpr hname]
    rfl
  have hreverse : Regular files (serviceDirectories env).reverse := fun d hd =>
    h d (List.mem_reverse.mp hd)
  rw [findNativeServicePath, hnative]
  exact findIn_eq hreverse (List.suffix_append name svcSuffix)

theorem discoverEntry_ok {directory : Str} {entry : Str × Entry}
    (h : svcSuffix <:+ entry.1 → ∃ source, entry.2 = .file source) (names : BTreeSet Str) :
    ∃ names', discoverEntry directory names entry = .ok names' ∧ ∀ name, names'.contains name ↔
      names.contains name ∨ svcSuffix <:+ entry.1 ∧ trimEndMatches svcSuffix entry.1 = name := by
  obtain ⟨fileName, entry⟩ := entry
  by_cases hsvc : svcSuffix.isSuffixOf fileName
  · have hsuffix := List.isSuffixOf_iff_suffix.mp hsvc
    obtain ⟨source, rfl⟩ := h hsuffix
    refine ⟨names.add (trimEndMatches svcSuffix fileName), by rw [discoverEntry, hsvc]; rfl, ?_⟩
    intro name
    rw [contains_add, or_comm, @eq_comm _ name, and_iff_right hsuffix]
  · have hsuffix : ¬ svcSuffix <:+ fileName := fun hs => hsvc (List.isSuffixOf_iff_suffix.mpr hs)
    refine ⟨names, if_pos (by rw [Bool.not_eq_true _ |>.mp hsvc]; rfl), fun name => ?_⟩
    rw [or_iff_left fun hn => hsuffix hn.1]

/-- A directory adds the names of its descriptors, trimmed. -/
theorem discoverIn_ok {directory : Str} (h : Regular files directories)
    (hmem : directory ∈ directories) (names : BTreeSet Str) :
    ∃ names', discoverIn files names directory = .ok names' ∧ ∀ name, names'.contains name ↔
      names.contains name ∨ ∃ base, (descriptor files (base ++ svcSuffix) directory).isSome ∧
        trimEndMatches svcSuffix (base ++ svcSuffix) = name := by
  unfold discoverIn
  have hdescriptor {base : Str} : (descriptor files (base ++ svcSuffix) directory).isSome ↔
      (metadata files ⟨directory, base ++ svcSuffix⟩).isSome := by
    rw [metadata_eq_of_regular h hmem (List.suffix_append base svcSuffix), Option.isSome_map]
  cases hd : files directory with
  | none =>
    have hmeta {fileName : Str} : metadata files ⟨directory, fileName⟩ = none := by
      simp [metadata, hd]
    exact ⟨names, rfl, by simp [hdescriptor, hmeta]⟩
  | some entries =>
    have hmeta {fileName : Str} : metadata files ⟨directory, fileName⟩ = entries.get fileName := by
      simp [metadata, hd]
    have hfold := foldlM_collects (f := discoverEntry directory)
      (p := fun entry name => svcSuffix <:+ entry.1 ∧ trimEndMatches svcSuffix entry.1 = name)
      (l := entries.entries) (fun entry hentry => discoverEntry_ok fun hsvc =>
        h directory hmem entry.1 entry.2 hsvc (hmeta.trans (get_eq_some.mpr hentry))) names
    obtain ⟨names', hnames, hcontains⟩ := hfold
    refine ⟨names', hnames, fun name => ?_⟩
    rw [hcontains]
    apply or_congr_right
    constructor
    · rintro ⟨entry, hentry, ⟨base, hbase⟩, htrim⟩
      refine ⟨base, ?_, by rw [hbase, htrim]⟩
      rw [hdescriptor, hmeta, hbase, get_eq_some.mpr hentry]
      rfl
    · rintro ⟨base, hsome, htrim⟩
      rw [hdescriptor, hmeta, Option.isSome_iff_exists] at hsome
      obtain ⟨entry, hentry⟩ := hsome
      exact ⟨_, get_eq_some.mp hentry, List.suffix_append base svcSuffix, htrim⟩

theorem discoverServiceNames_ok (h : Regular files directories) :
    ∃ names, discoverServiceNames files directories = .ok names ∧ ∀ name, names.contains name ↔
      ∃ base, Described files directories base ∧
        trimEndMatches svcSuffix (base ++ svcSuffix) = name := by
  obtain ⟨names, hnames, hcontains⟩ := foldlM_collects (l := directories)
    (fun directory hmem => discoverIn_ok h hmem) empty
  refine ⟨names, hnames, fun name => ?_⟩
  rw [hcontains, contains_iff]
  simp only [get_empty, reduceCtorEq, exists_false, false_or, Described]
  constructor
  · rintro ⟨directory, hmem, base, hbase, htrim⟩
    exact ⟨base, ⟨directory, hmem, hbase⟩, htrim⟩
  · rintro ⟨base, ⟨directory, hmem, hbase⟩, htrim⟩
    exact ⟨directory, hmem, base, hbase, htrim⟩

end

section

variable (parser : ServiceParser) (files : Files) (masks : Markers)

/-- What the documentation says of the services that are loaded: those of the descriptors,
each from the highest directory that has it, without the masked ones. -/
structure Overlays (specs : List ServiceSpec) : Prop where
  once : (specs.map (·.name)).Nodup
  complete : ∀ name, Described files rootDirectories name → isMasked name masks ≠ .ok true →
    ∃ spec ∈ specs, spec.name = name
  mem_iff : ∀ name spec, spec ∈ specs ∧ spec.name = name ↔ isMasked name masks ≠ .ok true ∧
    ∃ source, highest files rootDirectories name = some (.ok source) ∧
      parser.parse source name = .ok spec

/-- The descriptor that is read: that of the runtime directory before all others. -/
def current (name : Str) : Option (Except Str Str) :=
  (descriptor files (name ++ svcSuffix) runServices).or (highest files rootDirectories name)

/-- The directories for which the documentation holds. -/
structure Aligned : Prop where
  loadable : ∀ name source, ¬ svcSuffix <:+ name → current files name = some source →
    (∃ spec, source.bind (parser.parse · name) = .ok spec) ∧ ∃ masked, isMasked name masks = .ok masked
  plain : ∀ name, Described files rootDirectories name → isMasked name masks ≠ .ok true →
    ¬ svcSuffix <:+ name
  agree : ∀ name runtime etc, isMasked name masks ≠ .ok true →
    descriptor files (name ++ svcSuffix) runServices = some runtime →
    descriptor files (name ++ svcSuffix) etcServices = some etc →
    runtime.bind (parser.parse · name) = etc.bind (parser.parse · name)

end

section

variable {parser : ServiceParser} {files : Files} {masks : Markers} {env : Environment}
variable {name : Str}

theorem current_eq (henv : RootManager env) :
    highest files (serviceDirectories env) name = current files name := by
  rw [serviceDirectories_eq henv, highest_append, current]

theorem current_isSome : (current files name).isSome ↔ Described files rootDirectories name := by
  rw [current, Option.isSome_or, Bool.or_eq_true, highest_isSome, or_iff_right_iff_imp]
  intro h
  exact ⟨runServices, by decide, h⟩

theorem regular_all (henv : RootManager env) (h : Regular files rootDirectories) :
    Regular files (serviceDirectories env) := by
  rw [serviceDirectories_eq henv]
  exact h.append (by decide)

theorem described_all (henv : RootManager env) : Described files (serviceDirectories env) name ↔
    Described files rootDirectories name := by
  rw [← highest_isSome, current_eq henv, current_isSome]

/-- What comes of a name that does not end like a descriptor. -/
theorem loadServiceSpec_ok (henv : RootManager env) (h : Regular files rootDirectories)
    (hname : ¬ svcSuffix <:+ name) {spec : Option ServiceSpec} :
    loadServiceSpec parser files masks env name = .ok spec ↔
      match current files name with
      | none => spec = none
      | some source => ∃ s masked, source.bind (parser.parse · name) = .ok s ∧
          isMasked name masks = .ok masked ∧ (if masked then none else some s) = spec := by
  obtain ⟨path, hpath, hread⟩ := findNativeServicePath_eq (regular_all henv h) hname
  rw [current_eq henv] at hread
  rw [loadServiceSpec, hpath, ← hread]
  cases path with
  | none => simp [bind, Except.bind, pure, Except.pure, eq_comm]
  | some path =>
    change (do
      let source ← (readToString files path).mapError _
      let s ← (parser.parse source name).mapError _
      let masked ← (isMasked name masks).mapError _
      pure (if masked then none else some s)) = _ ↔ _
    simp only [bind_eq_ok, mapError_eq_ok, pure_eq_ok, Option.map_some]
    cases readToString files path with
    | error e => simp [Except.bind]
    | ok source => simp [Except.bind]

theorem current_parses (hagree : ∀ runtime etc,
      descriptor files (name ++ svcSuffix) runServices = some runtime →
      descriptor files (name ++ svcSuffix) etcServices = some etc →
      runtime.bind (parser.parse · name) = etc.bind (parser.parse · name)) :
    (current files name).map (·.bind (parser.parse · name)) =
      (highest files rootDirectories name).map (·.bind (parser.parse · name)) := by
  rw [current, rootDirectories_eq, highest_append, highest_append]
  cases hr : descriptor files (name ++ svcSuffix) runServices with
  | none => rfl
  | some runtime =>
    cases he : descriptor files (name ++ svcSuffix) etcServices with
    | none => rfl
    | some etc => exact congrArg some (hagree runtime etc hr he)

section

variable {names : BTreeSet Str} {loaded : List (Option ServiceSpec)}

theorem loadServiceSpecs_ok {specs : List ServiceSpec}
    (hnames : discoverServiceNames files (serviceDirectories env) = .ok names) :
    loadServiceSpecs parser files masks env = .ok specs ↔
      ∃ loaded : List (Option ServiceSpec), names.keys.map (loadServiceSpec parser files masks env) = loaded.map Except.ok ∧
        loaded.reduceOption = specs := by
  rw [loadServiceSpecs, hnames]
  change List.reduceOption <$> names.keys.mapM (loadServiceSpec parser files masks env) = _ ↔ _
  simp only [map_eq_ok, mapM_eq_ok]

theorem mem_reduceOption (hloaded : names.keys.map (loadServiceSpec parser files masks env) =
      loaded.map Except.ok) {spec : ServiceSpec} : spec ∈ loaded.reduceOption ↔
    ∃ name, names.contains name ∧ loadServiceSpec parser files masks env name = .ok (some spec) := by
  rw [List.reduceOption_mem_iff]
  have hmem : some spec ∈ loaded ↔ Except.ok (some spec) ∈
      names.keys.map (loadServiceSpec parser files masks env) := by
    rw [hloaded]
    simp
  rw [hmem, List.mem_map]
  simp only [mem_keys]

theorem name_of_loadServiceSpec {spec : ServiceSpec}
    (h : loadServiceSpec parser files masks env name = .ok (some spec)) : spec.name = name := by
  obtain ⟨path, -, h⟩ := bind_eq_ok.mp h
  cases path with
  | none => cases h
  | some path =>
    obtain ⟨source, -, h⟩ := bind_eq_ok.mp h
    obtain ⟨s, hs, h⟩ := bind_eq_ok.mp h
    obtain ⟨masked, -, h⟩ := bind_eq_ok.mp h
    cases masked with
    | true => cases h
    | false =>
      obtain rfl : s = spec := by
        cases h
        rfl
      exact (parser.names (mapError_eq_ok.mp hs)).1

theorem names_sublist {l : List Str} {loaded : List (Option ServiceSpec)}
    (hloaded : l.map (loadServiceSpec parser files masks env) = loaded.map Except.ok) :
    (loaded.reduceOption.map (·.name)).Sublist l := by
  induction l generalizing loaded with
  | nil =>
    obtain rfl : loaded = [] := by simpa [eq_comm] using hloaded
    exact List.Sublist.refl _
  | cons name l ih =>
    cases loaded with
    | nil => cases hloaded
    | cons spec loaded =>
      obtain ⟨hspec, hrest⟩ := List.cons.inj hloaded
      cases spec with
      | none => exact (ih hrest).cons name
      | some spec =>
        rw [List.reduceOption_cons_of_some, List.map_cons, name_of_loadServiceSpec hspec]
        exact (ih hrest).cons_cons name

end

theorem exists_load (henv : RootManager env) (h : Regular files rootDirectories)
    (ha : Aligned parser files masks) (hname : ¬ svcSuffix <:+ name) :
    ∃ spec, loadServiceSpec parser files masks env name = .ok spec := by
  cases hc : current files name with
  | none =>
    refine ⟨none, (loadServiceSpec_ok henv h hname).mpr ?_⟩
    rw [hc]
  | some source =>
    obtain ⟨⟨spec, hspec⟩, masked, hmasked⟩ := ha.loadable name source hname hc
    refine ⟨if masked then none else some spec, (loadServiceSpec_ok henv h hname).mpr ?_⟩
    rw [hc]
    exact ⟨spec, masked, hspec, hmasked, rfl⟩

theorem load_some_iff (henv : RootManager env) (h : Regular files rootDirectories)
    (hname : ¬ svcSuffix <:+ name) {spec : ServiceSpec} :
    loadServiceSpec parser files masks env name = .ok (some spec) ↔
      isMasked name masks = .ok false ∧
        (current files name).map (·.bind (parser.parse · name)) = some (.ok spec) := by
  rw [loadServiceSpec_ok henv h hname]
  cases current files name with
  | none => simp
  | some source =>
    simp only [Option.map_some, Option.some.injEq]
    constructor
    · rintro ⟨s, masked, hs, hmasked, hspec⟩
      cases masked with
      | true => cases hspec
      | false =>
        obtain rfl := Option.some.inj hspec
        exact ⟨hmasked, hs⟩
    · rintro ⟨hmasked, hs⟩
      exact ⟨spec, false, hs, hmasked, rfl⟩

theorem exists_names (henv : RootManager env) (h : Regular files rootDirectories) :
    ∃ names, discoverServiceNames files (serviceDirectories env) = .ok names ∧
      (∀ name, names.contains name → ¬ svcSuffix <:+ name) ∧
      ∀ name, Described files rootDirectories name → ¬ svcSuffix <:+ name → names.contains name := by
  obtain ⟨names, hnames, hcontains⟩ := discoverServiceNames_ok (regular_all henv h)
  refine ⟨names, hnames, fun name hname => ?_, fun name hd hname => ?_⟩
  · obtain ⟨base, -, rfl⟩ := (hcontains name).mp hname
    exact trimEndMatches_ends (by decide) _
  · exact (hcontains name).mpr ⟨name, (described_all henv).mpr hd,
      trimEndMatches_append (by decide) hname⟩

theorem aligned_of_overlays (henv : RootManager env) (h : Regular files rootDirectories)
    {specs : List ServiceSpec} (hload : loadServiceSpecs parser files masks env = .ok specs)
    (ho : Overlays parser files masks specs) : Aligned parser files masks := by
  obtain ⟨names, hnames, hdiscovered, hread⟩ := exists_names henv h
  obtain ⟨loaded, hloaded, rfl⟩ := (loadServiceSpecs_ok hnames).mp hload
  refine ⟨?_, ?_, ?_⟩
  · intro name source hname hc
    have hd : Described files rootDirectories name := current_isSome.mp (by rw [hc]; rfl)
    have hmem : loadServiceSpec parser files masks env name ∈ loaded.map Except.ok := by
      rw [← hloaded]
      exact List.mem_map_of_mem (mem_keys.mpr (hread name hd hname))
    obtain ⟨spec, -, hspec⟩ := List.mem_map.mp hmem
    have hok := (loadServiceSpec_ok henv h hname).mp hspec.symm
    rw [hc] at hok
    obtain ⟨s, masked, hs, hmasked, -⟩ := hok
    exact ⟨⟨s, hs⟩, masked, hmasked⟩
  · intro name hd hm
    obtain ⟨spec, hspec, rfl⟩ := ho.complete name hd hm
    obtain ⟨found, hfound, hs⟩ := (mem_reduceOption hloaded).mp hspec
    rw [name_of_loadServiceSpec hs]
    exact hdiscovered found hfound
  · intro name runtime etc hm hr he
    have hhighest : highest files rootDirectories name = some etc := by
      rw [rootDirectories_eq, highest_append, he]
      rfl
    have hd : Described files rootDirectories name := highest_isSome.mp (by rw [hhighest]; rfl)
    obtain ⟨spec, hspec, rfl⟩ := ho.complete name hd hm
    obtain ⟨found, hfound, hs⟩ := (mem_reduceOption hloaded).mp hspec
    obtain rfl := name_of_loadServiceSpec hs
    obtain ⟨-, hparse⟩ := (load_some_iff henv h (hdiscovered _ hfound)).mp hs
    obtain ⟨-, source, hsource, hspec'⟩ := (ho.mem_iff spec.name spec).mp ⟨hspec, rfl⟩
    rw [current, hr] at hparse
    obtain rfl : etc = .ok source := Option.some.inj (hhighest.symm.trans hsource)
    have hruntime : runtime.bind (parser.parse · spec.name) = .ok spec := Option.some.inj hparse
    rw [hruntime]
    exact hspec'.symm

theorem overlays_of_aligned (henv : RootManager env) (h : Regular files rootDirectories)
    (ha : Aligned parser files masks) :
    ∃ specs, loadServiceSpecs parser files masks env = .ok specs ∧
      Overlays parser files masks specs := by
  obtain ⟨names, hnames, hdiscovered, hread⟩ := exists_names henv h
  obtain ⟨loaded, hloaded⟩ := exists_mapM_eq_ok.mpr fun name hname =>
    exists_load henv h ha (hdiscovered name (mem_keys.mp hname))
  rw [mapM_eq_ok] at hloaded
  have hkept {name : Str} (hd : Described files rootDirectories name)
      (hm : isMasked name masks ≠ .ok true) {spec : ServiceSpec}
      (hparse : (current files name).map (·.bind (parser.parse · name)) = some (.ok spec)) :
      spec ∈ loaded.reduceOption := by
    have hname := ha.plain name hd hm
    obtain ⟨source, hc, -⟩ := Option.map_eq_some_iff.mp hparse
    obtain ⟨-, masked, hmasked⟩ := ha.loadable name source hname hc
    cases masked with
    | true => exact absurd hmasked hm
    | false =>
      exact (mem_reduceOption hloaded).mpr
        ⟨name, hread name hd hname, (load_some_iff henv h hname).mpr ⟨hmasked, hparse⟩⟩
  refine ⟨_, (loadServiceSpecs_ok hnames).mpr ⟨loaded, hloaded, rfl⟩, ?_, ?_, ?_⟩
  · exact (names_sublist hloaded).nodup (keys_nodup names)
  · intro name hd hm
    obtain ⟨source, hc⟩ := Option.isSome_iff_exists.mp (current_isSome.mpr hd)
    obtain ⟨⟨spec, hspec⟩, -⟩ := ha.loadable name source (ha.plain name hd hm) hc
    refine ⟨spec, hkept hd hm (by rw [hc, Option.map_some, hspec]), ?_⟩
    obtain ⟨text, -, hparse⟩ := bind_eq_ok.mp hspec
    exact (parser.names hparse).1
  · intro name spec
    constructor
    · rintro ⟨hspec, rfl⟩
      obtain ⟨found, hfound, hs⟩ := (mem_reduceOption hloaded).mp hspec
      obtain rfl := name_of_loadServiceSpec hs
      obtain ⟨hmasked, hparse⟩ := (load_some_iff henv h (hdiscovered _ hfound)).mp hs
      have hm : isMasked spec.name masks ≠ .ok true := by
        rw [hmasked]
        exact fun hm => Bool.false_ne_true (Except.ok.inj hm)
      rw [current_parses fun runtime etc => ha.agree spec.name runtime etc hm] at hparse
      obtain ⟨source, hsource, hparse⟩ := Option.map_eq_some_iff.mp hparse
      obtain ⟨text, rfl, hparse⟩ := bind_eq_ok.mp hparse
      exact ⟨hm, text, hsource, hparse⟩
    · rintro ⟨hm, source, hsource, hparse⟩
      have hd : Described files rootDirectories name := highest_isSome.mp (by rw [hsource]; rfl)
      refine ⟨hkept hd hm ?_, (parser.names hparse).1⟩
      rw [current_parses fun runtime etc => ha.agree name runtime etc hm, hsource]
      exact congrArg some hparse

/-- The services that are loaded are those that the documentation tells of exactly if
no descriptor hides behind another name or behind the runtime directory. -/
theorem load_overlays_iff (henv : RootManager env) (h : Regular files rootDirectories) :
    (∃ specs, loadServiceSpecs parser files masks env = .ok specs ∧
      Overlays parser files masks specs) ↔ Aligned parser files masks :=
  ⟨fun ⟨_, hload, ho⟩ => aligned_of_overlays henv h hload ho, overlays_of_aligned henv h⟩

end

/-- A parser that keeps the text of a descriptor as the program of the service. -/
def programParser : ServiceParser where
  parse source name := do
    validateName name
    pure { name, program := source }
  names h := by
    obtain ⟨u, hu, h⟩ := bind_eq_ok.mp h
    obtain rfl := pure_eq_ok.mp h
    exact ⟨rfl, hu⟩

def rootEnvironment : Environment := ⟨fun _ => none, true, 0⟩

theorem rootEnvironment_root : RootManager rootEnvironment := ⟨rfl, rfl, rfl, rfl, rfl⟩

def twoFiles (lower upper : Str) : Files := fun directory =>
  if directory = lower then some (empty.insert "web.svc".toList (.file (.ok "/bin/old".toList)))
  else if directory = upper then
    some (empty.insert "web.svc".toList (.file (.ok "/bin/new".toList)))
  else none

theorem metadata_twoFiles {lower upper directory fileName : Str} {entry : Entry}
    (h : metadata (twoFiles lower upper) ⟨directory, fileName⟩ = some entry) :
    fileName = "web.svc".toList ∧ ∃ source, entry = .file source := by
  have hone {source : Str} {fileName : Str} {entry : Entry}
      (h : (empty.insert "web.svc".toList (.file (.ok source)) : BTreeMap Str Entry).get fileName =
        some entry) : fileName = "web.svc".toList ∧ ∃ source, entry = .file source := by
    rw [get_insert] at h
    split at h
    next hname => exact ⟨hname, _, (Option.some.inj h).symm⟩
    · cases h
  obtain ⟨entries, hentries, hget⟩ := Option.bind_eq_some_iff.mp h
  dsimp only [twoFiles] at hentries
  split at hentries
  · obtain rfl := Option.some.inj hentries
    exact hone hget
  · split at hentries
    · obtain rfl := Option.some.inj hentries
      exact hone hget
    · cases hentries

theorem twoFiles_regular (lower upper : Str) : Regular (twoFiles lower upper) rootDirectories :=
  fun _ _ _ _ _ h => (metadata_twoFiles h).2

theorem described_twoFiles {lower upper name : Str} {directories : List Str}
    (h : Described (twoFiles lower upper) directories name) : name = "web".toList := by
  obtain ⟨directory, -, hsome⟩ := h
  unfold descriptor at hsome
  cases hm : metadata (twoFiles lower upper) ⟨directory, name ++ svcSuffix⟩ with
  | none =>
    rw [hm] at hsome
    cases hsome
  | some entry => exact List.append_cancel_right (metadata_twoFiles hm).1

/-- A descriptor of the administrator replaces that of a package. -/
theorem load_overlays_replaced :
    ∃ specs, loadServiceSpecs programParser
        (twoFiles "/usr/lib/fractald/services".toList etcServices) empty rootEnvironment = .ok specs ∧
      Overlays programParser (twoFiles "/usr/lib/fractald/services".toList etcServices) empty specs := by
  apply (load_overlays_iff rootEnvironment_root (twoFiles_regular _ _)).mpr
  refine ⟨?_, ?_, ?_⟩
  · intro name source _ hc
    obtain rfl := described_twoFiles (current_isSome.mp (by rw [hc]; rfl))
    have hread : current (twoFiles "/usr/lib/fractald/services".toList etcServices) "web".toList =
        some (.ok "/bin/new".toList) := rfl
    obtain rfl := Option.some.inj (hread.symm.trans hc)
    exact ⟨⟨_, rfl⟩, false, rfl⟩
  · intro name hd _
    obtain rfl := described_twoFiles hd
    decide
  · intro name runtime etc _ hr
    cases hr

/-- In the runtime directory a descriptor replaces that of the administrator. -/
theorem load_not_overlaid :
    RootManager rootEnvironment ∧ Regular (twoFiles runServices etcServices) rootDirectories ∧
      ¬ ∃ specs, loadServiceSpecs programParser (twoFiles runServices etcServices) empty
          rootEnvironment = .ok specs ∧
        Overlays programParser (twoFiles runServices etcServices) empty specs := by
  refine ⟨rootEnvironment_root, twoFiles_regular _ _, ?_⟩
  rintro ⟨specs, hload, ho⟩
  have hspecs : loadServiceSpecs programParser (twoFiles runServices etcServices) empty
      rootEnvironment = .ok [{ name := "web".toList, program := "/bin/old".toList }] := rfl
  obtain rfl := Except.ok.inj (hspecs.symm.trans hload)
  have hnew := (ho.mem_iff "web".toList
    { name := "web".toList, program := "/bin/new".toList }).mpr ⟨by decide, _, rfl, rfl⟩
  have hprogram := congrArg ServiceSpec.program (List.mem_singleton.mp hnew.1)
  exact absurd hprogram (by decide)

end FractalD.Daemon.Overlay
