import FractalD.Daemon.Loading
import FractalD.Machine.Result

namespace FractalD.Daemon.Reaching

open FractalD.Control.State (Markers isMasked)
open FractalD.Core.Spec FractalD.Daemon.Discovery FractalD.Daemon.Loading FractalD.Daemon.Reload
open FractalD.Machine.CString FractalD.Machine.Effect FractalD.Machine.OrderedMap
open FractalD.Machine.Text FractalD.Manager.Registry FractalD.Manager.Runs FractalD.Manager.Survival
open FractalD.Packages.Sync FractalD.Supervisor.System

section

variable (parser : ServiceParser) (files : Files) (masks : Markers) (env : Environment)

def fileNames : List Str :=
  (serviceDirectories env).flatMap fun directory => ((files directory).map (·.keys)).getD []

variable {files env}

theorem findIn_some {fileName : Str} {directories : List Str} {path : DescriptorPath}
    (h : findIn files fileName directories = .ok (some path)) :
    path.fileName = fileName ∧ path.directory ∈ directories ∧ (metadata files path).isSome := by
  induction directories with
  | nil => cases h
  | cons directory directories ih =>
    dsimp only [findIn] at h
    cases hm : metadata files ⟨directory, fileName⟩ with
    | none =>
      rw [hm] at h
      obtain ⟨hname, hdir, hsome⟩ := ih h
      exact ⟨hname, List.mem_cons_of_mem _ hdir, hsome⟩
    | some entry =>
      rw [hm] at h
      cases entry with
      | file source =>
        cases h
        exact ⟨rfl, List.mem_cons_self, by rw [hm]; rfl⟩
      | symlink => cases h
      | directory => cases h
      | other => cases h

theorem mem_fileNames {path : DescriptorPath} (hdir : path.directory ∈ serviceDirectories env)
    (h : (metadata files path).isSome) : path.fileName ∈ fileNames files env := by
  obtain ⟨entry, hentry⟩ := Option.isSome_iff_exists.mp h
  obtain ⟨entries, hentries, hget⟩ := Option.bind_eq_some_iff.mp hentry
  refine List.mem_flatMap.mpr ⟨path.directory, hdir, ?_⟩
  rw [hentries]
  exact mem_keys.mpr (contains_iff.mpr ⟨entry, hget⟩)

theorem native_cases (name : Str) : nativeServiceName name = name ∧ ¬ svcSuffix <:+ name ∨
    name = nativeServiceName name ++ svcSuffix := by
  cases h : removeSuffix svcSuffix name with
  | none =>
    rw [nativeServiceName, h]
    exact .inl ⟨rfl, removeSuffix_none.mp h⟩
  | some n =>
    rw [nativeServiceName, h]
    exact .inr (removeSuffix_some.mp h)

theorem native_append (name : Str) : nativeServiceName (name ++ svcSuffix) = name := by
  rw [nativeServiceName, removeSuffix_append]
  rfl

variable {parser masks} {name : Str} {spec : ServiceSpec}

theorem loadNamed_cases (h : loadNamedServiceSpec parser files masks env name = .ok (some spec)) :
    (∃ path source, findNativeServicePath files env (nativeServiceName name) = .ok (some path) ∧
      parser.parse source (nativeServiceName name) = .ok spec) ∨
    ∃ path, deviceSpec (nativeServiceName name) path = spec := by
  obtain ⟨masked, -, h⟩ := Machine.Result.bind_eq_ok.mp h
  cases masked with
  | true => cases h
  | false =>
    obtain ⟨path, hpath, h⟩ := Machine.Result.bind_eq_ok.mp h
    cases path with
    | none =>
      have hdevice : (nativeDevicePath (nativeServiceName name)).map
          (deviceSpec (nativeServiceName name)) = some spec := Except.ok.inj h
      obtain ⟨path, -, hspec⟩ := Option.map_eq_some_iff.mp hdevice
      exact .inr ⟨path, hspec⟩
    | some path =>
      obtain ⟨source, -, h⟩ := Machine.Result.bind_eq_ok.mp h
      obtain ⟨spec', hspec, heq⟩ := Machine.Result.map_eq_ok.mp h
      cases heq
      exact .inl ⟨path, source, hpath, Machine.Result.mapError_eq_ok.mp hspec⟩

variable (parser files masks env)

def descriptors : Descriptors where
  load := loadNamedServiceSpec parser files masks env
  described := fileNames files env ++ (fileNames files env).map nativeServiceName
  name_eq h := by
    obtain ⟨path, source, -, hparse⟩ | ⟨path, rfl⟩ := loadNamed_cases h
    · exact (parser.names hparse).1
    · rfl
  leaf := by
    intro name spec h
    obtain ⟨path, source, hpath, -⟩ | ⟨path, rfl⟩ := loadNamed_cases h
    · left
      obtain ⟨hname, hdir, hsome⟩ := findIn_some hpath
      have hmem := mem_fileNames (List.mem_reverse.mp hdir) hsome
      rw [hname] at hmem
      obtain ⟨hplain, -⟩ | hsvc := native_cases (nativeServiceName name)
      · refine List.mem_append_right _ (List.mem_map.mpr ⟨_, hmem, ?_⟩)
        exact (native_append _).trans hplain
      · refine List.mem_append_left _ ?_
        rw [hsvc]
        exact hmem
    · exact .inr rfl

end
section

variable (d : Descriptors) (s : Supervisor) (root : Str)

/-- The settings that a name leads to: those of a service, or those of a descriptor. -/
def specOf (x : Str) : Option ServiceSpec :=
  match s.resolveName x with
  | some c => s.specification c
  | none => match d.load x with
    | .ok o => o
    | .error _ => none

/-- The names that are looked for: from the root on, what is not registered. -/
inductive Searched : Str → Prop
  | root : Searched root
  | next {x spec y} : Searched x → specOf d s x = some spec → y ∈ references spec →
      s.resolveName y = none → Searched y

def Pulled (q : Str) : Prop := Searched d s root q ∧ s.resolveName q = none

/-- The services that one can get to. -/
inductive Reaches (t : Supervisor) (root : Str) : Str → Prop
  | root {c} : t.resolveName root = some c → Reaches t root c
  | next {c m y c'} : Reaches t root c → t.services.get c = some m → y ∈ references m.spec →
      t.resolveName y = some c' → Reaches t root c'

/-- Everything that can be got to and has a descriptor is registered. -/
def Closed (t : Supervisor) : Prop :=
  (t.resolveName root).isSome ∧ ∀ c m y, Reaches t root c → t.services.get c = some m →
    y ∈ references m.spec → (∃ spec, d.load y = .ok (some spec)) → (t.resolveName y).isSome

/-- What a request for a root leaves that ends well. What the call has registered is
complete, and so is the service that was asked for. -/
structure Loaded (name : Str) (t : Supervisor) : Prop where
  grown : Grown d (Pulled d s root) s t
  about : ∃ spec, About d s root name spec
  registered : (t.resolveName name).isSome
  complete : ∀ c, c = name ∨ s.services.get c = none ∨ Complete d s c → Complete d t c

variable {d s root}

theorem pulled_reach : Reach d (Pulled d s root) s := by
  intro q spec y hq hl hy hnone
  refine ⟨hq.1.next ?_ hy hnone, hnone⟩
  simp only [specOf, hq.2, hl]

theorem pulled_next {c spec y} (hr : s.resolveName root = some c)
    (hspec : s.specification c = some spec) (hy : y ∈ references spec)
    (hnone : s.resolveName y = none) : Pulled d s root y := by
  have hof : specOf d s root = some spec := by
    rw [specOf, hr]
    exact hspec
  exact ⟨Searched.root.next hof hy hnone, hnone⟩

theorem loaded_of_spread {name : Str} {t : Supervisor} {loading : BTreeSet Str}
    (h : Spread d (Pulled d s root) s empty t loading) (hreg : Registered t loading)
    (hseen : loading.contains name) (habout : ∃ spec, About d s root name spec) :
    Loaded d s root name t := by
  refine ⟨h.grown, habout, hreg name hseen, ?_⟩
  have hdone {c : Str} (hc : loading.contains c) : Complete d t c :=
    (h.complete c hc).resolve_left (not_contains_of_keys rfl)
  rintro c (rfl | hnone | hold)
  · exact hdone hseen
  · intro m hm
    obtain hm' | hnew := h.new c m hm
    · rw [hnone] at hm'
      cases hm'
    · exact hdone hnew.1 m hm
  · by_cases hc : loading.contains c
    · exact hdone hc
    · exact hold.mono h.grown.grows fun m hm =>
        (h.new c m hm).resolve_right fun hnew => hc hnew.1

end

section

variable {ω : Type} (os : Os ω) (src : Sources ω) (d : Descriptors) (masked : Str → Except Str Bool)
variable (depth : Nat) (requested : Str) (s : Supervisor) (w : ω)

def rootOf : Str := s.canonicalName (nativeServiceName requested)

/-- A service that is loaded has all that it leads to, and one that is not leaves no trace. -/
def Settles : Prop :=
  Ends (fun _ x => Closed d (rootOf requested s) x.1) (fun _ x => x.1 = s)
    (ensureServiceLoaded os (d.sources masked src) depth requested (s, w))

variable {depth requested s w d masked}

theorem ensure_denied {root : Str} (hroot : rootOf requested s = root) (h : masked root ≠ .ok false) :
    ∃ e, ensureServiceLoaded os (d.sources masked src) depth requested (s, w) =
      .error (.error e) (s, w) := by
  subst hroot
  have hself : (supervisor : Manage ω Supervisor) (s, w) = .ok s (s, w) := rfl
  rw [ensureServiceLoaded, bind_of_ok hself]
  change ∃ e, (describing _ (orFail (masked (rootOf requested s))) >>= _) (s, w) = _
  cases hm : masked (rootOf requested s) with
  | error e => exact ⟨_, rfl⟩
  | ok b =>
    cases b with
    | true => exact ⟨_, rfl⟩
    | false => exact absurd hm h

theorem ensure_eq {root : Str} (hroot : rootOf requested s = root) (h : masked root = .ok false) :
    ensureServiceLoaded os (d.sources masked src) depth requested (s, w) =
      (Prod.fst <$> ensureServiceLoadedInner os (d.sources masked src) depth empty root) (s, w) := by
  subst hroot
  have hself : (supervisor : Manage ω Supervisor) (s, w) = .ok s (s, w) := rfl
  rw [ensureServiceLoaded, bind_of_ok hself]
  change (describing _ (orFail (masked (rootOf requested s))) >>= _) (s, w) = _
  rw [h]
  rfl

theorem ensureInner_loads {root : Str} (hdepth : d.described.length + 1 < depth) :
    Ends (fun r x => Loaded d s root r.1 x.1)
      (fun e x => e ≠ .stackOverflow ∧ Grown d (Pulled d s root) s x.1)
      (ensureServiceLoadedInner os (d.sources masked src) depth empty root (s, w)) := by
  have hempty : Registered s empty := fun n hn => absurd hn (not_contains_of_keys rfl)
  have hfull : remaining d empty ≤ d.described.length := List.length_filter_le _ _
  have hreach : Reach d (Pulled d s root) s := pulled_reach
  refine ends_mono ?_ (fun _ _ h => h) (ends_and (search_terminates (by split <;> omega))
    (search_inner hreach (extends_refl s) hempty (fun hr => ⟨.root, hr⟩)
      fun c spec hr hspec y hy => pulled_next hr hspec hy))
  rintro r x ⟨-, ⟨hsearch, hseen⟩, -, habout⟩
  exact loaded_of_spread hsearch.spread hsearch.registered hseen habout

theorem ensure_loads (hdepth : d.described.length + 1 < depth) :
    Ends (fun name x => Loaded d s (rootOf requested s) name x.1)
      (fun e x => e ≠ .stackOverflow ∧ Grown d (Pulled d s (rootOf requested s)) s x.1)
      (ensureServiceLoaded os (d.sources masked src) depth requested (s, w)) := by
  by_cases hm : masked (rootOf requested s) = .ok false
  · rw [ensure_eq os src rfl hm]
    exact ends_bind (ensureInner_loads os src hdepth) fun _ _ h => h
  · obtain ⟨e, he⟩ := ensure_denied os src rfl hm
    rw [he]
    refine ⟨fun h => ?_, .refl⟩
    cases h

end

section

variable {ω : Type} (os : Os ω) (src : Sources ω) (parser : ServiceParser) (files : Files)
  (masks : Markers) (env : Environment)

/-- A request ends. What it registers is complete, as is the service that was asked for, and
one that was so stays so; if it fails, what was registered before is as it was. -/
theorem ensureServiceLoaded_loads (requested : Str) (s : Supervisor) (w : ω) {depth : Nat}
    (hdepth : (descriptors parser files masks env).described.length + 1 < depth) :
    let d := descriptors parser files masks env
    let root := rootOf requested s
    Ends (fun name x => Loaded d s root name x.1)
      (fun e x => e ≠ .stackOverflow ∧ Grown d (Pulled d s root) s x.1)
      (ensureServiceLoaded os (d.sources (fun name => isMasked name masks) src) depth requested
        (s, w)) :=
  ensure_loads os src hdepth

end

def requiringParser : ServiceParser where
  parse source name := do
    validateName name
    pure { name, program := "/bin/true".toList, dependencies := { requires := splitWhitespace source } }
  names h := by
    obtain ⟨u, hu, h⟩ := Machine.Result.bind_eq_ok.mp h
    obtain rfl := Machine.Result.pure_eq_ok.mp h
    exact ⟨rfl, hu⟩

def packageFiles (entries : BTreeMap Str Entry) : Files := fun directory =>
  if directory = "/usr/lib/fractald/services".toList then some entries else none

def plainEnvironment : Environment := ⟨fun _ => none, true, 0⟩

def box : Box := ⟨0, 0, true, []⟩

/-- The service of a descriptor that requires some others. -/
def requiring (name : Str) (requires : List Str) : ServiceSpec :=
  { name, program := "/bin/true".toList, dependencies := { requires } }

/-- The services a and b are registered, and c has a descriptor. -/
def chained : Option (Supervisor × Box) :=
  [Command.add (requiring "a".toList ["b".toList]), .add (requiring "b".toList ["c".toList])].foldlM
    (fun s c => after boxOs 0 c s) (Supervisor.new, box)

def chainedFiles : Files := packageFiles (empty.insert "c.svc".toList (.file (.ok [])))

/-- The service a can be loaded, but what it requires cannot. -/
def brokenFiles : Files := packageFiles
  ((empty.insert "a.svc".toList (.file (.ok "b".toList))).insert "b.svc".toList
    (.file (.error "stream did not contain valid UTF-8".toList)))

def silentSources : Sources Box where
  loadAllServiceSpecs w := (.ok [], w)
  loadNamedServiceSpec _ w := (.ok none, w)
  isMasked _ w := (.ok false, w)
  enabledNames w := (.ok [], w)
  configuredBootProfile w := (none, w)
  pid1 := false
  sleep w := ((), w)

def request (files : Files) (name : Str) (s : Supervisor) :
    EStateM.Result Failure (Supervisor × Box) Str :=
  ensureServiceLoaded boxOs
    ((descriptors requiringParser files empty plainEnvironment).sources
      (fun name => isMasked name empty) silentSources) 8 name (s, box)

/-- A request for the service a settles. -/
def requestSettles (files : Files) (s : Supervisor) : Prop :=
  Settles boxOs silentSources (descriptors requiringParser files empty plainEnvironment)
    (fun name => isMasked name empty) 8 "a".toList s box

theorem requestSettles_iff {files : Files} {s : Supervisor} : requestSettles files s ↔
    Ends (fun _ x => Closed (descriptors requiringParser files empty plainEnvironment)
        (rootOf "a".toList s) x.1) (fun _ x => x.1 = s) (request files "a".toList s) := Iff.rfl

/-- The service a leads to b and b to c, but c is missing. -/
def leavesGap : EStateM.Result Failure (Supervisor × Box) Str → Bool
  | .ok _ t =>
    let refers (name : Str) := (t.1.services.get name).map fun m => references m.spec
    t.1.resolveName "a".toList = some "a".toList && t.1.resolveName "b".toList = some "b".toList &&
      t.1.resolveName "c".toList = none && refers "a".toList = some ["b".toList] &&
      refers "b".toList = some ["c".toList]
  | .error _ _ => false

def leavesTrace : EStateM.Result Failure (Supervisor × Box) Str → Bool
  | .ok _ _ => false
  | .error _ t => t.1.services.contains "a".toList

/-- The services c and e lead to each other, and to the service a, which is registered. -/
def cyclicFiles : Files := packageFiles
  ((empty.insert "c.svc".toList (.file (.ok "e a".toList))).insert "e.svc".toList
    (.file (.ok "c f".toList)))

/-- The services c and e have been registered. -/
def leavesCycle : EStateM.Result Failure (Supervisor × Box) Str → Bool
  | .ok name t => name = "c".toList && t.1.services.contains "c".toList &&
      t.1.services.contains "e".toList
  | .error _ _ => false

theorem ensureServiceLoaded_loads_cycle : ∃ s, chained = some s ∧ ∃ t,
    request cyclicFiles "c".toList s.1 = .ok "c".toList t ∧ t.1.services.contains "e".toList ∧
      Loaded (descriptors requiringParser cyclicFiles empty plainEnvironment) s.1
        (rootOf "c".toList s.1) "c".toList t.1 := by
  obtain ⟨s, hs⟩ : ∃ s, chained = some s := ⟨_, rfl⟩
  refine ⟨s, hs, ?_⟩
  have hcycle : (chained.map fun s => leavesCycle (request cyclicFiles "c".toList s.1)) =
      some true := by decide +kernel
  rw [hs, Option.map_some, Option.some.injEq] at hcycle
  have hends : Ends _ _ (request cyclicFiles "c".toList s.1) :=
    ensureServiceLoaded_loads boxOs silentSources requiringParser cyclicFiles empty
      plainEnvironment "c".toList s.1 box (by decide +kernel)
  cases hr : request cyclicFiles "c".toList s.1 with
  | error e t =>
    rw [hr] at hcycle
    cases hcycle
  | ok name t =>
    rw [hr] at hcycle hends
    simp only [leavesCycle, Bool.and_eq_true, decide_eq_true_eq] at hcycle
    obtain ⟨⟨rfl, -⟩, he⟩ := hcycle
    exact ⟨t, rfl, he, hends⟩

/-- A service that is registered is not searched, and a search that fails leaves what it
has registered. -/
theorem ensureServiceLoaded_unsettled :
    (∃ s, chained = some s ∧ Reachable boxOs s ∧ ¬ requestSettles chainedFiles s.1) ∧
      ¬ requestSettles brokenFiles Supervisor.new := by
  constructor
  · obtain ⟨s, hs⟩ : ∃ s, chained = some s := ⟨_, rfl⟩
    refine ⟨s, hs, reachable_of_foldlM boxOs (.new box) hs, fun hsettles => ?_⟩
    have hgap : (chained.map fun s => leavesGap (request chainedFiles "a".toList s.1)) = some true := by
      decide +kernel
    rw [hs, Option.map_some, Option.some.injEq] at hgap
    rw [requestSettles_iff] at hsettles
    cases hr : request chainedFiles "a".toList s.1 with
    | error e t =>
      rw [hr] at hgap
      cases hgap
    | ok name t =>
      rw [hr] at hgap hsettles
      simp only [leavesGap, Bool.and_eq_true, decide_eq_true_eq] at hgap
      obtain ⟨⟨⟨⟨ha, hb⟩, hc⟩, hma⟩, hmb⟩ := hgap
      obtain ⟨ma, hma, hrefsa⟩ := Option.map_eq_some_iff.mp hma
      obtain ⟨mb, hmb, hrefsb⟩ := Option.map_eq_some_iff.mp hmb
      have hroot : rootOf "a".toList s.1 = "a".toList := by
        have heq : (chained.map fun s => rootOf "a".toList s.1) = some "a".toList := by
          decide +kernel
        rwa [hs, Option.map_some, Option.some.injEq] at heq
      have hclosed : Closed (descriptors requiringParser chainedFiles empty plainEnvironment)
          "a".toList t.1 := hroot ▸ hsettles
      have hreach : Reaches t.1 "a".toList "b".toList :=
        (Reaches.root ha).next hma (by rw [hrefsa]; exact List.mem_cons_self) hb
      have hsome := hclosed.2 "b".toList mb "c".toList hreach hmb
        (by rw [hrefsb]; exact List.mem_cons_self) ⟨_, rfl⟩
      rw [hc] at hsome
      cases hsome
  · intro hsettles
    have htrace : leavesTrace (request brokenFiles "a".toList Supervisor.new) = true := by decide +kernel
    rw [requestSettles_iff] at hsettles
    cases hr : request brokenFiles "a".toList Supervisor.new with
    | ok name t =>
      rw [hr] at htrace
      cases htrace
    | error e t =>
      rw [hr] at htrace hsettles
      change t.1 = Supervisor.new at hsettles
      rw [leavesTrace, hsettles] at htrace
      cases htrace

end FractalD.Daemon.Reaching
