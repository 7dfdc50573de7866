import FractalD.Daemon.Reload
import FractalD.Manager.Waiting

namespace FractalD.Daemon.Idempotence

open FractalD.Core.Record FractalD.Core.Spec FractalD.Daemon.Reload FractalD.Machine.CString
open FractalD.Machine.Effect FractalD.Machine.OrderedMap FractalD.Machine.Text FractalD.Manager.Issues
open FractalD.Manager.Jobs FractalD.Manager.Registration FractalD.Manager.Registry
open FractalD.Manager.Replacement FractalD.Manager.Resolution FractalD.Manager.Runs
open FractalD.Manager.Standing FractalD.Manager.Survival FractalD.Manager.Waiting
open FractalD.Core.Restarts FractalD.Supervisor.System
open FractalD.Supervisor.Service (ManagedService DynamicIdentity newWithDynamicIdentity)
open FractalD.Supervisor.Service (withIdentity)

/-- What registration makes of a descriptor. -/
def Rewrites (spec spec' : ServiceSpec) : Prop :=
  if spec.dynamicUser then
    ∃ identity : DynamicIdentity, identity.uid < 2 ^ 32 ∧ identity.gid < 2 ^ 32 ∧
      withIdentity spec identity = spec'
  else spec = spec'

/-- Some services are those of some descriptors. -/
structure Configured (specs : List ServiceSpec) (registered : BTreeMap Str ServiceSpec) :
    Prop where
  distinct : Distinct specs
  known : ∀ spec ∈ specs, ∃ spec', registered.get spec.name = some spec' ∧ Rewrites spec spec'
  listed : ∀ {name}, registered.contains name → ∃ spec ∈ specs, spec.name = name

section

variable {ω : Type} (os : Os ω) {w : ω} {s : Supervisor} {spec : ServiceSpec}
  {specs : List ServiceSpec} {m : ManagedService} {reserved : List Nat}
  {identity : Option DynamicIdentity}

theorem parseUnsigned_lt {text : Str} {n : Nat} (h : parseUnsigned 32 text = some n) : n < 2 ^ 32 :=
  of_decide_eq_true (Option.filter_eq_some_iff.mp h).2

theorem identityFromSpec_lt {id : DynamicIdentity} (h : dynamicIdentityFromSpec spec = some id) :
    id.uid < 2 ^ 32 ∧ id.gid < 2 ^ 32 := by
  rw [dynamicIdentityFromSpec] at h
  split at h
  · obtain ⟨uid, hu, h⟩ := Option.bind_eq_some_iff.mp h
    obtain ⟨gid, hg, h⟩ := Option.bind_eq_some_iff.mp h
    obtain ⟨user, -, hu⟩ := Option.bind_eq_some_iff.mp hu
    obtain ⟨group, -, hg⟩ := Option.bind_eq_some_iff.mp hg
    cases h
    exact ⟨parseUnsigned_lt hu, parseUnsigned_lt hg⟩
  · cases h

/-- A service that is made has the settings that registration makes of its descriptor. -/
theorem rewrites_new
    (hidentity : ∀ id, identity = some id → id.uid < 2 ^ 32 ∧ id.gid < 2 ^ 32)
    (h : newWithDynamicIdentity spec identity = .ok m) : Rewrites spec m.spec := by
  obtain ⟨-, ⟨hd, hs⟩ | ⟨id, hd, hi, hs⟩⟩ := new_cases h
  · rw [Rewrites, if_neg (by simp [hd])]
    exact hs.symm
  · rw [Rewrites, if_pos hd]
    obtain ⟨hu, hg⟩ := hidentity id hi
    exact ⟨id, hu, hg, hs.symm⟩

theorem newIdentity_lt (h : newIdentity os w reserved spec = .ok identity) {id : DynamicIdentity}
    (hid : identity = some id) : id.uid < 2 ^ 32 ∧ id.gid < 2 ^ 32 := by
  rw [newIdentity] at h
  split at h
  · cases ha : allocateDynamicIdentity os w spec.name reserved with
    | error e =>
      rw [ha] at h
      cases h
    | ok id' =>
      rw [ha] at h
      cases h
      cases hid
      obtain ⟨heq, hlt⟩ := allocate_ok os ha
      exact ⟨hlt, heq ▸ hlt⟩
  · cases h
    cases hid

theorem rewrites_described (h : Described os w s spec m) : Rewrites spec m.spec := by
  obtain ⟨reserved, identity, hi, hn⟩ := h
  refine rewrites_new (fun id hid => ?_) hn
  obtain ⟨hi, -⟩ | ⟨id', hid', rfl⟩ := identityFor_cases os hi
  · exact newIdentity_lt os hi hid
  · split at hid
    · cases hid
      obtain ⟨service, -, hs⟩ := Option.bind_eq_some_iff.mp hid'
      exact identityFromSpec_lt hs
    · cases hid

theorem reload_configured {t : Supervisor × ω} {s : Supervisor × ω}
    (h : reload os specs s = .ok () t) : Configured specs (settings t.1) := by
  obtain ⟨incoming, aliases, hi, -, -, rfl⟩ := (reload_ok os).mp h
  have hdescribes := incoming_describes os hi
  rw [settings_reload]
  refine ⟨hdescribes.distinct, fun spec hspec => ?_, fun {name} hname => ?_⟩
  · obtain ⟨m, hm, hdescribed⟩ := hdescribes.known spec hspec
    exact ⟨m.spec, by rw [get_map, hm, Option.map_some], rewrites_described os hdescribed⟩
  · rw [BTreeMap.contains, get_map, Option.isSome_map] at hname
    exact hdescribes.listed hname

theorem addAll_configured {done : List ServiceSpec} {s t : Supervisor × ω}
    (hs : Configured done (settings s.1)) (h : addAll os specs s = .ok () t) :
    Configured (done ++ specs) (settings t.1) := by
  induction specs generalizing done s with
  | nil =>
    cases h
    rwa [List.append_nil]
  | cons spec specs ih =>
    obtain ⟨_, u, hu, h⟩ := bind_ok.mp h
    obtain ⟨identity, m, hi, hn, htaken, -, rfl⟩ := (add_ok os).mp hu
    have hfresh : ∀ a ∈ done, a.name ≠ spec.name := by
      intro a ha he
      obtain ⟨spec', hget, -⟩ := hs.known a ha
      refine htaken (Bool.or_eq_true_iff.mpr (.inl ?_))
      exact contains_settings.mp (contains_iff.mpr ⟨spec', he ▸ hget⟩)
    have hnext : Configured (done ++ [spec]) (settings { s.1 with
        services := s.1.services.insert spec.name m
        aliases := (stemAliases spec).foldl (·.insert · spec.name) s.1.aliases }) := by
      change Configured _ (settings { s.1 with services := _ })
      rw [settings_insert]
      refine ⟨?_, fun a ha => ?_, fun {name} hname => ?_⟩
      · apply List.pairwise_append.mpr
        refine ⟨hs.distinct, List.pairwise_singleton _ _, fun a ha b hb => ?_⟩
        rw [List.mem_singleton.mp hb]
        exact hfresh a ha
      · obtain ha | ha := List.mem_append.mp ha
        · rw [get_insert_of_ne _ (hfresh a ha)]
          exact hs.known a ha
        · obtain rfl := List.mem_singleton.mp ha
          exact ⟨m.spec, get_insert_self _ _ _, rewrites_new (fun _ => newIdentity_lt os hi) hn⟩
      · obtain rfl | hname := contains_insert.mp hname
        · exact ⟨spec, List.mem_concat_self, rfl⟩
        · obtain ⟨a, ha, he⟩ := hs.listed hname
          exact ⟨a, List.mem_append_left _ ha, he⟩
    have hrest := ih hnext h
    rwa [List.append_assoc] at hrest

variable {incoming : BTreeMap Str ManagedService}

theorem get_of_settings {name : Str} {spec' : ServiceSpec}
    (h : (settings s).get name = some spec') :
    ∃ m, s.services.get name = some m ∧ m.spec = spec' := by
  rw [settings, get_map] at h
  exact Option.map_eq_some_iff.mp h

theorem described_same {existing : ManagedService} (h : Described os w s spec m)
    (hget : s.services.get spec.name = some existing) (hr : Rewrites spec existing.spec) :
    existing.spec = m.spec := by
  obtain ⟨reserved, identity, hi, hn⟩ := h
  obtain ⟨-, ⟨hd, hs⟩ | ⟨id, hd, hid, hs⟩⟩ := new_cases hn
  · rw [Rewrites, if_neg (by simp [hd])] at hr
    rw [hs, hr]
  · rw [Rewrites, if_pos hd] at hr
    obtain ⟨id', hu, hg, hr⟩ := hr
    have hfor : dynamicIdentityFor s spec.name = some id' := by
      rw [dynamicIdentityFor, hget, Option.bind_some, ← hr]
      exact dynamicIdentity_withIdentity hd hu hg
    obtain ⟨-, hnone⟩ | ⟨id'', hid'', rfl⟩ := identityFor_cases os hi
    · cases hfor.symm.trans hnone
    · cases hfor.symm.trans hid''
      rw [if_pos hd] at hid
      cases hid
      rw [hs, hr]

theorem kept_same (hc : Configured specs (settings s)) (hd : Describes os w s specs incoming) :
    incoming.mapKeyed (keep s) = s.services := by
  apply eq_of_get
  intro name
  rw [get_mapKeyed]
  cases hm : incoming.get name with
  | none =>
    cases hs : s.services.get name with
    | none => rfl
    | some existing =>
      have hcontains := contains_settings.mpr (contains_iff.mpr ⟨existing, hs⟩)
      obtain ⟨m, hm'⟩ := contains_iff.mp ((contains_incoming os hd).mpr (hc.listed hcontains))
      cases hm.symm.trans hm'
  | some m =>
    obtain ⟨spec, hspec, rfl, hdescribed⟩ := describes_get os hd hm
    obtain ⟨spec', hget, hr⟩ := hc.known spec hspec
    obtain ⟨existing, hs, rfl⟩ := get_of_settings hget
    rw [Option.map_some, keep, hs]
    dsimp only
    rw [if_pos (described_same os hdescribed hs hr)]

theorem reload_same {s : Supervisor × ω} (hc : Configured specs (settings s.1)) :
    (∃ aliases, reload os specs s = .ok () ({ s.1 with aliases := aliases }, s.2)) ∨
      ∃ e, reload os specs s = .error (.error e) s := by
  cases h : reload os specs s with
  | ok u t =>
    obtain ⟨incoming, aliases, hi, -, -, rfl⟩ := (reload_ok os).mp h
    rw [kept_same os hc (incoming_describes os hi)]
    exact .inl ⟨aliases, rfl⟩
  | error e t =>
    obtain ⟨rfl, text, rfl⟩ := reload_error os h
    exact .inr ⟨text, rfl⟩

theorem specification_eq {name : Str} (h : s.services.get name = some m) :
    s.specification name = some m.spec ∧ s.serviceIsStopped name = some m.isStopped := by
  have hresolve := resolveName_of_contains (contains_iff.mpr ⟨m, h⟩)
  rw [Supervisor.specification, Supervisor.serviceIsStopped, Supervisor.find, hresolve,
    Option.bind_some, h]
  exact ⟨rfl, rfl⟩

theorem get_foldl_specs {t : BTreeMap Str ServiceSpec} {name : Str}
    (h : ∀ spec ∈ specs, spec.name ≠ name) :
    (specs.foldl (fun incoming spec => incoming.insert spec.name spec) t).get name =
      t.get name := by
  induction specs generalizing t with
  | nil => rfl
  | cons spec specs ih =>
    obtain ⟨hne, h⟩ := List.forall_mem_cons.mp h
    rw [List.foldl_cons, ih h, get_insert_of_ne _ hne.symm]

theorem get_incomingSpecs (hd : Distinct specs) (hspec : spec ∈ specs) :
    (incomingSpecs specs).get spec.name = some spec := by
  rw [incomingSpecs]
  generalize (empty : BTreeMap Str ServiceSpec) = t
  induction specs generalizing t with
  | nil => exact absurd hspec List.not_mem_nil
  | cons a specs ih =>
    obtain ⟨hfirst, hd⟩ := List.pairwise_cons.mp hd
    rw [List.foldl_cons]
    obtain rfl | hspec := List.mem_cons.mp hspec
    · rw [get_foldl_specs fun b hb => (hfirst b hb).symm, get_insert_self]
    · exact ih hd hspec _

theorem stoppingFor_same (hc : Configured specs (settings s))
    (hstopped : ∀ {name m}, s.services.get name = some m → m.spec.dynamicUser → m.isStopped) :
    stoppingFor specs s = [] := by
  apply List.filter_eq_nil_iff.mpr
  intro name hname
  obtain ⟨m, hm⟩ := contains_iff.mp (mem_keys.mp hname)
  obtain ⟨spec, hspec, rfl⟩ := hc.listed (contains_settings.mpr (contains_iff.mpr ⟨m, hm⟩))
  obtain ⟨hspecification, hstopped'⟩ := specification_eq hm
  obtain ⟨spec', hget, hr⟩ := hc.known spec hspec
  obtain ⟨existing, hs, rfl⟩ := get_of_settings hget
  cases hm.symm.trans hs
  rw [changed, get_incomingSpecs hc.distinct hspec, hspecification, hstopped']
  cases hdynamic : spec.dynamicUser with
  | false =>
    rw [Rewrites, if_neg (by simp [hdynamic])] at hr
    simp [hr]
  | true =>
    have hm' : m.spec.dynamicUser = true := by
      rw [Rewrites, if_pos hdynamic] at hr
      obtain ⟨identity, -, -, hr⟩ := hr
      rw [← hr]
      exact hdynamic
    simp [hstopped hm hm']

theorem addAll_tables {s t : Supervisor × ω} (hs : Tables (settings s.1) s.1.aliases)
    (h : addAll os specs s = .ok () t) : Tables (settings t.1) t.1.aliases := by
  induction specs generalizing s with
  | nil =>
    cases h
    exact hs
  | cons spec specs ih =>
    obtain ⟨_, u, hu, h⟩ := bind_ok.mp h
    exact ih (add_tables os hs hu) h

/-- The states of a supervisor after it has been configured. Between two commands the
system around it may change in any way. -/
inductive ConfiguredBy (specs : List ServiceSpec) : Supervisor × ω → Prop
  | boot {w : ω} {s : Supervisor × ω} :
    addAll os specs (Supervisor.new, w) = .ok () s → ConfiguredBy specs s
  | reload {s t : Supervisor × ω} : reload os specs s = .ok () t → ConfiguredBy specs t
  | drift {s : Supervisor} {w : ω} (w' : ω) :
    ConfiguredBy specs (s, w) → ConfiguredBy specs (s, w')
  | command {c : Command} {s t : Supervisor × ω} :
    ConfiguredBy specs s → Steady c → Leads os c s t → ConfiguredBy specs t

theorem configuredBy_configured {s : Supervisor × ω} (h : ConfiguredBy os specs s) :
    Configured specs (settings s.1) ∧ Tables (settings s.1) s.1.aliases := by
  induction h with
  | boot h =>
    have hnone : Configured [] (settings Supervisor.new) :=
      ⟨.nil, by simp, fun h => by cases h⟩
    have hall : Configured ([] ++ specs) (settings _) := addAll_configured os hnone h
    exact ⟨hall, addAll_tables os tables_new h⟩
  | reload h => exact ⟨reload_configured os h, reload_tables os h⟩
  | drift w' _ ih => exact ih
  | command _ hc h ih =>
    obtain ⟨hsettings, haliases⟩ := steady_settings os ih.2 hc h
    rwa [hsettings, haliases]

variable (src : Sources ω)

theorem waitForReconfigure_nil (depth turns : Nat) (s : Supervisor × ω) :
    waitForReconfigure os src depth (turns + 1) [] s = .ok () (s.1, (os.now s.2).2) := rfl

theorem reload_nothing_stops {s : Supervisor × ω} {depth turns : Nat}
    (hload : src.loadAllServiceSpecs s.2 = (.ok specs, w))
    (hnone : stoppingFor specs s.1 = []) :
    reloadNativeConfiguration os src depth turns s =
      (do
        waitForReconfigure os src depth turns []
        describing "cannot reload native services: ".toList (reload os specs)
        startConfigured os src depth) (s.1, w) := by
  have hcall : call src.loadAllServiceSpecs s = .ok (.ok specs) (s.1, w) := by
    have hrun : call src.loadAllServiceSpecs s = .ok (src.loadAllServiceSpecs s.2).1
      (s.1, (src.loadAllServiceSpecs s.2).2) := rfl
    rw [hrun, hload]
  have hspecs : (orFail (.ok specs) : Manage ω _) (s.1, w) = .ok specs (s.1, w) := rfl
  have hrestart : restartFor specs s.1 = [] := by rw [restartFor, hnone, List.filter_nil]
  refine (bind_of_ok hcall).trans ((bind_of_ok hspecs).trans ?_)
  have hsupervisor : (supervisor : Manage ω _) (s.1, w) = .ok s.1 (s.1, w) := rfl
  have hstop : ([].forM (stopChanged os) : Manage ω Unit) (s.1, w) = .ok () (s.1, w) := rfl
  refine (bind_of_ok hsupervisor).trans ?_
  rw [hnone, hrestart]
  refine (bind_of_ok hstop).trans ?_
  have hlast : (do
      startConfigured os src depth
      [].forM (restartReloaded os depth)) = startConfigured os src depth := bind_pure_unit
  rw [hlast]

/-- Reloading the configuration that a supervisor has, while no service with a dynamic
user is up, leaves all services as they are. It is refused, or what is configured to be
started is started. -/
theorem reload_unchanged {s : Supervisor × ω} (h : ConfiguredBy os specs s)
    (hload : src.loadAllServiceSpecs s.2 = (.ok specs, w))
    (hstopped : ∀ {name m}, s.1.services.get name = some m → m.spec.dynamicUser → m.isStopped)
    (depth turns : Nat) :
    (∃ aliases, reloadNativeConfiguration os src depth (turns + 1) s =
      startConfigured os src depth ({ s.1 with aliases := aliases }, (os.now w).2)) ∨
    ∃ e, reloadNativeConfiguration os src depth (turns + 1) s =
      .error (.error e) (s.1, (os.now w).2) := by
  obtain ⟨hc, -⟩ := configuredBy_configured os h
  rw [reload_nothing_stops os src hload (stoppingFor_same hc hstopped),
    bind_of_ok (waitForReconfigure_nil os src depth turns (s.1, w))]
  obtain ⟨aliases, hr⟩ | ⟨e, hr⟩ := reload_same os (s := (s.1, (os.now w).2)) hc
  · have hdescribing : describing "cannot reload native services: ".toList (reload os specs)
        (s.1, (os.now w).2) = .ok () ({ s.1 with aliases := aliases }, (os.now w).2) := by
      rw [describing, hr]
    exact .inl ⟨aliases, bind_of_ok hdescribing⟩
  · have hdescribing : describing "cannot reload native services: ".toList (reload os specs)
        (s.1, (os.now w).2) =
          .error (.error ("cannot reload native services: ".toList ++ e)) (s.1, (os.now w).2) := by
      rw [describing, hr]
    exact .inr ⟨_, bind_of_error hdescribing⟩

end

/-- A configuration in memory: all descriptors, and which services are enabled. -/
def boxSources (specs : List ServiceSpec) (enabled : List Str) : Sources Box where
  loadAllServiceSpecs w := (.ok specs, w)
  loadNamedServiceSpec _ w := (.ok none, w)
  isMasked _ w := (.ok false, w)
  enabledNames w := (.ok enabled, w)
  configuredBootProfile w := (none, w)
  pid1 := false
  sleep w := ((), w)

/-- A supervisor that knows one service, which has not been started. -/
def booted : Supervisor × Box :=
  final (addAll boxOs [plainSpec "a"]) (Supervisor.new, ⟨0, 0, true, []⟩)

theorem booted_configured : ConfiguredBy boxOs [plainSpec "a"] booted :=
  .boot (w := ⟨0, 0, true, []⟩) rfl

def pairSpecs : List ServiceSpec := [plainSpec "a", { plainSpec "b" with dynamicUser := true }]

/-- The first of them has been started. -/
def oneUp : Option (Supervisor × Box) :=
  after boxOs 1 (.start "a".toList)
    (final (addAll boxOs pairSpecs) (Supervisor.new, ⟨0, 0, true, []⟩))

theorem reload_unchanged_one_up : ∃ s w, oneUp = some (s, w) ∧
    s.state "a".toList = some .running ∧ (dynamicIdentityFor s "b".toList).isSome ∧
    ((∃ aliases, reloadNativeConfiguration boxOs (boxSources pairSpecs []) 1 1 (s, w) =
      startConfigured boxOs (boxSources pairSpecs []) 1 ({ s with aliases := aliases }, w)) ∨
    ∃ e, reloadNativeConfiguration boxOs (boxSources pairSpecs []) 1 1 (s, w) =
      .error (.error e) (s, w)) := by
  have hadd : addAll boxOs pairSpecs (Supervisor.new, ⟨0, 0, true, []⟩) =
      .ok () (final (addAll boxOs pairSpecs) (Supervisor.new, ⟨0, 0, true, []⟩)) :=
    ok_final (by decide +kernel)
  have hrun : oneUp.any (fun s => s.1.state "a".toList = some .running &&
      (dynamicIdentityFor s.1 "b".toList).isSome &&
      s.1.services.entries.all fun e => !e.2.spec.dynamicUser || e.2.isStopped) = true := by
    decide +kernel
  obtain ⟨⟨s, w⟩, hs, hrun⟩ := (Option.any_eq_true _ _).mp hrun
  simp only [Bool.and_eq_true, decide_eq_true_eq] at hrun
  obtain ⟨⟨hup, hdynamic⟩, hstopped⟩ := hrun
  have hconfigured : ConfiguredBy boxOs pairSpecs (s, w) :=
    .command (.boot hadd) (show Steady (.start "a".toList) from trivial) (leads_of_after boxOs hs)
  refine ⟨s, w, hs, hup, hdynamic, ?_⟩
  refine reload_unchanged boxOs (boxSources pairSpecs []) hconfigured rfl (fun hget huser => ?_) 1 0
  have hentry := List.all_eq_true.mp hstopped _ (get_eq_some.mp hget)
  exact (Bool.or_eq_true_iff.mp hentry).resolve_left (by simp [huser])

def enabledReload : EStateM.Result Failure (Supervisor × Box) Unit :=
  reloadNativeConfiguration boxOs (boxSources [plainSpec "a"] ["a".toList]) 1 1 booted

def startsEnabled : Bool :=
  match enabledReload with
  | .ok _ t => booted.1.state "a".toList = some .defined && t.1.state "a".toList = some .running
  | .error _ _ => false

/-- Reloading the configuration that a supervisor has starts a service that is enabled. -/
theorem reload_starts_enabled : ConfiguredBy boxOs [plainSpec "a"] booted ∧
    ∃ t, enabledReload = .ok () t ∧ booted.1.state "a".toList = some .defined ∧
      t.1.state "a".toList = some .running := by
  refine ⟨booted_configured, ?_⟩
  have hrun : startsEnabled = true := by decide +kernel
  rw [startsEnabled] at hrun
  cases hr : enabledReload with
  | ok u t =>
    rw [hr] at hrun
    obtain ⟨hbefore, hafter⟩ := Bool.and_eq_true_iff.mp hrun
    exact ⟨t, rfl, of_decide_eq_true hbefore, of_decide_eq_true hafter⟩
  | error e t =>
    rw [hr] at hrun
    cases hrun

end FractalD.Daemon.Idempotence
