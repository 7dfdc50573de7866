import FractalD.Manager.Replacement
import FractalD.Manager.Standing

namespace FractalD.Manager.Waiting

open FractalD.Core.Record FractalD.Core.Spec FractalD.Machine.CString FractalD.Machine.Effect
open FractalD.Machine.OrderedMap FractalD.Machine.Result FractalD.Manager.Issues
open FractalD.Manager.Registration FractalD.Manager.Registry FractalD.Manager.Replacement
open FractalD.Manager.Resolution FractalD.Manager.Runs FractalD.Manager.Standing
open FractalD.Manager.Survival FractalD.Supervisor.System
open FractalD.Supervisor.Service (ManagedService DynamicIdentity newWithDynamicIdentity)

section

variable {ω : Type} (os : Os ω) {w : ω} {s : Supervisor} {spec : ServiceSpec}
  {specs : List ServiceSpec} {incoming : BTreeMap Str ManagedService} {reserved : List Nat}
  {identity : Option DynamicIdentity}

/-- The identity of a service under a new configuration: the one that it has, or another. -/
def identityFor (w : ω) (s : Supervisor) (reserved : List Nat) (spec : ServiceSpec) :
    Except Str (Option DynamicIdentity) :=
  if spec.dynamicUser then
    match dynamicIdentityFor s spec.name with
    | some identity => pure (some identity)
    | none => some <$> allocateDynamicIdentity os w spec.name reserved
  else pure none

theorem identityFor_cases (h : identityFor os w s reserved spec = .ok identity) :
    newIdentity os w reserved spec = .ok identity ∧ dynamicIdentityFor s spec.name = none ∨
      ∃ id, dynamicIdentityFor s spec.name = some id ∧
        identity = if spec.dynamicUser then some id else none := by
  rw [identityFor] at h
  cases hs : dynamicIdentityFor s spec.name with
  | none =>
    rw [hs] at h
    exact .inl ⟨h, rfl⟩
  | some id =>
    rw [hs] at h
    refine .inr ⟨id, rfl, ?_⟩
    split at h
    next hd =>
      cases h
      rw [if_pos hd]
    next hd =>
      cases h
      rw [if_neg hd]

/-- Take a service into a new configuration. -/
def enterOver (w : ω) (s : Supervisor) (p : BTreeMap Str ManagedService × List Nat)
    (spec : ServiceSpec) : Except Str (BTreeMap Str ManagedService × List Nat) := do
  let identity ← identityFor os w s p.2 spec
  let service ← newWithDynamicIdentity spec identity
  if p.1.contains spec.name then throw (definedTwice spec.name)
  pure (p.1.insert spec.name service, p.2 ++ (identity.map (·.uid)).toList)

theorem incomingServices_eq : incomingServices os w s specs =
    Prod.fst <$> specs.foldlM (enterOver os w s) (empty, dynamicUserIds s) := by
  rw [map_eq_pure_bind]
  unfold incomingServices
  refine congrArg (fun x : Except Str (BTreeMap Str ManagedService × List Nat) =>
    x >>= fun r => pure r.1) ?_
  refine congrArg (fun f => specs.foldlM f _) (funext fun p => funext fun spec => ?_)
  unfold enterOver identityFor
  cases spec.dynamicUser with
  | false => rfl
  | true => cases dynamicIdentityFor s spec.name <;> rfl

theorem enterOver_ok {r : BTreeMap Str ManagedService × List Nat} :
    enterOver os w s (incoming, reserved) spec = .ok r ↔
      ∃ identity service, identityFor os w s reserved spec = .ok identity ∧
        newWithDynamicIdentity spec identity = .ok service ∧ ¬ incoming.contains spec.name ∧
        (incoming.insert spec.name service, reserved ++ (identity.map (·.uid)).toList) = r := by
  unfold enterOver
  simp only [bind_eq_ok]
  constructor
  · rintro ⟨identity, hi, service, hn, h⟩
    by_cases hc : incoming.contains spec.name
    · rw [if_pos hc] at h
      cases h
    · simp only [hc, Bool.false_eq_true, if_false, pure_eq_ok] at h
      exact ⟨identity, service, hi, hn, hc, h⟩
  · rintro ⟨identity, service, hi, hn, hc, h⟩
    exact ⟨identity, hi, service, hn, by simpa [hc, pure_eq_ok] using h⟩

/-- A service of a new configuration is what a descriptor makes of it. -/
def Described (os : Os ω) (w : ω) (s : Supervisor) (spec : ServiceSpec) (m : ManagedService) :
    Prop :=
  ∃ reserved identity, identityFor os w s reserved spec = .ok identity ∧
    newWithDynamicIdentity spec identity = .ok m

/-- The services of a new configuration are those that it describes. -/
structure Describes (os : Os ω) (w : ω) (s : Supervisor) (specs : List ServiceSpec)
    (incoming : BTreeMap Str ManagedService) : Prop where
  distinct : Distinct specs
  known : ∀ spec ∈ specs, ∃ m, incoming.get spec.name = some m ∧ Described os w s spec m
  listed : ∀ {name}, incoming.contains name → ∃ spec ∈ specs, spec.name = name

theorem describes_enter {done : List ServiceSpec}
    {r : BTreeMap Str ManagedService × List Nat} (h : Describes os w s done incoming)
    (hr : enterOver os w s (incoming, reserved) spec = .ok r) :
    Describes os w s (done ++ [spec]) r.1 := by
  obtain ⟨identity, service, hi, hn, hc, rfl⟩ := (enterOver_ok os).mp hr
  have hfresh : ∀ a ∈ done, a.name ≠ spec.name := by
    intro a ha he
    obtain ⟨m, hm, -⟩ := h.known a ha
    exact hc (contains_iff.mpr ⟨m, he ▸ hm⟩)
  refine ⟨?_, fun a ha => ?_, fun {name} hname => ?_⟩
  · apply List.pairwise_append.mpr
    refine ⟨h.distinct, List.pairwise_singleton _ _, fun a ha b hb => ?_⟩
    rw [List.mem_singleton.mp hb]
    exact hfresh a ha
  · obtain ha | ha := List.mem_append.mp ha
    · rw [get_insert_of_ne _ (hfresh a ha)]
      exact h.known a ha
    · obtain rfl := List.mem_singleton.mp ha
      exact ⟨service, get_insert_self _ _ _, reserved, identity, hi, hn⟩
  · obtain rfl | hname := contains_insert.mp hname
    · exact ⟨spec, List.mem_concat_self, rfl⟩
    · obtain ⟨a, ha, he⟩ := h.listed hname
      exact ⟨a, List.mem_append_left _ ha, he⟩

theorem incoming_describes (h : incomingServices os w s specs = .ok incoming) :
    Describes os w s specs incoming := by
  rw [incomingServices_eq] at h
  cases hr : specs.foldlM (enterOver os w s) (empty, dynamicUserIds s) with
  | error e =>
    rw [hr] at h
    cases h
  | ok r =>
    rw [hr] at h
    cases h
    have hstep : ∀ done a p p', Describes os w s done p.1 → enterOver os w s p a = .ok p' →
        Describes os w s (done ++ [a]) p'.1 := fun _ _ _ _ => describes_enter os
    have hnone : Describes os w s [] empty := ⟨.nil, by simp, fun h => by cases h⟩
    exact foldlM_ok hstep hnone hr

theorem describes_get (h : Describes os w s specs incoming) {name : Str} {m : ManagedService}
    (hm : incoming.get name = some m) : ∃ spec ∈ specs, spec.name = name ∧
      Described os w s spec m := by
  obtain ⟨spec, hspec, rfl⟩ := h.listed (contains_iff.mpr ⟨m, hm⟩)
  obtain ⟨m', hm', hdescribed⟩ := h.known spec hspec
  cases hm.symm.trans hm'
  exact ⟨spec, hspec, rfl, hdescribed⟩

theorem contains_incoming (h : Describes os w s specs incoming) {name : Str} :
    incoming.contains name ↔ ∃ spec ∈ specs, spec.name = name := by
  constructor
  · exact h.listed
  · rintro ⟨spec, hspec, rfl⟩
    obtain ⟨m, hm, -⟩ := h.known spec hspec
    exact contains_iff.mpr ⟨m, hm⟩

end

section

variable {ω : Type} (os : Os ω)

def JobsRegistered (s : Supervisor) : Prop :=
  ∀ job ∈ s.startJobs, ∀ name, Mentions job name → s.services.contains name

/-- The supervisor takes a new configuration. -/
def Accepts (specs : List ServiceSpec) (s : Supervisor × ω) : Prop :=
  ∃ incoming aliases, incomingServices os s.2 s.1 specs = .ok incoming ∧
    collectAliases incoming = .ok aliases ∧ Replaceable s.1 incoming

/-- A configuration describes all services that the jobs wait for. -/
def KeepsAwaited (specs : List ServiceSpec) (s : Supervisor) : Prop :=
  ∀ job ∈ s.startJobs, ∀ name, Mentions job name → ∃ spec ∈ specs, spec.name = name

variable {s : Supervisor}

theorem stands_iff :
    Stands (settings s) s.aliases (fun name => (settings s).contains name) s ↔
      JobsRegistered s := by
  constructor
  · exact fun h job hjob name hname => contains_settings.mp (h.jobs job hjob name hname)
  · refine fun h => ⟨rfl, rfl, fun job hjob name hname => ?_⟩
    exact contains_settings.mpr (h job hjob name hname)

theorem tables_new : Tables (settings Supervisor.new) Supervisor.new.aliases where
  named {name spec} h := by
    rw [settings, get_map] at h
    cases h
  known h := by simp [Supervisor.new] at h

variable {specs : List ServiceSpec} {w : ω} {spec : ServiceSpec} {t : Supervisor × ω}

theorem settings_insert {name : Str} {m : ManagedService} :
    settings { s with services := s.services.insert name m } = (settings s).insert name m.spec :=
  map_insert _ _ _ _

theorem keep_spec (name : Str) (m : ManagedService) : (keep s name m).spec = m.spec := by
  rw [keep]
  split
  · split
    next h => exact h
    next => rfl
  · rfl

theorem settings_reload {incoming : BTreeMap Str ManagedService} {aliases : BTreeMap Str Str} :
    settings { s with services := incoming.mapKeyed (keep s), aliases := aliases } =
      incoming.map (·.spec) := by
  apply eq_of_get
  intro n
  rw [settings, get_map, get_mapKeyed, get_map, Option.map_map]
  exact congrArg (fun f => Option.map f (incoming.get n)) (funext (keep_spec n))

theorem reload_tables (h : reload os specs (s, w) = .ok () t) :
    Tables (settings t.1) t.1.aliases := by
  obtain ⟨incoming, aliases, hi, ha, -, rfl⟩ := (reload_ok os).mp h
  rw [settings_reload]
  refine ⟨fun {name spec} hget => ?_, fun {a name} hget => ?_⟩
  · rw [get_map] at hget
    obtain ⟨m, hm, rfl⟩ := Option.map_eq_some_iff.mp hget
    obtain ⟨spec, -, hname, -, identity, -, hnew⟩ := describes_get os (incoming_describes os hi) hm
    obtain ⟨hspec, hvalid⟩ := new_wellformed hnew
    exact ⟨hspec.trans hname, hvalid⟩
  · have hpair := (enterAliases_get (collectAliases_ok.mp ha).1).mp hget
    rw [get_empty] at hpair
    obtain ⟨m, hm, -⟩ := mem_aliasPairs.mp (hpair.resolve_right nofun)
    exact contains_iff.mpr ⟨m.spec, by rw [get_map, hm, Option.map_some]⟩

theorem reload_registered (h : reload os specs (s, w) = .ok () t) :
    JobsRegistered t.1 ↔ KeepsAwaited specs s := by
  obtain ⟨incoming, aliases, hi, ha, -, rfl⟩ := (reload_ok os).mp h
  simp only [JobsRegistered, KeepsAwaited, contains_kept,
    contains_incoming os (incoming_describes os hi)]

theorem reload_accepts : Accepts os specs (s, w) ↔ ∃ t, reload os specs (s, w) = .ok () t := by
  constructor
  · rintro ⟨incoming, aliases, hi, ha, hr⟩
    exact ⟨_, (reload_ok os).mpr ⟨incoming, aliases, hi, ha, hr, rfl⟩⟩
  · rintro ⟨t, h⟩
    obtain ⟨incoming, aliases, hi, ha, hr, -⟩ := (reload_ok os).mp h
    exact ⟨incoming, aliases, hi, ha, hr⟩

theorem orFail_same {α : Type} (r : Except Str α) (s : Supervisor × ω) :
    Ends (fun _ t => s = t) (fun e t => s = t ∧ ∃ text, e = .error text) (orFail r s) := by
  cases r with
  | ok a => rfl
  | error text => exact ⟨rfl, text, rfl⟩

theorem reload_error {s t : Supervisor × ω} {e : Failure} (h : reload os specs s = .error e t) :
    s = t ∧ ∃ text, e = .error text := by
  have hend : Ends (fun _ _ => True) (fun e t => s = t ∧ ∃ text, e = .error text)
      (reload os specs s) := by
    change Ends _ _ ((do
      let incoming ← orFail (incomingServices os s.2 s.1 specs)
      let aliases ← orFail (collectAliases incoming)
      orFail (s.1.services.entries.forM fun entry => checkReplaced incoming entry.1 entry.2)
      update ({ · with services := incoming.mapKeyed (keep s.1), aliases := aliases }) :
        Manage ω Unit) s)
    apply ends_bind (orFail_same _ s)
    rintro incoming _ rfl
    apply ends_bind (orFail_same _ s)
    rintro aliases _ rfl
    apply ends_bind (orFail_same _ s)
    rintro _ _ rfl
    trivial
  rwa [h] at hend

theorem add_error {s t : Supervisor × ω} {e : Failure} (h : add os spec s = .error e t) :
    s = t ∧ ∃ text, e = .error text := by
  have hend : Ends (fun _ _ => True) (fun e t => s = t ∧ ∃ text, e = .error text)
      (add os spec (s.1, s.2)) := by
    rw [add_eq]
    apply ends_bind (orFail_same _ s)
    rintro service _ rfl
    dsimp only
    split
    · exact ⟨rfl, _, rfl⟩
    · cases (stemAliases spec).find? (taken s.1) with
      | some a => exact ⟨rfl, _, rfl⟩
      | none => trivial
  rwa [h] at hend

theorem add_tables (hs : Tables (settings s) s.aliases) (h : add os spec (s, w) = .ok () t) :
    Tables (settings t.1) t.1.aliases := by
  obtain ⟨identity, service, -, hnew, -, -, rfl⟩ := (add_ok os).mp h
  obtain ⟨hspec, hvalid⟩ := new_wellformed hnew
  change Tables (settings { s with services := _ }) _
  rw [settings_insert]
  refine ⟨fun {name spec'} hget => ?_, fun {a name} hget => ?_⟩
  · rw [get_insert] at hget
    split at hget
    next he =>
      cases hget
      exact ⟨hspec.trans he.symm, hvalid⟩
    next => exact hs.named hget
  · apply contains_insert.mpr
    obtain ⟨-, rfl⟩ | ⟨-, hold⟩ := get_foldl_insert.mp hget
    · exact .inl rfl
    · exact .inr (hs.known hold)

theorem add_registered (hs : JobsRegistered s) (h : add os spec (s, w) = .ok () t) :
    JobsRegistered t.1 := by
  obtain ⟨identity, service, -, -, -, -, rfl⟩ := (add_ok os).mp h
  exact fun job hjob name hname => contains_insert.mpr (.inr (hs job hjob name hname))

end

/-- A property holds in all states that a run reaches. -/
def Throughout {ω : Type} (os : Os ω) (p : Supervisor × ω → Prop) :
    List (Happening ω) → Supervisor × ω → Prop
  | [], s => p s
  | .drift w :: run, s => p s ∧ Throughout os p run (s.1, w)
  | .command c :: run, s => p s ∧ ∀ t, Leads os c s t → Throughout os p run t

/-- A condition holds whenever a new configuration is given in a run. -/
def AtReloads {ω : Type} (os : Os ω) (p : List ServiceSpec → Supervisor × ω → Prop) :
    List (Happening ω) → Supervisor × ω → Prop
  | [], _ => True
  | .drift w :: run, s => AtReloads os p run (s.1, w)
  | .command c :: run, s =>
    (∀ specs, c = .reload specs → p specs s) ∧ ∀ t, Leads os c s t → AtReloads os p run t

section

variable {ω : Type} (os : Os ω)

theorem throughout_head {p : Supervisor × ω → Prop} {run : List (Happening ω)}
    {s : Supervisor × ω} (h : Throughout os p run s) : p s := by
  cases run with
  | nil => exact h
  | cons happening run => cases happening <;> exact h.1

variable {s t : Supervisor × ω} {c : Command}

theorem steady_leads {specs : BTreeMap Str ServiceSpec} {aliases : BTreeMap Str Str}
    {awaited : Str → Prop} (ht : Admits specs aliases awaited)
    (hs : Stands specs aliases awaited s.1) (hc : Steady c) (h : Leads os c s t) :
    Stands specs aliases awaited t.1 := by
  obtain ⟨depth, h⟩ := h
  have hend := perform_stands os ht depth hc s hs
  obtain h | ⟨e, h⟩ := h
  · rwa [h] at hend
  · rwa [h] at hend

theorem steady_settings (ht : Tables (settings s.1) s.1.aliases) (hc : Steady c)
    (h : Leads os c s t) : settings t.1 = settings s.1 ∧ t.1.aliases = s.1.aliases := by
  have hadmits : Admits (settings s.1) s.1.aliases fun _ => True := ⟨ht, fun _ => trivial⟩
  have hstands := steady_leads os hadmits ⟨rfl, rfl, fun _ _ _ _ => trivial⟩ hc h
  exact ⟨hstands.settings, hstands.aliases⟩

theorem step_tables (ht : Tables (settings s.1) s.1.aliases) (h : Leads os c s t) :
    Tables (settings t.1) t.1.aliases := by
  have hsteady (hc : Steady c) : Tables (settings t.1) t.1.aliases := by
    obtain ⟨hsettings, haliases⟩ := steady_settings os ht hc h
    rwa [hsettings, haliases]
  cases c with
  | add spec =>
    obtain ⟨depth, h | ⟨e, h⟩⟩ := h
    · exact add_tables os ht h
    · exact (add_error os h).1 ▸ ht
  | reload specs =>
    obtain ⟨depth, h | ⟨e, h⟩⟩ := h
    · exact reload_tables os h
    · exact (reload_error os h).1 ▸ ht
  | _ => exact hsteady trivial

theorem step_registered (ht : Tables (settings s.1) s.1.aliases) (hs : JobsRegistered s.1)
    (hkeeps : ∀ specs, c = .reload specs → Accepts os specs s → KeepsAwaited specs s.1)
    (h : Leads os c s t) : JobsRegistered t.1 := by
  have hsteady (hc : Steady c) : JobsRegistered t.1 := by
    have hadmits : Admits (settings s.1) s.1.aliases fun name =>
        (settings s.1).contains name := ⟨ht, id⟩
    have hstands := steady_leads os hadmits (stands_iff.mpr hs) hc h
    exact fun job hjob name hname =>
      (contains_stands hstands).mp (hstands.jobs job hjob name hname)
  cases c with
  | add spec =>
    obtain ⟨depth, h | ⟨e, h⟩⟩ := h
    · exact add_registered os hs h
    · exact (add_error os h).1 ▸ hs
  | reload specs =>
    obtain ⟨depth, h | ⟨e, h⟩⟩ := h
    · have haccepts := (reload_accepts os).mpr ⟨t, h⟩
      exact (reload_registered os h).mpr (hkeeps specs rfl haccepts)
    · exact (reload_error os h).1 ▸ hs
  | _ => exact hsteady trivial

theorem registered_throughout_iff (run : List (Happening ω))
    (ht : Tables (settings s.1) s.1.aliases) (hs : JobsRegistered s.1) :
    Throughout os (fun s => JobsRegistered s.1) run s ↔
      AtReloads os (fun specs s => Accepts os specs s → KeepsAwaited specs s.1) run s := by
  induction run generalizing s with
  | nil => exact ⟨fun _ => trivial, fun _ => hs⟩
  | cons happening run ih =>
    cases happening with
    | drift w => exact (and_iff_right hs).trans (ih (s := (s.1, w)) ht hs)
    | command c =>
      constructor
      · rintro ⟨-, h⟩
        refine ⟨?_, fun t hst => (ih ?_ (throughout_head os (h t hst))).mp (h t hst)⟩
        · rintro specs rfl haccepts
          obtain ⟨t, hok⟩ := (reload_accepts os).mp haccepts
          exact (reload_registered os hok).mp (throughout_head os (h t ⟨0, .inl hok⟩))
        · exact step_tables os ht hst
      · rintro ⟨hkeeps, h⟩
        refine ⟨hs, fun t hst => ?_⟩
        exact (ih (step_tables os ht hst) (step_registered os ht hs hkeeps hst)).mpr (h t hst)

/-- In all states of a run the jobs wait for services, if and only if each configuration
that is taken describes all services that jobs wait for. -/
theorem jobs_registered_iff (run : List (Happening ω)) (w : ω) :
    Throughout os (fun s => JobsRegistered s.1) run (Supervisor.new, w) ↔
      AtReloads os (fun specs s => Accepts os specs s → KeepsAwaited specs s.1) run
        (Supervisor.new, w) :=
  registered_throughout_iff os run tables_new nofun

end

/-- A service that says when it is ready. -/
def notifier : ServiceSpec := { plainSpec "b" with serviceType := .notify }

def waiter : ServiceSpec := { plainSpec "a" with dependencies := { requires := ["b".toList] } }

/-- A service is removed while its start waits for another one. -/
def removed : Option (Supervisor × Box) :=
  [.add waiter, .add notifier, .start "a".toList, .reload [notifier]].foldlM
    (fun s c => after boxOs 1 c s) (Supervisor.new, ⟨0, 0, true, []⟩)

/-- The start of a service that no longer exists is still pending. -/
theorem removed_service_awaited : ∃ s, Reachable boxOs s ∧ ¬ JobsRegistered s.1 := by
  have hrun : removed.any (fun s => s.1.startJobs.any fun job =>
      !s.1.services.contains job.root) = true := by decide +kernel
  obtain ⟨s, hs, hjobs⟩ := (Option.any_eq_true _ _).mp hrun
  obtain ⟨job, hjob, hroot⟩ := List.any_eq_true.mp hjobs
  refine ⟨s, reachable_of_foldlM boxOs (.new _) hs, fun h => ?_⟩
  rw [h job hjob job.root (.inl rfl)] at hroot
  cases hroot

end FractalD.Manager.Waiting
