import FractalD.Manager.Acceptance
import FractalD.Manager.Resolution
import FractalD.Supervisor.SettingsPoll

namespace FractalD.Manager.Standing

open FractalD.Core.Closure FractalD.Core.Graph FractalD.Core.Planning FractalD.Core.Record
open FractalD.Core.Spec FractalD.Core.StartPlan FractalD.Machine.CString FractalD.Machine.Effect
open FractalD.Machine.OrderedMap FractalD.Manager.Acceptance FractalD.Manager.Issues
open FractalD.Manager.Jobs FractalD.Manager.Registry FractalD.Manager.Resolution
open FractalD.Manager.Runs FractalD.Supervisor FractalD.Supervisor.Frame
open FractalD.Supervisor.Settings FractalD.Supervisor.SettingsPoll FractalD.Supervisor.System
open Relation

def Mentions (job : StartJob) (name : Str) : Prop :=
  name = job.root ∨ job.selected.contains name ∨ job.required.contains name ∨
    job.conflicts.contains name

/-- The settings and the aliases of a supervisor belong together. -/
structure Tables (specs : BTreeMap Str ServiceSpec) (aliases : BTreeMap Str Str) : Prop where
  named : ∀ {name spec}, specs.get name = some spec → spec.name = name ∧ spec.validate = .ok ()
  known : ∀ {a name}, aliases.get a = some name → specs.contains name

/-- The names of the services may be waited for. -/
structure Admits (specs : BTreeMap Str ServiceSpec) (aliases : BTreeMap Str Str)
    (awaited : Str → Prop) : Prop extends Tables specs aliases where
  awaited : ∀ {name}, specs.contains name → awaited name

/-- All names that a job waits for are of a kind. -/
def Known (awaited : Str → Prop) (job : StartJob) : Prop :=
  ∀ name, Mentions job name → awaited name

/-- The services of a supervisor have some settings, and its jobs wait for names of a kind. -/
structure Stands (specs : BTreeMap Str ServiceSpec) (aliases : BTreeMap Str Str)
    (awaited : Str → Prop) (s : Supervisor) : Prop where
  settings : settings s = specs
  aliases : s.aliases = aliases
  jobs : ∀ job ∈ s.startJobs, Known awaited job

section

variable {s : Supervisor} {specs : BTreeMap Str ServiceSpec} {aliases : BTreeMap Str Str}
  {awaited : Str → Prop}

theorem contains_settings {name : Str} :
    (settings s).contains name ↔ s.services.contains name := by
  rw [BTreeMap.contains, settings, get_map, Option.isSome_map, BTreeMap.contains]

theorem contains_stands (h : Stands specs aliases awaited s) {name : Str} :
    specs.contains name ↔ s.services.contains name := by
  rw [← h.settings, contains_settings]

theorem wellformed_stands (ht : Tables specs aliases) (h : Stands specs aliases awaited s) :
    Wellformed s := by
  intro name service hget
  apply ht.named
  rw [← h.settings, settings, get_map, hget, Option.map_some]

theorem resolveName_contains (ht : Tables specs aliases) (h : Stands specs aliases awaited s)
    {q name : Str} (hq : s.resolveName q = some name) : specs.contains name := by
  have hknown : ∀ {n}, (if s.services.contains n then some n else s.aliases.get n) = some name →
      specs.contains name := by
    intro n hn
    split at hn
    next hc =>
      cases hn
      exact (contains_stands h).mpr hc
    next => exact ht.known (h.aliases ▸ hn)
  rw [Supervisor.resolveName] at hq
  obtain hq | ⟨-, hq⟩ := Option.or_eq_some_iff.mp hq
  · exact hknown hq
  · obtain hq | ⟨-, hq⟩ := Option.or_eq_some_iff.mp hq
    · exact hknown hq
    · exact (contains_stands h).mpr (mem_keys.mp (List.mem_of_find?_eq_some hq))

theorem requiredClosure_registered {g : DependencyGraph} {root : Str} {required : BTreeSet Str}
    (h : g.requiredClosure root = .ok required) {name : Str} (hn : required.contains name) :
    Registered g name := by
  obtain ⟨hne, hroot⟩ := closureOf_registered h
  obtain ⟨all, hall, hmem, hc⟩ | ⟨x, d, herror, -⟩ := closureOf_cases (fun _ hx => hx) hne hroot
  · cases h.symm.trans hall
    induction (hmem name).mp hn with
    | refl => exact hroot
    | tail hx hxy _ => exact hc _ hx _ hxy
  · cases h.symm.trans herror

theorem planStart_registered {g : DependencyGraph} {root : Str} {order : List Str}
    (h : g.planStart root = .ok order) {name : Str} (hn : name ∈ order) : Registered g name := by
  obtain ⟨selected, hselected, horder⟩ := planStart_ok h
  obtain ⟨hmem, hc⟩ := selected_pulled hselected
  obtain ⟨-, hroot⟩ := closureOf_registered hselected
  induction (hmem name).mp (((topologicalOrder_ok g selected horder).2.1 name).mp hn) with
  | refl => exact hroot
  | tail hx hxy _ => exact pulls_registered (hc _ hx) _ (mem_pulls.mpr hxy)

theorem conflictsFor_registered (ht : Tables specs aliases) (h : Stands specs aliases awaited s)
    {g : DependencyGraph} {selected conflicts : BTreeSet Str}
    (hc : conflictsFor s g selected = .ok conflicts) {name : Str} (hn : conflicts.contains name) :
    specs.contains name := by
  rw [conflictsFor] at hc
  split at hc
  · cases hc
  · cases hc
    obtain ⟨candidate, hcandidate, hn⟩ := List.mem_flatMap.mp (mem_ofList.mp (mem_keys.mpr hn))
    obtain ⟨dependency, hdependency, hn⟩ := List.mem_filterMap.mp hn
    obtain ⟨q, -, hq⟩ := List.mem_filterMap.mp hdependency
    split at hn
    · cases hn
      exact resolveName_contains ht h hq
    · split at hn
      · cases hn
        exact (contains_stands h).mpr (mem_keys.mp hcandidate)
      · cases hn

end

section

variable {ω α : Type} {specs : BTreeMap Str ServiceSpec} {aliases : BTreeMap Str Str}
  {awaited : Str → Prop}

/-- The same of a supervisor and the system around it. -/
abbrev StandsIn (ω : Type) (specs : BTreeMap Str ServiceSpec) (aliases : BTreeMap Str Str)
    (awaited : Str → Prop) (s : Supervisor × ω) : Prop :=
  Stands specs aliases awaited s.1

theorem supervisor_yields : Yields (StandsIn ω specs aliases awaited) (Stands specs aliases awaited)
    (supervisor : Manage ω Supervisor) :=
  fun _ hs => ⟨hs, hs⟩

theorem call_stands (c : Call ω α) : Preserves (StandsIn ω specs aliases awaited) (call c) :=
  fun _ hs => hs

theorem orFail_yields {r : Except Str α} :
    Yields (StandsIn ω specs aliases awaited) (fun a => r = .ok a) (orFail r : Manage ω α) := by
  cases r with
  | ok a => exact yields_pure rfl
  | error e => exact yields_throw _

theorem attempt_stands {x : Manage ω α} (hx : Preserves (StandsIn ω specs aliases awaited) x) :
    Preserves (StandsIn ω specs aliases awaited) (attempt x) := by
  intro s hs
  have hend := hx s hs
  rw [attempt]
  cases hr : x s with
  | ok a t =>
    rw [hr] at hend
    exact hend
  | error e t =>
    rw [hr] at hend
    cases e <;> exact hend

theorem stands_insert {s : Supervisor} {name : Str} {m m' : Service.ManagedService}
    (h : Stands specs aliases awaited s) (hm : s.services.get name = some m)
    (hspec : m'.spec = m.spec) :
    Stands specs aliases awaited { s with services := s.services.insert name m' } :=
  ⟨(touches_insert hm hspec).settings.trans h.settings, h.aliases, h.jobs⟩

theorem onService_stands {op : Service.Op ω α} (hop : ∀ spec, Preserves (HasSpec ω spec) op)
    (name : Str) : Preserves (StandsIn ω specs aliases awaited) (onService name op) := by
  intro s hs
  rw [onService]
  cases hm : s.1.services.get name with
  | none => exact hs
  | some m =>
    have hend := hop m.spec (m, s.2) rfl
    dsimp only
    cases hr : op (m, s.2) with
    | ok a t =>
      rw [hr] at hend
      exact stands_insert hs hm hend
    | error e t =>
      rw [hr] at hend
      exact stands_insert hs hm hend

theorem ifService_stands {op : Service.Op ω Unit} (hop : ∀ spec, Preserves (HasSpec ω spec) op)
    (name : Str) : Preserves (StandsIn ω specs aliases awaited) (ifService name op) := by
  apply preserves_bind_yields supervisor_yields
  intro s hs
  apply preserves_ite
  · exact fun _ => onService_stands hop name
  · exact fun _ => preserves_pure ()

theorem serviceIs_stands (name : Str) (p : Service.ManagedService → ω → Bool) :
    Preserves (StandsIn ω specs aliases awaited) (serviceIs name p) := fun _ hs => hs

variable (os : Os ω)

theorem stop_stands (now : Instant) (name : Str) :
    Preserves (StandsIn ω specs aliases awaited) (onService name (Service.stop os now)) :=
  onService_stands (fun _ => stop_hasSpec os now) name

theorem refreshLostMount_stands (name : Str) :
    Preserves (StandsIn ω specs aliases awaited) (refreshLostMount os name) := by
  apply preserves_bind (serviceIs_stands name _)
  intro lost
  apply preserves_ite
  · exact fun _ => onService_stands (fun _ => markLost_hasSpec os _) name
  intro _
  apply preserves_bind (serviceIs_stands name _)
  intro lost
  apply preserves_ite
  · exact fun _ => onService_stands (fun _ => markLost_hasSpec os _) name
  · exact fun _ => preserves_pure ()

theorem rollbackStartJob_stands (job : StartJob) (now : Instant) :
    Preserves (StandsIn ω specs aliases awaited) (rollbackStartJob os job now) := by
  apply preserves_forM
  intro name
  exact preserves_bind (attempt_stands (stop_stands os now name)) fun _ => preserves_pure ()

/-- The jobs may be replaced by others that wait for nothing unknown. -/
theorem setJobs_stands {jobs : List StartJob} (h : ∀ job ∈ jobs, Known awaited job) :
    Preserves (StandsIn ω specs aliases awaited)
      (update fun s => { s with startJobs := jobs } : Manage ω Unit) :=
  fun _ hs => ⟨hs.settings, hs.aliases, h⟩

theorem noJobs_stands : Preserves (StandsIn ω specs aliases awaited)
    (update fun s => { s with startJobs := [] } : Manage ω Unit) :=
  setJobs_stands fun _ hjob => absurd hjob List.not_mem_nil

theorem keepStartJobs_stands (keep : StartJob → Bool) :
    Preserves (StandsIn ω specs aliases awaited) (keepStartJobs os keep) := by
  apply preserves_bind_yields supervisor_yields
  intro s hs
  dsimp only
  apply preserves_bind noJobs_stands
  intro _
  apply preserves_bind (call_stands os.now)
  intro now
  apply preserves_bind (preserves_forM (fun job => rollbackStartJob_stands os job now) _)
  intro _
  exact setJobs_stands fun job hjob => hs.jobs job (List.mem_of_mem_filter hjob)

theorem stopDependent_stands (now : Instant) (name : Str) :
    Preserves (StandsIn ω specs aliases awaited) (stopDependent os now name) :=
  preserves_bind (keepStartJobs_stands os _) fun _ => stop_stands os now name

theorem stopDependents_stands (source : Str) (includePartOf : Bool) (now : Instant) :
    Preserves (StandsIn ω specs aliases awaited) (stopDependents os source includePartOf now) := by
  apply preserves_bind_yields supervisor_yields
  intro s _
  exact preserves_forM (stopDependent_stands os now) _

theorem requestManagerAction_stands (action : ManagerAction) :
    Preserves (StandsIn ω specs aliases awaited)
      (update (requestManagerAction action) : Manage ω Unit) := by
  intro s hs
  change Stands specs aliases awaited (requestManagerAction action s.1)
  rw [requestManagerAction]
  split
  · exact hs
  · split
    · exact ⟨hs.settings, hs.aliases, hs.jobs⟩
    · exact hs

theorem timeoutStartJob_stands (job : StartJob) (now : Instant) :
    Preserves (StandsIn ω specs aliases awaited) (timeoutStartJob os job now) := by
  apply preserves_bind (onService_stands (fun _ => markJobTimeout_hasSpec os now) job.root)
  intro _
  apply preserves_bind (rollbackStartJob_stands os job now)
  exact fun _ => requestManagerAction_stands _

theorem start_stands (now : Instant) (name : Str) :
    Preserves (StandsIn ω specs aliases awaited) (onService name (Service.start os now)) :=
  onService_stands (fun _ => start_hasSpec os now) name

theorem startMember_yields (now : Instant) (p : Pass) (name : Str) (hp : Known awaited p.job) :
    Yields (StandsIn ω specs aliases awaited) (fun p => Known awaited p.job)
      (startMember os now p name) := by
  intro s hs
  change Ends _ _ ((if p.job.attempted.contains name then pure p else _ : Manage ω Pass) s)
  split
  · exact ⟨hp, hs⟩
  split
  · exact ⟨hp, hs⟩
  split
  · exact ⟨hp, hs⟩
  apply ends_bind (attempt_stands (start_stands os now name) s hs)
  intro r t ht
  cases r with
  | ok u => exact ⟨hp, ht⟩
  | error e =>
    dsimp only
    split
    · exact ends_bind (rollbackStartJob_stands os _ now t ht) fun _ _ hu => hu
    · exact ⟨hp, ht⟩

theorem progressMembers_yields (now : Instant) (passes : Nat) (p : Pass)
    (hp : Known awaited p.job) :
    Yields (StandsIn ω specs aliases awaited) (fun r => Known awaited r.job)
      (progressMembers os now passes p) := by
  induction passes generalizing p with
  | zero => exact yields_pure hp
  | succ passes ih =>
    have hmembers : Yields (StandsIn ω specs aliases awaited) (fun p => Known awaited p.job)
        (p.job.selected.keys.foldlM (startMember os now) { p with progressed := false }) :=
      yields_foldlM (fun p name hp => startMember_yields os now p name hp) _ hp
    apply yields_bind hmembers
    intro p' hp' s hs
    change Ends _ _ ((if requiredDependencyFailed os s.1 s.2 p'.job then _ else _ :
      Manage ω Progress) s)
    split
    · exact ends_bind (rollbackStartJob_stands os _ now s hs) fun _ _ ht => ⟨hp', ht⟩
    split
    · exact ih p' hp' s hs
    · exact ⟨hp', hs⟩

theorem progressStartJob_yields (now : Instant) (job : StartJob) (hjob : Known awaited job) :
    Yields (StandsIn ω specs aliases awaited) (fun r => Known awaited r.job)
      (progressStartJob os now job) := by
  apply yields_bind supervisor_yields
  intro s _
  apply yields_ite
  · intro _
    apply yields_bind (yields_of_preserves (timeoutStartJob_stands os job now))
    exact fun _ _ => yields_pure hjob
  intro _
  apply yields_ite
  · exact fun _ => yields_pure hjob
  · exact fun _ => progressMembers_yields os now _ _ hjob

theorem progressEach_yields (now : Instant) (jobs : List StartJob)
    (hjobs : ∀ job ∈ jobs, Known awaited job) :
    Yields (StandsIn ω specs aliases awaited) (fun pending => ∀ job ∈ pending, Known awaited job)
      (progressEach os now jobs) := by
  induction jobs with
  | nil => exact yields_pure hjobs
  | cons job jobs ih =>
    obtain ⟨hjob, hjobs⟩ := List.forall_mem_cons.mp hjobs
    have hkept : Yields (StandsIn ω specs aliases awaited)
        (fun kept => ∀ job ∈ kept, Known awaited job)
        (Progress.kept <$> progressStartJob os now job) := by
      rw [map_eq_pure_bind]
      apply yields_bind (progressStartJob_yields os now job hjob)
      intro r hr
      apply yields_pure
      rw [Progress.kept]
      split
      · exact fun job' hjob' => List.mem_singleton.mp hjob' ▸ hr
      · exact fun _ hjob' => absurd hjob' List.not_mem_nil
    apply yields_bind hkept
    intro kept hkept
    apply yields_bind (ih hjobs)
    intro pending hpending
    exact yields_pure (List.forall_mem_append.mpr ⟨hkept, hpending⟩)

end

section

variable {ω : Type} (os : Os ω) {specs : BTreeMap Str ServiceSpec} {aliases : BTreeMap Str Str}
  {awaited : Str → Prop}
variable {activate : Str → Manage ω Unit}
variable (hactivate : ∀ name, Preserves (StandsIn ω specs aliases awaited) (activate name))

include hactivate

theorem activateTarget_stands (target : Str) :
    Preserves (StandsIn ω specs aliases awaited) (activateTarget os activate target) := by
  apply preserves_bind (attempt_stands (hactivate target))
  intro r
  cases r with
  | ok u => exact preserves_pure ()
  | error e => exact ifService_stands (fun _ => clearActivation_hasSpec os) target

theorem progressSocket_stands (ordinary : Ordinary) (a : Activation) :
    Preserves (StandsIn ω specs aliases awaited) (progressSocket os activate ordinary a) := by
  apply preserves_bind_yields supervisor_yields
  intro s _
  cases (a.target.bind s.resolveName).filter (startable s) with
  | none => exact preserves_pure _
  | some target =>
    apply preserves_ite
    · intro _
      cases (s.services.get a.socket).bind (·.listeners.head?) with
      | none => exact preserves_pure _
      | some listener =>
        apply preserves_bind (call_stands _)
        intro r
        match r with
        | .error e => exact preserves_throw _
        | .ok none => exact preserves_pure _
        | .ok (some fd) =>
          apply preserves_bind
          · exact ifService_stands (fun _ => setActivationConnection_hasSpec os fd) target
          intro _
          apply preserves_bind (activateTarget_stands os hactivate target)
          exact fun _ => preserves_pure _
    · exact fun _ => preserves_pure _

theorem progressSocketActivation_stands :
    Preserves (StandsIn ω specs aliases awaited) (progressSocketActivation os activate) := by
  have hflag (b : Bool) : Preserves (StandsIn ω specs aliases awaited)
      (update fun s => { s with progressingSocketActivation := b } : Manage ω Unit) :=
    fun _ hs => ⟨hs.settings, hs.aliases, hs.jobs⟩
  have hinner : Preserves (StandsIn ω specs aliases awaited)
      (progressSocketActivationInner os activate) := by
    apply preserves_bind_yields supervisor_yields
    intro s _
    apply preserves_bind (preserves_foldlM (progressSocket_stands os hactivate) _ _)
    intro ordinary
    apply preserves_forM
    rintro ⟨target, fds, fdNames, sockets⟩
    apply preserves_bind
    · exact ifService_stands (fun _ => setActivationFds_hasSpec os fds fdNames) target
    · exact fun _ => activateTarget_stands os hactivate target
  apply preserves_bind_yields supervisor_yields
  intro s _
  apply preserves_ite
  · exact fun _ => preserves_pure ()
  intro _
  apply preserves_bind (hflag true)
  intro _
  apply preserves_bind (attempt_stands hinner)
  intro r
  apply preserves_bind (hflag false)
  exact fun _ => preserves_of_yields orFail_yields

omit hactivate in
theorem dueTargets_stands (now : Instant) (names : List Str) :
    Preserves (StandsIn ω specs aliases awaited) (dueTargets os now names) := by
  induction names with
  | nil => exact preserves_pure _
  | cons name names ih =>
    apply preserves_bind
    · exact onService_stands (fun _ => triggerDue_preserves hasSpec_insensitive now) name
    · exact fun _ => preserves_bind ih fun _ => preserves_pure _

theorem progressTriggerActivation_stands (now : Instant) :
    Preserves (StandsIn ω specs aliases awaited) (progressTriggerActivation os activate now) := by
  apply preserves_bind_yields supervisor_yields
  intro s _
  apply preserves_bind (dueTargets_stands os now _)
  intro targets
  apply preserves_forM
  intro target
  apply preserves_bind_yields supervisor_yields
  intro s _
  cases (s.resolveName target).filter (startable s) with
  | none => exact preserves_pure ()
  | some name => exact preserves_bind (attempt_stands (hactivate name)) fun _ => preserves_pure ()

theorem progressStartJobs_stands (now : Instant) :
    Preserves (StandsIn ω specs aliases awaited) (progressStartJobs os activate now) := by
  apply preserves_bind_yields supervisor_yields
  intro s hs
  dsimp only
  apply preserves_bind noJobs_stands
  intro _
  apply preserves_bind_yields (progressEach_yields os now s.startJobs hs.jobs)
  intro pending hpending
  apply preserves_bind (setJobs_stands hpending)
  intro _
  apply preserves_bind (progressSocketActivation_stands os hactivate)
  exact fun _ => progressTriggerActivation_stands os hactivate now

omit hactivate in
theorem propagateBindings_stands (before : BTreeMap Str ServiceState) (now : Instant) :
    Preserves (StandsIn ω specs aliases awaited) (propagateBindings os before now) := by
  apply preserves_bind_yields supervisor_yields
  intro s _
  exact preserves_forM (fun e : Str × Bool => stopDependents_stands os e.1 e.2 now) _

theorem request_stands (asked : ManagerAction × List Str) :
    Preserves (StandsIn ω specs aliases awaited) (request activate asked) := by
  apply preserves_bind (requestManagerAction_stands _)
  intro _
  apply preserves_forM
  intro dependency
  apply preserves_bind_yields supervisor_yields
  intro s _
  cases s.resolveName dependency with
  | none => exact preserves_pure ()
  | some name => exact preserves_bind (attempt_stands (hactivate name)) fun _ => preserves_pure ()

theorem propagateSuccesses_stands (before : BTreeMap Str ServiceState) :
    Preserves (StandsIn ω specs aliases awaited) (propagateSuccesses activate before) := by
  apply preserves_bind_yields supervisor_yields
  exact fun s _ => preserves_forM (request_stands hactivate) _

theorem propagateFailures_stands (before : BTreeMap Str ServiceState) :
    Preserves (StandsIn ω specs aliases awaited) (propagateFailures activate before) := by
  apply preserves_bind_yields supervisor_yields
  exact fun s _ => preserves_forM (request_stands hactivate) _

end

section

variable {ω : Type} (os : Os ω) {specs : BTreeMap Str ServiceSpec} {aliases : BTreeMap Str Str}
  {awaited : Str → Prop}

theorem graph_yields (ht : Admits specs aliases awaited) : Yields (StandsIn ω specs aliases awaited)
    (fun g => ∀ name, Registered g name → awaited name) (graph os) := by
  apply yields_bind supervisor_yields
  intro s hs
  obtain ⟨g, hok, hget⟩ := graphOf_ok os (wellformed_stands ht.toTables hs)
  rw [hok]
  apply yields_pure
  intro name hname
  apply ht.awaited
  rw [contains_stands hs, BTreeMap.contains]
  rwa [Registered, BTreeMap.contains, hget, Option.isSome_map] at hname

theorem orFailGraph_yields {α : Type} {describe : Str} {r : Except GraphError α} :
    Yields (StandsIn ω specs aliases awaited) (fun a => r = .ok a) (orFailGraph os describe r) := by
  cases r with
  | ok a => exact yields_pure rfl
  | error e => exact yields_throw _

theorem stopUnneeded_stands (now : Instant) (name : Str) :
    Preserves (StandsIn ω specs aliases awaited) (stopUnneeded os now name) := by
  apply preserves_bind (serviceIs_stands name _)
  intro unneeded
  apply preserves_ite
  · exact fun _ => preserves_bind (keepStartJobs_stands os _) fun _ => stop_stands os now name
  · exact fun _ => preserves_pure ()

theorem reapRounds_stands (ht : Admits specs aliases awaited) (now : Instant) (rounds : Nat) :
    Preserves (StandsIn ω specs aliases awaited) (reapRounds os now rounds) := by
  induction rounds with
  | zero => exact preserves_throw _
  | succ rounds ih =>
    apply preserves_bind (preserves_of_yields (graph_yields os ht))
    intro g
    apply preserves_bind_yields supervisor_yields
    intro s _
    cases unneeded s g with
    | nil => exact preserves_pure ()
    | cons name names =>
      exact preserves_bind (preserves_forM (stopUnneeded_stands os now) _) fun _ => ih

theorem reapUnneeded_stands (ht : Admits specs aliases awaited) (now : Instant) :
    Preserves (StandsIn ω specs aliases awaited) (reapUnneeded os now) := by
  apply preserves_bind_yields supervisor_yields
  intro s _
  apply preserves_ite
  · exact fun _ => reapRounds_stands os ht now _
  · exact fun _ => preserves_pure ()

theorem stopConflict_stands (now : Instant) (conflict : Str) :
    Preserves (StandsIn ω specs aliases awaited) (stopConflict os now conflict) := by
  apply preserves_bind (keepStartJobs_stands os _)
  intro _
  apply preserves_bind (ifService_stands (fun _ => stop_hasSpec os now) conflict)
  exact fun _ => stopDependents_stands os conflict true now

/-- A new job waits for nothing unknown. -/
theorem openJob_yields (ht : Admits specs aliases awaited) (manual : Bool) (name : Str) :
    Yields (StandsIn ω specs aliases awaited) (fun r => Known awaited r.2.2)
      (openJob os manual name) := by
  apply yields_bind supervisor_yields
  intro first _
  apply yields_bind (yields_of_preserves (refreshLostMount_stands os (first.canonicalName name)))
  intro _ _
  apply yields_bind supervisor_yields
  intro s hs
  apply yields_ite
  · exact fun _ => yields_throw _
  intro _
  apply yields_bind orFail_yields
  intro _ _
  apply yields_bind (graph_yields os ht)
  intro g hg
  apply yields_bind (orFailGraph_yields os)
  intro required hrequired
  apply yields_bind (orFailGraph_yields os)
  intro order horder
  apply yields_bind orFail_yields
  intro conflicts hconflicts
  apply yields_ite
  · exact fun _ => yields_throw _
  intro _
  apply yields_bind (yields_of_preserves (call_stands os.now))
  intro now _
  apply yields_bind (yields_of_preserves (preserves_forM (stopConflict_stands os now) _))
  intro _ _
  apply yields_pure
  rintro mentioned (rfl | h | h | h)
  · exact hg _ (closureOf_registered hrequired).2
  · exact hg _ (planStart_registered horder (mem_ofList.mp (mem_keys.mpr h)))
  · exact hg _ (requiredClosure_registered hrequired h)
  · exact ht.awaited (conflictsFor_registered ht.toTables hs hconflicts h)

theorem startThen_stands (ht : Admits specs aliases awaited) {activate : Str → Manage ω Unit}
    (hactivate : ∀ name, Preserves (StandsIn ω specs aliases awaited) (activate name))
    (manual : Bool) (name : Str) :
    Preserves (StandsIn ω specs aliases awaited) (startThen os activate manual name) := by
  rw [startThen_eq]
  apply preserves_bind_yields (openJob_yields os ht manual name)
  rintro ⟨before, now, job⟩ hjob
  apply preserves_bind
  · intro s hs
    refine ⟨hs.settings, hs.aliases, List.forall_mem_append.mpr ⟨hs.jobs, ?_⟩⟩
    exact fun job' hjob' => List.mem_singleton.mp hjob' ▸ hjob
  intro _
  apply preserves_bind (progressStartJobs_stands os hactivate now)
  intro _
  apply preserves_bind (propagateBindings_stands os before now)
  intro _
  apply preserves_bind (propagateSuccesses_stands hactivate before)
  intro _
  apply preserves_bind (propagateFailures_stands hactivate before)
  exact fun _ => reapUnneeded_stands os ht now

theorem startWithOrigin_stands (ht : Admits specs aliases awaited) (depth : Nat) (manual : Bool)
    (name : Str) :
    Preserves (StandsIn ω specs aliases awaited) (startWithOrigin os depth manual name) := by
  induction depth generalizing manual name with
  | zero => exact preserves_throw _
  | succ depth ih => exact startThen_stands os ht (ih false) manual name

theorem stopForReconfigure_stands (name : Str) :
    Preserves (StandsIn ω specs aliases awaited) (stopForReconfigure os name) := by
  apply preserves_bind_yields supervisor_yields
  intro s _
  dsimp only
  apply preserves_bind (keepStartJobs_stands os _)
  intro _
  apply preserves_bind (call_stands os.now)
  intro now
  apply preserves_bind (stop_stands os now _)
  exact fun _ => stopDependents_stands os _ true now

theorem stopAnyway_stands (name : Str) :
    Preserves (StandsIn ω specs aliases awaited) (stop os name) := by
  apply preserves_bind_yields supervisor_yields
  intro s _
  dsimp only
  apply preserves_bind (serviceIs_stands _ _)
  intro refused
  apply preserves_ite
  · exact fun _ => preserves_throw _
  · exact fun _ => stopForReconfigure_stands os name

theorem restart_stands (ht : Admits specs aliases awaited) (depth : Nat) (name : Str) :
    Preserves (StandsIn ω specs aliases awaited) (restart os depth name) := by
  apply preserves_bind_yields supervisor_yields
  intro first _
  dsimp only
  apply preserves_bind (refreshLostMount_stands os _)
  intro _
  apply preserves_bind (serviceIs_stands _ _)
  intro refused
  apply preserves_ite
  · exact fun _ => preserves_throw _
  intro _
  apply preserves_bind (serviceIs_stands _ _)
  intro refused
  apply preserves_ite
  · exact fun _ => preserves_throw _
  intro _
  apply preserves_bind_yields supervisor_yields
  intro s _
  apply preserves_bind (keepStartJobs_stands os _)
  intro _
  apply preserves_bind (call_stands os.now)
  intro now
  apply preserves_bind (stopDependents_stands os _ true now)
  intro _
  apply preserves_bind (onService_stands (fun _ => restart_hasSpec os now) _)
  intro _
  apply preserves_bind (propagateBindings_stands os _ now)
  intro _
  apply preserves_bind (propagateFailures_stands (startWithOrigin_stands os ht depth false) _)
  exact fun _ => reapUnneeded_stands os ht now

theorem isolate_stands (ht : Admits specs aliases awaited) (depth : Nat) (name : Str) :
    Preserves (StandsIn ω specs aliases awaited) (isolate os depth name) := by
  apply preserves_bind_yields supervisor_yields
  intro first _
  dsimp only
  apply preserves_bind_yields supervisor_yields
  intro s _
  cases s.services.get (first.canonicalName name) with
  | none => exact preserves_throw _
  | some service =>
    apply preserves_ite ?_ (fun _ _ hs => hs)
    intro _
    apply preserves_bind (preserves_of_yields (graph_yields os ht))
    intro g
    apply preserves_bind (preserves_of_yields (orFailGraph_yields os))
    intro order
    apply preserves_bind_yields supervisor_yields
    intro s _
    apply preserves_bind (keepStartJobs_stands os _)
    intro _
    apply preserves_bind (startWithOrigin_stands os ht depth true _)
    intro _
    apply preserves_bind (call_stands os.now)
    intro now
    apply preserves_bind_yields supervisor_yields
    intro s _
    apply preserves_bind
    · apply preserves_forM
      exact fun candidate => preserves_bind (keepStartJobs_stands os _) fun _ =>
        stop_stands os now candidate
    · exact fun _ => reapUnneeded_stands os ht now

theorem stopAll_stands (ht : Admits specs aliases awaited) :
    Preserves (StandsIn ω specs aliases awaited) (stopAll os) := by
  apply preserves_bind noJobs_stands
  intro _
  apply preserves_bind (preserves_of_yields (graph_yields os ht))
  intro g
  have hrest (order : List Str) : Preserves (StandsIn ω specs aliases awaited) (do
      let now ← call os.now
      order.forM fun name => do
        onService name (Service.stop os now)
        stopDependents os name true now) := by
    apply preserves_bind (call_stands os.now)
    intro now
    apply preserves_forM
    exact fun name => preserves_bind (stop_stands os now name) fun _ =>
      stopDependents_stands os name true now
  have horder {r : Except GraphError (List Str)} {describe : Str} :
      Preserves (StandsIn ω specs aliases awaited) (orFailGraph os describe r) :=
    preserves_of_yields (orFailGraph_yields os)
  cases g.planAllStop with
  | ok order => exact preserves_bind horder hrest
  | error e => cases e <;> exact preserves_bind horder hrest

theorem poll_stands (ht : Admits specs aliases awaited) (depth : Nat) :
    Preserves (StandsIn ω specs aliases awaited) (poll os depth) := by
  have hactivate := startWithOrigin_stands (ω := ω) os ht depth false
  apply preserves_bind_yields supervisor_yields
  intro s _
  apply preserves_bind (call_stands os.now)
  intro now
  apply preserves_bind
  · apply preserves_forM
    exact fun name => preserves_bind (refreshLostMount_stands os name) fun _ =>
      onService_stands (fun _ => poll_hasSpec os now) name
  intro _
  apply preserves_bind (progressStartJobs_stands os hactivate now)
  intro _
  apply preserves_bind (propagateBindings_stands os _ now)
  intro _
  apply preserves_bind (propagateSuccesses_stands hactivate _)
  intro _
  apply preserves_bind (propagateFailures_stands hactivate _)
  exact fun _ => reapUnneeded_stands os ht now

/-- The operations that leave the settings alone. -/
def Steady : Command → Prop
  | .add _ | .reload _ => False
  | .start _ | .isolate _ | .stop _ | .stopForReconfigure _ | .restart _ | .reloadService _
  | .resetFailed _ | .resetFailedAll | .stopAll | .takeManagerAction | .reapUntrackedChildren
  | .poll => True

/-- A command that is no change of the settings keeps them, and what the jobs wait for. -/
theorem perform_stands (ht : Admits specs aliases awaited) (depth : Nat) {c : Command}
    (hc : Steady c) :
    Preserves (StandsIn ω specs aliases awaited) (perform os depth c) := by
  have hreset (name : Str) : Preserves (StandsIn ω specs aliases awaited)
      (onService name (Service.resetFailed os)) :=
    onService_stands (fun _ => resetFailed_hasSpec os) name
  cases c with
  | add spec => exact hc.elim
  | reload specs => exact hc.elim
  | start name => exact startWithOrigin_stands os ht depth true name
  | isolate name => exact isolate_stands os ht depth name
  | stop name => exact stopAnyway_stands os name
  | stopForReconfigure name => exact stopForReconfigure_stands os name
  | restart name => exact restart_stands os ht depth name
  | reloadService name =>
    apply preserves_bind_yields supervisor_yields
    exact fun s _ => onService_stands (fun _ => reload_preserves hasSpec_insensitive) _
  | resetFailed name =>
    apply preserves_bind_yields supervisor_yields
    exact fun s _ => hreset _
  | resetFailedAll =>
    apply preserves_bind_yields supervisor_yields
    intro s _
    apply preserves_forM
    exact fun name => preserves_bind (attempt_stands (hreset name)) fun _ => preserves_pure ()
  | stopAll => exact stopAll_stands os ht
  | takeManagerAction => exact fun s hs => ⟨hs.settings, hs.aliases, hs.jobs⟩
  | reapUntrackedChildren =>
    apply preserves_bind_yields supervisor_yields
    intro s _
    dsimp only
    apply preserves_bind (call_stands _)
    intro r
    cases r with
    | ok u => exact preserves_pure ()
    | error e => exact preserves_throw _
  | poll => exact poll_stands os ht depth

end

end FractalD.Manager.Standing
