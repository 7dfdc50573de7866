import FractalD.Manager.Requisites

namespace FractalD.Manager.RequisiteRestarts

open FractalD.Core.Graph FractalD.Core.Record FractalD.Core.Restarts FractalD.Core.Spec
open FractalD.Machine.CString FractalD.Machine.Effect FractalD.Machine.OrderedMap
open FractalD.Manager.Acceptance FractalD.Manager.Issues FractalD.Manager.Jobs
open FractalD.Manager.Registry FractalD.Manager.Requisites FractalD.Manager.Resolution
open FractalD.Manager.Runs FractalD.Manager.Standing FractalD.Manager.StartOrder
open FractalD.Manager.Survival FractalD.Supervisor FractalD.Supervisor.Settings
open FractalD.Supervisor.Stopping FractalD.Supervisor.System
open FractalD.Supervisor.Service (ManagedService)

section

variable {ω : Type} (os : Os ω)

def beforeRestart (name : Str) : Manage ω (BTreeMap Str ServiceState × Instant × Str) := do
  let name := (← supervisor).canonicalName name
  refreshLostMount os name
  if ← serviceIs name fun service _ => service.spec.refuseManualStart then
    fail (manualRefused "start".toList name)
  if ← serviceIs name fun service _ => service.spec.refuseManualStop then
    fail (manualRefused "stop".toList name)
  let before := (← supervisor).states
  cancelStartJobs os name
  let now ← call os.now
  stopDependents os name true now
  pure (before, now, name)

theorem restart_eq (depth : Nat) (name : Str) : restart os depth name = (do
    let (before, now, name) ← beforeRestart os name
    onService name (Service.restart os now)
    propagateBindings os before now
    propagateFailures (startWithOrigin os depth false) before
    reapUnneeded os now) := by
  simp only [restart, beforeRestart, bind_assoc, ite_bind, pure_bind]

def Restartable (spec : ServiceSpec) : Prop :=
  spec.refuseManualStart = false ∧ spec.refuseManualStop = false

def RestartsMeet (s₀ : Supervisor) : Prop :=
  ∀ asked s, SameRegistry s₀ s.1 →
    Ends (fun r t => RequisitesActive t.1 r.2.2) (fun _ _ => True) (beforeRestart os asked s)

/-- A service that has not been started. -/
structure Resting (m : ManagedService) : Prop where
  state : m.record.state = .defined
  pid : m.record.pid = none
  probe : m.dbusProbe = none
  listeners : m.listeners = []
  fds : m.activationOwnedFds = []

/-- No service has been started, and none is to be. -/
structure AllResting (s₀ s : Supervisor) : Prop where
  registry : SameRegistry s₀ s
  services : ∀ name m, s.services.get name = some m → Resting m
  jobs : s.startJobs = []

end

section

variable {ω : Type} (os : Os ω)

theorem Resting.of_eq {m m' : ManagedService} (h : Resting m) (hrecord : m'.record = m.record)
    (hprobe : m'.dbusProbe = none) (hlisteners : m'.listeners = [])
    (hfds : m'.activationOwnedFds = []) : Resting m' :=
  ⟨hrecord ▸ h.state, hrecord ▸ h.pid, hprobe, hlisteners, hfds⟩

theorem stop_resting (now : Instant) {s : ManagedService × ω} (h : Resting s.1) :
    Ends (fun _ t => Resting t.1) (fun _ _ => False) (Service.stop os now s) := by
  change Ends _ _ (Service.stopWithSignal os now s.1.spec.killSignal s)
  rw [stopWithSignal_eq]
  apply ends_bind (p := fun _ t => Resting t.1)
  · exact h.of_eq rfl h.probe h.listeners h.fds
  intro _ s h
  apply ends_bind (p := fun _ t => Resting t.1)
  · simp only [Service.killDbusProbe, StartFailure.service_bind, h.probe]
    exact h.of_eq rfl rfl h.listeners h.fds
  intro _ s h
  rw [StartFailure.service_bind]
  apply ends_bind (p := fun _ t => Resting t.1)
  · have htransition : s.1.record.transition .stopRequested = .ok (s.1.record, []) := by
      simp only [ServiceRecord.transition, ServiceRecord.stop, h.state]
      rfl
    simp [askToStop, Service.transition, Service.applyActions, htransition, h.state]
    exact h.of_eq rfl h.probe h.listeners h.fds
  intro _ t ht
  apply ends_bind (p := fun _ t => Resting t.1)
  · rw [stopListening]
    split
    · simp [Service.closeListeners, Service.clearActivationFds, ht.listeners, ht.fds]
      exact ht.of_eq rfl ht.probe rfl rfl
    · exact ht
  intro _ t ht
  apply ends_bind (p := fun _ t => Resting t.1)
  · simp [stopBare, ht.state]
    exact ht
  intro _ t ht
  apply ends_bind (p := fun _ t => Resting t.1)
  · simp [stopActive, h.state]
    exact ht
  intro _ t ht
  apply ends_bind (p := fun _ t => Resting t.1)
  · simp [stopResources, ht.state]
    exact ht
  intro _ t ht
  apply ends_bind (p := fun _ t => Resting t.1)
  · simp [stopMain, ht.pid]
    exact ht
  intro _ t ht
  exact ht.of_eq rfl ht.probe ht.listeners ht.fds

variable {s₀ : Supervisor}

theorem stopService_resting (now : Instant) {name : Str} {s : Supervisor × ω}
    (h : AllResting s₀ s.1) (hname : s₀.services.contains name) :
    Ends (fun _ t => AllResting s₀ t.1) (fun _ _ => False)
      (onService name (Service.stop os now) s) := by
  obtain ⟨m, hm⟩ : ∃ m, s.1.services.get name = some m := by
    apply contains_iff.mp
    rw [h.registry.contains, hname]
  have hresting := stop_resting os now (s := (m, s.2)) (h.services name m hm)
  have hspec := stop_hasSpec os now (m, s.2) rfl
  simp only [onService, hm]
  cases hr : Service.stop os now (m, s.2) with
  | error e t =>
    rw [hr] at hresting
    exact hresting.elim
  | ok u t =>
    rw [hr] at hresting hspec
    refine ⟨⟨(touches_insert hm hspec).settings.trans h.registry.settings, h.registry.aliases⟩,
      fun name' m' hm' => ?_, h.jobs⟩
    rw [get_insert] at hm'
    split at hm'
    · cases hm'
      exact hresting
    · exact h.services name' m' hm'

theorem cancelStartJobs_resting (name : Str) {s : Supervisor × ω} (h : AllResting s₀ s.1) :
    Ends (fun _ t => AllResting s₀ t.1) (fun _ _ => False) (cancelStartJobs os name s) := by
  have hnone : AllResting s₀ { s.1 with startJobs := [] } :=
    ⟨⟨h.registry.settings, h.registry.aliases⟩, h.services, rfl⟩
  let keep (job : StartJob) : Bool := job.root ≠ name && !job.selected.contains name
  change Ends _ _ (((s.1.startJobs.filter fun job => !keep job).forM
      (fun job => rollbackStartJob os job (os.now s.2).1) >>= fun _ =>
    update ({ · with startJobs := s.1.startJobs.filter keep }))
    ({ s.1 with startJobs := [] }, (os.now s.2).2))
  rw [h.jobs]
  exact hnone

theorem stopDependents_resting (source : Str) (includePartOf : Bool) (now : Instant)
    {s : Supervisor × ω} (h : AllResting s₀ s.1) :
    Ends (fun _ t => AllResting s₀ t.1) (fun _ _ => False)
      (stopDependents os source includePartOf now s) := by
  have hknown : ∀ name ∈ dependentNames s.1 source includePartOf, s₀.services.contains name := by
    intro name hname
    obtain ⟨m, hm, -⟩ := contains_filterKeys.mp (mem_keys.mp hname)
    rw [← h.registry.contains]
    exact contains_iff.mpr ⟨m, hm⟩
  change Ends _ _ ((dependentNames s.1 source includePartOf).forM (stopDependent os now) s)
  refine ends_forM (i := fun t : Supervisor × ω => AllResting s₀ t.1)
    (fun name hname t ht => ?_) h
  apply ends_bind (cancelStartJobs_resting os name ht)
  exact fun _ u hu => stopService_resting os now hu (hknown name hname)

theorem beforeRestart_resting {name : Str} {m : ManagedService}
    (hm : s₀.services.get name = some m) (hmanual : Restartable m.spec) {s : Supervisor × ω}
    (h : AllResting s₀ s.1) :
    Ends (fun r t => AllResting s₀ t.1 ∧ r.2.2 = name) (fun _ _ => False)
      (beforeRestart os name s) := by
  obtain ⟨m', hm'⟩ : ∃ m', s.1.services.get name = some m' := by
    apply contains_iff.mp
    rw [h.registry.contains]
    exact contains_iff.mpr ⟨m, hm⟩
  have hresting := h.services name m' hm'
  have hspec : m'.spec = m.spec := by
    obtain ⟨m₀, hm₀, hspec⟩ := h.registry.spec hm'
    cases hm.symm.trans hm₀
    exact hspec.symm
  have hname : s.1.canonicalName name = name := by
    rw [Supervisor.canonicalName, resolveName_of_contains (contains_iff.mpr ⟨m', hm'⟩)]
    rfl
  have hmount : refreshLostMount os name s = .ok () s := by
    change (if (s.1.services.get name).any (Service.mountIsLost os · s.2) then _ else _ :
      Manage ω Unit) s = _
    rw [if_neg (by simp [hm', Service.mountIsLost, hresting.state])]
    change (if (s.1.services.get name).any (Service.deviceIsLost os · s.2) then _ else _ :
      Manage ω Unit) s = _
    rw [if_neg (by simp [hm', Service.deviceIsLost, hresting.state])]
    rfl
  have hallowed : (s.1.services.get name).any (·.spec.refuseManualStart) = false ∧
      (s.1.services.get name).any (·.spec.refuseManualStop) = false := by
    simp only [hm', Option.any_some, hspec]
    exact hmanual
  rw [beforeRestart]
  change Ends _ _ ((refreshLostMount os (s.1.canonicalName name) >>= _) s)
  rw [hname]
  apply ends_bind (p := fun _ t => t = s)
  · rw [hmount]
    rfl
  rintro _ s rfl
  apply ends_bind (p := fun refused t => refused = false ∧ t = s)
  · exact ⟨hallowed.1, rfl⟩
  rintro _ s ⟨rfl, rfl⟩
  dsimp only
  rw [if_neg Bool.false_ne_true]
  apply ends_bind (p := fun refused t => refused = false ∧ t = s)
  · exact ⟨hallowed.2, rfl⟩
  rintro _ s ⟨rfl, rfl⟩
  rw [if_neg Bool.false_ne_true]
  apply ends_bind (p := fun _ t => AllResting s₀ t.1)
  · exact h
  intro _ s h
  apply ends_bind (cancelStartJobs_resting os name h)
  intro _ s h
  apply ends_bind (p := fun _ t => AllResting s₀ t.1)
  · exact h
  intro now s h
  apply ends_bind (stopDependents_resting os name true now h)
  exact fun _ _ h => ⟨h, rfl⟩

/-- A registry none of whose services has been started. -/
def rested (s₀ : Supervisor) : Supervisor :=
  { s₀ with services := s₀.services.map fun m => .ofRecord (fresh m.spec), startJobs := [] }

theorem rested_resting : AllResting s₀ (rested s₀) := by
  refine ⟨⟨?_, rfl⟩, fun name m hm => ?_, rfl⟩
  · apply eq_of_get
    intro name
    rw [settings, settings, get_map, get_map, rested, get_map, Option.map_map]
    rfl
  · rw [rested, get_map] at hm
    obtain ⟨m₀, -, rfl⟩ := Option.map_eq_some_iff.mp hm
    exact ⟨rfl, rfl, rfl, rfl, rfl⟩

theorem requisites_empty (w : ω) (h : RestartsMeet os s₀) {name : Str} {m : ManagedService}
    (hm : s₀.services.get name = some m) (hmanual : Restartable m.spec) :
    m.spec.dependencies.requisite = [] := by
  by_contra hne
  obtain ⟨d, hd⟩ := List.exists_mem_of_ne_nil _ hne
  have hrun := beforeRestart_resting os (s := (rested s₀, w)) hm hmanual rested_resting
  have hmeets := h name (rested s₀, w) rested_resting.registry
  cases hr : beforeRestart os name (rested s₀, w) with
  | error e t =>
    rw [hr] at hrun
    exact hrun
  | ok r t =>
    rw [hr] at hrun hmeets
    obtain ⟨hresting, rfl⟩ := hrun
    obtain ⟨m', hm'⟩ : ∃ m', t.1.services.get r.2.2 = some m' := by
      apply contains_iff.mp
      rw [hresting.registry.contains]
      exact contains_iff.mpr ⟨m, hm⟩
    obtain ⟨m₀, hm₀, hspec⟩ := hresting.registry.spec hm'
    cases hm.symm.trans hm₀
    obtain ⟨u, mu, -, hmu, hup⟩ := hmeets m' hm' d (hspec ▸ hd)
    have hdown := (hresting.services u mu hmu).state
    simp [Active, Service.ManagedService.readyForDependency, hdown] at hup

theorem restartsMeet_of_empty (h : ∀ name m, s₀.services.get name = some m →
    Restartable m.spec → m.spec.dependencies.requisite = []) : RestartsMeet os s₀ := by
  intro asked s hs
  have hmono {α : Type} {t : Supervisor × ω} {x : Manage ω α}
      (hx : Preserves (StandsIn ω (settings s₀) s₀.aliases fun _ => True) x)
      (ht : SameRegistry s₀ t.1) :
      Ends (fun _ t => SameRegistry s₀ t.1) (fun _ _ => True) (x t) :=
    ends_mono (fun _ _ h => sameRegistry_iff.mpr h) (fun _ _ _ => trivial)
      (hx t (sameRegistry_iff.mp ht))
  rw [beforeRestart]
  change Ends _ _ ((refreshLostMount os (s.1.canonicalName asked) >>= _) s)
  generalize s.1.canonicalName asked = name
  apply ends_bind (hmono (refreshLostMount_stands os name) hs)
  intro _ s hs
  apply ends_bind (p := fun refused t => s = t ∧
    refused = (s.1.services.get name).any (·.spec.refuseManualStart))
  · exact ⟨rfl, rfl⟩
  rintro _ _ ⟨rfl, rfl⟩
  dsimp only
  split
  · trivial
  next hstart =>
  apply ends_bind (p := fun refused t => s = t ∧
    refused = (s.1.services.get name).any (·.spec.refuseManualStop))
  · exact ⟨rfl, rfl⟩
  rintro _ _ ⟨rfl, rfl⟩
  split
  · trivial
  next hstop =>
  have hempty : ∀ m, s₀.services.get name = some m → m.spec.dependencies.requisite = [] := by
    intro m hm
    obtain ⟨m', hm'⟩ : ∃ m', s.1.services.get name = some m' := by
      apply contains_iff.mp
      rw [hs.contains]
      exact contains_iff.mpr ⟨m, hm⟩
    obtain ⟨m₀, hm₀, hspec⟩ := hs.spec hm'
    cases hm.symm.trans hm₀
    apply h name m hm
    rw [Restartable, hspec]
    simpa [hm'] using And.intro hstart hstop
  apply ends_bind (p := fun _ t => SameRegistry s₀ t.1)
  · exact hs
  intro _ s hs
  apply ends_bind (hmono (keepStartJobs_stands os _) hs)
  intro _ s hs
  apply ends_bind (p := fun _ t => SameRegistry s₀ t.1)
  · exact hs
  intro now s hs
  apply ends_bind (hmono (stopDependents_stands os name true now) hs)
  intro _ t ht m hm d hd
  obtain ⟨m₀, hm₀, hspec⟩ := ht.spec hm
  rw [← hspec, hempty m₀ hm₀] at hd
  exact absurd hd List.not_mem_nil

def StartsMeet (s₀ : Supervisor) (g : DependencyGraph) : Prop :=
  ∀ root order job last log, Accepted os s₀ g root order job → Career os s₀ job last log →
    ∀ i ∈ log, RequisitesActive i.services i.name

/-- Nothing is started without its requisites exactly if all that a plan starts requires
its requisites too, and nothing that has any can be restarted by hand. -/
theorem requisites_met_iff {g : DependencyGraph} (w : ω) (hs : Wellformed s₀)
    (hg : graphOf os s₀ = .ok g) :
    StartsMeet os s₀ g ∧ RestartsMeet os s₀ ↔
      (∀ root order, g.planStart root = .ok order → ∀ v ∈ order, Guarded os s₀ g v) ∧
      ∀ name m, s₀.services.get name = some m → Restartable m.spec →
        m.spec.dependencies.requisite = [] := by
  constructor
  · rintro ⟨hstarts, hrestarts⟩
    constructor
    · intro root order hplan
      apply (starts_meet_iff w hs hg hplan).mp
      exact fun job last log => hstarts root order job last log
    · exact fun name m hm hmanual => requisites_empty os w hrestarts hm hmanual
  · rintro ⟨hguarded, hempty⟩
    constructor
    · intro root order job last log hjob
      exact (starts_meet_iff w hs hg hjob.plan).mpr (hguarded root order hjob.plan) job last log hjob
    · exact restartsMeet_of_empty os hempty

end

def needy : ServiceSpec := { plainService ['m'] with dependencies := { requisite := [['r']] } }

/-- A service that wants another one, which has a third as a requisite. -/
def needing : Supervisor :=
  { Supervisor.new with
    services := ((empty.insert ['a'] (.ofRecord (fresh page))).insert ['m']
      (.ofRecord (fresh needy))).insert ['r'] (.ofRecord (fresh (plainService ['r']))) }

def needingGraph : DependencyGraph := ⟨needing.services.map (·.spec), boxOs.directories⟩

theorem needing_wellformed : Wellformed needing := by
  intro name service h
  have hmem : (name, service) ∈ needing.services.entries := get_eq_some.mp h
  obtain h | hmem := List.mem_cons.mp hmem
  · cases h
    exact ⟨rfl, rfl⟩
  obtain h | hmem := List.mem_cons.mp hmem
  · cases h
    exact ⟨rfl, rfl⟩
  · cases List.mem_singleton.mp hmem
    exact ⟨rfl, rfl⟩

theorem needing_reachable : Reachable boxOs (needing, ⟨0, 0, true, []⟩) := by
  have hadd : [Command.add page, .add needy, .add (plainService ['r'])].foldlM
      (fun s c => after boxOs 1 c s) (Supervisor.new, ⟨0, 0, true, []⟩) =
        some (needing, ⟨0, 0, true, []⟩) := by rfl
  exact reachable_of_foldlM boxOs (.new _) hadd

theorem requisites_met_iff_needing :
    StartsMeet boxOs needing needingGraph ∧ RestartsMeet boxOs needing ↔
      (∀ root order, needingGraph.planStart root = .ok order →
        ∀ v ∈ order, Guarded boxOs needing needingGraph v) ∧
      ∀ name m, needing.services.get name = some m → Restartable m.spec →
        m.spec.dependencies.requisite = [] :=
  requisites_met_iff boxOs ⟨0, 0, true, []⟩ needing_wellformed rfl

def needingTurn : Option StartJob × List Issue :=
  turn boxOs 0 (plannedJob ['a'] [['m'], ['a']]) (needing, ⟨0, 0, true, []⟩) []

/-- What is wanted is started, and so is what is restarted, while a requisite of it is down. -/
theorem started_without_requisite :
    Reachable boxOs (needing, ⟨0, 0, true, []⟩) ∧
    (after boxOs 1 (.start ['a']) (needing, ⟨0, 0, true, []⟩)).map
      (fun s => (s.1.state ['m'], s.1.state ['r'])) = some (some .running, some .defined) ∧
    (after boxOs 1 (.restart ['m']) (needing, ⟨0, 0, true, []⟩)).map
      (fun s => (s.1.state ['m'], s.1.state ['r'])) = some (some .running, some .defined) ∧
    ¬ StartsMeet boxOs needing needingGraph ∧ ¬ RestartsMeet boxOs needing := by
  refine ⟨needing_reachable, by decide +kernel, by decide +kernel, fun h => ?_, fun h => ?_⟩
  · have hjob : Accepted boxOs needing needingGraph ['a'] [['m'], ['a']]
        (plannedJob ['a'] [['m'], ['a']]) := ⟨rfl, by decide +kernel, rfl, rfl, rfl⟩
    have hunmet : needingTurn.2.any fun i => i.services.services.contains i.name &&
        (checkRequisites i.services i.name).toOption.isNone := by decide +kernel
    obtain ⟨i, hi, hnot⟩ := List.any_eq_true.mp hunmet
    obtain ⟨hname, hnot⟩ := Bool.and_eq_true_iff.mp hnot
    have hmet := h _ _ _ _ _ hjob (.turn 0 (needing, _) .accepted ⟨rfl, rfl⟩) i hi
    rw [checkRequisites_ok.mpr ⟨hname, hmet⟩] at hnot
    cases hnot
  · have hget : needing.services.get ['m'] = some (.ofRecord (fresh needy)) := rfl
    have hempty := requisites_empty boxOs ⟨0, 0, true, []⟩ h hget ⟨rfl, rfl⟩
    cases hempty

end FractalD.Manager.RequisiteRestarts
