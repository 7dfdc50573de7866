import FractalD.Manager.Issues

namespace FractalD.Manager.Acceptance

open FractalD.Core.Graph FractalD.Core.Record FractalD.Core.Spec FractalD.Machine.CString
open FractalD.Machine.Effect FractalD.Machine.OrderedMap FractalD.Manager.Issues
open FractalD.Manager.Jobs FractalD.Manager.Registry FractalD.Supervisor
open FractalD.Supervisor.Settings FractalD.Supervisor.System

section

variable {ω : Type} (os : Os ω)

def openJob (manual : Bool) (name : Str) :
    Manage ω (BTreeMap Str ServiceState × Instant × StartJob) := do
  let name := (← supervisor).canonicalName name
  refreshLostMount os name
  let s ← supervisor
  if manual && (s.services.get name).any (·.spec.refuseManualStart) then
    fail (manualRefused "start".toList name)
  orFail (checkRequisites s name)
  let before := s.states
  let g ← graph os
  let cannotPlan := "cannot plan start for ".toList ++ name ++ ": ".toList
  let required ← orFailGraph os cannotPlan (g.requiredClosure name)
  let order ← orFailGraph os cannotPlan (g.planStart name)
  let selected := ofList order
  let conflicts ← orFail (conflictsFor s g selected)
  if conflicts.contains name then
    fail ("service ".toList ++ name ++ " conflicts with itself".toList)
  let now ← call os.now
  conflicts.keys.forM (stopConflict os now)
  let timeout := (s.services.get name).bind (·.spec.jobTimeout)
  let action := ((s.services.get name).map (·.spec.jobTimeoutAction)).getD .none
  pure (before, now, ⟨name, selected, required, order, conflicts, empty, empty,
    timeout.bind (timeoutDeadline now), action⟩)

theorem startThen_eq (activate : Str → Manage ω Unit) (manual : Bool) (name : Str) :
    startThen os activate manual name = (do
      let (before, now, job) ← openJob os manual name
      update fun s => { s with startJobs := s.startJobs ++ [job] }
      progressStartJobs os activate now
      propagateBindings os before now
      propagateSuccesses activate before
      propagateFailures activate before
      reapUnneeded os now) := by
  simp only [startThen, openJob, bind_assoc, ite_bind, pure_bind]

end

/-- The settings of the services are the given ones. -/
def HasSettings (ω : Type) (specs : BTreeMap Str ServiceSpec) (s : Supervisor × ω) : Prop :=
  settings s.1 = specs

section

variable {ω α : Type} (os : Os ω) {specs : BTreeMap Str ServiceSpec}

theorem onService_hasSettings {op : Service.Op ω α}
    (hop : ∀ spec, Preserves (HasSpec ω spec) op) (name : Str) :
    Preserves (HasSettings ω specs) (onService name op) :=
  fun s hs => ends_mono (fun _ _ h => h.settings.trans hs) (fun _ _ h => h.settings.trans hs)
    (onService_touches hop s)

theorem attempt_hasSettings {x : Manage ω α} (hx : Preserves (HasSettings ω specs) x) :
    Preserves (HasSettings ω specs) (attempt x) := by
  intro s hs
  have hend := hx s hs
  rw [attempt]
  cases hr : x s with
  | ok a t =>
    rw [hr] at hend
    exact hend
  | error e t =>
    rw [hr] at hend
    cases e <;> exact hend

theorem update_hasSettings {f : Supervisor → Supervisor} (hf : ∀ s, (f s).services = s.services) :
    Preserves (HasSettings ω specs) (update f : Manage ω Unit) :=
  fun s hs => (congrArg (BTreeMap.map _) (hf s.1)).trans hs

theorem supervisor_hasSettings :
    Preserves (HasSettings ω specs) (supervisor : Manage ω Supervisor) := fun _ hs => hs

theorem call_hasSettings (c : Call ω α) : Preserves (HasSettings ω specs) (call c) :=
  fun _ hs => hs

theorem stopService_hasSettings (now : Instant) (name : Str) :
    Preserves (HasSettings ω specs) (onService name (Service.stop os now)) :=
  onService_hasSettings (fun _ => stop_hasSpec os now) name

theorem rollbackStartJob_hasSettings (job : StartJob) (now : Instant) :
    Preserves (HasSettings ω specs) (rollbackStartJob os job now) :=
  preserves_forM (fun _ => preserves_bind (attempt_hasSettings (stopService_hasSettings os now _))
    fun _ => preserves_pure ()) _

theorem cancelStartJobs_hasSettings (name : Str) :
    Preserves (HasSettings ω specs) (cancelStartJobs os name) := by
  refine preserves_bind supervisor_hasSettings fun s => ?_
  refine preserves_bind (update_hasSettings fun _ => rfl) fun _ => ?_
  refine preserves_bind (call_hasSettings _) fun now => ?_
  refine preserves_bind (preserves_forM (fun job => ?_) _) fun _ => update_hasSettings fun _ => rfl
  exact rollbackStartJob_hasSettings os job now

theorem stopConflict_hasSettings (now : Instant) (conflict : Str) :
    Preserves (HasSettings ω specs) (stopConflict os now conflict) := by
  refine preserves_bind (cancelStartJobs_hasSettings os conflict) fun _ => ?_
  refine preserves_bind ?_ fun _ => ?_
  · exact preserves_bind supervisor_hasSettings fun s =>
      preserves_ite (fun _ => stopService_hasSettings os now conflict) fun _ => preserves_pure ()
  · refine preserves_bind supervisor_hasSettings fun s => preserves_forM (fun dependent => ?_) _
    exact preserves_bind (cancelStartJobs_hasSettings os dependent) fun _ =>
      stopService_hasSettings os now dependent

end

/-- A job for a start that has been accepted. -/
structure Accepted {ω : Type} (os : Os ω) (s : Supervisor) (g : DependencyGraph) (root : Str)
    (order : List Str) (job : StartJob) : Prop where
  graph : graphOf os s = .ok g
  plan : g.planStart root = .ok order
  root : job.root = root
  selected : job.selected = ofList order
  attempted : job.attempted = empty

theorem graphOf_settings {ω : Type} (os : Os ω) (s : Supervisor) : graphOf os s =
    (settings s).values.foldlM (fun g spec => g.add spec) ⟨empty, os.directories⟩ := by
  simp only [graphOf, settings, BTreeMap.values, BTreeMap.map, List.foldlM_map]

section

variable {ω : Type} (os : Os ω)

theorem orFailGraph_ends {α : Type} (describe : Str) (r : Except GraphError α)
    (s : Supervisor × ω) :
    Ends (fun a t => r = .ok a ∧ s = t) (fun _ _ => True) (orFailGraph os describe r s) := by
  cases r with
  | ok a => exact ⟨rfl, rfl⟩
  | error e => trivial

theorem graph_ends (s : Supervisor × ω) :
    Ends (fun g t => graphOf os s.1 = .ok g ∧ s = t) (fun _ _ => True) (graph os s) :=
  orFailGraph_ends os _ _ s

theorem openJob_accepted (manual : Bool) (name : Str) (s : Supervisor × ω) :
    Ends (fun r t => ∃ g order, Accepted os t.1 g r.2.2.root order r.2.2) (fun _ _ => True)
      (openJob os manual name s) := by
  have hany {α : Type} (x : EStateM.Result Failure (Supervisor × ω) α) :
      Ends (fun _ _ => True) (fun _ _ => True) x := ends_trivial x
  refine ends_bind (p := fun _ _ => True) trivial fun first _ _ => ?_
  dsimp only
  refine ends_bind (hany _) fun _ t _ => ?_
  refine ends_bind (p := fun s t' => s = t.1 ∧ t = t') ⟨rfl, rfl⟩ ?_
  rintro _ _ ⟨rfl, rfl⟩
  split
  · trivial
  refine ends_bind (p := fun _ t' => t = t') ?_ ?_
  · cases checkRequisites t.1 (first.canonicalName name) with
    | ok u => rfl
    | error e => trivial
  rintro _ _ rfl
  refine ends_bind (graph_ends os t) ?_
  rintro g _ ⟨hgraph, rfl⟩
  refine ends_bind (orFailGraph_ends os _ _ t) ?_
  rintro required _ ⟨-, rfl⟩
  refine ends_bind (orFailGraph_ends os _ _ t) ?_
  rintro order _ ⟨hplan, rfl⟩
  refine ends_bind (p := fun _ t' => t = t') ?_ ?_
  · cases conflictsFor t.1 g (ofList order) with
    | ok u => rfl
    | error e => trivial
  rintro conflicts _ rfl
  split
  · trivial
  refine ends_bind (p := fun _ => HasSettings ω (settings t.1)) rfl fun now t' ht' => ?_
  have hstop := preserves_forM (stopConflict_hasSettings os now) conflicts.keys t' ht'
  refine ends_bind (ends_mono (fun _ _ h => h) (fun _ _ _ => trivial) hstop) fun _ t'' ht'' => ?_
  refine ⟨g, order, ?_, hplan, rfl, rfl, rfl⟩
  rw [graphOf_settings, ht'', ← graphOf_settings, hgraph]

end

end FractalD.Manager.Acceptance
