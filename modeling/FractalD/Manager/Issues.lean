import FractalD.Machine.Logs
import FractalD.Manager.Jobs
import FractalD.Supervisor.Settings

namespace FractalD.Manager.Issues

open FractalD.Core.Spec FractalD.Machine.CString FractalD.Machine.Effect FractalD.Machine.Logs
open FractalD.Machine.OrderedMap FractalD.Manager.Jobs FractalD.Manager.Registry
open FractalD.Supervisor FractalD.Supervisor.Settings FractalD.Supervisor.System

/-- A start that a job asks for: of which service, and the job and the services then. -/
structure Issue where
  name : Str
  job : StartJob
  services : Supervisor

/-- An operation with the starts that it asks for. -/
abbrev Issuing (ω : Type) := Logged Issue Failure (Supervisor × ω)

section

variable {ω : Type} (os : Os ω)

/-- A job asks for the start of a member when it comes to it. -/
def issues (s : Supervisor) (w : ω) (name : Str) (job : StartJob) : Bool :=
  !job.attempted.contains name && !(name ≠ job.root ∧ serviceIsReadyWithoutStart s name : Bool) &&
    startDependenciesReady os s w name job

def issuingMember (now : Instant) (p : Pass) (name : Str) : Issuing ω Pass := do
  let (s, w) ← quiet get
  note (if issues os s w name p.job then [⟨name, p.job, s⟩] else [])
  quiet (startMember os now p name)

def issuingMembers (now : Instant) : Nat → Pass → Issuing ω Progress
  | 0, p => pure ⟨true, p.job, p.refused⟩
  | passes + 1, p => do
    let p ← p.job.selected.keys.foldlM (issuingMember os now) { p with progressed := false }
    let (s, w) ← quiet get
    if requiredDependencyFailed os s w p.job then
      quiet (rollbackStartJob os p.job now)
      pure ⟨false, p.job, p.refused⟩
    else if p.progressed then issuingMembers now passes p
    else pure ⟨!jobComplete s p.job, p.job, p.refused⟩

/-- `progressStartJob` with the starts that it asks for. -/
def issuingStartJob (now : Instant) (job : StartJob) : Issuing ω Progress := do
  let s ← quiet supervisor
  if !jobComplete s job ∧ due now job.deadline then
    quiet (timeoutStartJob os job now)
    pure ⟨false, job, []⟩
  else if job.conflicts.keys.any fun name =>
      (s.services.get name).any fun service => !service.isStopped then
    pure ⟨true, job, []⟩
  else issuingMembers os now (job.selected.keys.length + 1) ⟨job, false, []⟩

def beginMember (now : Instant) (p : Pass) (name : Str) : Manage ω Pass := do
  let attempted := { p.job with attempted := p.job.attempted.add name }
  match ← attempt (onService name (Service.start os now)) with
  | .ok () =>
    pure { p with
      job := { attempted with started := attempted.started.add name }, progressed := true }
  | .error e =>
    if attempted.required.contains name then do
      rollbackStartJob os attempted now
      fail e
    else do
      let record := (← supervisor).record name
      pure ⟨attempted, true, p.refused ++ [⟨name, record⟩]⟩

/-- What becomes of a pass at a member that is not started. -/
def passBy (s : Supervisor) (p : Pass) (name : Str) : Pass :=
  if !p.job.attempted.contains name ∧ name ≠ p.job.root ∧ serviceIsReadyWithoutStart s name then
    { p with job := { p.job with attempted := p.job.attempted.add name }, progressed := true }
  else p

theorem issues_iff {s : Supervisor} {w : ω} {name : Str} {job : StartJob} :
    issues os s w name job ↔
      (job.attempted.contains name = false ∧
        ¬ (name ≠ job.root ∧ serviceIsReadyWithoutStart s name)) ∧
        startDependenciesReady os s w name job := by
  simp only [issues, Bool.and_eq_true, Bool.not_eq_true', decide_eq_false_iff_not]

theorem startMember_eq (now : Instant) (p : Pass) (name : Str) (s : Supervisor × ω) :
    startMember os now p name s =
      if issues os s.1 s.2 name p.job then beginMember os now p name s
      else .ok (passBy s.1 p name) s := by
  change (if p.job.attempted.contains name then pure p else _ : Manage ω Pass) s = _
  by_cases ha : p.job.attempted.contains name
  · simp [issues, passBy, ha, pure, EStateM.pure]
  · by_cases hr : name ≠ p.job.root ∧ serviceIsReadyWithoutStart s.1 name
    · simp [issues, passBy, ha, hr, pure, EStateM.pure]
    · by_cases hd : startDependenciesReady os s.1 s.2 name p.job
      · simp [issues, ha, hr, hd]
        rfl
      · simp [issues, passBy, ha, hr, hd, pure, EStateM.pure]

theorem issuingMember_notes (now : Instant) (p : Pass) (name : Str) :
    Notes (issuingMember os now p name) (startMember os now p name) := by
  intro s
  have hquiet := notes_quiet (startMember os now p name) (s.1, s.2 ++
    if issues os s.1.1 s.1.2 name p.job then [⟨name, p.job, s.1.1⟩] else [])
  exact hquiet

theorem issuingMembers_notes (now : Instant) (passes : Nat) (p : Pass) :
    Notes (issuingMembers os now passes p) (progressMembers os now passes p) := by
  induction passes generalizing p with
  | zero => exact notes_pure _
  | succ passes ih =>
    refine notes_bind (notes_foldlM (issuingMember_notes os now) _ _) fun p => ?_
    refine notes_bind (notes_quiet get) fun s => ?_
    refine notes_ite ?_ (notes_ite (ih p) (notes_pure _))
    exact notes_bind (notes_quiet _) fun _ => notes_pure _

theorem issuingStartJob_notes (now : Instant) (job : StartJob) :
    Notes (issuingStartJob os now job) (progressStartJob os now job) := by
  refine notes_bind (notes_quiet supervisor) fun s => ?_
  refine notes_ite ?_ (notes_ite (notes_pure _) (issuingMembers_notes os now _ _))
  exact notes_bind (notes_quiet _) fun _ => notes_pure _

end

def settings (s : Supervisor) : BTreeMap Str ServiceSpec := s.services.map (·.spec)

/-- No service but one is touched, and the settings stay. -/
structure Touches (name : Str) (s t : Supervisor) : Prop where
  others : ∀ u, u ≠ name → t.services.get u = s.services.get u
  settings : settings t = settings s

section

variable {ω α : Type} (os : Os ω)

theorem touches_insert {name : Str} {s : Supervisor} {m m' : Service.ManagedService}
    (hm : s.services.get name = some m) (h : m'.spec = m.spec) :
    Touches name s { s with services := s.services.insert name m' } := by
  refine ⟨fun u hu => get_insert_of_ne _ hu _, eq_of_get fun u => ?_⟩
  rw [settings, settings, get_map, get_map, get_insert]
  by_cases hu : u = name
  · subst hu
    rw [if_pos rfl, hm, Option.map_some, Option.map_some, h]
  · rw [if_neg hu]

theorem onService_touches {name : Str} {op : Service.Op ω α}
    (hop : ∀ spec, Preserves (HasSpec ω spec) op) (s : Supervisor × ω) :
    Ends (fun _ t => Touches name s.1 t.1) (fun _ t => Touches name s.1 t.1)
      (onService name op s) := by
  rw [onService]
  cases hm : s.1.services.get name with
  | none => exact ⟨fun _ _ => rfl, rfl⟩
  | some m =>
    have hend := hop m.spec (m, s.2) rfl
    dsimp only
    cases hr : op (m, s.2) with
    | ok a t =>
      rw [hr] at hend
      exact touches_insert hm hend
    | error e t =>
      rw [hr] at hend
      exact touches_insert hm hend

theorem attempt_start_touches (now : Instant) (name : Str) (s : Supervisor × ω) :
    Ends (fun _ t => Touches name s.1 t.1) (fun _ _ => True)
      (attempt (onService name (Service.start os now)) s) := by
  have hend : Ends (fun _ t => Touches name s.1 t.1) (fun _ t => Touches name s.1 t.1)
      (onService name (Service.start os now) s) :=
    onService_touches (fun _ => start_hasSpec os now) s
  rw [attempt]
  cases hr : onService name (Service.start os now) s with
  | ok a t =>
    rw [hr] at hend
    exact hend
  | error e t =>
    rw [hr] at hend
    cases e with
    | error text => exact hend
    | stackOverflow => trivial

/-- The pass goes on with the member attempted. -/
structure Attempts (name : Str) (p p' : Pass) : Prop where
  attempted : p'.job.attempted = p.job.attempted.add name
  root : p'.job.root = p.job.root
  selected : p'.job.selected = p.job.selected

theorem beginMember_ends (now : Instant) (p : Pass) (name : Str) (s : Supervisor × ω) :
    Ends (fun p' t => Attempts name p p' ∧ Touches name s.1 t.1) (fun _ _ => True)
      (beginMember os now p name s) := by
  refine ends_bind (attempt_start_touches os now name s) fun r t ht => ?_
  cases r with
  | ok u => exact ⟨⟨rfl, rfl, rfl⟩, ht⟩
  | error e =>
    by_cases hr : p.job.required.contains name
    · simp only [hr, if_true]
      exact ends_bind (p := fun _ _ => True) (ends_trivial _) fun _ _ _ => trivial
    · simp only [hr, Bool.false_eq_true, if_false]
      exact ⟨⟨rfl, rfl, rfl⟩, ht⟩

end

end FractalD.Manager.Issues
