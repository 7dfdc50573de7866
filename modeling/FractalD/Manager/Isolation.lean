import FractalD.Machine.Faults
import FractalD.Manager.Jobs
import FractalD.Supervisor.StartFailure

namespace FractalD.Manager.Isolation

open FractalD.Core.Record FractalD.Core.Spec FractalD.Machine.CString FractalD.Machine.Effect
open FractalD.Machine.Faults FractalD.Machine.OrderedMap FractalD.Manager.Jobs
open FractalD.Manager.Registry FractalD.Supervisor FractalD.Supervisor.StartFailure
open FractalD.Supervisor.System

/-- What has failed for a service in a round: its own poll, the start of a member
that its job does not require, its whole job, a connection to its socket, or its
stop for a service that went down or because nothing needs it. -/
inductive Step
  | poll
  | member
  | job
  | accept
  | binding
  | unneeded
  deriving DecidableEq, Repr

/-- A failed step, and the record of the service right after it. -/
structure Fault where
  step : Step
  service : Str
  record : Option ServiceRecord
  deriving DecidableEq, Repr

def Fault.Recorded (f : Fault) : Prop := ∃ r ∈ f.record, StartFailure.Recorded r

/-- The job goes on without the member, whose main process has not been launched. -/
def Fault.Harmless (f : Fault) : Prop := f.step = .member ∧ ∀ r ∈ f.record, r.pid = none

abbrev IsolatedRound (ω α : Type) := Round Fault Failure (Supervisor × ω) α

section

variable {ω α : Type} (os : Os ω)

def faultOf (step : Step) (name : Str) : Manage ω Fault := do
  pure ⟨step, name, (← supervisor).record name⟩

/-- Do a step for a service. If it fails the round goes on. -/
def isolated (step : Step) (name : Str) (otherwise : α) (x : Manage ω α) : IsolatedRound ω α :=
  .mk do
    match ← attempt x with
    | .ok a => pure (a, [])
    | .error _ => do pure (otherwise, [← faultOf step name])

def isolatedJob (now : Instant) (job : StartJob) : IsolatedRound ω (List StartJob) :=
  .mk do
    match ← attempt (progressStartJob os now job) with
    | .ok p => pure (p.kept, p.refused.map fun refusal => ⟨.member, refusal.name, refusal.record⟩)
    | .error _ => do pure ([], [← faultOf .job job.root])

def isolatedEach (now : Instant) : List StartJob → IsolatedRound ω (List StartJob)
  | [] => pure []
  | job :: jobs => do
    let kept ← isolatedJob os now job
    let pending ← isolatedEach now jobs
    pure (kept ++ pending)

variable (activate : Str → Manage ω Unit)

def isolatedSockets : IsolatedRound ω Unit := do
  let ordinary ← (activations (← plain supervisor)).foldlM (fun ordinary a =>
    isolated .accept a.socket ordinary (progressSocket os activate ordinary a)) empty
  ordinary.entries.forM fun (target, fds, fdNames, _) =>
    plain (activateOrdinary os activate target fds fdNames)

def isolatedSocketActivation : IsolatedRound ω Unit := do
  unless (← plain supervisor).progressingSocketActivation do
    plain (update ({ · with progressingSocketActivation := true }))
    isolatedSockets os activate
    plain (update ({ · with progressingSocketActivation := false }))

def isolatedStartJobs (now : Instant) : IsolatedRound ω Unit := do
  let jobs := (← plain supervisor).startJobs
  plain (update ({ · with startJobs := [] }))
  let pending ← isolatedEach os now jobs
  plain (update ({ · with startJobs := pending }))
  isolatedSocketActivation os activate
  plain (progressTriggerActivation os activate now)

def isolatedBindings (before : BTreeMap Str ServiceState) (now : Instant) :
    IsolatedRound ω Unit := do
  (wentDown (← plain supervisor) before).forM fun (source, intended) => do
    (dependentNames (← plain supervisor) source intended).forM fun dependent =>
      isolated .binding dependent () (stopDependent os now dependent)

def isolatedReapRounds (now : Instant) : Nat → IsolatedRound ω Unit
  | 0 => plain (throw .stackOverflow)
  | rounds + 1 => do
    let g ← plain (graph os)
    match unneeded (← plain supervisor) g with
    | [] => pure ()
    | names => do
      names.forM fun name => isolated .unneeded name () (stopUnneeded os now name)
      isolatedReapRounds now rounds

def isolatedReap (now : Instant) : IsolatedRound ω Unit := do
  let s ← plain supervisor
  if s.startJobs.isEmpty then isolatedReapRounds os now (s.names.length + 1)

/-- A poll in which every service and every pending job has its turn, whatever
fails for the others. What it activates is started as by the supervisor. -/
def isolatedPoll (depth : Nat) : IsolatedRound ω Unit := do
  let s ← plain supervisor
  let now ← plain (call os.now)
  s.names.forM fun name => isolated .poll name () (pollService os now name)
  let activate := startWithOrigin os depth false
  isolatedStartJobs os activate now
  isolatedBindings os s.states now
  plain (propagateSuccesses activate s.states)
  plain (propagateFailures activate s.states)
  isolatedReap os now

end

section

variable {ω α : Type} {os : Os ω}

theorem attempt_ok {x : Manage ω α} {s t : Supervisor × ω} {a : α} :
    attempt x s = .ok (.ok a) t ↔ x s = .ok a t := by
  simp only [attempt]
  split
  next b u h => simp [h]
  next e u h => simp [h]
  next u h => simp [h]

theorem attempt_error {x : Manage ω α} {s t : Supervisor × ω} {e : Str} :
    attempt x s = .ok (.error e) t ↔ x s = .error (.error e) t := by
  simp only [attempt]
  split
  next b u h => simp [h]
  next e' u h => simp [h]
  next u h => simp [h]

def Fault.Dropped (f : Fault) : Prop :=
  f.step = .member ∧ ∃ r, f.record = some r ∧ StartFailure.Accounted r

abbrev FollowsRound (x : Manage ω α) (r : IsolatedRound ω α) : Prop :=
  Follows Fault.Dropped (·.step = .member) x r

theorem follows_isolated {step : Step} (hs : step ≠ .member) (name : Str) (a : α)
    (x : Manage ω α) : FollowsRound x (isolated step name a x) where
  succeeds := by
    intro s b t h
    exact ⟨[], bind_ok.mpr ⟨_, t, attempt_ok.mpr h, rfl⟩, by simp⟩
  allows := by
    intro s b fs t h hall
    obtain ⟨r, u, hr, h⟩ := bind_ok.mp h
    cases r with
    | ok b' =>
      cases h
      exact attempt_ok.mp hr
    | error e =>
      cases h
      exact absurd (hall _ (List.mem_singleton_self _)) hs

theorem onService_error {name : Str} {op : Service.Op ω α} {s t : Supervisor × ω} {e : Failure}
    (h : onService name op s = .error e t) (hs : (s.1.services.get name).isSome) :
    ∃ service service', ∃ e', s.1.services.get name = some service ∧
      op (service, s.2) = .error e' (service', t.2) ∧ t.1.services.get name = some service' := by
  obtain ⟨service, hs⟩ := Option.isSome_iff_exists.mp hs
  simp only [onService, hs] at h
  cases ho : op (service, s.2) with
  | ok a u => simp [ho] at h
  | error e' u =>
    simp only [ho, EStateM.Result.error.injEq] at h
    obtain ⟨-, rfl⟩ := h
    exact ⟨service, u.1, e', hs, ho, get_insert_self _ _ _⟩

theorem startDependenciesReady_known {s : Supervisor} {w : ω} {name : Str} {job : StartJob}
    (h : startDependenciesReady os s w name job = true) : (s.services.get name).isSome := by
  cases hs : s.services.get name with
  | none => simp [startDependenciesReady, hs] at h
  | some service => rfl

/-- The failures that a job has gone on without are accounted for. -/
def Accounted (refused : List Refusal) : Prop :=
  ∀ f ∈ refused, ∃ r, f.record = some r ∧ StartFailure.Accounted r

theorem attempt_start_accounted (now : Instant) {name : Str} {s : Supervisor × ω}
    (hs : (s.1.services.get name).isSome) :
    Ends (fun r t => ∀ e, r = .error e →
        ∃ r, t.1.record name = some r ∧ StartFailure.Accounted r)
      (fun _ _ => True) (attempt (onService name (Service.start os now)) s) := by
  cases h : onService name (Service.start os now) s with
  | ok a t =>
    rw [attempt_ok.mpr h]
    intro e he
    cases he
  | error e t =>
    cases e with
    | stackOverflow =>
      simp only [attempt, h]
      exact trivial
    | error e =>
      rw [attempt_error.mpr h]
      intro _ _
      obtain ⟨service, service', e', -, hop, hget⟩ := onService_error h hs
      have hacc := ends_of_error (start_accounted os now (service, s.2)) hop
      exact ⟨service'.record, by simp [Supervisor.record, hget], hacc⟩

theorem startMember_accounted (now : Instant) {p : Pass} (hp : Accounted p.refused) (name : Str)
    (s : Supervisor × ω) :
    Ends (fun p' _ => Accounted p'.refused) (fun _ _ => True) (startMember os now p name s) := by
  change Ends _ _ ((if p.job.attempted.contains name then pure p else _ : Manage ω Pass) s)
  split
  · exact hp
  · split
    · exact hp
    · split
      · exact hp
      · next hready =>
        have hknown := startDependenciesReady_known (by simpa using hready)
        refine ends_bind (p := fun r t => ∀ e, r = .error e →
          ∃ r, t.1.record name = some r ∧ StartFailure.Accounted r) ?_ fun r t ht => ?_
        · exact attempt_start_accounted now hknown
        · cases r with
          | ok u => exact hp
          | error e =>
            simp only
            split
            · exact ends_bind (ends_trivial _) fun _ _ _ => trivial
            · obtain ⟨r, hr, hacc⟩ := ht e rfl
              intro f hf
              obtain hf | hf := List.mem_append.mp hf
              · exact hp f hf
              · obtain rfl := List.mem_singleton.mp hf
                exact ⟨r, hr, hacc⟩

theorem startMembers_accounted (now : Instant) (names : List Str) {p : Pass}
    (hp : Accounted p.refused) (s : Supervisor × ω) :
    Ends (fun p' _ => Accounted p'.refused) (fun _ _ => True)
      (names.foldlM (startMember os now) p s) := by
  induction names generalizing p s with
  | nil => exact hp
  | cons name names ih =>
    rw [List.foldlM_cons]
    exact ends_bind (startMember_accounted now hp name s) fun p' t hp' => ih hp' t

theorem progressMembers_accounted (now : Instant) (passes : Nat) {p : Pass}
    (hp : Accounted p.refused) (s : Supervisor × ω) :
    Ends (fun p' _ => Accounted p'.refused) (fun _ _ => True)
      (progressMembers os now passes p s) := by
  induction passes generalizing p s with
  | zero => exact hp
  | succ passes ih =>
    refine ends_bind (startMembers_accounted now _ (p := { p with progressed := false }) hp s)
      fun p' t hp' => ?_
    change Ends _ _ ((if requiredDependencyFailed os t.1 t.2 p'.job then _ else _ :
      Manage ω Progress) t)
    split
    · exact ends_bind (ends_trivial _) fun _ _ _ => hp'
    · split
      · exact ih hp' t
      · exact hp'

theorem progressStartJob_accounted (now : Instant) (job : StartJob) (s : Supervisor × ω) :
    Ends (fun p _ => Accounted p.refused) (fun _ _ => True) (progressStartJob os now job s) := by
  have hnil : Accounted [] := fun _ hf => absurd hf List.not_mem_nil
  change Ends _ _ ((if _ then _ else _ : Manage ω Progress) s)
  split
  · exact ends_bind (ends_trivial _) fun _ _ _ => hnil
  · split
    · exact hnil
    · exact progressMembers_accounted now _ hnil s

theorem follows_isolatedJob (now : Instant) (job : StartJob) :
    FollowsRound (Progress.kept <$> progressStartJob os now job) (isolatedJob os now job) where
  succeeds := by
    intro s a t h
    obtain ⟨p, hp, rfl⟩ := map_ok.mp h
    have hacc : Ends (fun p _ => Accounted p.refused) (fun _ _ => True)
        (progressStartJob os now job s) := progressStartJob_accounted now job s
    rw [hp] at hacc
    refine ⟨_, bind_ok.mpr ⟨_, t, attempt_ok.mpr hp, rfl⟩, fun f hf => ?_⟩
    obtain ⟨refusal, hm, rfl⟩ := List.mem_map.mp hf
    exact ⟨rfl, hacc refusal hm⟩
  allows := by
    intro s a fs t h hall
    obtain ⟨r, u, hr, h⟩ := bind_ok.mp h
    cases r with
    | ok p =>
      cases h
      exact map_ok.mpr ⟨p, attempt_ok.mp hr, rfl⟩
    | error e =>
      cases h
      cases hall _ (List.mem_singleton_self _)

theorem follows_isolatedEach (now : Instant) (jobs : List StartJob) :
    FollowsRound (progressEach os now jobs) (isolatedEach os now jobs) := by
  induction jobs with
  | nil => exact follows_pure []
  | cons job jobs ih =>
    exact follows_bind (follows_isolatedJob now job) fun kept =>
      follows_bind ih fun pending => follows_pure (kept ++ pending)

theorem follows_isolatedSockets (activate : Str → Manage ω Unit) :
    FollowsRound (progressSocketActivationInner os activate) (isolatedSockets os activate) := by
  refine follows_bind follows_plain fun s => ?_
  refine follows_bind (follows_foldlM (fun ordinary a => ?_) _ _) fun ordinary => ?_
  · exact follows_isolated (by decide) _ _ _
  · exact follows_forM (fun _ => follows_plain) _

theorem attempt_then_ok {x : Manage ω Unit} {y : Manage ω Unit} {s t : Supervisor × ω} :
    (do let r ← attempt x; y; orFail r) s = .ok () t ↔ (do x; y) s = .ok () t := by
  simp only [bind_ok]
  constructor
  · rintro ⟨r, u, hr, _, v, hy, h⟩
    cases r with
    | ok a =>
      cases h
      exact ⟨(), u, attempt_ok.mp hr, hy⟩
    | error e => cases h
  · rintro ⟨a, u, hx, hy⟩
    exact ⟨.ok a, u, attempt_ok.mpr hx, (), t, hy, rfl⟩

theorem follows_isolatedSocketActivation (activate : Str → Manage ω Unit) :
    FollowsRound (progressSocketActivation os activate)
      (isolatedSocketActivation os activate) := by
  refine follows_bind follows_plain fun s => ?_
  split
  · exact follows_pure ()
  · refine follows_bind follows_plain fun _ => ?_
    refine follows_congr (fun _ _ _ => attempt_then_ok) ?_
    exact follows_bind (follows_isolatedSockets activate) fun _ => follows_plain

theorem follows_isolatedStartJobs (activate : Str → Manage ω Unit) (now : Instant) :
    FollowsRound (progressStartJobs os activate now) (isolatedStartJobs os activate now) :=
  follows_bind follows_plain fun s => follows_bind follows_plain fun _ =>
    follows_bind (follows_isolatedEach now s.startJobs) fun _ => follows_bind follows_plain fun _ =>
      follows_bind (follows_isolatedSocketActivation activate) fun _ => follows_plain

theorem follows_isolatedBindings (before : BTreeMap Str ServiceState) (now : Instant) :
    FollowsRound (propagateBindings os before now) (isolatedBindings os before now) := by
  refine follows_bind follows_plain fun s => follows_forM (fun (source, intended) => ?_) _
  refine follows_bind follows_plain fun s => follows_forM (fun dependent => ?_) _
  exact follows_isolated (by decide) _ _ _

theorem follows_isolatedReapRounds (now : Instant) (rounds : Nat) :
    FollowsRound (reapRounds os now rounds) (isolatedReapRounds os now rounds) := by
  induction rounds with
  | zero => exact follows_plain
  | succ rounds ih =>
    refine follows_bind follows_plain fun g => follows_bind follows_plain fun s => ?_
    cases unneeded s g with
    | nil => exact follows_pure ()
    | cons name names =>
      refine follows_bind (follows_forM (fun name => ?_) _) fun _ => ih
      exact follows_isolated (by decide) _ _ _

theorem follows_isolatedReap (now : Instant) :
    FollowsRound (reapUnneeded os now) (isolatedReap os now) := by
  refine follows_bind follows_plain fun s => ?_
  split
  · exact follows_isolatedReapRounds now _
  · exact follows_pure ()

theorem follows_isolatedPoll (depth : Nat) :
    FollowsRound (poll os depth) (isolatedPoll os depth) := by
  refine follows_bind follows_plain fun s => follows_bind follows_plain fun now => ?_
  refine follows_bind (follows_forM (fun name => ?_) _) fun _ => ?_
  · exact follows_isolated (by decide) _ _ _
  · exact follows_bind (follows_isolatedStartJobs _ now) fun _ =>
      follows_bind (follows_isolatedBindings _ now) fun _ => follows_bind follows_plain fun _ =>
        follows_bind follows_plain fun _ => follows_isolatedReap now

end

end FractalD.Manager.Isolation
