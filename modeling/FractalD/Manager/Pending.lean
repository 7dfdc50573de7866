import FractalD.Manager.Fates
import FractalD.Manager.Survival

namespace FractalD.Manager.Pending

open FractalD.Core.Spec FractalD.Machine.CString FractalD.Machine.Effect FractalD.Machine.Logs
open FractalD.Machine.OrderedMap FractalD.Manager.Fates FractalD.Manager.Jobs
open FractalD.Manager.Registry FractalD.Manager.Runs FractalD.Manager.Survival
open FractalD.Supervisor FractalD.Supervisor.System

section

variable {ω : Type} (os : Os ω)

/-- The deadline of a job that is not complete has passed. -/
def Overdue (now : Instant) (s : Supervisor) (job : StartJob) : Prop :=
  !jobComplete s job ∧ due now job.deadline

/-- What a job had started has just been stopped. -/
def RolledBack (now : Instant) (job : StartJob) (t : Supervisor × ω) : Prop :=
  ∃ job' s, identity job' = identity job ∧ rollbackStartJob os job' now s = .ok () t

theorem rollbackStartJob_ends {now : Instant} {job job' : StartJob}
    (h : identity job' = identity job) (s : Supervisor × ω) :
    Ends (fun _ t => RolledBack os now job t) (fun _ _ => False)
      (rollbackStartJob os job' now s) := by
  have hleaves : Leaves False (fun _ => True) (rollbackStartJob os job' now) :=
    rollbackStartJob_leaves os job' now
  have hend := hleaves s
  cases hr : rollbackStartJob os job' now s with
  | ok u t => exact ⟨job', s, h, hr⟩
  | error e t =>
    rw [hr] at hend
    exact hend.1.1

theorem startMember_ends {now : Instant} {job : StartJob} {p : Pass}
    (hp : identity p.job = identity job) (name : Str) (s : Supervisor × ω) :
    Ends (fun p' _ => identity p'.job = identity job) (fun _ t => RolledBack os now job t)
      (startMember os now p name s) := by
  change Ends _ _ ((if p.job.attempted.contains name then pure p else _ : Manage ω Pass) s)
  split
  · exact hp
  · split
    · exact hp
    · split
      · exact hp
      · have hattempt : Leaves False (fun _ => True)
            (attempt (onService name (Service.start os now))) :=
          leaves_attempt (leaves_onService _ _)
        refine ends_bind (ends_mono (fun _ _ h => h) (fun _ _ h => h.1.1.elim) (hattempt s))
          fun r t _ => ?_
        cases r with
        | ok u => exact hp
        | error e =>
          dsimp only
          split
          · refine ends_bind (p := fun _ t => RolledBack os now job t) ?_ fun _ _ h => h
            exact ends_mono (fun _ _ h => h) (fun _ _ h => h.elim) (rollbackStartJob_ends os hp t)
          · exact hp

theorem progressMembers_ends {now : Instant} (passes : Nat) {job : StartJob} {p : Pass}
    (hp : identity p.job = identity job) (s : Supervisor × ω) :
    Ends (fun r t => r.pending ∨ jobComplete t.1 r.job ∨ RolledBack os now job t)
      (fun _ t => RolledBack os now job t) (progressMembers os now passes p s) := by
  induction passes generalizing p s with
  | zero => exact .inl rfl
  | succ passes ih =>
    refine ends_bind (p := fun p' _ => identity p'.job = identity job) ?_ fun p' t hp' => ?_
    · exact ends_foldlM (fun p name hp t => startMember_ends os hp name t) hp
    · change Ends _ _ ((if requiredDependencyFailed os t.1 t.2 p'.job then _ else _ :
        Manage ω Progress) t)
      split
      · refine ends_bind (p := fun _ t => RolledBack os now job t) ?_ fun _ _ h => .inr (.inr h)
        exact ends_mono (fun _ _ h => h) (fun _ _ h => h.elim) (rollbackStartJob_ends os hp' t)
      · split
        · exact ih hp' t
        · cases hc : jobComplete t.1 p'.job with
          | true => exact .inr (.inl hc)
          | false => exact .inl rfl

theorem progressStartJob_settles (now : Instant) (job : StartJob) (s : Supervisor × ω) :
    Ends (fun p t => p.pending ∨ jobComplete t.1 p.job ∨ RolledBack os now job t ∨
        Overdue now s.1 job)
      (fun _ t => RolledBack os now job t ∨ Overdue now s.1 job)
      (progressStartJob os now job s) := by
  change Ends _ _ ((if !jobComplete s.1 job ∧ due now job.deadline then _ else _ :
    Manage ω Progress) s)
  split
  next hover =>
    refine ends_bind (p := fun _ _ => True) ?_ fun _ _ _ => .inr (.inr (.inr hover))
    exact ends_mono (fun _ _ h => h) (fun _ _ _ => .inr hover) (ends_trivial _)
  next =>
    split
    · exact .inl rfl
    · refine ends_mono (fun r t h => ?_) (fun _ _ h => .inl h)
        (progressMembers_ends os _ (p := ⟨job, false, []⟩) rfl s)
      exact h.imp_right (Or.imp_right .inl)

variable (depth : Nat) (now : Instant) (s : Supervisor × ω)

/-- The fates of jobs in a call of `progressStartJobs`, with those in the calls that are
nested in it. -/
def fates : List Fate := (final (toldStartJobs os (toldStart os depth false) now) (s, [])).2

def pendingAfter : List StartJob :=
  (final (progressStartJobs os (startWithOrigin os depth false) now) s).1.startJobs

/-- The jobs that were pending or have been added are those that have been settled or
are pending. -/
def Kept : Prop :=
  identities (s.1.startJobs ++ (fates os depth now s).flatMap Fate.adds) =
    identities (pendingAfter os depth now s ++ (fates os depth now s).flatMap Fate.settles)

theorem fates_balance :
    identities (pendingAfter os depth now s ++ (fates os depth now s).flatMap Fate.settles) +
        identities ((fates os depth now s).flatMap Fate.others) =
      identities (s.1.startJobs ++ (fates os depth now s).flatMap Fate.adds) := by
  have htells := toldStartJobs_tells os (toldStart_tells os depth false) now
  have hstart : Balance [] (identities s.1.startJobs) (s, []) := by simp [Balance]
  have hend := ends_final (htells.balanced _ (s, []) hstart)
  rw [Balance, final_of_notes htells.notes] at hend
  rw [identities_append, identities_append, pendingAfter, fates, ← hend, identities_nil, add_zero]

theorem identities_eq_zero {jobs : List StartJob} : identities jobs = 0 ↔ jobs = [] := by
  simp [identities]

/-- No pending job is lost exactly if no job fails while there are others in its pass. -/
theorem jobs_kept_iff :
    Kept os depth now s ↔ ∀ fate ∈ fates os depth now s, fate.others = [] := by
  rw [Kept, ← fates_balance, add_eq_left, identities_eq_zero, List.flatMap_eq_nil_iff]

end

def againstC (name : Str) : ServiceSpec :=
  { plainService name with dependencies := { conflicts := [['c']] } }

/-- Two services are to be started as soon as a third one has stopped. -/
def waiting : Option (Supervisor × Box) :=
  [.add (againstC ['a']), .add (againstC ['b']), .add (plainService ['c']), .start ['c'],
    .start ['a'], .start ['b']].foldlM
    (fun s c => after boxOs 1 c s) (Supervisor.new, ⟨0, 0, true, []⟩)

/-- The third service has exited, and there are no more processes to be had. -/
def released (s : Supervisor × Box) : Supervisor × Box := (s.1, ⟨0, 1, false, [1]⟩)

/-- Of two jobs that were pending one is settled and none is pending any more. -/
def losesOne (s : Supervisor × Box) : Bool :=
  s.1.startJobs.map (·.root) = [['a'], ['b']] &&
    ((fates boxOs 1 0 s).flatMap Fate.adds).isEmpty &&
    ((fates boxOs 1 0 s).flatMap Fate.settles).map (·.root) = [['a']] &&
    (pendingAfter boxOs 1 0 s).isEmpty

/-- The state in which a poll goes on to the jobs. -/
def polled (s : Supervisor × Box) : Option (Supervisor × Box) :=
  match s.1.names.forM (pollService boxOs 0) s with
  | .ok () t => some t
  | .error _ _ => none

theorem not_kept_of_losesOne {s : Supervisor × Box} (h : losesOne s) :
    s.1.startJobs.map (·.root) = [['a'], ['b']] ∧
      ((fates boxOs 1 0 s).flatMap Fate.settles).map (·.root) = [['a']] ∧
      pendingAfter boxOs 1 0 s = [] ∧ ¬ Kept boxOs 1 0 s := by
  simp only [losesOne, Bool.and_eq_true, decide_eq_true_eq, List.isEmpty_iff] at h
  obtain ⟨⟨⟨hbefore, hadds⟩, hsettles⟩, hafter⟩ := h
  refine ⟨hbefore, hsettles, hafter, fun hkept => ?_⟩
  have htwo := congrArg List.length hbefore
  have hone := congrArg List.length hsettles
  have hcard := congrArg Multiset.card hkept
  rw [hadds, hafter] at hcard
  simp only [identities, Multiset.coe_card, List.length_map, List.append_nil, List.nil_append]
    at htwo hone hcard
  rw [htwo, hone] at hcard
  exact absurd hcard (by decide)

/-- The start of the first service fails once both jobs can go on, and the job of the
second one, which has not been looked at, is gone. -/
theorem failure_loses_job :
    ∃ s t, Reachable boxOs s ∧ polled s = some t ∧
      t.1.startJobs.map (·.root) = [['a'], ['b']] ∧
      ((fates boxOs 1 0 t).flatMap Fate.settles).map (·.root) = [['a']] ∧
      pendingAfter boxOs 1 0 t = [] ∧ ¬ Kept boxOs 1 0 t := by
  have hrun : ((waiting.map released).bind polled).any losesOne = true := by decide +kernel
  obtain ⟨t, ht, hloses⟩ := (Option.any_eq_true _ _).mp hrun
  obtain ⟨s, hs, hpolled⟩ := Option.bind_eq_some_iff.mp ht
  obtain ⟨s₀, hwaiting, rfl⟩ := Option.map_eq_some_iff.mp hs
  exact ⟨released s₀, t, .drift _ (reachable_of_foldlM boxOs (.new _) hwaiting), hpolled,
    not_kept_of_losesOne hloses⟩

end FractalD.Manager.Pending
