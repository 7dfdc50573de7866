import FractalD.Manager.Pending

namespace FractalD.Manager.Repeats

open FractalD.Core.Record FractalD.Core.Spec FractalD.Machine.CString FractalD.Machine.Effect FractalD.Machine.Logs
open FractalD.Machine.OrderedMap FractalD.Manager.Fates FractalD.Manager.Jobs
open FractalD.Manager.Pending FractalD.Manager.Registry FractalD.Manager.Runs
open FractalD.Manager.Survival FractalD.Supervisor FractalD.Supervisor.System

/-- How many jobs are there to start a service. -/
def startsOf (root : Str) (jobs : List StartJob) : Nat := jobs.countP (·.root = root)

section

variable {root : Str} {jobs jobs' : List StartJob}

theorem startsOf_append : startsOf root (jobs ++ jobs') = startsOf root jobs + startsOf root jobs' :=
  List.countP_append

theorem startsOf_identities :
    startsOf root jobs = (identities jobs).countP (·.root = root) := by
  rw [identities, Multiset.coe_countP, List.countP_map]
  rfl

end

section

variable {ω : Type} (os : Os ω) (depth : Nat)

/-- `poll` with the fates of the jobs. -/
def toldPoll : Told ω Unit := do
  let s ← quiet supervisor
  let now ← quiet (call os.now)
  quiet (s.names.forM (pollService os now))
  let activate := toldStart os depth false
  toldStartJobs os activate now
  toldBindings os s.states now
  toldSuccesses activate s.states
  toldFailures activate s.states
  toldReap os now

theorem pollService_leaves (now : Instant) (name : Str) :
    Leaves True (fun _ => True) (pollService os now name) :=
  leaves_bind (refreshLostMount_leaves os name) fun _ _ => leaves_onService _ _

theorem toldPoll_tells : Tells (toldPoll os depth) (poll os depth) := by
  have hactivate := toldStart_tells os depth false
  apply tells_bind (tells_quiet leaves_supervisor)
  intro s
  apply tells_bind (tells_quiet (leaves_call _))
  intro now
  apply tells_bind (tells_quiet (leaves_forM (pollService_leaves os now) _))
  intro _
  apply tells_bind (toldStartJobs_tells os hactivate now)
  intro _
  apply tells_bind (toldBindings_tells os _ now)
  intro _
  apply tells_bind (toldSuccesses_tells hactivate _)
  intro _
  apply tells_bind (toldFailures_tells hactivate _)
  intro _
  exact toldReap_tells os now

def pollFates (s : Supervisor × ω) : List Fate := (final (toldPoll os depth) (s, [])).2

variable (root : Str) (s : Supervisor × ω)

theorem pollFates_balance :
    startsOf root (final (poll os depth) s).1.startJobs +
        startsOf root ((pollFates os depth s).flatMap Fate.settles) +
        startsOf root ((pollFates os depth s).flatMap Fate.others) =
      startsOf root s.1.startJobs + startsOf root ((pollFates os depth s).flatMap Fate.adds) := by
  have htells := toldPoll_tells os depth
  have hstart : Balance [] (identities s.1.startJobs) (s, []) := by simp [Balance]
  have hend := ends_final (htells.balanced _ (s, []) hstart)
  rw [Balance, final_of_notes htells.notes] at hend
  have hcount := congrArg (Multiset.countP (·.root = root)) hend
  simp only [Multiset.countP_add, identities_nil, add_zero] at hcount
  simp only [startsOf_identities]
  exact hcount

end

/-- No job is left to start a service once this has become of the jobs. -/
def NoneLeft (root : Str) (jobs : List StartJob) (fates : List Fate) : Prop :=
  startsOf root jobs + startsOf root (fates.flatMap Fate.adds) ≤
    startsOf root (fates.flatMap Fate.settles) + startsOf root (fates.flatMap Fate.others)

/-- A job to start a service is added only where none is left. -/
def AddsOnce (root : Str) (jobs : List StartJob) (fates : List Fate) : Prop :=
  ∀ before job after, fates = before ++ .added job :: after → job.root = root →
    NoneLeft root jobs before

theorem addsOnce_left {root : Str} {jobs : List StartJob} {fates : List Fate}
    (hone : startsOf root jobs ≤ 1) (h : AddsOnce root jobs fates) :
    startsOf root jobs + startsOf root (fates.flatMap Fate.adds) ≤
      startsOf root (fates.flatMap Fate.settles) + startsOf root (fates.flatMap Fate.others) + 1 := by
  -- The last job that was added counts, so that the fates are taken from the last one on.
  induction fates using List.reverseRecOn with
  | nil => simpa [startsOf] using hone
  | append_singleton fates fate ih =>
    have hfates : AddsOnce root jobs fates := by
      intro before job after he hroot
      apply h before job (after ++ [fate]) _ hroot
      rw [he, List.append_assoc, List.cons_append]
    have hleft := ih hfates
    simp only [List.flatMap_append, List.flatMap_cons, List.flatMap_nil, List.append_nil,
      startsOf_append]
    cases fate with
    | added job =>
      simp only [Fate.adds, Fate.settles, Fate.others]
      by_cases hroot : job.root = root
      · have hnone : NoneLeft root jobs fates := h fates job [] rfl hroot
        have hnew : startsOf root [job] = 1 := by simp [startsOf, hroot]
        have hnil : startsOf root [] = 0 := rfl
        rw [NoneLeft] at hnone
        omega
      · have hold : startsOf root [job] = 0 := by simp [startsOf, hroot]
        omega
    | settled job | failed job others =>
      have hnil : startsOf root [] = 0 := rfl
      simp only [Fate.adds, Fate.settles, Fate.others]
      omega

section

variable {ω : Type} (os : Os ω)

/-- A poll starts a service only where no job is pending to start it. -/
def StartsOnce (root : Str) (s : Supervisor × ω) : Prop :=
  ∀ depth, AddsOnce root s.1.startJobs (pollFates os depth s)

/-- Runs of polls. Between two of them the system around the supervisor may change in
any way. -/
inductive Polls (p : Supervisor × ω → Prop) (s : Supervisor × ω) : Supervisor × ω → Prop
  | none : Polls p s s
  | drift {t : Supervisor} {w : ω} (w' : ω) : Polls p s (t, w) → Polls p s (t, w')
  | poll {t u : Supervisor × ω} : Polls p s t → p t → Leads os .poll t u → Polls p s u

theorem poll_single {root : Str} {s t : Supervisor × ω} (hone : startsOf root s.1.startJobs ≤ 1)
    (h : StartsOnce os root s) (hpoll : Leads os .poll s t) :
    startsOf root t.1.startJobs ≤ 1 := by
  obtain ⟨depth, hpoll⟩ := hpoll
  have hfinal : final (poll os depth) s = t := by
    obtain hpoll | ⟨e, hpoll⟩ := hpoll
    · exact final_of_ok hpoll
    · change poll os depth s = _ at hpoll
      rw [final, hpoll]
  have hbalance := pollFates_balance os depth root s
  have hleft := addsOnce_left hone (h depth)
  rw [hfinal] at hbalance
  omega

/-- In a run of polls that start a service only where no job is pending to start it,
no second job to start it is ever pending. -/
theorem polls_single {root : Str} {s t : Supervisor × ω} (hone : startsOf root s.1.startJobs ≤ 1)
    (h : Polls os (StartsOnce os root) s t) : startsOf root t.1.startJobs ≤ 1 := by
  induction h with
  | none => exact hone
  | drift w' _ ih => exact ih
  | poll _ honce hpoll ih => exact poll_single os ih honce hpoll

end

def socketOs : Os Box := { boxOs with openListeners := fun _ w => (.ok [⟨7, none⟩], w) }

def listening : ServiceSpec :=
  { name := ['s'], program := "/bin/true".toList, serviceType := .socket,
    socketService := some ['b'] }

/-- A socket has started a service that waits for another one to stop. -/
def activated : Option (Supervisor × Box) :=
  [.add (againstC ['b']), .add (plainService ['c']), .add listening, .start ['c'],
    .start ['s']].foldlM
    (fun s c => after socketOs 3 c s) (Supervisor.new, ⟨0, 0, true, []⟩)

def waitingStarts (s : Supervisor × Box) : Nat × Option ServiceState :=
  (startsOf ['b'] s.1.startJobs, s.1.state ['b'])

/-- While the service waits each poll adds another job to start it. -/
theorem polls_repeat_starts :
    ∃ s t, Reachable socketOs s ∧ waitingStarts s = (1, some .defined) ∧
      Polls socketOs (fun _ => True) s t ∧ waitingStarts t = (3, some .defined) := by
  have hrun : activated.any (fun s => waitingStarts s = (1, some .defined) &&
      ((after socketOs 3 .poll s).bind (after socketOs 3 .poll)).any fun t =>
        waitingStarts t = (3, some .defined)) = true := by decide +kernel
  obtain ⟨s, hs, hrun⟩ := (Option.any_eq_true _ _).mp hrun
  simp only [Bool.and_eq_true, decide_eq_true_eq] at hrun
  obtain ⟨hone, hrun⟩ := hrun
  obtain ⟨t, ht, hthree⟩ := (Option.any_eq_true _ _).mp hrun
  obtain ⟨u, hu, ht⟩ := Option.bind_eq_some_iff.mp ht
  refine ⟨s, t, reachable_of_foldlM socketOs (.new _) hs, hone, ?_, of_decide_eq_true hthree⟩
  exact .poll (.poll .none trivial (leads_of_after socketOs hu)) trivial (leads_of_after socketOs ht)

end FractalD.Manager.Repeats
