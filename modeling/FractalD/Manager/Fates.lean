import FractalD.Machine.Logs
import FractalD.Manager.Jobs
import Mathlib.Algebra.Order.Group.Multiset
import Mathlib.Tactic.Abel

namespace FractalD.Manager.Fates

open FractalD.Core.Record FractalD.Core.Spec FractalD.Machine.CString FractalD.Machine.Effect
open FractalD.Machine.Logs FractalD.Machine.OrderedMap FractalD.Manager.Jobs
open FractalD.Manager.Registry FractalD.Supervisor FractalD.Supervisor.System

/-- What becomes of start jobs: one is added, one is settled, as it is complete, has
been rolled back or has timed out, or its progress fails, which settles it too, while
there are others in its pass. -/
inductive Fate
  | added (job : StartJob)
  | settled (job : StartJob)
  | failed (job : StartJob) (others : List StartJob)

namespace Fate

def adds : Fate → List StartJob
  | .added job => [job]
  | .settled _ | .failed _ _ => []

def settles : Fate → List StartJob
  | .added _ => []
  | .settled job | .failed job _ => [job]

def others : Fate → List StartJob
  | .added _ | .settled _ => []
  | .failed _ others => others

end Fate

abbrev Told (ω : Type) := Logged Fate Failure (Supervisor × ω)

section

variable {ω α : Type} (os : Os ω)

def toldAttempt (x : Told ω α) : Told ω (Except Str α) := fun s =>
  match x s with
  | .ok a t => .ok (.ok a) t
  | .error (.error e) t => .ok (.error e) t
  | .error .stackOverflow t => .error .stackOverflow t

/-- The pass over the jobs, after the `earlier` ones. -/
def toldEach (now : Instant) (earlier : List StartJob) :
    List StartJob → Told ω (List StartJob)
  | [] => pure earlier
  | job :: jobs => do
    match ← toldAttempt (quiet (progressStartJob os now job)) with
    | .ok p => do
      note (if p.pending then [] else [.settled p.job])
      toldEach now (earlier ++ p.kept) jobs
    | .error e => do
      note [.failed job (earlier ++ jobs)]
      throw (.error e)

def toldKeep (keep : StartJob → Bool) : Told ω Unit := do
  let s ← quiet supervisor
  quiet (keepStartJobs os keep)
  note ((s.startJobs.filter fun job => !keep job).map .settled)

def toldCancel (name : Str) : Told ω Unit :=
  toldKeep os fun job => job.root ≠ name && !job.selected.contains name

def toldStopDependent (now : Instant) (dependent : Str) : Told ω Unit := do
  toldCancel os dependent
  quiet (onService dependent (Service.stop os now))

def toldStopDependents (source : Str) (includePartOf : Bool) (now : Instant) : Told ω Unit := do
  (dependentNames (← quiet supervisor) source includePartOf).forM (toldStopDependent os now)

def toldBindings (before : BTreeMap Str ServiceState) (now : Instant) : Told ω Unit := do
  (wentDown (← quiet supervisor) before).forM fun (source, intended) =>
    toldStopDependents os source intended now

def toldStopUnneeded (now : Instant) (name : Str) : Told ω Unit := do
  if ← quiet (serviceIs name fun service _ => service.spec.stopWhenUnneeded) then
    toldCancel os name
    quiet (onService name (Service.stop os now))

def toldReapRounds (now : Instant) : Nat → Told ω Unit
  | 0 => throw .stackOverflow
  | rounds + 1 => do
    let g ← quiet (graph os)
    match unneeded (← quiet supervisor) g with
    | [] => pure ()
    | names => do
      names.forM (toldStopUnneeded os now)
      toldReapRounds now rounds

def toldReap (now : Instant) : Told ω Unit := do
  let s ← quiet supervisor
  if s.startJobs.isEmpty then toldReapRounds os now (s.names.length + 1)

def toldStopConflict (now : Instant) (conflict : Str) : Told ω Unit := do
  toldCancel os conflict
  quiet (ifService conflict (Service.stop os now))
  toldStopDependents os conflict true now

variable (activate : Str → Told ω Unit)

def toldActivateTarget (target : Str) : Told ω Unit := do
  match ← toldAttempt (activate target) with
  | .ok () => pure ()
  | .error _ => quiet (ifService target (Service.clearActivationFds os))

def toldSocket (ordinary : Ordinary) (a : Activation) : Told ω Ordinary := do
  let s ← quiet supervisor
  match (a.target.bind s.resolveName).filter (startable s) with
  | none => pure ordinary
  | some target =>
    if a.accept then
      match (s.services.get a.socket).bind (·.listeners.head?) with
      | none => pure ordinary
      | some listener =>
        match ← quiet (call (os.acceptConnection listener)) with
        | .error e =>
          quiet (fail ("cannot accept a connection from ".toList ++ a.socket ++ ": ".toList ++ e))
        | .ok none => pure ordinary
        | .ok (some fd) => do
          quiet (ifService target (Service.setActivationConnection os fd))
          toldActivateTarget os activate target
          pure ordinary
    else
      let (fds, fdNames, sockets) := (ordinary.get target).getD ([], [], [])
      pure (ordinary.insert target
        (fds ++ a.fds, fdNames ++ a.fds.map fun _ => a.fdName, sockets ++ [a.socket]))

def toldOrdinary (target : Str) (fds : List Nat) (fdNames : List Str) : Told ω Unit := do
  quiet (ifService target (Service.setActivationFds os fds fdNames))
  toldActivateTarget os activate target

def toldSockets : Told ω Unit := do
  let ordinary ← (activations (← quiet supervisor)).foldlM (toldSocket os activate) empty
  ordinary.entries.forM fun (target, fds, fdNames, _) => toldOrdinary os activate target fds fdNames

def toldSocketActivation : Told ω Unit := do
  unless (← quiet supervisor).progressingSocketActivation do
    quiet (update ({ · with progressingSocketActivation := true }))
    let result ← toldAttempt (toldSockets os activate)
    quiet (update ({ · with progressingSocketActivation := false }))
    quiet (orFail result)

def toldTriggers (now : Instant) : Told ω Unit := do
  let targets ← quiet (dueTargets os now (← quiet supervisor).names)
  targets.forM fun target => do
    let s ← quiet supervisor
    match (s.resolveName target).filter (startable s) with
    | none => pure ()
    | some name => do let _ ← toldAttempt (activate name)

/-- `progressStartJobs` with the fates of the jobs. -/
def toldStartJobs (now : Instant) : Told ω Unit := do
  let jobs := (← quiet supervisor).startJobs
  quiet (update ({ · with startJobs := [] }))
  let pending ← toldEach os now [] jobs
  quiet (update ({ · with startJobs := pending }))
  toldSocketActivation os activate
  toldTriggers os activate now

def toldRequest (asked : ManagerAction × List Str) : Told ω Unit := do
  quiet (update (requestManagerAction asked.1))
  (ofList asked.2).keys.forM fun dependency => do
    match (← quiet supervisor).resolveName dependency with
    | none => pure ()
    | some name => do let _ ← toldAttempt (activate name)

def toldSuccesses (before : BTreeMap Str ServiceState) : Told ω Unit := do
  (newlySucceeded (← quiet supervisor) before).forM (toldRequest activate)

def toldFailures (before : BTreeMap Str ServiceState) : Told ω Unit := do
  (newlyFailed (← quiet supervisor) before).forM (toldRequest activate)

def toldStartThen (manual : Bool) (name : Str) : Told ω Unit := do
  let name := (← quiet supervisor).canonicalName name
  quiet (refreshLostMount os name)
  let s ← quiet supervisor
  if manual && (s.services.get name).any (·.spec.refuseManualStart) then
    quiet (fail (manualRefused "start".toList name))
  quiet (orFail (checkRequisites s name))
  let before := s.states
  let g ← quiet (graph os)
  let cannotPlan := "cannot plan start for ".toList ++ name ++ ": ".toList
  let required ← quiet (orFailGraph os cannotPlan (g.requiredClosure name))
  let order ← quiet (orFailGraph os cannotPlan (g.planStart name))
  let selected := ofList order
  let conflicts ← quiet (orFail (conflictsFor s g selected))
  if conflicts.contains name then
    quiet (fail ("service ".toList ++ name ++ " conflicts with itself".toList))
  let now ← quiet (call os.now)
  conflicts.keys.forM (toldStopConflict os now)
  let timeout := (s.services.get name).bind (·.spec.jobTimeout)
  let action := ((s.services.get name).map (·.spec.jobTimeoutAction)).getD .none
  let job : StartJob := ⟨name, selected, required, order, conflicts, empty, empty,
    timeout.bind (timeoutDeadline now), action⟩
  quiet (update fun s => { s with startJobs := s.startJobs ++ [job] })
  note [.added job]
  toldStartJobs os activate now
  toldBindings os before now
  toldSuccesses activate before
  toldFailures activate before
  toldReap os now

end

section

variable {ω : Type} (os : Os ω)

/-- `startWithOrigin` with the fates of the jobs. -/
def toldStart : Nat → Bool → Str → Told ω Unit
  | 0, _, _ => throw .stackOverflow
  | depth + 1, manual, name => toldStartThen os (toldStart depth false) manual name

end

/-- The operation leaves the start jobs alone. It fails only if it may, and not for
the depth of activations. -/
def Leaves {ω α : Type} (fails : Prop) (q : α → Prop) (x : Manage ω α) : Prop :=
  ∀ s, Ends (fun a t => q a ∧ t.1.startJobs = s.1.startJobs)
    (fun e t => (fails ∧ e ≠ .stackOverflow) ∧ t.1.startJobs = s.1.startJobs) (x s)

section

variable {ω α β γ : Type} {fails : Prop} {p : α → Prop} {q : β → Prop}

theorem leaves_pure {a : α} (h : p a) : Leaves fails p (pure a : Manage ω α) := fun _ => ⟨h, rfl⟩

theorem leaves_supervisor : Leaves fails (fun _ => True) (supervisor : Manage ω Supervisor) :=
  fun _ => ⟨trivial, rfl⟩

theorem leaves_get : Leaves fails (fun _ => True) (get : Manage ω (Supervisor × ω)) :=
  fun _ => ⟨trivial, rfl⟩

theorem leaves_call (c : Call ω α) : Leaves fails (fun _ => True) (call c) :=
  fun _ => ⟨trivial, rfl⟩

theorem leaves_update {f : Supervisor → Supervisor} (h : ∀ s, (f s).startJobs = s.startJobs) :
    Leaves fails (fun _ => True) (update f : Manage ω Unit) :=
  fun s => ⟨trivial, h s.1⟩

theorem leaves_fail (text : Str) : Leaves True p (fail text : Manage ω α) :=
  fun _ => ⟨⟨trivial, Failure.noConfusion⟩, rfl⟩

theorem leaves_orFail (r : Except Str α) : Leaves True (fun _ => True) (orFail r : Manage ω α) := by
  cases r with
  | ok a => exact leaves_pure trivial
  | error e => exact leaves_fail e

theorem leaves_bind {x : Manage ω α} {f : α → Manage ω β} (hx : Leaves fails p x)
    (hf : ∀ a, p a → Leaves fails q (f a)) : Leaves fails q (x >>= f) := by
  intro s
  refine ends_bind (hx s) fun a t ht => ?_
  exact ends_mono (fun _ _ h => ⟨h.1, h.2.trans ht.2⟩) (fun _ _ h => ⟨h.1, h.2.trans ht.2⟩)
    (hf a ht.1 t)

theorem leaves_forM {f : γ → Manage ω Unit} (hf : ∀ c, Leaves fails (fun _ => True) (f c))
    (l : List γ) : Leaves fails (fun _ => True) (l.forM f) := by
  induction l with
  | nil => exact leaves_pure trivial
  | cons c l ih => exact leaves_bind (hf c) fun _ _ => ih

theorem leaves_foldlM {f : β → γ → Manage ω β} (hf : ∀ b c, q b → Leaves fails q (f b c))
    (l : List γ) {b : β} (hb : q b) : Leaves fails q (l.foldlM f b) := by
  induction l generalizing b with
  | nil => exact leaves_pure hb
  | cons c l ih =>
    rw [List.foldlM_cons]
    exact leaves_bind (hf b c hb) fun b' hb' => ih hb'

theorem leaves_attempt {x : Manage ω α} (hx : Leaves True p x) :
    Leaves fails (fun _ => True) (attempt x) := by
  intro s
  have hend := hx s
  rw [attempt]
  cases hr : x s with
  | ok a t =>
    rw [hr] at hend
    exact ⟨trivial, hend.2⟩
  | error e t =>
    rw [hr] at hend
    cases e with
    | error text => exact ⟨trivial, hend.2⟩
    | stackOverflow => exact (hend.1.2 rfl).elim

theorem leaves_onService (name : Str) (op : Service.Op ω α) :
    Leaves True (fun _ => True) (onService name op) := by
  intro s
  rw [onService]
  cases s.1.services.get name with
  | none => exact ⟨⟨trivial, Failure.noConfusion⟩, rfl⟩
  | some service =>
    dsimp only
    cases op (service, s.2) with
    | ok a t => exact ⟨trivial, rfl⟩
    | error e t => exact ⟨⟨trivial, Failure.noConfusion⟩, rfl⟩

theorem leaves_ite {c : Prop} [Decidable c] {x y : Manage ω α} (hx : Leaves fails p x)
    (hy : Leaves fails p y) : Leaves fails p (if c then x else y) := by
  split
  · exact hx
  · exact hy

theorem leaves_ifService (name : Str) (op : Service.Op ω Unit) :
    Leaves True (fun _ => True) (ifService name op) :=
  leaves_bind leaves_supervisor fun _ _ =>
    leaves_ite (leaves_onService name op) (leaves_pure trivial)

theorem leaves_serviceIs (name : Str) (is : Service.ManagedService → ω → Bool) :
    Leaves fails (fun _ => True) (serviceIs name is) :=
  fun _ => ⟨trivial, rfl⟩

end

section

variable {ω : Type} (os : Os ω) {fails : Prop}

theorem graph_leaves : Leaves True (fun _ => True) (graph os) :=
  leaves_bind leaves_supervisor fun _ _ => leaves_orFail _

theorem refreshLostMount_leaves (name : Str) : Leaves True (fun _ => True) (refreshLostMount os name) :=
  leaves_bind (leaves_serviceIs _ _) fun _ _ => leaves_ite (leaves_onService _ _) <|
    leaves_bind (leaves_serviceIs _ _) fun _ _ =>
      leaves_ite (leaves_onService _ _) (leaves_pure trivial)

theorem dueTargets_leaves (now : Instant) (names : List Str) :
    Leaves True (fun _ => True) (dueTargets os now names) := by
  induction names with
  | nil => exact leaves_pure trivial
  | cons name names ih =>
    exact leaves_bind (leaves_onService _ _) fun _ _ =>
      leaves_bind ih fun _ _ => leaves_pure trivial

theorem rollbackStartJob_leaves (job : StartJob) (now : Instant) :
    Leaves fails (fun _ => True) (rollbackStartJob os job now) :=
  leaves_forM (fun _ => leaves_bind (leaves_attempt (leaves_onService _ _)) fun _ _ =>
    leaves_pure trivial) _

/-- The same job, whatever has been done of it. -/
def identity (job : StartJob) : StartJob := { job with attempted := empty, started := empty }

def identities (jobs : List StartJob) : Multiset StartJob := (jobs.map identity : List StartJob)

@[simp]
theorem identities_nil : identities [] = 0 := rfl

@[simp]
theorem identities_cons (job : StartJob) (jobs : List StartJob) :
    identities (job :: jobs) = {identity job} + identities jobs := rfl

@[simp]
theorem identities_append (jobs jobs' : List StartJob) :
    identities (jobs ++ jobs') = identities jobs + identities jobs' := by
  simp [identities]

theorem startMember_leaves (now : Instant) {job : StartJob} {p : Pass}
    (hp : identity p.job = identity job) (name : Str) :
    Leaves True (fun p => identity p.job = identity job) (startMember os now p name) := by
  refine leaves_bind leaves_get fun s _ => ?_
  refine leaves_ite (leaves_pure hp) (leaves_ite (leaves_pure hp) (leaves_ite (leaves_pure hp) ?_))
  refine leaves_bind (leaves_attempt (leaves_onService _ _)) fun r _ => ?_
  cases r with
  | ok u => exact leaves_pure hp
  | error e =>
    refine leaves_ite ?_ ?_
    · exact leaves_bind (rollbackStartJob_leaves os _ now) fun _ _ => leaves_fail e
    · exact leaves_bind leaves_supervisor fun _ _ => leaves_pure hp

theorem progressMembers_leaves (now : Instant) (passes : Nat) {job : StartJob} {p : Pass}
    (hp : identity p.job = identity job) :
    Leaves True (fun p => identity p.job = identity job) (progressMembers os now passes p) := by
  induction passes generalizing p with
  | zero => exact leaves_pure hp
  | succ passes ih =>
    refine leaves_bind (leaves_foldlM (fun p name hp => startMember_leaves os now hp name) _ hp)
      fun p' hp' => leaves_bind leaves_get fun s _ => ?_
    refine leaves_ite ?_ (leaves_ite (ih hp') (leaves_pure hp'))
    exact leaves_bind (rollbackStartJob_leaves os _ now) fun _ _ => leaves_pure hp'

theorem progressStartJob_leaves (now : Instant) (job : StartJob) :
    Leaves True (fun p => identity p.job = identity job) (progressStartJob os now job) := by
  refine leaves_bind leaves_supervisor fun s _ => ?_
  refine leaves_ite ?_ (leaves_ite (leaves_pure rfl) (progressMembers_leaves os now _ rfl))
  refine leaves_bind (p := fun _ => True) ?_ fun _ _ => leaves_pure rfl
  refine leaves_bind (leaves_onService _ _) fun _ _ => ?_
  refine leaves_bind (rollbackStartJob_leaves os _ now) fun _ _ => leaves_update fun s => ?_
  simp only [requestManagerAction]
  split_ifs <;> rfl

theorem keepStartJobs_ends (keep : StartJob → Bool) (s : Supervisor × ω) :
    Ends (fun _ t => t.1.startJobs = s.1.startJobs.filter keep) (fun _ _ => False)
      (keepStartJobs os keep s) := by
  refine ends_bind (p := fun before _ => before = s.1) rfl ?_
  rintro _ t rfl
  refine ends_bind (p := fun _ _ => True) trivial fun _ t _ => ?_
  refine ends_bind (p := fun _ _ => True) trivial fun now t _ => ?_
  refine ends_bind (p := fun _ _ => True) ?_ fun _ t _ => rfl
  exact ends_mono (fun _ _ _ => trivial) (fun _ _ h => h.1.1)
    (leaves_forM (fun job => rollbackStartJob_leaves os job now) _ t)

end

/-- Every job that was pending or in hand, or was added, is pending or in hand, has
been settled, or was there when another one failed. -/
def Balance {ω : Type} (hand : List StartJob) (total : Multiset StartJob)
    (s : (Supervisor × ω) × List Fate) : Prop :=
  identities s.1.1.startJobs + identities hand + identities (s.2.flatMap Fate.settles) +
    identities (s.2.flatMap Fate.others) = total + identities (s.2.flatMap Fate.adds)

/-- An operation with the fates that it decides. -/
structure Tells {ω α : Type} (r : Told ω α) (x : Manage ω α) : Prop where
  notes : Notes r x
  balanced : ∀ total, Preserves (Balance [] total) r

section

variable {ω α β γ : Type}

theorem tells_pure (a : α) : Tells (pure a : Told ω α) (pure a) :=
  ⟨notes_pure a, fun _ => preserves_pure a⟩

theorem tells_throw (e : Failure) : Tells (throw e : Told ω α) (throw e) :=
  ⟨notes_throw e, fun _ => preserves_throw e⟩

theorem tells_bind {r : Told ω α} {x : Manage ω α} {g : α → Told ω β} {f : α → Manage ω β}
    (hr : Tells r x) (hg : ∀ a, Tells (g a) (f a)) : Tells (r >>= g) (x >>= f) where
  notes := notes_bind hr.notes fun a => (hg a).notes
  balanced total := preserves_bind (hr.balanced total) fun a => (hg a).balanced total

theorem tells_forM {g : γ → Told ω Unit} {f : γ → Manage ω Unit} (h : ∀ c, Tells (g c) (f c))
    (l : List γ) : Tells (l.forM g) (l.forM f) := by
  induction l with
  | nil => exact tells_pure _
  | cons c l ih => exact tells_bind (h c) fun _ => ih

theorem tells_foldlM {g : β → γ → Told ω β} {f : β → γ → Manage ω β}
    (h : ∀ b c, Tells (g b c) (f b c)) (l : List γ) (b : β) :
    Tells (l.foldlM g b) (l.foldlM f b) := by
  induction l generalizing b with
  | nil => exact tells_pure b
  | cons c l ih =>
    rw [List.foldlM_cons, List.foldlM_cons]
    exact tells_bind (h b c) ih

theorem tells_ite {c : Prop} [Decidable c] {r r' : Told ω α} {x x' : Manage ω α} (h : Tells r x)
    (h' : Tells r' x') : Tells (if c then r else r') (if c then x else x') := by
  split
  · exact h
  · exact h'

theorem tells_quiet {p : α → Prop} {x : Manage ω α} (hx : Leaves True p x) :
    Tells (quiet x : Told ω α) x where
  notes := notes_quiet x
  balanced total := by
    intro s hs
    refine ends_mono (fun _ t ht => ?_) (fun _ t ht => ?_) (ends_quiet (hx s.1))
    all_goals
      rw [Balance, ht.1.2, ht.2]
      exact hs

theorem tells_attempt {r : Told ω α} {x : Manage ω α} (h : Tells r x) :
    Tells (toldAttempt r) (attempt x) where
  notes := by
    intro s
    rw [toldAttempt, attempt, ← h.notes s]
    cases r s with
    | ok a t => rfl
    | error e t => cases e <;> rfl
  balanced total := by
    intro s hs
    have hend := h.balanced total s hs
    rw [toldAttempt]
    cases hr : r s with
    | ok a t =>
      rw [hr] at hend
      exact hend
    | error e t =>
      rw [hr] at hend
      cases e <;> exact hend

end

section

variable {ω : Type} (os : Os ω)

theorem identities_filter (keep : StartJob → Bool) (jobs : List StartJob) :
    identities jobs =
      identities (jobs.filter keep) + identities (jobs.filter fun job => !keep job) := by
  induction jobs with
  | nil => rfl
  | cons job jobs ih =>
    rw [List.filter_cons, List.filter_cons, identities_cons, ih]
    cases keep job with
    | true => simp
    | false => simp [add_left_comm]

theorem settles_map (jobs : List StartJob) :
    (jobs.map Fate.settled).flatMap Fate.settles = jobs := by
  induction jobs with
  | nil => rfl
  | cons job jobs ih => exact congrArg (job :: ·) ih

theorem others_map (jobs : List StartJob) : (jobs.map Fate.settled).flatMap Fate.others = [] := by
  induction jobs with
  | nil => rfl
  | cons job jobs ih => exact ih

theorem adds_map (jobs : List StartJob) : (jobs.map Fate.settled).flatMap Fate.adds = [] := by
  induction jobs with
  | nil => rfl
  | cons job jobs ih => exact ih

theorem toldKeep_tells (keep : StartJob → Bool) :
    Tells (toldKeep os keep) (keepStartJobs os keep) where
  notes s := notes_then_note (notes_quiet (keepStartJobs os keep)) _ s
  balanced total := by
    intro s hs
    refine ends_bind (p := fun before t => before = s.1.1 ∧ s = t) ⟨rfl, rfl⟩ ?_
    rintro _ _ ⟨rfl, rfl⟩
    refine ends_bind (p := fun _ t => t.1.1.startJobs = s.1.1.startJobs.filter keep ∧ t.2 = s.2)
      (ends_mono (fun _ _ h => h) (fun _ _ h => h.1.elim)
        (ends_quiet (keepStartJobs_ends os keep s.1))) fun _ t ht => ?_
    change Balance [] total (t.1, t.2 ++ _)
    rw [Balance, identities_filter keep] at hs
    rw [Balance, ht.1, ht.2, List.flatMap_append, List.flatMap_append, List.flatMap_append,
      settles_map, others_map, adds_map, List.append_nil, List.append_nil, ← hs,
      identities_append]
    abel

theorem toldEach_notes (now : Instant) (jobs earlier : List StartJob) :
    Notes (toldEach os now earlier jobs) ((earlier ++ ·) <$> progressEach os now jobs) := by
  induction jobs generalizing earlier with
  | nil =>
    intro s
    simp only [toldEach, progressEach, map_pure, List.append_nil]
    rfl
  | cons job jobs ih =>
    intro s
    have hsplit : ((earlier ++ ·) <$> progressEach os now (job :: jobs) :
        Manage ω (List StartJob)) = progressStartJob os now job >>= fun p =>
          ((earlier ++ p.kept) ++ ·) <$> progressEach os now jobs := by
      simp [progressEach]
    rw [hsplit]
    change forget (EStateM.bind (toldAttempt (quiet (progressStartJob os now job))) _ s) =
      EStateM.bind (progressStartJob os now job) _ s.1
    rw [EStateM.bind, EStateM.bind, toldAttempt, quiet]
    cases progressStartJob os now job s.1 with
    | ok p t => exact ih (earlier ++ p.kept) (t, _)
    | error e t => cases e <;> rfl

theorem toldEach_balanced (now : Instant) {total : Multiset StartJob} (jobs : List StartJob)
    {earlier : List StartJob} {s : (Supervisor × ω) × List Fate} (hnone : s.1.1.startJobs = [])
    (hs : Balance (earlier ++ jobs) total s) :
    Ends (fun pending t => t.1.1.startJobs = [] ∧ Balance pending total t)
      (fun _ t => Balance [] total t) (toldEach os now earlier jobs s) := by
  induction jobs generalizing earlier s with
  | nil =>
    rw [List.append_nil] at hs
    exact ⟨hnone, hs⟩
  | cons job jobs ih =>
    have hend := progressStartJob_leaves os now job s.1
    rw [hnone] at hend
    rw [Balance, hnone] at hs
    change Ends _ _ (EStateM.bind (toldAttempt (quiet (progressStartJob os now job))) _ s)
    rw [EStateM.bind, toldAttempt, quiet]
    cases hr : progressStartJob os now job s.1 with
    | ok p t =>
      rw [hr] at hend
      refine ih (s := (t, _)) hend.2 ?_
      have hp : identity p.job = identity job := hend.1
      rw [Balance, hend.2, Progress.kept]
      cases p.pending with
      | true =>
        simp only [if_true, List.append_nil, identities_append, identities_cons, identities_nil]
          at hs ⊢
        rw [← hs, hp]
        abel
      | false =>
        simp only [Bool.false_eq_true, if_false, List.append_nil, List.flatMap_append,
          List.flatMap_cons, List.flatMap_nil, Fate.settles, Fate.others, Fate.adds,
          identities_append, identities_cons, identities_nil] at hs ⊢
        rw [← hs, hp]
        abel
    | error e t =>
      rw [hr] at hend
      cases e with
      | stackOverflow => exact (hend.1.2 rfl).elim
      | error text =>
        change Balance [] total (t, s.2 ++ [Fate.failed job (earlier ++ jobs)])
        rw [Balance, hend.2]
        simp only [List.flatMap_append, List.flatMap_cons, List.flatMap_nil, Fate.settles,
          Fate.others, Fate.adds, List.append_nil, identities_append, identities_cons] at hs ⊢
        rw [← hs]
        abel

theorem tells_onService {α : Type} (name : Str) (op : Service.Op ω α) :
    Tells (quiet (onService name op) : Told ω α) (onService name op) :=
  tells_quiet (leaves_onService name op)

theorem toldStopDependents_tells (source : Str) (includePartOf : Bool) (now : Instant) :
    Tells (toldStopDependents os source includePartOf now)
      (stopDependents os source includePartOf now) :=
  tells_bind (tells_quiet leaves_supervisor) fun _ =>
    tells_forM (fun _ => tells_bind (toldKeep_tells os _) fun _ => tells_onService _ _) _

theorem toldBindings_tells (before : BTreeMap Str ServiceState) (now : Instant) :
    Tells (toldBindings os before now) (propagateBindings os before now) :=
  tells_bind (tells_quiet leaves_supervisor) fun _ =>
    tells_forM (fun _ => toldStopDependents_tells os _ _ now) _

theorem toldStopUnneeded_tells (now : Instant) (name : Str) :
    Tells (toldStopUnneeded os now name) (stopUnneeded os now name) :=
  tells_bind (tells_quiet (leaves_serviceIs _ _)) fun _ =>
    tells_ite (tells_bind (toldKeep_tells os _) fun _ => tells_onService _ _) (tells_pure _)

theorem toldReapRounds_tells (now : Instant) (rounds : Nat) :
    Tells (toldReapRounds os now rounds) (reapRounds os now rounds) := by
  induction rounds with
  | zero => exact tells_throw _
  | succ rounds ih =>
    refine tells_bind (tells_quiet (graph_leaves os)) fun g =>
      tells_bind (tells_quiet leaves_supervisor) fun s => ?_
    cases unneeded s g with
    | nil => exact tells_pure ()
    | cons name names =>
      exact tells_bind (tells_forM (toldStopUnneeded_tells os now) _) fun _ => ih

theorem toldReap_tells (now : Instant) : Tells (toldReap os now) (reapUnneeded os now) :=
  tells_bind (tells_quiet leaves_supervisor) fun _ =>
    tells_ite (toldReapRounds_tells os now _) (tells_pure ())

theorem toldStopConflict_tells (now : Instant) (conflict : Str) :
    Tells (toldStopConflict os now conflict) (stopConflict os now conflict) :=
  tells_bind (toldKeep_tells os _) fun _ =>
    tells_bind (tells_quiet (leaves_ifService _ _)) fun _ => toldStopDependents_tells os _ _ now

theorem addJob_tells {β : Type} (job : StartJob) {r : Told ω β} {x : Manage ω β}
    (hr : Tells r x) :
    Tells (do quiet (update fun s => { s with startJobs := s.startJobs ++ [job] })
              note [Fate.added job]
              r)
      (do update fun s => { s with startJobs := s.startJobs ++ [job] }
          x) where
  notes := notes_bind (notes_quiet _) fun _ => by
    intro s
    exact hr.notes (s.1, s.2 ++ [.added job])
  balanced total := by
    intro s hs
    refine hr.balanced total (({ s.1.1 with startJobs := s.1.1.startJobs ++ [job] }, s.1.2),
      s.2 ++ [.added job]) ?_
    simp only [Balance, List.flatMap_append, List.flatMap_cons, List.flatMap_nil, Fate.settles,
      Fate.others, Fate.adds, List.append_nil, identities_append, identities_cons,
      identities_nil] at hs ⊢
    rw [← add_assoc total, ← hs]
    abel

section

variable {told : Str → Told ω Unit} {activate : Str → Manage ω Unit}
  (h : ∀ name, Tells (told name) (activate name))

include h

theorem toldActivateTarget_tells (target : Str) :
    Tells (toldActivateTarget os told target) (activateTarget os activate target) := by
  refine tells_bind (tells_attempt (h target)) fun r => ?_
  cases r with
  | ok u => exact tells_pure ()
  | error e => exact tells_quiet (leaves_ifService _ _)

theorem toldSocket_tells (ordinary : Ordinary) (a : Activation) :
    Tells (toldSocket os told ordinary a) (progressSocket os activate ordinary a) := by
  refine tells_bind (tells_quiet leaves_supervisor) fun s => ?_
  cases (a.target.bind s.resolveName).filter (startable s) with
  | none => exact tells_pure ordinary
  | some target =>
    refine tells_ite ?_ (tells_pure _)
    cases (s.services.get a.socket).bind (·.listeners.head?) with
    | none => exact tells_pure ordinary
    | some listener =>
      refine tells_bind (tells_quiet (leaves_call _)) fun r => ?_
      cases r with
      | error e => exact tells_quiet (p := fun _ => True) (leaves_fail _)
      | ok fd =>
        cases fd with
        | none => exact tells_pure ordinary
        | some fd =>
          exact tells_bind (tells_quiet (leaves_ifService _ _)) fun _ =>
            tells_bind (toldActivateTarget_tells os h target) fun _ => tells_pure ordinary

theorem toldSockets_tells :
    Tells (toldSockets os told) (progressSocketActivationInner os activate) :=
  tells_bind (tells_quiet leaves_supervisor) fun _ =>
    tells_bind (tells_foldlM (toldSocket_tells os h) _ _) fun _ => tells_forM (fun _ =>
      tells_bind (tells_quiet (leaves_ifService _ _)) fun _ => toldActivateTarget_tells os h _) _

theorem toldSocketActivation_tells :
    Tells (toldSocketActivation os told) (progressSocketActivation os activate) := by
  refine tells_bind (tells_quiet leaves_supervisor) fun s => tells_ite (tells_pure ()) ?_
  refine tells_bind (tells_quiet (leaves_update fun _ => rfl)) fun _ => ?_
  refine tells_bind (tells_attempt (toldSockets_tells os h)) fun r => ?_
  refine tells_bind (tells_quiet (leaves_update fun _ => rfl)) fun _ => ?_
  exact tells_quiet (leaves_orFail r)

theorem toldTriggers_tells (now : Instant) :
    Tells (toldTriggers os told now) (progressTriggerActivation os activate now) := by
  refine tells_bind (tells_quiet leaves_supervisor) fun s => ?_
  refine tells_bind (tells_quiet (dueTargets_leaves os now _)) fun targets => ?_
  refine tells_forM (fun target => ?_) targets
  refine tells_bind (tells_quiet leaves_supervisor) fun s => ?_
  cases (s.resolveName target).filter (startable s) with
  | none => exact tells_pure ()
  | some name => exact tells_bind (tells_attempt (h name)) fun _ => tells_pure ()

theorem toldRequest_tells (asked : ManagerAction × List Str) :
    Tells (toldRequest told asked) (request activate asked) := by
  refine tells_bind (tells_quiet (leaves_update fun s => ?_)) fun _ =>
    tells_forM (fun dependency => ?_) _
  · simp only [requestManagerAction]
    split_ifs <;> rfl
  · refine tells_bind (tells_quiet leaves_supervisor) fun s => ?_
    cases s.resolveName dependency with
    | none => exact tells_pure ()
    | some name => exact tells_bind (tells_attempt (h name)) fun _ => tells_pure ()

theorem toldStartJobs_tells (now : Instant) :
    Tells (toldStartJobs os told now) (progressStartJobs os activate now) where
  notes := by
    refine notes_bind (notes_quiet _) fun s => notes_bind (notes_quiet _) fun _ => ?_
    refine notes_bind ?_ fun pending => notes_bind (notes_quiet _) fun _ => ?_
    · have hpass := toldEach_notes os now s.startJobs []
      simpa only [List.nil_append, id_map'] using hpass
    · exact notes_bind (toldSocketActivation_tells os h).notes fun _ =>
        (toldTriggers_tells os h now).notes
  balanced total := by
    intro s hs
    refine ends_bind (p := fun before t => before = s.1.1 ∧ s = t) ⟨rfl, rfl⟩ ?_
    rintro _ _ ⟨rfl, rfl⟩
    refine ends_bind (p := fun _ t => t.1.1.startJobs = [] ∧ Balance s.1.1.startJobs total t) ?_ ?_
    · refine ⟨rfl, ?_⟩
      rw [Balance, add_comm (identities s.1.1.startJobs)] at hs
      exact hs
    · rintro _ t ⟨hnone, ht⟩
      refine ends_bind (toldEach_balanced os now _ hnone ht) fun pending u hu => ?_
      refine ends_bind (p := fun _ => Balance [] total) ?_ fun _ v hv => ?_
      · have hpending := hu.2
        rw [Balance, hu.1, add_comm (identities [])] at hpending
        exact hpending
      · exact preserves_bind ((toldSocketActivation_tells os h).balanced total)
          (fun _ => (toldTriggers_tells os h now).balanced total) v hv

theorem toldSuccesses_tells (before : BTreeMap Str ServiceState) :
    Tells (toldSuccesses told before) (propagateSuccesses activate before) :=
  tells_bind (tells_quiet leaves_supervisor) fun _ => tells_forM (toldRequest_tells h) _

theorem toldFailures_tells (before : BTreeMap Str ServiceState) :
    Tells (toldFailures told before) (propagateFailures activate before) :=
  tells_bind (tells_quiet leaves_supervisor) fun _ => tells_forM (toldRequest_tells h) _

theorem toldStartThen_tells (manual : Bool) (name : Str) :
    Tells (toldStartThen os told manual name) (startThen os activate manual name) := by
  refine tells_bind (tells_quiet leaves_supervisor) fun s₀ => ?_
  refine tells_bind (tells_quiet (refreshLostMount_leaves os _)) fun _ => ?_
  refine tells_bind (tells_quiet leaves_supervisor) fun s => ?_
  suffices hrest : Tells _ _ from
    tells_ite (tells_bind (tells_quiet (p := fun _ => True) (leaves_fail _)) fun _ => hrest) hrest
  refine tells_bind (tells_quiet (leaves_orFail _)) fun _ => ?_
  refine tells_bind (tells_quiet (graph_leaves os)) fun g => ?_
  refine tells_bind (tells_quiet (leaves_orFail _)) fun required => ?_
  refine tells_bind (tells_quiet (leaves_orFail _)) fun order => ?_
  refine tells_bind (tells_quiet (leaves_orFail _)) fun conflicts => ?_
  suffices hrest : Tells _ _ from
    tells_ite (tells_bind (tells_quiet (p := fun _ => True) (leaves_fail _)) fun _ => hrest) hrest
  refine tells_bind (tells_quiet (leaves_call _)) fun now => ?_
  refine tells_bind (tells_forM (toldStopConflict_tells os now) _) fun _ => ?_
  dsimp only
  refine addJob_tells _ ?_
  exact tells_bind (toldStartJobs_tells os h now) fun _ =>
    tells_bind (toldBindings_tells os _ now) fun _ =>
      tells_bind (toldSuccesses_tells h _) fun _ =>
        tells_bind (toldFailures_tells h _) fun _ => toldReap_tells os now

end

theorem toldStart_tells (depth : Nat) (manual : Bool) (name : Str) :
    Tells (toldStart os depth manual name) (startWithOrigin os depth manual name) := by
  induction depth generalizing manual name with
  | zero => exact tells_throw _
  | succ depth ih => exact toldStartThen_tells os (ih false) manual name

end

end FractalD.Manager.Fates
