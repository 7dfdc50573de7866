import FractalD.Daemon.Transactions
import FractalD.Manager.Survival

namespace FractalD.Daemon.Settlement

open FractalD.Control.Messages FractalD.Core.Record FractalD.Core.Spec
open FractalD.Daemon.Transactions FractalD.Machine.CString FractalD.Machine.OrderedMap
open FractalD.Manager.Registry FractalD.Manager.Runs FractalD.Manager.Survival
open FractalD.Supervisor FractalD.Supervisor.System

/-- What a client can ask for as a transaction. -/
inductive Operation
  | start
  | isolate
  | stop
  | restart
  | reload
  deriving DecidableEq, Repr

def Operation.asStr : Operation → Str
  | .start => "start".toList
  | .isolate => "isolate".toList
  | .stop => "stop".toList
  | .restart => "restart".toList
  | .reload => "reload".toList

def Operation.command (name : Str) : Operation → Command
  | .start => .start name
  | .isolate => .isolate name
  | .stop => .stop name
  | .restart => .restart name
  | .reload => .reloadService name

def startsJob : List Str := ["start".toList, "restart".toList, "isolate".toList]

/-- The supervisor with the system around it, and the transactions. -/
structure Moment (ω : Type) where
  system : Supervisor × ω
  ledger : Ledger

section

variable {ω : Type} (os : Os ω)

def Moment.new (w : ω) : Moment ω := ⟨(Supervisor.new, w), Ledger.new⟩

namespace Moment

variable (d : Moment ω)

def outcome (name : Str) : Outcome := ⟨d.system.1.snapshot name, d.system.1.reloadState name⟩

def refreshed : Moment ω :=
  { d with ledger := { d.ledger with table := refreshTransactions d.outcome d.ledger.table } }

/-- The state of a service and how many times it has been started. -/
def look (name : Str) : Option (ServiceState × Nat) :=
  (d.system.1.snapshot name).map fun s => (s.state, s.generation)

def StartPending (name : Str) : Prop :=
  ∃ job ∈ d.system.1.startJobs, job.root = d.system.1.canonicalName name

instance (name : Str) : Decidable (d.StartPending name) :=
  inferInstanceAs (Decidable (∃ job ∈ _, _))

def Has (id : Nat) (t : TransactionRecord) : Prop := d.ledger.table.get id = some t

end Moment

/-- What happens to the daemon. A service is loaded by commands before it is
asked for, and a request that fails is a command too. -/
inductive Event (ω : Type)
  | drift (w : ω)
  | command (c : Command)
  | request (operation : Operation) (name : Str)
  | refresh

inductive Steps : Event ω → Moment ω → Moment ω → Prop
  | drift {d : Moment ω} (w : ω) : Steps (.drift w) d { d with system := (d.system.1, w) }
  | command {d : Moment ω} {c : Command} {s : Supervisor × ω} :
    Leads os c d.system s → Steps (.command c) d { d with system := s }
  | request {d : Moment ω} {operation : Operation} {name : Str} {depth : Nat}
    {s : Supervisor × ω} : perform os depth (operation.command name) d.system = .ok () s →
    Steps (.request operation name) d ⟨s, (acceptedTransaction d.ledger operation.asStr name).2⟩
  | refresh {d : Moment ω} : Steps .refresh d d.refreshed

/-- The events of a run and what each of them has led to, the last one first. -/
abbrev History (ω : Type) := List (Event ω × Moment ω)

/-- The histories all of whose steps meet a condition. -/
inductive Run (q : Event ω → Moment ω → Moment ω → Prop) : History ω → Prop
  | new (w : ω) : Run q [(.drift w, .new w)]
  | step {a b : Event ω} {d e : Moment ω} {past : History ω} :
    Run q ((a, d) :: past) → Steps os b d e → q b d e → Run q ((b, e) :: (a, d) :: past)

/-- While a transaction is what it is, or right before it was requested, there
was a moment of some kind. -/
inductive Since (id : Nat) (t : TransactionRecord) (p : Moment ω → Prop) : History ω → Prop
  | now {a : Event ω} {e : Moment ω} {past : History ω} :
    e.Has id t → p e → Since id t p ((a, e) :: past)
  | before {a : Event ω} {operation : Operation} {d e : Moment ω} {past : History ω} :
    e.Has id t → (allocateTransactionId d.ledger).1 = id → p d →
    Since id t p ((.request operation t.name, e) :: (a, d) :: past)
  | earlier {a : Event ω} {e : Moment ω} {past : History ω} :
    e.Has id t → Since id t p past → Since id t p ((a, e) :: past)

/-- When a transaction was settled its root had reached, since the request, the
state that it was settled by, and no start job of the root was pending. -/
inductive Earned (id : Nat) (t : TransactionRecord) : History ω → Prop
  | refreshed {a : Event ω} {d e : Moment ω} {past : History ω} {state : ServiceState}
    {generation : Nat} : e.Has id t → d.Has id { t with state := .pending } →
    d.look t.name = some (state, generation) → startOutcome state = t.state →
    Since id { t with state := .pending } (fun m => m.look t.name ≠ d.look t.name)
      ((a, d) :: past) →
    ¬ d.StartPending t.name → Earned id t ((.refresh, e) :: (a, d) :: past)
  | later {a : Event ω} {e : Moment ω} {past : History ω} :
    e.Has id t → Earned id t past → Earned id t ((a, e) :: past)

/-- A service that is neither started nor failed. -/
def Unsettled (d : Moment ω) (name : Str) : Prop :=
  ∀ state generation, d.look name = some (state, generation) → startOutcome state = .pending

/-- A request leaves its root in a state it still has to get out of, or in
another one than before. Whenever the transactions are refreshed, the root of
one that is pending is a service, and if it has started or failed then no start
job of it is pending. -/
def Current : Event ω → Moment ω → Moment ω → Prop
  | .request operation name, d, e =>
    operation.asStr ∈ startsJob → Unsettled e name ∨ e.look name ≠ d.look name
  | .refresh, d, _ => ∀ id t, d.Has id t → t.state = .pending → t.operation ∈ startsJob →
    d.look t.name ≠ none ∧ (Unsettled d t.name ∨ ¬ d.StartPending t.name)
  | .drift _, _, _ | .command _, _, _ => True

/-- Whatever state the root is found settled in, since the request it was in another one. -/
def Moving (id : Nat) (t : TransactionRecord) (h : History ω) : Prop :=
  ∀ state generation, startOutcome state ≠ .pending →
    Since id t (fun m => m.look t.name ≠ some (state, generation)) h

/-- Each transaction with a start job is pending since its root moved, or was
settled with good reason. -/
def Accounted (e : Moment ω) (h : History ω) : Prop :=
  ∀ id t, e.Has id t → t.operation ∈ startsJob →
    (t.state = .pending → Moving id t h) ∧ (t.state ≠ .pending → Earned id t h)

theorem asStr_injective {s t : TransactionState} (h : s.asStr = t.asStr) : s = t := by
  cases s <;> cases t <;> first | rfl | exact absurd h (by decide)

theorem get_of_pruneWithin {n : Nat} {table : Table} {id : Nat} {t : TransactionRecord}
    (h : (pruneWithin n table).get id = some t) : table.get id = some t := by
  induction n generalizing table with
  | zero => exact h
  | succ n ih =>
    simp only [pruneWithin] at h
    split at h
    next => exact h
    next =>
      split at h
      next => exact h
      next settled _ =>
        have hget := ih h
        rw [get_erase] at hget
        split at hget
        next => cases hget
        next => exact hget

theorem get_of_accepted {l : Ledger} {operation name : Str} {id : Nat} {t : TransactionRecord}
    (h : (acceptedTransaction l operation name).2.table.get id = some t) :
    (id = (allocateTransactionId l).1 ∧ t = ⟨operation, name, .pending⟩) ∨
      l.table.get id = some t := by
  have hget : (l.table.insert (allocateTransactionId l).1 ⟨operation, name, .pending⟩).get id =
      some t := get_of_pruneWithin h
  by_cases hid : id = (allocateTransactionId l).1
  · subst hid
    rw [get_insert_self, Option.some.injEq] at hget
    exact .inl ⟨rfl, hget.symm⟩
  · rw [get_insert_of_ne _ hid] at hget
    exact .inr hget

theorem accounted_unchanged {a b : Event ω} {d e : Moment ω} {past : History ω} {id : Nat}
    {t : TransactionRecord} (h : Accounted d ((a, d) :: past)) (hd : d.Has id t) (he : e.Has id t)
    (hop : t.operation ∈ startsJob) :
    (t.state = .pending → Moving id t ((b, e) :: (a, d) :: past)) ∧
      (t.state ≠ .pending → Earned id t ((b, e) :: (a, d) :: past)) := by
  obtain ⟨hmoving, hearned⟩ := h id t hd hop
  constructor
  · intro hp state generation hstate
    exact .earlier he (hmoving hp state generation hstate)
  · intro hp
    exact .later he (hearned hp)

theorem accounted_request {a : Event ω} {d e : Moment ω} {past : History ω}
    {operation : Operation} {name : Str} (h : Accounted d ((a, d) :: past))
    (he : e.ledger = (acceptedTransaction d.ledger operation.asStr name).2)
    (hcurrent : Current (.request operation name) d e) :
    Accounted e ((.request operation name, e) :: (a, d) :: past) := by
  intro id t hhas hop
  have hget := hhas
  rw [Moment.Has, he] at hget
  obtain ⟨rfl, rfl⟩ | hget := get_of_accepted hget
  · refine ⟨fun _ state generation hstate => ?_, fun hp => absurd rfl hp⟩
    by_cases hlook : e.look name = some (state, generation)
    · obtain hunsettled | hmoved := hcurrent hop
      · exact absurd (hunsettled state generation hlook) hstate
      · exact .before hhas rfl fun hd => hmoved (hlook.trans hd.symm)
    · exact .now hhas hlook
  · exact accounted_unchanged h hget hhas hop

theorem refresh_pending {d : Moment ω} {t : TransactionRecord} {state : ServiceState}
    {generation : Nat} (ht : t.state = .pending) (hop : t.operation ∈ startsJob)
    (hlook : d.look t.name = some (state, generation)) :
    refresh d.outcome t = { t with state := startOutcome state } := by
  obtain ⟨snapshot, hs, heq⟩ := Option.map_eq_some_iff.mp hlook
  obtain ⟨rfl, rfl⟩ := Prod.mk.inj heq
  have hop' : t.operation ∈ ["start".toList, "restart".toList, "isolate".toList] := hop
  simp only [refresh, ht, ne_eq, not_true_eq_false, if_false, Moment.outcome, hs, hop', if_true]

theorem accounted_refresh {a : Event ω} {d : Moment ω} {past : History ω}
    (h : Accounted d ((a, d) :: past)) (hcurrent : Current .refresh d d.refreshed) :
    Accounted d.refreshed ((.refresh, d.refreshed) :: (a, d) :: past) := by
  intro id t' hhas hop
  have hmap : (d.ledger.table.get id).map (refresh d.outcome) = some t' := by
    rw [← get_map]
    exact hhas
  obtain ⟨t, hget, rfl⟩ := Option.map_eq_some_iff.mp hmap
  by_cases ht : t.state = .pending
  · have hop' : t.operation ∈ startsJob := by
      simp only [refresh] at hop
      split at hop
      next => exact hop
      next => split at hop <;> exact hop
    obtain ⟨hroot, hjob⟩ := hcurrent id t hget ht hop'
    obtain ⟨⟨state, generation⟩, hlook⟩ := Option.ne_none_iff_exists'.mp hroot
    have hmoving := (h id t hget hop').1 ht
    rw [refresh_pending ht hop' hlook] at hhas ⊢
    have hpending : { t with state := .pending } = t := by rw [← ht]
    refine ⟨fun hstate => ?_, fun hstate => ?_⟩
    · have hsame : { t with state := startOutcome state } = t := by
        have hpend : startOutcome state = .pending := hstate
        rw [hpend, hpending]
      rw [hsame] at hhas ⊢
      exact fun state' generation' hs => .earlier hhas (hmoving state' generation' hs)
    · have hidle : ¬ d.StartPending t.name :=
        hjob.resolve_left fun hunsettled => hstate (hunsettled state generation hlook)
      refine .refreshed hhas ?_ hlook rfl ?_ hidle
      · exact hpending ▸ hget
      · have hsince := hmoving state generation hstate
        rw [← hlook] at hsince
        simpa only [hpending] using hsince
  · have hsame : refresh d.outcome t = t := by
      simp only [refresh, ht, ne_eq, not_false_eq_true, if_true]
    rw [hsame] at hhas hop ⊢
    exact accounted_unchanged h hget hhas hop

theorem accounted_run {a : Event ω} {d : Moment ω} {past : History ω}
    (h : Run os Current ((a, d) :: past)) : Accounted d ((a, d) :: past) := by
  generalize hh : (a, d) :: past = history at h
  induction h generalizing a d past with
  | new w =>
    cases hh
    intro id t hhas
    cases hhas
  | step hrun hstep hcurrent ih =>
    cases hh
    have hprev := ih rfl
    cases hstep with
    | drift w => exact fun id t hhas hop => accounted_unchanged hprev hhas hhas hop
    | command hleads => exact fun id t hhas hop => accounted_unchanged hprev hhas hhas hop
    | request hperform => exact accounted_request hprev rfl hcurrent
    | refresh => exact accounted_refresh hprev hcurrent

/-- In a run all of whose steps are current, a start, restart or isolation that
is reported done or failed has earned that. -/
theorem reported_earned {a : Event ω} {d : Moment ω} {past : History ω} {id : Nat}
    {t : TransactionRecord} (h : Run os Current ((a, d) :: past))
    (hreport : transactionResponse d.ledger.table id =
      .transaction ⟨id, t.operation, t.name, t.state.asStr⟩)
    (hop : t.operation ∈ startsJob) (hstate : t.state ≠ .pending) :
    Earned id t ((a, d) :: past) := by
  have hhas : d.Has id t := by
    unfold transactionResponse at hreport
    split at hreport
    next t' hget =>
      simp only [Response.transaction.injEq, TransactionStatus.mk.injEq, true_and] at hreport
      obtain ⟨hoperation, hname, hasStr⟩ := hreport
      rw [Moment.Has, hget, Option.some.injEq]
      cases t
      cases t'
      cases hoperation
      cases hname
      exact congrArg _ (asStr_injective hasStr)
    next =>
      simp only [Response.transaction.injEq, TransactionStatus.mk.injEq, true_and] at hreport
      rw [← hreport.1] at hop
      exact absurd hop (by decide)
  exact (accounted_run os h id t hhas hop).2 hstate

theorem has_of_earned {a : Event ω} {e : Moment ω} {past : History ω} {id : Nat}
    {t : TransactionRecord} (h : Earned id t ((a, e) :: past)) : e.Has id t := by
  cases h with
  | refreshed hhas => exact hhas
  | later hhas => exact hhas

/-- What is settled while a start job of its root is pending is not earned. -/
theorem not_earned {a : Event ω} {d e : Moment ω} {past : History ω} {id : Nat}
    {t : TransactionRecord} (hd : d.Has id { t with state := .pending })
    (ht : t.state ≠ .pending) (hjob : d.StartPending t.name) :
    ¬ Earned id t ((.refresh, e) :: (a, d) :: past) := by
  intro h
  cases h with
  | refreshed _ _ _ _ _ hidle => exact hidle hjob
  | later _ hearned =>
    have hsame : { t with state := .pending } = t :=
      Option.some.inj (hd.symm.trans (has_of_earned hearned))
    exact ht (congrArg TransactionRecord.state hsame).symm

/-- What an event leads to, if it does not fail. -/
def happen (depth : Nat) (d : Moment ω) : Event ω → Option (Moment ω)
  | .drift w => some { d with system := (d.system.1, w) }
  | .command c => (after os depth c d.system).map fun s => { d with system := s }
  | .request operation name =>
    match perform os depth (operation.command name) d.system with
    | .ok _ s => some ⟨s, (acceptedTransaction d.ledger operation.asStr name).2⟩
    | .error _ _ => none
  | .refresh => some d.refreshed

theorem steps_of_happen {depth : Nat} {b : Event ω} {d e : Moment ω}
    (h : happen os depth d b = some e) : Steps os b d e := by
  cases b with
  | drift w =>
    cases h
    exact .drift w
  | command c =>
    obtain ⟨s, hs, rfl⟩ := Option.map_eq_some_iff.mp h
    exact .command (leads_of_after os hs)
  | request operation name =>
    simp only [happen] at h
    split at h
    next hperform =>
      cases h
      exact .request hperform
    next => cases h
  | refresh =>
    cases h
    exact .refresh

theorem run_of_foldlM {depth : Nat} {events : List (Event ω)} {a : Event ω} {d e : Moment ω}
    {past : History ω} (hrun : Run os (fun _ _ _ => True) ((a, d) :: past))
    (h : events.foldlM (happen os depth) d = some e) :
    ∃ b past', Run os (fun _ _ _ => True) ((b, e) :: past') := by
  induction events generalizing a d past with
  | nil =>
    cases h
    exact ⟨a, past, hrun⟩
  | cons b events ih =>
    rw [List.foldlM_cons] at h
    obtain ⟨d', hd', h⟩ := Option.bind_eq_some_iff.mp h
    exact ih (.step hrun (steps_of_happen os hd') trivial) h

end

def onceService (name : Str) (conflicts : List Str) : ServiceSpec :=
  { plainService name with restart := .never, dependencies := { conflicts := conflicts } }

def loaded : Option (Moment Box) :=
  happen boxOs 1 (.new ⟨0, 0, true, []⟩) (.command (.add (onceService ['a'] [])))

/-- A service that has started is reported as that. -/
theorem reported_earned_once :
    ∃ a d past, Earned 1 ⟨"start".toList, ['a'], .done⟩ ((a, d) :: past : History Box) := by
  have hloaded : loaded.any (fun d => (happen boxOs 1 d (.request .start ['a'])).any fun e =>
      decide (e.look ['a'] ≠ d.look ['a']) &&
      decide (∀ entry ∈ e.ledger.table.entries,
        e.look entry.2.name ≠ none ∧ ¬ e.StartPending entry.2.name) &&
      decide (transactionResponse e.refreshed.ledger.table 1 =
        .transaction ⟨1, "start".toList, ['a'], TransactionState.done.asStr⟩)) = true := by
    decide +kernel
  obtain ⟨d, hd, hnext⟩ := (Option.any_eq_true _ _).mp hloaded
  obtain ⟨e, he, hall⟩ := (Option.any_eq_true _ _).mp hnext
  simp only [Bool.and_eq_true, decide_eq_true_eq] at hall
  obtain ⟨⟨hlook, hentries⟩, hreport⟩ := hall
  have hrun := Run.step (.step (.step (q := Current) (.new _) (steps_of_happen boxOs hd) trivial)
    (steps_of_happen boxOs he) fun _ => .inr hlook) .refresh fun id t hhas _ _ =>
      (hentries (id, t) (get_eq_some.mp hhas)).imp_right .inr
  exact ⟨_, _, _, reported_earned boxOs (t := ⟨"start".toList, ['a'], .done⟩) hrun hreport
    (by decide) (by decide)⟩

/-- A service has failed, and waits for another one to stop. -/
def waiting : Option (Moment Box) :=
  [.command (.add (onceService ['a'] [['b']])), .command (.add (onceService ['b'] [])),
    .command (.start ['a']), .drift ⟨0, 1, true, [1]⟩, .command .poll, .command (.start ['b']),
    .request .start ['a'], .command .poll].foldlM (happen boxOs 1) (.new ⟨0, 0, true, []⟩)

/-- The start that has been asked for is reported as failed by the failure from
before, while its job is still pending. -/
theorem reported_stale :
    ∃ a d past, Run boxOs (fun _ _ _ => True) ((a, d) :: past) ∧
      transactionResponse d.ledger.table 1 =
        .transaction ⟨1, "start".toList, ['a'], TransactionState.failed.asStr⟩ ∧
      ¬ Earned 1 ⟨"start".toList, ['a'], .failed⟩ ((a, d) :: past) := by
  have hwaiting : waiting.any (fun d =>
      decide (d.ledger.table.get 1 = some ⟨"start".toList, ['a'], .pending⟩) &&
      decide (d.StartPending ['a']) &&
      decide (transactionResponse d.refreshed.ledger.table 1 =
        .transaction ⟨1, "start".toList, ['a'], TransactionState.failed.asStr⟩)) = true := by
    decide +kernel
  obtain ⟨d, hd, hall⟩ := (Option.any_eq_true _ _).mp hwaiting
  simp only [Bool.and_eq_true, decide_eq_true_eq] at hall
  obtain ⟨⟨hpending, hjob⟩, hreport⟩ := hall
  obtain ⟨b, past, hrun⟩ := run_of_foldlM boxOs (.new _) hd
  refine ⟨.refresh, d.refreshed, (b, d) :: past, .step hrun .refresh trivial, hreport, ?_⟩
  exact not_earned hpending (by decide) hjob

end FractalD.Daemon.Settlement
