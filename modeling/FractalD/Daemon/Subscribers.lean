import FractalD.Daemon.Clients
import FractalD.Daemon.Recording

namespace FractalD.Daemon.Subscribers

open FractalD.Control.Messages FractalD.Core.Spec FractalD.Daemon.Clients
open FractalD.Daemon.Journal hiding Op
open FractalD.Daemon.Loop FractalD.Daemon.Recording FractalD.Machine.CString
open FractalD.Machine FractalD.Machine.Effect FractalD.Machine.Text FractalD.Machine.Wire

section

variable {σ α : Type}

/-- An operation of a manager, beside its journal. -/
def beside (op : Op σ α) : Op (σ × Log) α := fun s =>
  match op s.1 with
  | .ok a t => .ok a (t, s.2)
  | .error e t => .error e (t, s.2)

/-- The manager of a daemon with its journal, which sees the services through the
snapshots of the supervisor. -/
def journalled (m : Manager σ) (snapshots : σ → List Observed) : Manager (σ × Log) where
  pid := m.pid
  reapUntrackedChildren := beside m.reapUntrackedChildren
  poll := beside m.poll
  takeManagerAction s := ((m.takeManagerAction s.1).1, (m.takeManagerAction s.1).2, s.2)
  stopAll := beside m.stopAll
  isStopped s := m.isStopped s.1
  names s := m.names s.1
  resolveName s := m.resolveName s.1
  snapshot s := m.snapshot s.1
  reloadState s := m.reloadState s.1
  start name := beside (m.start name)
  isolate name := beside (m.isolate name)
  stop name := beside (m.stop name)
  restart name := beside (m.restart name)
  reloadService name := beside (m.reloadService name)
  resetFailed name := beside (m.resetFailed name)
  resetFailedAll s := (m.resetFailedAll s.1, s.2)
  ensureServiceLoaded name := beside (m.ensureServiceLoaded name)
  reloadNativeConfiguration := beside m.reloadNativeConfiguration
  enable name := beside (m.enable name)
  disable name := beside (m.disable name)
  isEnabled name := beside (m.isEnabled name)
  observe s :=
    match observe (snapshots s.1) s.2 with
    | .ok events l => .ok events (s.1, l)
    | .error e l => .error e (s.1, l)
  eventsSince s := eventsSince s.2
  powerAction action := beside (m.powerAction action)
  debug := m.debug

/-- The journal and the subscribers are as given. -/
def Quiet (log : Log) (subs : List Stream) (d : State (σ × Log)) : Prop :=
  d.system.2 = log ∧ d.subscriptions = subs

/-- An operation does not touch the journal. -/
abbrev Apart (op : Op (σ × Log) α) : Prop := ∀ log, Preserves (fun s => s.2 = log) op

/-- A part of a turn touches neither the journal nor the subscribers, if it goes on. -/
abbrev Silent (x : Run (σ × Log) α) : Prop :=
  ∀ log subs, Leads (Quiet log subs) x (fun _ => Quiet log subs) (fun _ => True)

theorem beside_apart (op : Op σ α) : Apart (beside op) := by
  intro log s hs
  unfold beside
  cases op s.1 with
  | ok a t => exact hs
  | error e t => exact hs

theorem apart_map {β : Type} {op : Op (σ × Log) α} (h : Apart op) (f : α → β) : Apart (f <$> op) := by
  intro log s hs
  have hop := h log s hs
  change Ends _ _ (EStateM.map f op s)
  unfold EStateM.map
  cases hr : op s with
  | ok a t =>
    rw [hr] at hop
    exact hop
  | error e t =>
    rw [hr] at hop
    exact hop

theorem attempt_silent {op : Op (σ × Log) α} (h : Apart op) : Silent (attempt op) := by
  intro log subs d hd
  have hop := h log d.system hd.1
  unfold attempt
  cases hr : op d.system with
  | ok a s =>
    rw [hr] at hop
    exact ⟨hop, hd.2⟩
  | error e s =>
    rw [hr] at hop
    exact ⟨hop, hd.2⟩

theorem orReturn_silent (cause : Cause) (describe : Str) {op : Op (σ × Log) α} (h : Apart op) :
    Silent (orReturn cause describe op) := by
  intro log subs d hd
  have hop := h log d.system hd.1
  unfold orReturn
  cases hr : op d.system with
  | ok a s =>
    rw [hr] at hop
    exact ⟨hop, hd.2⟩
  | error e s => trivial

theorem silent_pure (a : α) : Silent (pure a : Run (σ × Log) α) := fun _ _ _ hd => hd

theorem silent_return (cause : Cause) (result : Except Str Unit) :
    Silent (return' cause result : Run (σ × Log) α) := fun _ _ _ _ => trivial

theorem silent_bind {β : Type} {x : Run (σ × Log) α} {f : α → Run (σ × Log) β} (hx : Silent x)
    (hf : ∀ a, Silent (f a)) : Silent (x >>= f) :=
  fun log subs => leads_bind (hx log subs) fun a => hf a log subs

end

section

variable {σ : Type} (m : Manager σ) (snapshots : σ → List Observed) (t : Turn)

theorem shutDown_silent (cause : Cause) (after : Op (σ × Log) Unit) :
    Silent (shutDown (journalled m snapshots) cause t after) := by
  intro log subs d hd
  cases hr : shutDown (journalled m snapshots) cause t after d with
  | error e d' => trivial
  | ok u d' =>
    obtain ⟨_, d₁, -, h⟩ := bind_ok.mp hr
    obtain ⟨_, d₂, -, h⟩ := bind_ok.mp h
    obtain ⟨_, d₃, -, h⟩ := bind_ok.mp h
    cases h

theorem answer_silent (describe : Str) {op : Op (σ × Log) Response} (h : Apart op) :
    Silent (answer describe op) := by
  apply silent_bind (attempt_silent h)
  intro r
  cases r with
  | ok response => exact silent_pure _
  | error e => exact silent_pure _

theorem beginShutdown_silent : Silent (beginShutdown (journalled m snapshots)) := by
  apply silent_bind (attempt_silent (beside_apart _))
  intro r
  cases r with
  | ok _ => exact silent_pure _
  | error e => exact silent_pure _

theorem canonicalServiceName_silent (name : Str) :
    Silent (canonicalServiceName (journalled m snapshots) name) := fun _ _ _ hd => hd

theorem transact_silent (operation name : Str) {op : Str → Op (σ × Log) Unit}
    (h : ∀ name, Apart (op name)) :
    Silent (transact (journalled m snapshots) operation name op) := by
  apply silent_bind
  · apply attempt_silent
    intro log
    apply preserves_bind (beside_apart _ log)
    intro name
    exact preserves_bind (h name log) fun _ => preserves_pure _
  · intro r
    cases r with
    | ok name => exact fun _ _ _ hd => hd
    | error e => exact silent_pure _

theorem serviceStatus_apart (name : Str) : Apart (serviceStatus (journalled m snapshots) name) := by
  intro log
  apply preserves_bind (beside_apart _ log)
  intro name s hs
  refine ends_bind (p := fun state t => s = state ∧ s = t) ⟨rfl, rfl⟩ ?_
  rintro _ _ ⟨rfl, rfl⟩
  cases (journalled m snapshots).snapshot s name with
  | some _ => exact hs
  | none => exact hs

theorem respond_silent (request : Except Str Request) :
    Silent (respond (journalled m snapshots) t request) := by
  have hnamed (name describe : Str) {op : Str → Op (σ × Log) Response} (h : ∀ name, Apart (op name)) :
      Silent (do
        let name ← canonicalServiceName (journalled m snapshots) name
        answer describe (op name)) :=
    silent_bind (canonicalServiceName_silent m snapshots name) fun _ => answer_silent _ (h _)
  cases request with
  | error e => exact silent_pure _
  | ok request =>
    cases request with
    | status | ping | subscribe _ => exact silent_pure _
    | list | transactionStatus _ => exact fun _ _ _ hd => hd
    | stop => exact beginShutdown_silent m snapshots
    | shutdown action =>
      simp only [respond]
      split
      · exact silent_pure _
      · exact beginShutdown_silent m snapshots
    | enableService name => exact hnamed name _ fun _ => apart_map (beside_apart _) _
    | disableService name => exact hnamed name _ fun _ => apart_map (beside_apart _) _
    | isEnabled name => exact hnamed name _ fun _ => apart_map (beside_apart _) _
    | serviceStatus name => exact answer_silent _ (serviceStatus_apart m snapshots name)
    | reload => exact answer_silent _ (apart_map (beside_apart _) _)
    | startService name => exact transact_silent m snapshots _ _ fun _ => beside_apart _
    | isolateService name => exact transact_silent m snapshots _ _ fun _ => beside_apart _
    | stopService name => exact transact_silent m snapshots _ _ fun _ => beside_apart _
    | restartService name => exact transact_silent m snapshots _ _ fun _ => beside_apart _
    | reloadService name => exact transact_silent m snapshots _ _ fun _ => beside_apart _
    | resetFailed name =>
      cases name with
      | none => exact fun _ _ _ hd => hd
      | some name => exact hnamed name _ fun _ => apart_map (beside_apart _) _

theorem reply_silent (c : Connection) (request : Except Str Request) :
    Silent (reply (journalled m snapshots) t c request) := by
  apply silent_bind (respond_silent m snapshots t request)
  rintro ⟨response, shutdown⟩
  dsimp only
  cases Response.writeTo response c.stream with
  | error e => exact silent_return _ _
  | ok _ =>
    intro log subs
    apply leads_ite
    · intro _
      exact shutDown_silent m snapshots t _ _ log subs
    · intro _
      exact silent_pure _ log subs

theorem checkPidFile_silent : Silent (σ := σ) (checkPidFile t) := by
  intro log subs
  apply leads_ite
  · intro _
    exact silent_pure _ log subs
  · intro _
    exact silent_return _ _ log subs

end

theorem writeEvents_append (a b : List Str) (s : Stream) :
    writeEvents (a ++ b) s = writeEvents a s >>= writeEvents b := by
  rw [writeEvents, List.foldlM_append]
  rfl

theorem broadcastEvents_append (a b : List Str) (subs : List Stream) :
    broadcastEvents (a ++ b) subs = broadcastEvents b (broadcastEvents a subs) := by
  simp only [broadcastEvents, List.filterMap_filterMap]
  apply List.filterMap_congr
  intro s _
  rw [writeEvents_append]
  cases writeEvents a s with
  | error e => rfl
  | ok s' => rfl

theorem broadcastEvents_nil (subs : List Stream) : broadcastEvents [] subs = subs :=
  List.filterMap_some

theorem broadcastEvents_over (events : List Str) (subs subs' : List Stream) :
    broadcastEvents events (subs ++ subs') =
      broadcastEvents events subs ++ broadcastEvents events subs' := List.filterMap_append

/-- The stream of a client that subscribes in a turn, once the recorded events that it
asks for have been sent. -/
def Opened {σ : Type} (m : Manager σ) (t : Turn) (s : σ) (new : List Stream) : Prop :=
  match t.accept with
  | .connection c =>
    match readRequest m c with
    | .ok (.subscribe since) => ∃ events, backlog m s since = .ok events ∧
      new = (Response.writeTo .subscribed c.stream >>= writeEvents events).toOption.toList
    | _ => new = []
  | _ => new = []

/-- What a part of a run does: it records changes, whose events go to all subscribers,
and others come to these. -/
structure Passed {σ : Type} (before : Log) (subs new : List Stream) (d : State (σ × Log)) : Prop where
  recorded : Recorded d.system.2
  next : before.journal.nextSequence ≤ d.system.2.journal.nextSequence
  passed : ∃ es, Since before (es.map formatEvent) d.system.2 es ∧
    d.subscriptions = broadcastEvents (es.map formatEvent) subs ++ new

section

variable {σ : Type} (m : Manager σ) (snapshots : σ → List Observed) (t : Turn)

theorem publish_leads (cause : Cause) {log : Log} {subs : List Stream} (h : Recorded log) :
    Leads (Quiet log subs) (publish (journalled m snapshots) cause)
      (fun _ => Passed log subs []) (fun _ => True) := by
  rintro d ⟨rfl, rfl⟩
  have hobserve := observe_leads h (snapshots d.system.1)
  have hpass : Ends (fun events d' => d'.subscriptions = d.subscriptions ∧
        Noted d.system.2 events d'.system.2) (fun _ _ => True)
      (orReturn cause [] (journalled m snapshots).observe d) := by
    simp only [orReturn, journalled]
    cases hr : observe (snapshots d.system.1) d.system.2 with
    | ok events l =>
      rw [hr] at hobserve
      exact ⟨rfl, hobserve⟩
    | error e l => trivial
  refine ends_bind hpass ?_
  intro events d' hd'
  obtain ⟨hsubs, hnoted⟩ := hd'
  obtain ⟨es, hes⟩ := hnoted.since
  obtain rfl := hes.events
  exact ⟨hnoted.recorded, hnoted.next, es, hes, by rw [List.append_nil, ← hsubs]⟩

theorem obeySignal_silent : Silent (obeySignal (journalled m snapshots) t) := by
  intro log subs
  apply leads_ite
  · intro _
    apply leads_bind (orReturn_silent _ _ (beside_apart _) log subs)
    intro _
    exact shutDown_silent m snapshots t _ _ log subs
  · intro _
    exact silent_pure _ log subs

theorem obeyManagerAction_silent (action : Option ManagerAction) :
    Silent (action.forM (obeyManagerAction (journalled m snapshots) t)) := by
  cases action with
  | none => exact silent_pure _
  | some action =>
    intro log subs
    apply leads_ite
    · intro _
      apply leads_bind (orReturn_silent _ _ (beside_apart _) log subs)
      intro _
      exact shutDown_silent m snapshots t _ _ log subs
    · intro _
      exact silent_pure _ log subs

theorem takeManagerAction_silent : Silent (takeManagerAction (journalled m snapshots)) :=
  fun _ _ _ hd => hd

theorem refreshLedger_silent : Silent (refreshLedger (journalled m snapshots)) :=
  fun _ _ _ hd => hd

theorem attend_leads {log : Log} {subs : List Stream} (h : Recorded log) :
    Leads (Quiet log subs) (attend (journalled m snapshots) t)
      (fun _ => Passed log subs []) (fun _ => True) := by
  apply leads_bind (q := fun _ => Quiet log subs)
  · apply leads_ite
    · intro _
      exact orReturn_silent _ _ (beside_apart _) log subs
    · intro _
      exact silent_pure _ log subs
  intro _
  apply leads_bind (obeySignal_silent m snapshots t log subs)
  intro _
  apply leads_bind (orReturn_silent _ _ (beside_apart _) log subs)
  intro _
  apply leads_bind (takeManagerAction_silent m snapshots log subs)
  intro action
  apply leads_bind (obeyManagerAction_silent m snapshots t action log subs)
  intro _
  apply leads_bind (refreshLedger_silent m snapshots log subs)
  intro _
  exact publish_leads m snapshots .journal h

theorem openEventSubscription_leads (c : Connection) (since : Option Nat) {log : Log}
    {subs : List Stream} :
    Leads (Quiet log subs) (openEventSubscription (journalled m snapshots) c since)
      (fun stream d => Quiet log subs d ∧ ∃ events,
        backlog (journalled m snapshots) d.system since = .ok events ∧
          stream = (Response.writeTo .subscribed c.stream >>= writeEvents events).toOption)
      (fun _ => True) := by
  intro d hd
  have hget : (get : Run (σ × Log) _) d = .ok d d := rfl
  rw [openEventSubscription, bind_of_ok hget]
  cases hl : backlog (journalled m snapshots) d.system since with
  | error e => trivial
  | ok events =>
    cases ht : c.setWriteTimeout with
    | error e => trivial
    | ok u =>
      cases hw : Response.writeTo .subscribed c.stream >>= writeEvents events with
      | error e =>
        simp only [hw]
        refine ⟨hd, events, hl, ?_⟩
        rw [hw]
        rfl
      | ok stream =>
        simp only [hw]
        cases hk : c.setNonblocking with
        | error e => trivial
        | ok u =>
          refine ⟨hd, events, hl, ?_⟩
          rw [hw]
          rfl

theorem serve_leads {log : Log} {subs : List Stream} :
    Leads (Quiet log subs) (serve (journalled m snapshots) t)
      (fun _ d => d.system.2 = log ∧ ∃ new, Opened (journalled m snapshots) t d.system new ∧
        d.subscriptions = subs ++ new) (fun _ => True) := by
  have hquiet (x : Run (σ × Log) Unit) (hx : Silent x)
      (hnone : ∀ s, Opened (journalled m snapshots) t s []) : Leads (Quiet log subs) x
        (fun _ d => d.system.2 = log ∧ ∃ new, Opened (journalled m snapshots) t d.system new ∧
          d.subscriptions = subs ++ new) (fun _ => True) := by
    apply leads_mono (fun _ h => h) _ (fun _ h => h) (hx log subs)
    rintro _ d ⟨hlog, hsubs⟩
    exact ⟨hlog, [], hnone d.system, by rw [List.append_nil, hsubs]⟩
  unfold serve
  cases haccept : t.accept with
  | wouldBlock =>
    apply hquiet _ (checkPidFile_silent t)
    intro s
    simp [Opened, haccept]
  | failed e => exact fun _ _ => trivial
  | connection c =>
    by_cases hsub : ∃ since, readRequest (journalled m snapshots) c = .ok (.subscribe since)
    · obtain ⟨since, hread⟩ := hsub
      simp only [hread]
      apply leads_bind (openEventSubscription_leads m snapshots c since)
      intro stream d hd
      obtain ⟨⟨hlog, hsubs⟩, events, hl, rfl⟩ := hd
      refine ⟨hlog, _, ?_, congrArg (· ++ _) hsubs⟩
      simp only [Opened, haccept, hread]
      exact ⟨events, hl, rfl⟩
    · have hnone (s : σ × Log) : Opened (journalled m snapshots) t s [] := by
        simp only [Opened, haccept]
        split
        next since hread => exact absurd ⟨since, hread⟩ hsub
        next => trivial
      have hreply (request : Except Str Request) :
          Silent (do
            reply (journalled m snapshots) t c request
            checkPidFile t) :=
        silent_bind (reply_silent m snapshots t c request) fun _ => checkPidFile_silent t
      dsimp only
      split
      next since hread => exact absurd ⟨since, hread⟩ hsub
      next => exact hquiet _ (hreply _) hnone

theorem turn_leads {log : Log} {subs : List Stream} (h : Recorded log) :
    Leads (Quiet log subs) (turn (journalled m snapshots) t)
      (fun _ d => ∃ new, Opened (journalled m snapshots) t d.system new ∧ Passed log subs new d)
      (fun _ => True) := by
  apply leads_bind (attend_leads m snapshots t h)
  intro _ d hd
  obtain ⟨hrecorded, hnext, es, hes, hsubs⟩ := hd
  have hserve : Leads (Quiet d.system.2 d.subscriptions) _ _ _ := serve_leads m snapshots t
  refine ends_mono ?_ (fun _ _ h => h) (hserve d ⟨rfl, rfl⟩)
  rintro _ d' ⟨hlog, new, hopened, hnew⟩
  refine ⟨new, hopened, ?_, ?_, es, ?_, ?_⟩
  · rwa [hlog]
  · rwa [hlog]
  · rwa [hlog]
  · rw [hnew, hsubs, List.append_nil]

theorem daemonLoop_leads (turns : List Turn) {log : Log} {subs : List Stream} (h : Recorded log) :
    Leads (Quiet log subs) (daemonLoop (journalled m snapshots) turns)
      (fun _ d => ∃ new, Passed log subs new d) (fun _ => True) := by
  induction turns generalizing log subs with
  | nil =>
    rintro d ⟨rfl, rfl⟩
    refine ⟨[], h, Nat.le_refl _, [], ⟨(List.append_nil _).symm, rfl, by simp⟩, ?_⟩
    rw [List.append_nil, List.map_nil, broadcastEvents_nil]
  | cons t turns ih =>
    apply leads_bind (turn_leads m snapshots t h)
    rintro _ d ⟨new, -, hrecorded, hnext, es, hes, hsubs⟩
    refine ends_mono ?_ (fun _ _ h => h) (ih hrecorded d ⟨rfl, rfl⟩)
    rintro _ d' ⟨new', hrecorded', hnext', es', hes', hsubs'⟩
    refine ⟨broadcastEvents (es'.map formatEvent) new ++ new', hrecorded', Nat.le_trans hnext hnext',
      es ++ es', ⟨?_, rfl, ?_⟩, ?_⟩
    · rw [hes'.written, hes.written, List.append_assoc]
    · intro e he
      obtain he | he := List.mem_append.mp he
      · exact hes.later e he
      · exact Nat.le_trans hnext (hes'.later e he)
    · rw [hsubs', hsubs, List.map_append, broadcastEvents_append, broadcastEvents_over,
        List.append_assoc]

end

/-- The line that a subscriber gets for a change. -/
def sentLine (e : Change) : Str := (Response.event (eventLine e)).asLine

theorem asLine_event (line : Str) : (Response.event line).asLine =
    "OK EVENT ".toList ++ oneLine (trimEnd isLineEnd line) ++ ['\n'] := rfl

/-- It is the same whether the line is read from the log or has just been recorded. -/
theorem asLine_formatEvent (e : Change) : (Response.event (formatEvent e)).asLine = sentLine e := by
  have htrim : trimEnd isLineEnd (formatEvent e) = trimEnd isLineEnd (eventLine e) :=
    trimEnd_concat rfl (eventLine e)
  rw [sentLine, asLine_event, asLine_event, htrim]

theorem writeEvents_sent {events : List Str} {s : Stream}
    (h : ∀ i < events.length, s.breaks (s.sent.length + i) = none) :
    writeEvents events s =
      .ok { s with sent := s.sent ++ events.map fun line => (Response.event line).asLine } := by
  induction events generalizing s with
  | nil =>
    rw [List.map_nil, List.append_nil]
    rfl
  | cons line events ih =>
    let next : Stream := { s with sent := s.sent ++ [(Response.event line).asLine] }
    have hfirst : Response.writeTo (.event line) s = .ok next := by
      have hzero := h 0 (Nat.succ_pos _)
      rw [Nat.add_zero] at hzero
      simp [Response.writeTo, hzero, next]
    have hrest := ih (s := next) fun i hi => by
      have hi := h (i + 1) (Nat.succ_lt_succ hi)
      rw [List.length_append, List.length_singleton, Nat.add_assoc, Nat.add_comm 1]
      exact hi
    have hcons : writeEvents (line :: events) s =
        Response.writeTo (.event line) s >>= writeEvents events := List.foldlM_cons
    rw [hcons, hfirst]
    refine Eq.trans hrest ?_
    rw [List.map_cons, List.append_assoc, List.singleton_append]

theorem map_sentLine (es : List Change) :
    (es.map eventLine).map (fun line => (Response.event line).asLine) = es.map sentLine := by
  rw [List.map_map]
  rfl

theorem map_formatEvent (es : List Change) :
    (es.map formatEvent).map (fun line => (Response.event line).asLine) = es.map sentLine := by
  rw [List.map_map]
  exact List.map_congr_left fun e _ => asLine_formatEvent e

/-- A client that subscribes from a number on that is not above the next gets the recorded
events from the number on that the log still holds, and then every event that is recorded
while the loop goes on, in order and each once, as long as it takes what it is sent. -/
theorem subscriber_gets_every_event_once {σ : Type} (m : Manager σ) (snapshots : σ → List Observed)
    (answers lookups : Nat → Answer) (clock : Nat → Nat) (operations : List Operation)
    (j : EventJournal) (disk : Disk)
    (hsite : EventRuns.final operate ⟨none, blank answers lookups clock⟩ operations = ⟨some j, disk⟩)
    (d₀ d₁ d₂ d₃ : State (σ × Log)) (hstart : d₀.system.2 = ⟨j, disk⟩)
    (before after : List Turn) (t : Turn) (c : Connection) (since : Nat)
    (haccept : t.accept = .connection c)
    (hrequest : readRequest (journalled m snapshots) c = .ok (.subscribe (some since)))
    (hbefore : daemonLoop (journalled m snapshots) before d₀ = .ok () d₁)
    (hturn : turn (journalled m snapshots) t d₁ = .ok () d₂)
    (hafter : daemonLoop (journalled m snapshots) after d₂ = .ok () d₃)
    (hb : Bounded d₃.system.2.disk.written) (hsince : since ≤ d₂.system.2.journal.nextSequence) :
    ∃ retained recorded : List Change, linesOf d₂.system.2.disk = retained.map eventLine ∧
      d₃.system.2.disk.written = d₂.system.2.disk.written ++ recorded ∧
      let sent := retained.filter (since ≤ ·.sequence) ++ recorded
      (sent.Pairwise fun a b => a.sequence < b.sequence) ∧ (∀ e ∈ sent, since ≤ e.sequence) ∧
      ((∀ i ≤ sent.length, c.breaks i = none) → ∃ older newer,
        d₂.subscriptions = older ++ [⟨c.breaks, Response.subscribed.asLine ::
          (retained.filter (since ≤ ·.sequence)).map sentLine⟩] ∧
        d₃.subscriptions = broadcastEvents (recorded.map formatEvent) older ++
          ⟨c.breaks, Response.subscribed.asLine :: sent.map sentLine⟩ :: newer) := by
  have hintact : Intact ⟨some j, disk⟩ :=
    hsite ▸ EventRuns.final_keeps operate_keeps (intact_blank answers lookups clock) operations
  have h₀ : Recorded d₀.system.2 := hstart ▸ hintact.recorded j rfl
  have h₁ := daemonLoop_leads m snapshots before h₀ d₀ ⟨rfl, rfl⟩
  rw [hbefore] at h₁
  obtain ⟨_, h₁, -, -⟩ := h₁
  have h₂ := turn_leads m snapshots t h₁ d₁ ⟨rfl, rfl⟩
  rw [hturn] at h₂
  obtain ⟨new, hopened, h₂, -, _, -, hsubs₂⟩ := h₂
  have h₃ := daemonLoop_leads m snapshots after h₂ d₂ ⟨rfl, rfl⟩
  rw [hafter] at h₃
  obtain ⟨newer, h₃, -, recorded, hrecorded, hsubs₃⟩ := h₃
  have hwritten := hrecorded.written
  have hb₂ : Bounded d₂.system.2.disk.written := by
    intro e he
    rw [hwritten] at hb
    exact hb e (List.mem_append_left _ he)
  obtain ⟨-, retained, hkept⟩ := h₂.ordered hb₂
  refine ⟨retained, recorded, hkept.lines, hwritten, ?_, ?_, ?_⟩
  · have hascending := (h₃.ordered hb).ascending
    rw [hwritten] at hascending
    apply List.Pairwise.sublist _ hascending
    exact List.Sublist.append (List.filter_sublist.trans hkept.isLast.sublist) (List.Sublist.refl _)
  · intro e he
    obtain he | he := List.mem_append.mp he
    · simpa using (List.mem_filter.mp he).2
    · exact Nat.le_trans hsince (hrecorded.later e he)
  · intro hwrites
    simp only [Opened, haccept, hrequest] at hopened
    obtain ⟨events, hbacklog, rfl⟩ := hopened
    obtain rfl := Kept.eventsSince hkept hb₂ hbacklog
    let first : Stream := ⟨c.breaks, Response.subscribed.asLine ::
      (retained.filter (since ≤ ·.sequence)).map sentLine⟩
    let last : Stream := ⟨c.breaks, Response.subscribed.asLine ::
      (retained.filter (since ≤ ·.sequence) ++ recorded).map sentLine⟩
    rw [List.length_append] at hwrites
    have hfirst : Response.writeTo .subscribed c.stream >>=
        writeEvents ((retained.filter (since ≤ ·.sequence)).map eventLine) = .ok first := by
      rw [writeTo_fresh c _ (hwrites 0 (Nat.zero_le _))]
      refine (writeEvents_sent ?_).trans ?_
      · intro i hi
        rw [List.length_map] at hi
        exact hwrites _ (by rw [List.length_singleton]; omega)
      · rw [map_sentLine]
        rfl
    have hlast : writeEvents (recorded.map formatEvent) first = .ok last := by
      refine (writeEvents_sent ?_).trans ?_
      · intro i hi
        rw [List.length_map] at hi
        apply hwrites
        rw [List.length_cons, List.length_map]
        omega
      · rw [map_formatEvent]
        simp only [first, last, List.map_append, List.cons_append]
    rw [hfirst] at hsubs₂
    refine ⟨_, newer, hsubs₂, ?_⟩
    rw [hsubs₃, hsubs₂, broadcastEvents_over, List.append_assoc]
    apply congrArg
    simp only [broadcastEvents, Except.toOption, Option.toList, List.filterMap_cons, hlast,
      List.filterMap_nil]
    rfl

def subscriber : Connection where
  incoming := .ok "SUBSCRIBE 0\n".toList
  breaks _ := none
  setWriteTimeout := .ok ()
  setNonblocking := .ok ()

def subscribeTurn : Turn := ⟨false, .connection subscriber, 0, 0, true⟩

def idleTurn : Turn := ⟨false, .wouldBlock, 0, 0, true⟩

/-- A daemon that has recorded the start of its one service, which is active now. -/
def freshDaemon : State (Unit × Log) :=
  ⟨((), ⟨((EventRuns.final operate ⟨none, blank (fun _ => .done) (fun _ => .done) fun n => n⟩
      [.reopen [] 1 none, .observe [someService .starting]]).journal.getD
        ⟨[], 1, 0, 0, 1, OrderedMap.empty⟩),
    (EventRuns.final operate ⟨none, blank (fun _ => .done) (fun _ => .done) fun n => n⟩
      [.reopen [] 1 none, .observe [someService .starting]]).disk⟩), .new, []⟩

def demo : Manager (Unit × Log) := journalled idleManager fun _ => [someService .active]

theorem subscriber_gets_both_events :
    let d₂ := final (turn demo subscribeTurn) freshDaemon
    let d₃ := final (daemonLoop demo [idleTurn]) d₂
    ∃ retained recorded : List Change, linesOf d₂.system.2.disk = retained.map eventLine ∧
      d₃.system.2.disk.written = d₂.system.2.disk.written ++ recorded ∧
      let sent := retained.filter (0 ≤ ·.sequence) ++ recorded
      (sent.Pairwise fun a b => a.sequence < b.sequence) ∧ (∀ e ∈ sent, 0 ≤ e.sequence) ∧
      ((∀ i ≤ sent.length, subscriber.breaks i = none) → ∃ older newer,
        d₂.subscriptions = older ++ [⟨subscriber.breaks, Response.subscribed.asLine ::
          (retained.filter (0 ≤ ·.sequence)).map sentLine⟩] ∧
        d₃.subscriptions = broadcastEvents (recorded.map formatEvent) older ++
          ⟨subscriber.breaks, Response.subscribed.asLine :: sent.map sentLine⟩ :: newer) :=
  subscriber_gets_every_event_once idleManager (fun _ => [someService .active])
    (fun _ => .done) (fun _ => .done) (fun n => n)
    [.reopen [] 1 none, .observe [someService .starting]] _ _ rfl freshDaemon freshDaemon _ _ rfl
    [] [idleTurn] subscribeTurn subscriber 0 rfl (by decide +kernel) rfl
    (ok_final (by decide +kernel)) (ok_final (by decide +kernel)) (by decide +kernel)
    (Nat.zero_le _)

end FractalD.Daemon.Subscribers
