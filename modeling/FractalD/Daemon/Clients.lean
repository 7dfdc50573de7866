import FractalD.Daemon.Loop

namespace FractalD.Daemon.Clients

open FractalD.Control.Messages FractalD.Daemon.Loop FractalD.Machine.CString
open FractalD.Machine.Effect

abbrev ReturnsFor {σ α : Type} (cause : Cause) (x : Run σ α) : Prop :=
  Raises (fun e => e.cause = cause) x

/-- The loop goes on, or returns for a reason that is not a client's. -/
abbrev Undisturbed {σ α : Type} (x : Run σ α) (d : State σ) : Prop :=
  Within (fun e => e.cause.Permitted) x d

section

variable {σ α : Type}

theorem orReturn_returns (cause : Cause) (describe : Str) (op : Op σ α) :
    ReturnsFor cause (orReturn cause describe op) := by
  intro d e d' h
  simp only [orReturn] at h
  cases ho : op d.system with
  | ok a s => simp [ho] at h
  | error e' s =>
    simp only [ho, EStateM.Result.error.injEq] at h
    rw [← h.1]

theorem permits {cause : Cause} {x : Run σ α} (h : ReturnsFor cause x)
    (hc : cause.Permitted) (d : State σ) : Undisturbed x d :=
  raises_mono (fun e (he : e.cause = cause) => he ▸ hc) h d

theorem return'_undisturbed {cause : Cause} {result : Except Str Unit} {d : State σ} :
    Undisturbed (return' cause result : Run σ α) d ↔ cause.Permitted := within_throw

theorem attempt_ok (op : Op σ α) (d : State σ) : ∃ r d', attempt op d = .ok r d' := by
  simp only [attempt]
  cases op d.system with
  | ok a s => exact ⟨_, _, rfl⟩
  | error e s => exact ⟨_, _, rfl⟩

end

section

variable {σ : Type} (m : Manager σ) (t : Turn)

theorem publish_returns (cause : Cause) : ReturnsFor cause (publish m cause) :=
  raises_bind (orReturn_returns cause [] m.observe) fun _ => raises_of_ok fun _ => ⟨_, _, rfl⟩

theorem shutDown_returns (cause : Cause) (after : Op σ Unit) :
    ReturnsFor cause (shutDown m cause t after) := by
  refine raises_bind (publish_returns m cause) fun _ => ?_
  refine raises_bind (orReturn_returns cause [] _) fun _ => ?_
  refine raises_bind (orReturn_returns cause [] after) fun _ => ?_
  exact raises_throw rfl

theorem reapChildren_returns : ReturnsFor .supervision (reapChildren m) := by
  unfold reapChildren
  split
  · exact orReturn_returns _ _ _
  · exact raises_pure _

theorem obeySignal_returns : ReturnsFor .signal (obeySignal m t) := by
  unfold obeySignal
  split
  · exact raises_bind (orReturn_returns _ _ _) fun _ => shutDown_returns m t _ _
  · exact raises_pure _

theorem obeyManagerAction_returns (action : Option FractalD.Core.Spec.ManagerAction) :
    ReturnsFor .managerAction (action.forM (obeyManagerAction m t)) := by
  cases action with
  | none => exact raises_pure _
  | some action =>
    change ReturnsFor _ (obeyManagerAction m t action)
    unfold obeyManagerAction
    split
    · exact raises_bind (orReturn_returns _ _ _) fun _ => shutDown_returns m t _ _
    · exact raises_pure _

theorem attend_undisturbed (d : State σ) : Undisturbed (attend m t) d := by
  refine raises_bind (permits (reapChildren_returns m) (by decide)) (fun _ => ?_) d
  refine raises_bind (permits (obeySignal_returns m t) (by decide)) fun _ => ?_
  refine raises_bind (permits (orReturn_returns .supervision _ m.poll) (by decide)) fun _ => ?_
  refine raises_bind (raises_of_ok fun _ => ⟨_, _, rfl⟩) fun action => ?_
  refine raises_bind (permits (obeyManagerAction_returns m t action) (by decide)) fun _ => ?_
  refine raises_bind (raises_of_ok fun _ => ⟨_, _, rfl⟩) fun _ => ?_
  exact permits (publish_returns m .journal) (by decide)

theorem bind_attempt_ok {α β : Type} (op : Op σ α) {f : Except Str α → Run σ β} (d : State σ)
    (hf : ∀ r d', ∃ b d'', f r d' = .ok b d'') : ∃ b d', (attempt op >>= f) d = .ok b d' := by
  obtain ⟨r, d', h⟩ := attempt_ok op d
  obtain ⟨b, d'', hb⟩ := hf r d'
  exact ⟨b, d'', bind_ok.mpr ⟨r, d', h, hb⟩⟩

theorem beginShutdown_ok (d : State σ) : ∃ r d', beginShutdown m d = .ok r d' := by
  refine bind_attempt_ok _ d fun r d' => ?_
  cases r with
  | ok _ => exact ⟨_, _, rfl⟩
  | error e => exact ⟨_, _, rfl⟩

theorem answer_ok (describe : Str) (op : Op σ Response) (d : State σ) :
    ∃ r d', answer describe op d = .ok r d' := by
  refine bind_attempt_ok _ d fun r d' => ?_
  cases r with
  | ok response => exact ⟨_, _, rfl⟩
  | error e => exact ⟨_, _, rfl⟩

theorem transact_ok (operation name : Str) (op : Str → Op σ Unit) (d : State σ) :
    ∃ r d', transact m operation name op d = .ok r d' := by
  refine bind_attempt_ok _ d fun r d' => ?_
  cases r with
  | ok name => exact ⟨_, _, rfl⟩
  | error e => exact ⟨_, _, rfl⟩

theorem respond_ok (request : Except Str Request) (d : State σ) :
    ∃ r d', respond m t request d = .ok r d' := by
  cases request with
  | error e => exact ⟨_, _, rfl⟩
  | ok request =>
    cases request with
    | status | ping | list | transactionStatus _ | subscribe _ => exact ⟨_, _, rfl⟩
    | stop => exact beginShutdown_ok m d
    | shutdown action =>
      simp only [respond]
      split
      · exact ⟨_, _, rfl⟩
      · exact beginShutdown_ok m d
    | enableService name | disableService name | isEnabled name => exact answer_ok _ _ d
    | serviceStatus name | reload => exact answer_ok _ _ d
    | startService name | isolateService name | stopService name => exact transact_ok m _ _ _ d
    | restartService name | reloadService name => exact transact_ok m _ _ _ d
    | resetFailed name =>
      cases name with
      | none => exact ⟨_, _, rfl⟩
      | some name => exact answer_ok _ _ d

end

theorem writeEvents_ok (events : List Str) (s : Stream) :
    (∃ s', writeEvents events s = .ok s') ↔
      ∀ i < events.length, s.breaks (s.sent.length + i) = none := by
  induction events generalizing s with
  | nil => simp [writeEvents, pure, Except.pure]
  | cons line events ih =>
    simp only [List.length_cons, Nat.forall_lt_succ_left, Nat.add_zero]
    cases hb : s.breaks s.sent.length with
    | some e => simp [writeEvents, Response.writeTo, hb, bind, Except.bind]
    | none =>
      have hs := ih { s with sent := s.sent ++ [(Response.event line).asLine] }
      simp only [List.length_append, List.length_singleton, Nat.add_assoc, Nat.add_comm 1] at hs
      have hw : writeEvents (line :: events) s =
          writeEvents events { s with sent := s.sent ++ [(Response.event line).asLine] } := by
        simp [writeEvents, Response.writeTo, hb, bind, Except.bind]
      rw [hw, hs]
      exact (and_iff_right rfl).symm

theorem backlog_sent (c : Connection) (events : List Str) :
    (∃ s, (Response.writeTo .subscribed c.stream >>= writeEvents events) = .ok s) ↔
      ∀ i ≤ events.length, c.breaks i = none := by
  have hi : (∀ i ≤ events.length, c.breaks i = none) ↔
      c.breaks 0 = none ∧ ∀ i < events.length, c.breaks (1 + i) = none := by
    simp only [← Nat.lt_succ_iff, Nat.forall_lt_succ_left, Nat.add_comm 1]
  rw [hi]
  cases hb : c.breaks 0 with
  | some e => simp [Response.writeTo, Connection.stream, hb, bind, Except.bind]
  | none =>
    have hs := writeEvents_ok events ⟨c.breaks, [Response.subscribed.asLine]⟩
    rw [List.length_singleton] at hs
    rw [← hs]
    simp [Response.writeTo, Connection.stream, hb, bind, Except.bind]

section

variable {σ : Type} (m : Manager σ)

/-- A client keeps the loop going if it takes the reply to its request. A
subscriber may also go away, as long as its socket can be configured before. -/
def Stays (s : σ) (c : Connection) : Prop :=
  match readRequest m c with
  | .ok (.subscribe since) => ∀ events, backlog m s since = .ok events →
      c.setWriteTimeout = .ok () ∧
        (c.setNonblocking = .ok () ∨ ∃ i ≤ events.length, c.breaks i ≠ none)
  | _ => c.breaks 0 = none

/-- In every turn that a run comes to, the client that is accepted stays. -/
def ClientsStay : List Turn → State σ → Prop
  | [], _ => True
  | t :: turns, d => ∀ d₁, attend m t d = .ok () d₁ →
      (∀ c, t.accept = .connection c → Stays m d₁.system c) ∧
        ∀ d₂, serve m t d₁ = .ok () d₂ → ClientsStay turns d₂

theorem writeTo_fresh (c : Connection) (response : Response) (h : c.breaks 0 = none) :
    Response.writeTo response c.stream = .ok ⟨c.breaks, [response.asLine]⟩ := by
  simp [Response.writeTo, Connection.stream, h]

theorem reply_undisturbed_iff (t : Turn) (c : Connection) (request : Except Str Request)
    (d : State σ) : Undisturbed (reply m t c request) d ↔ c.breaks 0 = none := by
  obtain ⟨⟨response, shutdown⟩, d', hr⟩ := respond_ok m t request d
  rw [Undisturbed, reply, within_bind_of_ok hr]
  cases hb : c.breaks 0 with
  | some e =>
    have hw : Response.writeTo response c.stream = .error e := by
      simp [Response.writeTo, Connection.stream, hb]
    simp only [hw, return', within_throw, Cause.Permitted]
    simp
  | none =>
    simp only [writeTo_fresh c response hb, iff_true]
    split
    · exact (permits (shutDown_returns m t .shutdown _) (by decide)) d'
    · exact within_of_ok rfl

theorem checkPidFile_undisturbed (t : Turn) (d : State σ) : Undisturbed (checkPidFile t) d := by
  unfold checkPidFile
  split
  · exact within_of_ok rfl
  · exact return'_undisturbed.mpr (by decide)

theorem openEventSubscription_undisturbed_iff (c : Connection) (since : Option Nat)
    (d : State σ) :
    Undisturbed (openEventSubscription m c since) d ↔
      ∀ events, backlog m d.system since = .ok events →
        c.setWriteTimeout = .ok () ∧
          (c.setNonblocking = .ok () ∨ ∃ i ≤ events.length, c.breaks i ≠ none) := by
  have hd : (get : Run σ (State σ)) d = .ok d d := rfl
  have hn (result : Except Str Unit) :
      ¬ Undisturbed (return' .subscription result : Run σ (Option Stream)) d := fun h =>
    absurd (return'_undisturbed.mp h) (by decide)
  refine (within_bind_of_ok hd).trans ?_
  cases hl : backlog m d.system since with
  | error e => exact iff_of_true (return'_undisturbed.mpr (by decide)) (by simp)
  | ok events =>
    simp only [Except.ok.injEq, forall_eq']
    cases ht : c.setWriteTimeout with
    | error e => exact iff_of_false (hn _) (by simp)
    | ok u =>
      have hs := backlog_sent c events
      rw [and_iff_right rfl]
      cases hw : Response.writeTo .subscribed c.stream >>= writeEvents events with
      | error e =>
        have hb : ∃ i ≤ events.length, c.breaks i ≠ none := by
          by_contra hb
          push Not at hb
          obtain ⟨s, h⟩ := hs.mpr hb
          cases hw.symm.trans h
        exact iff_of_true (within_of_ok rfl) (.inr hb)
      | ok stream =>
        have hb : ¬ ∃ i ≤ events.length, c.breaks i ≠ none := by
          push Not
          exact hs.mp ⟨stream, hw⟩
        cases hk : c.setNonblocking with
        | error e => exact iff_of_false (hn _) (by simp [hb])
        | ok u => exact iff_of_true (within_of_ok rfl) (.inl rfl)

theorem serve_undisturbed_iff (t : Turn) (d : State σ) :
    Undisturbed (serve m t) d ↔ ∀ c, t.accept = .connection c → Stays m d.system c := by
  cases ha : t.accept with
  | wouldBlock =>
    exact iff_of_true (by rw [serve, ha]; exact checkPidFile_undisturbed t d) (by simp)
  | failed e =>
    exact iff_of_true (by rw [serve, ha]; exact return'_undisturbed.mpr (by decide)) (by simp)
  | connection c =>
    simp only [Accept.connection.injEq, forall_eq']
    have hr (request : Except Str Request) :
        Undisturbed (reply m t c request >>= fun _ => checkPidFile t) d ↔
          c.breaks 0 = none := by
      refine within_bind.trans ((and_iff_left fun _ d' _ => ?_).trans
        (reply_undisturbed_iff m t c request d))
      exact checkPidFile_undisturbed t d'
    have hs (since : Option Nat) :
        Undisturbed (openEventSubscription m c since >>= fun subscription =>
          modify fun d => { d with subscriptions := d.subscriptions ++ subscription.toList }) d ↔
        Undisturbed (openEventSubscription m c since) d := by
      exact within_bind.trans (and_iff_left fun _ _ _ => within_of_ok rfl)
    simp only [serve, ha, Stays]
    cases hq : readRequest m c with
    | error e => exact hr _
    | ok request =>
      cases request with
      | subscribe since => exact (hs since).trans (openEventSubscription_undisturbed_iff m c since d)
      | _ => exact hr _

/-- A client takes the loop down exactly when the reply to a request cannot be
written to it, or the socket of a subscriber cannot be configured. -/
theorem daemonLoop_undisturbed_iff (turns : List Turn) (d : State σ) :
    Undisturbed (daemonLoop m turns) d ↔ ClientsStay m turns d := by
  induction turns generalizing d with
  | nil => exact iff_of_true (within_of_ok rfl) trivial
  | cons t turns ih =>
    have ht : Undisturbed (turn m t) d ↔
        ∀ d₁, attend m t d = .ok () d₁ →
          ∀ c, t.accept = .connection c → Stays m d₁.system c := by
      refine within_bind.trans ((and_iff_right (attend_undisturbed m t d)).trans ?_)
      exact ⟨fun h d₁ h₁ => (serve_undisturbed_iff m t d₁).mp (h () d₁ h₁),
        fun h _ d₁ h₁ => (serve_undisturbed_iff m t d₁).mpr (h d₁ h₁)⟩
    refine within_bind.trans ((and_congr_left' ht).trans ?_)
    simp only [ih, ClientsStay, turn, bind_ok]
    constructor
    · rintro ⟨hc, hl⟩ d₁ h₁
      exact ⟨hc d₁ h₁, fun d₂ h₂ => hl () d₂ ⟨(), d₁, h₁, h₂⟩⟩
    · intro h
      refine ⟨fun d₁ h₁ => (h d₁ h₁).1, ?_⟩
      rintro _ d₂ ⟨_, d₁, h₁, h₂⟩
      exact (h d₁ h₁).2 d₂ h₂

end

/-- A manager of no services, on which everything succeeds. -/
def idleManager : Manager Unit where
  pid := 1
  reapUntrackedChildren := pure ()
  poll := pure ()
  takeManagerAction s := (none, s)
  stopAll := pure ()
  isStopped _ := true
  names _ := []
  resolveName _ _ := none
  snapshot _ _ := none
  reloadState _ _ := none
  start name := throw ("unknown service ".toList ++ name)
  isolate name := throw ("unknown service ".toList ++ name)
  stop name := throw ("unknown service ".toList ++ name)
  restart name := throw ("unknown service ".toList ++ name)
  reloadService name := throw ("unknown service ".toList ++ name)
  resetFailed name := throw ("unknown service ".toList ++ name)
  resetFailedAll s := s
  ensureServiceLoaded name := throw ("unknown service ".toList ++ name)
  reloadNativeConfiguration := pure ()
  enable _ := pure ()
  disable _ := pure ()
  isEnabled _ := pure false
  observe := pure []
  eventsSince _ _ := .ok []
  powerAction _ := pure ()
  debug s := s

/-- A client that sends a ping and is gone before the answer. -/
def hastyClient : Connection where
  incoming := .ok "PING\n".toList
  breaks _ := some "Broken pipe".toList
  setWriteTimeout := .ok ()
  setNonblocking := .ok ()

theorem daemonLoop_disturbed :
    ¬ Undisturbed (daemonLoop idleManager [⟨false, .connection hastyClient, 0, 0, true⟩])
      ⟨(), .new, []⟩ := by
  intro h
  have hr : ∃ d, daemonLoop idleManager [⟨false, .connection hastyClient, 0, 0, true⟩]
      ⟨(), .new, []⟩ =
        .error ⟨.reply, .error "cannot write control response: Broken pipe".toList⟩ d :=
    ⟨_, rfl⟩
  obtain ⟨d, hd⟩ := hr
  exact (h _ d hd).1 rfl

end FractalD.Daemon.Clients
