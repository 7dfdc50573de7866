import FractalD.Manager.Survival
import FractalD.Supervisor.Calendar

namespace FractalD.Supervisor.CalendarFires

open FractalD.Core.Record FractalD.Core.Restarts FractalD.Core.Spec FractalD.Machine.CString
open FractalD.Machine.Effect FractalD.Machine.OrderedMap FractalD.Manager.Survival
open FractalD.Supervisor.Calendar FractalD.Supervisor.Service FractalD.Supervisor.System
open FractalD.Supervisor.Trigger

section

variable {ω : Type} (os : Os ω)

/-- A system that matches expressions as the supervisor does, with the seconds of its clock. -/
def withCalendar : Os ω :=
  { os with calendarMatch := fun expression clock => calendarMatch expression (clock / 10 ^ 9) }

def second (w : ω) : Nat := os.wallClock w / 10 ^ 9

/-- The expression that is due, and the second that it is due in. -/
def calendarFire (w : ω) (t : TriggerState) : List Str → Option (Str × Nat)
  | [] => none
  | expression :: expressions =>
    let clock := os.wallClock w
    match t.calendarPending.get expression with
    | some (bucket, dueAt) =>
      if dueAt ≤ clock then some (expression, bucket) else calendarFire w t expressions
    | none =>
      match os.calendarMatch expression clock with
      | none => calendarFire w t expressions
      | some bucket =>
        if t.calendarFires.get expression = some bucket then calendarFire w t expressions
        else if t.randomDelay ≠ 0 then
          let dueAt := (checkedAdd clock t.scheduleDelay).getD clock
          calendarFire w
            { t with calendarPending := t.calendarPending.insert expression (bucket, dueAt) }
            expressions
        else some (expression, bucket)

/-- The expression and the second for which a poll of a service fires, if it fires for one:
what the poll decides without saying so, see `poll_calendar`. -/
def fired (m : ManagedService) (w : ω) (now : Instant) : Option (Str × Nat) :=
  match m.spec.trigger with
  | some (.timer _ onBoot onUnitActive onUnitInactive onCalendar _ _ _) =>
    if m.record.state ≠ .active ∨
        (timerDue os w m.trigger now onBoot onUnitActive onUnitInactive []).1 then none
    else calendarFire os w m.trigger onCalendar
  | _ => none

def pollTrigger (m : ManagedService) (w : ω) (now : Instant) : Option Str × ManagedService :=
  match triggerDue os now (m, w) with
  | .ok target (m, _) => (target, m)
  | .error _ (m, _) => (none, m)

structure Observation where
  second : Nat
  target : Option Str
  fired : Option (Str × Nat)

/-- What is seen of a service that is polled again and again. -/
def observe : ManagedService → List (ω × Instant) → List Observation
  | _, [] => []
  | m, (w, now) :: polls =>
    ⟨second os w, (pollTrigger os m w now).1, fired os m w now⟩ ::
      observe (pollTrigger os m w now).2 polls

/-- A timer that has neither waited for a second nor fired in one, and waits no longer than
its schedule says. -/
structure Fresh (t : TriggerState) : Prop where
  randomDelay : t.randomDelay = 0
  accuracyDelay : t.accuracyDelay = 0
  fires : t.calendarFires = empty
  pending : t.calendarPending = empty

variable {os} {w : ω} {t : TriggerState} {now : Instant} {expressions : List Str}

/-- A timer that waits for no second. -/
def Prompt (t : TriggerState) : Prop := t.randomDelay = 0 ∧ t.calendarPending = empty

theorem fresh_activate {spec : ServiceSpec} {target : Str}
    {onBoot onUnitActive onUnitInactive : Option Duration} {onCalendar : List Str}
    {persistent : Bool} (h : spec.trigger =
      some (.timer target onBoot onUnitActive onUnitInactive onCalendar persistent none none)) :
    Fresh (activate os w spec now) := by
  unfold activate
  rw [h]
  exact ⟨rfl, rfl, rfl, rfl⟩

theorem Fresh.prompt (h : Fresh t) : Prompt t := ⟨h.randomDelay, h.pending⟩

theorem calendarFire_cons (h : Prompt t) (expression : Str) :
    calendarFire os w t (expression :: expressions) =
      match os.calendarMatch expression (os.wallClock w) with
      | none => calendarFire os w t expressions
      | some bucket =>
        if t.calendarFires.get expression = some bucket then calendarFire os w t expressions
        else some (expression, bucket) := by
  simp only [calendarFire, h.2, get_empty, h.1, ne_eq, not_true_eq_false, if_false]

theorem calendarDue_prompt (h : Prompt t) : calendarDue os w t expressions =
    match calendarFire os w t expressions with
    | some (expression, bucket) =>
      (true, { t with calendarFires := t.calendarFires.insert expression bucket })
    | none => (false, t) := by
  induction expressions with
  | nil => rfl
  | cons expression expressions ih =>
    have hpending : t.calendarPending.get expression = none := by rw [h.2, get_empty]
    rw [calendarFire_cons h]
    simp only [calendarDue, hpending, if_neg (not_not.mpr h.1)]
    cases os.calendarMatch expression (os.wallClock w) with
    | none => exact ih
    | some bucket =>
      simp only
      split_ifs
      · exact ih
      · rfl

theorem of_calendarFire {expression : Str} {bucket : Nat} (h : Prompt t)
    (hfire : calendarFire os w t expressions = some (expression, bucket)) :
    expression ∈ expressions ∧ os.calendarMatch expression (os.wallClock w) = some bucket ∧
      t.calendarFires.get expression ≠ some bucket := by
  induction expressions with
  | nil => cases hfire
  | cons first expressions ih =>
    rw [calendarFire_cons h] at hfire
    cases hmatch : os.calendarMatch first (os.wallClock w) with
    | none =>
      rw [hmatch] at hfire
      exact (ih hfire).imp_left (List.mem_cons_of_mem first)
    | some found =>
      rw [hmatch] at hfire
      simp only at hfire
      split_ifs at hfire with hget
      · exact (ih hfire).imp_left (List.mem_cons_of_mem first)
      · cases hfire
        exact ⟨List.mem_cons_self, hmatch, hget⟩

theorem of_calendarFire_none (h : Prompt t) (hfire : calendarFire os w t expressions = none)
    {expression : Str} (hmem : expression ∈ expressions) {bucket : Nat}
    (hmatch : os.calendarMatch expression (os.wallClock w) = some bucket) :
    t.calendarFires.get expression = some bucket := by
  induction expressions with
  | nil => cases hmem
  | cons first expressions ih =>
    rw [calendarFire_cons h] at hfire
    obtain rfl | hmem := List.mem_cons.mp hmem
    · rw [hmatch] at hfire
      simp only at hfire
      split_ifs at hfire with hget
      exact hget
    · refine ih ?_ hmem
      cases hmatch' : os.calendarMatch first (os.wallClock w) with
      | none => rwa [hmatch'] at hfire
      | some found =>
        rw [hmatch'] at hfire
        simp only at hfire
        split_ifs at hfire with hget
        exact hfire

variable {onBoot onUnitActive onUnitInactive : Option Duration} {onCalendar : List Str}

theorem timerDue_eq :
    timerDue os w t now onBoot onUnitActive onUnitInactive onCalendar =
      if (timerDue os w t now onBoot onUnitActive onUnitInactive []).1 then
        timerDue os w t now onBoot onUnitActive onUnitInactive []
      else calendarDue os w t onCalendar := by
  unfold timerDue
  simp only
  split_ifs <;> simp_all [calendarDue]

/-- What fires without a calendar leaves alone what the calendar remembers. -/
theorem timerDue_keeps {t' : TriggerState}
    (h : (timerDue os w t now onBoot onUnitActive onUnitInactive []).2 = t') :
    t'.calendarFires = t.calendarFires ∧ (Prompt t → Prompt t') := by
  unfold timerDue at h
  simp only [calendarDue] at h
  split_ifs at h <;> subst h <;> exact ⟨rfl, id⟩

variable {m : ManagedService} {target : Str} {persistent : Bool} {delay accuracy : Option Duration}

theorem pollTrigger_timer (hactive : m.record.state = .active)
    (htimer : m.spec.trigger =
      some (.timer target onBoot onUnitActive onUnitInactive onCalendar persistent delay accuracy)) :
    pollTrigger os m w now =
      let (fires, trigger) :=
        timerDue os w m.trigger now onBoot onUnitActive onUnitInactive onCalendar
      (if fires then some target else none, { m with
        trigger := if fires then { trigger with lastFire := some now } else trigger }) := by
  let r := timerDue os w m.trigger now onBoot onUnitActive onUnitInactive onCalendar
  let m' := { m with trigger := if r.1 then { r.2 with lastFire := some now } else r.2 }
  have hstate : ¬ m.record.state ≠ .active := not_not.mpr hactive
  have hrun : ∃ w', triggerDue os now (m, w) = .ok (if r.1 then some target else none) (m', w') := by
    rw [triggerDue, bind_of_ok (show service (m, w) = .ok m (m, w) from rfl), if_neg hstate, htimer]
    simp only
    rw [bind_of_ok (show look _ (m, w) = .ok r (m, w) from rfl),
      bind_of_ok (show update _ (m, w) = .ok () (m', w) from rfl)]
    by_cases hrecord : r.1 = true ∧ persistent = true
    · rw [if_pos hrecord]
      exact ⟨_, rfl⟩
    · rw [if_neg hrecord]
      exact ⟨_, rfl⟩
  obtain ⟨w', hrun⟩ := hrun
  rw [pollTrigger, hrun]

theorem calendarMatch_second {expression : Str} {seconds bucket : Nat}
    (h : calendarMatch expression seconds = some bucket) : bucket = seconds := by
  simp only [calendarMatch] at h
  split at h
  next => exact (Option.some.inj (Option.ite_none_right_eq_some.mp h).2).symm
  next =>
    split at h
    next => cases h
    next => exact (Option.some.inj (Option.ite_none_right_eq_some.mp h).2).symm

theorem poll_calendar (os : Os ω) (w : ω) (now : Instant) (hactive : m.record.state = .active)
    (htimer : m.spec.trigger =
      some (.timer target onBoot onUnitActive onUnitInactive onCalendar persistent delay accuracy))
    (hprompt : Prompt m.trigger) :
    (pollTrigger os m w now).2.record = m.record ∧ Prompt (pollTrigger os m w now).2.trigger ∧
      match fired os m w now with
      | some (expression, bucket) =>
        (pollTrigger os m w now).1 = some target ∧
          (pollTrigger os m w now).2.trigger.calendarFires =
            m.trigger.calendarFires.insert expression bucket ∧
          expression ∈ onCalendar ∧ os.calendarMatch expression (os.wallClock w) = some bucket ∧
          m.trigger.calendarFires.get expression ≠ some bucket
      | none =>
        (pollTrigger os m w now).2.trigger.calendarFires = m.trigger.calendarFires ∧
          ((pollTrigger os m w now).1 = some target ∨ ∀ expression ∈ onCalendar, ∀ bucket,
            os.calendarMatch expression (os.wallClock w) = some bucket →
              m.trigger.calendarFires.get expression = some bucket) := by
  rw [pollTrigger_timer hactive htimer, timerDue_eq]
  have hfired : fired os m w now =
      if (timerDue os w m.trigger now onBoot onUnitActive onUnitInactive []).1 then none
      else calendarFire os w m.trigger onCalendar := by
    simp only [fired, htimer, hactive, ne_eq, not_true_eq_false, false_or]
  rw [hfired]
  by_cases hother : (timerDue os w m.trigger now onBoot onUnitActive onUnitInactive []).1 = true
  · obtain ⟨hfires, hkeeps⟩ := timerDue_keeps
      (rfl : (timerDue os w m.trigger now onBoot onUnitActive onUnitInactive []).2 = _)
    simp only [hother, if_true]
    exact ⟨trivial, hkeeps hprompt, hfires, Or.inl trivial⟩
  · simp only [hother, calendarDue_prompt hprompt]
    cases hfire : calendarFire os w m.trigger onCalendar with
    | none =>
      refine ⟨trivial, hprompt, rfl, Or.inr fun expression hmem bucket hmatch => ?_⟩
      exact of_calendarFire_none hprompt hfire hmem hmatch
    | some found =>
      obtain ⟨expression, bucket⟩ := found
      exact ⟨trivial, hprompt, rfl, rfl, of_calendarFire hprompt hfire⟩

variable {past : List Observation}

/-- The last second in which an expression has fired is remembered. -/
structure Remembers (m : ManagedService) (target : Str) (past : List Observation) : Prop where
  later : ∀ o ∈ past, ∀ expression bucket, o.fired = some (expression, bucket) →
    ∃ last, bucket ≤ last ∧ m.trigger.calendarFires.get expression = some last
  seen : ∀ expression bucket, m.trigger.calendarFires.get expression = some bucket →
    ∃ o ∈ past, o.second = bucket ∧ o.target = some target

/-- A timer fires for seconds that its expressions match, for each of them once, and in each that
one of them matches. -/
structure Once (target : Str) (onCalendar : List Str) (seen : List Observation) : Prop where
  matching : ∀ o ∈ seen, ∀ expression bucket, o.fired = some (expression, bucket) →
    expression ∈ onCalendar ∧ bucket = o.second ∧ (calendarMatch expression bucket).isSome
  once : (seen.filterMap (·.fired)).Nodup
  served : ∀ o ∈ seen, (∃ expression ∈ onCalendar, (calendarMatch expression o.second).isSome) →
    ∃ o' ∈ seen, o'.second = o.second ∧ o'.target = some target

theorem once_poll (os : Os ω) (w : ω) (now : Instant) (hactive : m.record.state = .active)
    (htimer : m.spec.trigger =
      some (.timer target onBoot onUnitActive onUnitInactive onCalendar persistent delay accuracy))
    (hprompt : Prompt m.trigger) (hremembers : Remembers m target past)
    (honce : Once target onCalendar past) (hclock : ∀ o ∈ past, o.second ≤ second os w) :
    let next := pollTrigger (withCalendar os) m w now
    let seen := past ++ [⟨second os w, next.1, fired (withCalendar os) m w now⟩]
    Remembers next.2 target seen ∧ Once target onCalendar seen := by
  obtain ⟨-, -, hpoll⟩ := poll_calendar (withCalendar os) w now hactive htimer hprompt
  intro next seen
  have hold : ∀ o ∈ past, o ∈ seen := fun o ho => List.mem_append_left _ ho
  have hnew : ⟨second os w, next.1, fired (withCalendar os) m w now⟩ ∈ seen :=
    List.mem_append_right _ (List.mem_singleton_self _)
  have hcases {p : Observation → Prop} (hpast : ∀ o ∈ past, p o)
      (hlast : p ⟨second os w, next.1, fired (withCalendar os) m w now⟩) : ∀ o ∈ seen, p o := by
    intro o ho
    obtain ho | ho := List.mem_append.mp ho
    · exact hpast o ho
    · exact List.mem_singleton.mp ho ▸ hlast
  have hserved (o : Observation) (ho : o ∈ past)
      (hmatch : ∃ expression ∈ onCalendar, (calendarMatch expression o.second).isSome) :
      ∃ o' ∈ seen, o'.second = o.second ∧ o'.target = some target := by
    obtain ⟨o', ho', h⟩ := honce.served o ho hmatch
    exact ⟨o', hold o' ho', h⟩
  cases hfired : fired (withCalendar os) m w now with
  | none =>
    simp only [hfired] at hpoll hcases hnew
    obtain ⟨hfires, hreturns⟩ := hpoll
    refine ⟨⟨hcases (fun o ho expression bucket h => ?_) (by simp), fun expression bucket h => ?_⟩,
      ⟨hcases honce.matching (by simp), ?_, hcases hserved ?_⟩⟩
    · rw [hfires]
      exact hremembers.later o ho expression bucket h
    · rw [hfires] at h
      obtain ⟨o, ho, h⟩ := hremembers.seen expression bucket h
      exact ⟨o, hold o ho, h⟩
    · simpa [seen, hfired] using honce.once
    · rintro ⟨expression, hmem, hmatch⟩
      obtain hreturns | hremembered := hreturns
      · exact ⟨_, hnew, rfl, hreturns⟩
      · obtain ⟨bucket, hbucket⟩ := Option.isSome_iff_exists.mp hmatch
        obtain rfl := calendarMatch_second hbucket
        obtain ⟨o, ho, h⟩ := hremembers.seen expression _ (hremembered expression hmem _ hbucket)
        exact ⟨o, hold o ho, h⟩
  | some found =>
    obtain ⟨expression, bucket⟩ := found
    simp only [hfired] at hpoll hcases hnew
    obtain ⟨hreturns, hfires, hmem, hmatch, hfresh⟩ := hpoll
    obtain rfl : bucket = second os w := calendarMatch_second hmatch
    have hlast : ∀ last, m.trigger.calendarFires.get expression = some last →
        last < second os w := by
      intro last h
      obtain ⟨o, ho, rfl, -⟩ := hremembers.seen expression last h
      exact lt_of_le_of_ne (hclock o ho) fun heq => hfresh (heq ▸ h)
    refine ⟨⟨hcases (fun o ho e b h => ?_) ?_, fun e b h => ?_⟩, ⟨hcases honce.matching ?_, ?_,
      hcases hserved fun _ => ⟨_, hnew, rfl, hreturns⟩⟩⟩
    · obtain ⟨last, hle, hget⟩ := hremembers.later o ho e b h
      rw [hfires, get_insert]
      split_ifs with heq
      · subst heq
        exact ⟨_, hle.trans (hlast last hget).le, rfl⟩
      · exact ⟨last, hle, hget⟩
    · rintro e b heq
      cases heq
      exact ⟨_, le_rfl, by rw [hfires, get_insert_self]⟩
    · rw [hfires, get_insert] at h
      split_ifs at h with heq
      · cases h
        exact ⟨_, hnew, rfl, hreturns⟩
      · obtain ⟨o, ho, h⟩ := hremembers.seen e b h
        exact ⟨o, hold o ho, h⟩
    · rintro e b heq
      cases heq
      exact ⟨hmem, rfl, Option.isSome_iff_exists.mpr ⟨_, hmatch⟩⟩
    · have hnot : (expression, second os w) ∉ past.filterMap (·.fired) := by
        intro hin
        obtain ⟨o, ho, h⟩ := List.mem_filterMap.mp hin
        obtain ⟨last, hle, hget⟩ := hremembers.later o ho expression _ h
        exact absurd hle (Nat.not_le.mpr (hlast last hget))
      have hseen : seen.filterMap (·.fired) =
          past.filterMap (·.fired) ++ [(expression, second os w)] := by
        simp [seen, hfired]
      rw [hseen, List.nodup_append_comm]
      exact List.nodup_cons.mpr ⟨hnot, honce.once⟩

theorem once_observe (hactive : m.record.state = .active)
    (htimer : m.spec.trigger =
      some (.timer target onBoot onUnitActive onUnitInactive onCalendar persistent delay accuracy))
    (hprompt : Prompt m.trigger) (hremembers : Remembers m target past)
    (honce : Once target onCalendar past) {polls : List (ω × Instant)}
    (hpast : ∀ o ∈ past, ∀ poll ∈ polls, o.second ≤ second os poll.1)
    (hclock : polls.Pairwise fun p q => os.wallClock p.1 ≤ os.wallClock q.1) :
    Once target onCalendar (past ++ observe (withCalendar os) m polls) := by
  induction polls generalizing m past with
  | nil => simpa [observe] using honce
  | cons poll polls ih =>
    obtain ⟨w, now⟩ := poll
    obtain ⟨hfirst, hclock⟩ := List.pairwise_cons.mp hclock
    obtain ⟨hrecord, hprompt', -⟩ := poll_calendar (withCalendar os) w now hactive htimer hprompt
    obtain ⟨hremembers', honce'⟩ := once_poll os w now hactive htimer hprompt hremembers honce fun o ho => hpast o ho (w, now) List.mem_cons_self
    have hactive' : (pollTrigger (withCalendar os) m w now).2.record.state = .active := by
      rw [hrecord, hactive]
    have htimer' := htimer
    rw [ManagedService.spec, ← hrecord] at htimer'
    have hrest := ih hactive' htimer' hprompt' hremembers' honce' (fun o ho p hp => ?_) hclock
    · rw [List.append_assoc] at hrest
      exact hrest
    · obtain ho | ho := List.mem_append.mp ho
      · exact hpast o ho p (List.mem_cons_of_mem _ hp)
      · obtain rfl := List.mem_singleton.mp ho
        exact Nat.div_le_div_right (hfirst p hp)

/-- A timer without delays fires once for each second that an expression of it matches, if it is
polled in it. -/
theorem calendar_fires_once (os : Os ω) (hactive : m.record.state = .active)
    (htimer : m.spec.trigger =
      some (.timer target onBoot onUnitActive onUnitInactive onCalendar persistent delay accuracy))
    (hfresh : Fresh m.trigger) {polls : List (ω × Instant)}
    (hclock : polls.Pairwise fun p q => os.wallClock p.1 ≤ os.wallClock q.1) :
    Once target onCalendar (observe (withCalendar os) m polls) := by
  have hremembers : Remembers m target [] := ⟨by simp, by simp [hfresh.fires]⟩
  exact once_observe hactive htimer hfresh.prompt hremembers ⟨by simp, by simp, by simp⟩
    (by simp) hclock

end

def minutely : ManagedService :=
  let spec : ServiceSpec :=
    { plainService "minutely.timer".toList with
      trigger := some (.timer "job".toList none none none ["minutely".toList] false none none) }
  .ofRecord { fresh spec with state := .active }

def pollsAt (times : List Nat) : List (Box × Instant) :=
  times.map fun time => (⟨milliseconds time, 0, false, []⟩, milliseconds time)

theorem minutely_fires_once : Once "job".toList ["minutely".toList]
    (observe (withCalendar boxOs) minutely (pollsAt [59500, 60200, 60700, 61000])) :=
  calendar_fires_once boxOs rfl rfl ⟨rfl, rfl, rfl, rfl⟩ (by decide)

example : (observe (withCalendar boxOs) minutely
    (pollsAt [59500, 60200, 60700, 61000])).filterMap (·.fired) = [("minutely".toList, 60)] := by
  decide

end FractalD.Supervisor.CalendarFires
