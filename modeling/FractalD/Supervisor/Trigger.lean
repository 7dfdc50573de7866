import FractalD.Supervisor.System

namespace FractalD.Supervisor.Trigger

open FractalD.Core.Spec FractalD.Machine.CString FractalD.Machine.OrderedMap
open FractalD.Supervisor.System

/-- What a timer or a path unit remembers while it is active. -/
structure TriggerState where
  started : Option Instant
  lastFire : Option Instant
  bootFired : Bool
  persistentPending : Bool
  randomDelay : Duration
  accuracyDelay : Duration
  calendarFires : BTreeMap Str Nat
  calendarPending : BTreeMap Str (Nat × Nat)
  pathObservations : List PathObservation
  pathInitialCheck : Bool

def TriggerState.reset : TriggerState :=
  ⟨none, none, false, false, 0, 0, empty, empty, [], true⟩

section

variable {ω : Type} (os : Os ω) (w : ω) (spec : ServiceSpec)

def activate (now : Instant) : TriggerState :=
  match spec.trigger with
  | some (.timer _ _ _ _ _ persistent randomizedDelay accuracy) =>
    { TriggerState.reset with
      started := some now
      persistentPending := persistent && os.timerHasMissedSchedule w spec
      randomDelay := (randomizedDelay.map (os.timerRandomDelay w spec)).getD 0
      accuracyDelay := (accuracy.map (os.timerRandomDelay w spec)).getD 0 }
  | some (.path _ watches) =>
    { TriggerState.reset with
      started := some now
      pathObservations := watches.map (os.observePathWatch w spec) }
  | none => { TriggerState.reset with started := some now }

def TriggerState.scheduleDelay (t : TriggerState) : Duration :=
  saturatingAdd t.randomDelay t.accuracyDelay

/-- Whether one of the expressions of a timer is due, each of them once a second. -/
def calendarDue (t : TriggerState) : List Str → Bool × TriggerState
  | [] => (false, t)
  | expression :: expressions =>
    let clock := os.wallClock w
    match t.calendarPending.get expression with
    | some (bucket, dueAt) =>
      if dueAt ≤ clock then
        (true, { t with
          calendarPending := t.calendarPending.erase expression
          calendarFires := t.calendarFires.insert expression bucket })
      else calendarDue t expressions
    | none =>
      match os.calendarMatch expression clock with
      | none => calendarDue t expressions
      | some bucket =>
        if t.calendarFires.get expression = some bucket then calendarDue t expressions
        else if t.randomDelay ≠ 0 then
          let dueAt := (checkedAdd clock t.scheduleDelay).getD clock
          calendarDue
            { t with calendarPending := t.calendarPending.insert expression (bucket, dueAt) }
            expressions
        else (true, { t with calendarFires := t.calendarFires.insert expression bucket })

def timerDue (t : TriggerState) (now : Instant) (onBoot onUnitActive onUnitInactive :
    Option Duration) (onCalendar : List Str) : Bool × TriggerState :=
  let started := t.started.getD now
  let reference := t.lastFire.getD started
  if t.persistentPending ∧ t.scheduleDelay ≤ now - started then
    (true, { t with persistentPending := false })
  else if !t.bootFired &&
      onBoot.any fun delay => saturatingAdd delay t.scheduleDelay ≤ now - started then
    (true, { t with bootFired := true })
  else if (onUnitActive.toList ++ onUnitInactive.toList).any fun delay =>
      saturatingAdd delay t.scheduleDelay ≤ now - reference then
    (true, t)
  else calendarDue os w t onCalendar

/-- Whether a watch fires on what is seen now. -/
def watchDue (initial : Bool) (watch : PathWatch) (current : PathObservation)
    (previous : Option PathObservation) : Bool :=
  if initial then
    match watch with
    | .exists _ | .existsGlob _ => current.present
    | .directoryNotEmpty _ => current.directoryNonempty
    | .changed _ | .modified _ => false
  else
    match previous with
    | none => true
    | some previous =>
      match watch with
      | .exists _ | .existsGlob _ => current.present && !previous.present
      | .directoryNotEmpty _ => current.directoryNonempty && !previous.directoryNonempty
      | .changed _ | .modified _ => current ≠ previous

/-- Whether a path unit fires. -/
def pathDue (t : TriggerState) (watches : List PathWatch) : Bool × TriggerState :=
  let current := watches.map (os.observePathWatch w spec)
  let fires := ((watches.zip current).zipIdx).any fun ((watch, seen), i) =>
    watchDue t.pathInitialCheck watch seen t.pathObservations[i]?
  (fires, { t with pathInitialCheck := false, pathObservations := current })

end

end FractalD.Supervisor.Trigger
