import FractalD.Supervisor.Parts
import FractalD.Supervisor.Recording
import FractalD.Supervisor.SettingsPoll
import FractalD.Supervisor.Teardown

namespace FractalD.Supervisor.StopSignals

open FractalD.Core.Record FractalD.Core.Restarts FractalD.Core.Spec FractalD.Machine.CString
open FractalD.Machine.Effect FractalD.Manager.Survival FractalD.Supervisor.Execution
open FractalD.Supervisor.Frame FractalD.Supervisor.Lifetime
open FractalD.Supervisor.Parts FractalD.Supervisor.Recording FractalD.Supervisor.Service
open FractalD.Supervisor.ServicePoll FractalD.Supervisor.Settings
open FractalD.Supervisor.SettingsPoll FractalD.Supervisor.StartFailure
open FractalD.Supervisor.Stopping FractalD.Supervisor.System FractalD.Supervisor.Teardown

section

variable {ω : Type} {os : Os ω} {notes : List Note} {signal : Int} {m : ManagedService}
  {w : Recorded ω}

def Delivered (ω : Type) (notes : List Note) (signal : Int) (s : ManagedService × Recorded ω) :
    Prop :=
  notes ++ [.signal signal] <+: s.2.2

theorem delivered_insensitive : Insensitive (recording os) (Delivered ω notes signal) where
  core _ _ h := h
  world hd h := h.trans (drifts_kept hd)
  startHelper h := h
  execConditionHelper h := h
  listeners h := h
  activation h := h

theorem delivered_noted {α : Type} (c : Call ω α) (m : ManagedService) (w : Recorded ω) :
    Delivered ω w.2 signal (m, (noted (fun _ => .signal signal) c w).2) := List.prefix_refl _

theorem sendProcessSignal_delivers (pid : Nat) :
    Ends (fun _ => Delivered ω w.2 signal) (fun _ => Delivered ω w.2 signal)
      (sendProcessSignal (recording os) pid signal (m, w)) := by
  have hdeaf : Deaf (recording os) (Delivered ω w.2 signal) := delivered_insensitive.deaf
  apply ends_bind (p := fun _ => Delivered ω w.2 signal)
  · exact delivered_noted _ m w
  · intro r s hs
    refine answered_preserves hdeaf signal "process" "pidfd" (fun e => ?_) r s hs
    exact preserves_bind preserves_service fun s => preserves_throw _

theorem sendGroupSignal_delivers (pid : Nat) :
    Ends (fun _ => Delivered ω w.2 signal) (fun _ => Delivered ω w.2 signal)
      (sendGroupSignal (recording os) pid signal (m, w)) := by
  have hdeaf : Deaf (recording os) (Delivered ω w.2 signal) := delivered_insensitive.deaf
  rw [sendGroupSignal, service_bind]
  apply ends_bind (p := fun _ => Delivered ω w.2 signal)
  · exact delivered_noted _ m w
  · intro r s hs
    exact answered_preserves hdeaf signal "group" "process" (ungrouped_preserves hdeaf signal) r s hs

theorem sendSignalRaw_delivers {pid : Nat} (hp : m.record.pid = some pid)
    (hmode : m.spec.killMode ≠ .none) :
    Ends (fun _ => Delivered ω w.2 signal) (fun _ => Delivered ω w.2 signal)
      (sendSignalRaw (recording os) pid signal (m, w)) := by
  rw [sendSignalRaw, service_bind]
  simp only [hp, ne_eq, not_true_eq_false, if_false]
  cases hk : m.spec.killMode with
  | none => exact absurd hk hmode
  | process => exact sendProcessSignal_delivers pid
  | controlGroup => exact sendGroupSignal_delivers pid
  | mixed =>
    change Ends _ _ ((if signal ≠ sigKill then sendProcessSignal (recording os) pid signal
      else sendGroupSignal (recording os) pid signal) (m, w))
    split
    · exact sendProcessSignal_delivers pid
    · exact sendGroupSignal_delivers pid

/-- A remembered signal is none other than the one that the service is to be stopped with. -/
def plain (spec : ServiceSpec) : Memory spec where
  holds remembered := remembered.getD spec.killSignal = spec.killSignal
  dropped := rfl
  plain := rfl

theorem sendSignal_delivers {pid : Nat} (hp : m.record.pid = some pid)
    (hmode : m.spec.killMode ≠ .none)
    (hsignal : m.stopSignal.getD m.spec.killSignal = m.spec.killSignal) :
    Ends (fun _ => Delivered ω w.2 signal) (fun _ => Delivered ω w.2 signal)
      (sendSignal (recording os) pid signal (m, w)) := by
  have hdeaf : Deaf (recording os) (Delivered ω w.2 signal) := delivered_insensitive.deaf
  have heffective : (if m.record.state = .stopping ∧ signal = m.spec.killSignal then
      m.stopSignal.getD signal else signal) = signal := by
    split
    next h => rw [h.2, hsignal]
    next => rfl
  rw [sendSignal, service_bind]
  simp only [heffective]
  apply ends_bind (sendSignalRaw_delivers hp hmode)
  intro _ s hs
  refine preserves_ite (fun _ => ?_) (fun _ => preserves_pure ()) s hs
  refine preserves_bind (preserves_update fun _ _ => hdeaf.sent) fun _ =>
    preserves_ite (fun _ => ?_) fun _ => preserves_pure ()
  exact sendSignalRaw_preserves hdeaf pid sigHup

end

/-- An event that the record answers with a signal to its process. -/
def Fells (r : ServiceRecord) (event : Event) (signal : Int) : Prop :=
  ∃ r' pid, r.transition event = .ok (r', [.sendSignal pid signal]) ∧ r'.pid = some pid ∧
    r'.spec = r.spec

section

variable {r : ServiceRecord} {pid : Nat} (hp : r.pid = some pid)

include hp

theorem fells_stopTimedOut (hs : r.state = .stopping) :
    Fells r (.stopTimedOut r.generation) sigKill :=
  ⟨r, pid, by simp [ServiceRecord.transition, ServiceRecord.stopTimedOut, ServiceRecord.during,
    ServiceRecord.checkGeneration, hs, hp]; rfl, hp, rfl⟩

theorem fells_startTimedOut (hs : r.state = .starting) :
    Fells r (.startTimedOut r.generation) r.spec.killSignal :=
  ⟨{ r with state := .stopping, startFailed := true }, pid, by
    simp [ServiceRecord.transition, ServiceRecord.startTimedOut, ServiceRecord.during,
      ServiceRecord.checkGeneration, hs, hp]; rfl, hp, rfl⟩

theorem fells_runtimeTimedOut (hs : r.state = .running) :
    Fells r (.runtimeTimedOut r.generation) r.spec.killSignal :=
  ⟨{ r with state := .stopping, runtimeFailed := true }, pid, by
    simp [ServiceRecord.transition, ServiceRecord.runtimeTimedOut, ServiceRecord.during,
      ServiceRecord.checkGeneration, hs, hp]; rfl, hp, rfl⟩

theorem fells_startFailed (hs : r.state = .running) :
    Fells r (.startFailed r.generation) r.spec.killSignal :=
  ⟨{ r with state := .stopping, startFailed := true }, pid, by
    simp [ServiceRecord.transition, ServiceRecord.failStart, ServiceRecord.during,
      ServiceRecord.checkGeneration, hs, hp]; rfl, hp, rfl⟩

theorem fells_stopRequested (hs : r.state = .starting ∨ r.state = .running)
    (hstop : r.spec.stop = none) : Fells r .stopRequested r.spec.killSignal :=
  ⟨{ r with state := .stopping, startFailed := false, runtimeFailed := false }, pid, by
    rcases hs with hs | hs <;>
      simp [ServiceRecord.transition, ServiceRecord.stop, hs, hp, hstop] <;> rfl, hp, rfl⟩

end

section

variable {ω : Type} {os : Os ω} {notes : List Note} {signal : Int} {m : ManagedService}
  {w : Recorded ω}

/-- Nothing that is noted happens. -/
def Unnoted {α : Type} (x : Op (Recorded ω) α) : Prop :=
  ∀ notes, Preserves (fun s => s.2.2 = notes) x

theorem killDbusProbe_unnoted : Unnoted (killDbusProbe (recording os)) :=
  fun _ => preserves_bind preserves_service fun _ =>
    preserves_bind (preserves_optionForM (fun _ => preserves_call fun _ _ h => h) _) fun _ =>
      preserves_update fun _ _ h => h

theorem closeListeners_unnoted (remove : Bool) : Unnoted (closeListeners (recording os) remove) :=
  fun _ => preserves_bind preserves_service fun _ =>
    preserves_bind (preserves_forM (fun _ => preserves_call fun _ _ h => h) _) fun _ =>
      preserves_update fun _ _ h => h

theorem clearActivationFds_unnoted : Unnoted (clearActivationFds (recording os)) :=
  fun _ => preserves_bind preserves_service fun _ =>
    preserves_bind (preserves_forM (fun _ => preserves_call fun _ _ h => h) _) fun _ =>
      preserves_update fun _ _ h => h

theorem silent_of_updates {f : ManagedService → ManagedService} {x : Op (Recorded ω) Unit}
    (hu : Updates f x) (hn : Unnoted x) (m : ManagedService) (w : Recorded ω) :
    ∃ w', x (m, w) = .ok () (f m, w') ∧ w'.2 = w.2 := by
  obtain ⟨w', hx⟩ := hu m w
  have hnotes := hn w.2 (m, w) rfl
  rw [hx] at hnotes
  exact ⟨w', hx, hnotes⟩

section

variable {describe : Str} (event : ServiceRecord → Event)
variable (hfells : Fells m.record (event m.record) signal) (hmode : m.spec.killMode ≠ .none)
variable (hsignal : m.stopSignal.getD m.spec.killSignal = m.spec.killSignal)

include hfells hmode hsignal

theorem felled_delivers :
    Ends (fun _ => Delivered ω w.2 signal) (fun _ => Delivered ω w.2 signal)
      ((do applyActions (recording os) (← transition describe event)) (m, w)) := by
  obtain ⟨r', pid, hr, hp, hspec⟩ := hfells
  have hspec : r'.spec = m.spec := hspec
  rw [bind_of_ok (transition_ok (s := (m, w)) (x := (r', [.sendSignal pid signal])) hr)]
  apply ends_bind (p := fun _ => Delivered ω w.2 signal)
  · apply sendSignal_delivers (m := { m with record := r' }) hp
    · change r'.spec.killMode ≠ .none
      rwa [hspec]
    · change m.stopSignal.getD r'.spec.killSignal = r'.spec.killSignal
      rwa [hspec]
  · exact fun _ _ h => h

theorem felled_then_delivers {f : Unit → Op (Recorded ω) Unit}
    (hf : ∀ u, Preserves (Delivered ω w.2 signal) (f u)) :
    Ends (fun _ => Delivered ω w.2 signal) (fun _ => Delivered ω w.2 signal)
      ((do
        let actions ← transition describe event
        applyActions (recording os) actions >>= f) (m, w)) := by
  rw [← bind_assoc]
  exact ends_bind (felled_delivers event hfells hmode hsignal) fun u s hs => hf u s hs

end

/-- Once the signal has been sent, the rest of a stop does not undo that. -/
theorem afterAsking_delivered (now : Instant) (asked : Int) (before : ManagedService) :
    Preserves (Delivered ω notes signal) (do
      stopListening (recording os) before.spec
      stopBare (recording os)
      stopActive (recording os) now before.record.state
      stopResources (recording os)
      stopMain (recording os) asked
      limitStop now) := by
  have hframe : Insensitive (recording os) (Delivered ω notes signal) := delivered_insensitive
  have hscript (script : Script) (describe : Str) : Preserves (Delivered ω notes signal)
      (required describe ((recording os).spawnScript script)) :=
    preserves_required (fun _ _ h => h.trans (List.prefix_append _ _)) describe
  refine preserves_bind ?_ fun _ => preserves_bind ?_ fun _ => preserves_bind ?_ fun _ =>
    preserves_bind ?_ fun _ => preserves_bind ?_ fun _ => preserves_update fun _ _ h => h
  · exact preserves_ite (fun _ => preserves_bind (closeListeners_preserves hframe _) fun _ =>
      clearActivationFds_preserves hframe) fun _ => preserves_pure ()
  · refine preserves_bind preserves_service fun _ => preserves_ite (fun _ => ?_) fun _ =>
      preserves_pure ()
    refine preserves_bind (killExecConditionHelper_preserves hframe) fun _ => ?_
    refine preserves_bind (killStartHelper_preserves hframe) fun _ => ?_
    refine preserves_bind (killStartPostHelper_preserves hframe) fun _ => ?_
    refine preserves_bind (preserves_update fun _ _ h => h) fun _ => ?_
    exact preserves_bind (preserves_transition fun _ _ _ _ h _ => h) fun _ => preserves_pure ()
  · refine preserves_bind preserves_service fun s => preserves_ite (fun _ => ?_) fun _ =>
      preserves_pure ()
    refine preserves_ite (fun _ => ?_) fun _ => ?_
    · refine preserves_bind (preserves_bind preserves_service fun s => ?_) fun _ =>
        preserves_update fun _ _ h => h
      cases s.spec.stop with
      | none => exact preserves_throw _
      | some command => exact preserves_bind (hscript _ _) fun _ => preserves_update fun _ _ h => h
    · refine preserves_bind preserves_service fun s => preserves_ite (fun _ => preserves_pure ())
        fun _ => ?_
      refine preserves_bind (killStopPostHelper_preserves hframe fun _ _ h => h) fun _ => ?_
      refine preserves_bind
        (preserves_call fun _ _ h => h.trans (List.prefix_append _ _)) fun r => ?_
      cases r with
      | ok helper => exact preserves_update fun _ _ h => h
      | error e => exact preserves_pure ()
  · refine preserves_bind preserves_service fun s => preserves_ite (fun _ => ?_) fun _ =>
      preserves_pure ()
    refine preserves_bind (resetTriggerState_preserves hframe) fun _ => preserves_ite (fun _ => ?_)
      fun _ => preserves_pure ()
    refine preserves_bind preserves_service fun s => ?_
    refine preserves_bind (preserves_forM (fun _ => preserves_call fun _ _ h => h) _) fun _ => ?_
    refine preserves_bind (preserves_optionForM (fun _ => preserves_call fun _ _ h => h) _)
      fun _ => ?_
    refine preserves_bind (preserves_optionForM (fun paths => ?_) _) fun _ =>
      preserves_update fun _ _ h => h
    exact preserves_bind (preserves_call fun _ _ h => h) fun _ => preserves_call fun _ _ h => h
  · refine preserves_bind preserves_service fun s => ?_
    cases s.record.pid with
    | none => exact preserves_pure ()
    | some pid =>
      refine preserves_ite (fun _ => ?_) fun _ => preserves_pure ()
      exact preserves_tryCatch (spawnStopCommand_preserves hframe pid) fun _ =>
        preserves_bind preserves_service fun _ => sendSignal_preserves hframe.deaf pid _

/-- No command can be run. -/
def Refuses (os : Os ω) : Prop := ∀ script w, ∃ e, (os.spawnCommand script w).1 = .error e

/-- A service that is about to be signalled because its stop command cannot be run. -/
structure Poised (ω : Type) (spec : ServiceSpec) (notes : List Note) (pid : Nat)
    (s : ManagedService × Recorded ω) : Prop where
  settings : s.1.spec = spec
  process : s.1.record.pid = some pid
  stopping : s.1.record.state = .stopping
  remembered : s.1.stopSignal.getD spec.killSignal = spec.killSignal
  quiet : s.2.2 = notes

theorem askToStop_poised {pid : Nat} (hs : m.record.state ∈ [.starting, .running, .stopping])
    (hstop : m.spec.stop.isSome) (hp : m.record.pid = some pid)
    (hsignal : m.stopSignal.getD m.spec.killSignal = m.spec.killSignal) :
    Ends (fun _ => Poised ω m.spec w.2 pid) (fun _ _ => False)
      (askToStop (recording os) m.spec.killSignal (m, w)) := by
  have hmem : m.record.state = .starting ∨ m.record.state = .running ∨
      m.record.state = .stopping := by simpa using hs
  have hnone (n : ManagedService) (r' : ServiceRecord)
      (hr : n.record.transition .stopRequested = .ok (r', []))
      (hn : Poised ω m.spec w.2 pid ({ n with record := r' }, w)) :
      Ends (fun _ => Poised ω m.spec w.2 pid) (fun _ _ => False)
        ((do applyActions (recording os) (← transition "cannot stop ".toList fun _ => .stopRequested))
          (n, w)) := by
    have hasked : transition "cannot stop ".toList (fun _ => .stopRequested) (n, w) =
        .ok [] ({ n with record := r' }, w) := transition_ok (s := (n, w)) (x := (r', [])) hr
    rw [bind_of_ok hasked]
    exact hn
  rw [askToStop, service_bind, service_bind]
  have hstop : m.record.spec.stop.isSome = true := hstop
  split
  next hrunning =>
    have hrunning : m.record.state = .starting ∨ m.record.state = .running := hrunning
    have hr : m.record.transition .stopRequested = .ok ({ m.record with
        state := .stopping, startFailed := false, runtimeFailed := false }, []) := by
      rcases hrunning with h | h <;>
        simp [ServiceRecord.transition, ServiceRecord.stop, h, hstop] <;> rfl
    rw [update_bind]
    exact hnone _ _ hr ⟨rfl, hp, rfl, rfl, rfl⟩
  next hrunning =>
    have hstopping : m.record.state = .stopping := by
      obtain h | h | h := hmem
      · exact absurd (.inl h) hrunning
      · exact absurd (.inr h) hrunning
      · exact h
    have hr : m.record.transition .stopRequested = .ok (m.record, []) := by
      simp [ServiceRecord.transition, ServiceRecord.stop, hstopping]
      rfl
    exact hnone _ _ hr ⟨rfl, hp, hstopping, hsignal, rfl⟩

theorem stopListening_poised {spec : ServiceSpec} {pid : Nat} (before : ServiceSpec) :
    Leads (Poised ω spec notes pid) (stopListening (recording os) before)
      (fun _ => Poised ω spec notes pid) fun _ => False := by
  rintro ⟨m, w⟩ hs
  rw [stopListening]
  split
  next =>
    obtain ⟨w', hclose, hnotes⟩ := silent_of_updates
      (closeListeners_updates (recording os) before.removeOnStop) (closeListeners_unnoted _) m w
    obtain ⟨w'', hclear, hnotes'⟩ := silent_of_updates
      (clearActivationFds_updates (recording os)) clearActivationFds_unnoted
      { m with listeners := [] } w'
    rw [bind_of_ok hclose, hclear]
    exact ⟨hs.settings, hs.process, hs.stopping, hs.remembered,
      hnotes'.trans (hnotes.trans hs.quiet)⟩
  next => exact hs

/-- The signal is sent in place of a command that cannot be run. -/
theorem stopMain_delivers {spec : ServiceSpec} {pid : Nat} (hrefuses : Refuses os)
    (hmode : spec.killMode ≠ .none) (hstop : spec.stop.isSome) {s : ManagedService × Recorded ω}
    (h : Poised ω spec notes pid s) :
    Ends (fun _ => Delivered ω notes spec.killSignal) (fun _ => Delivered ω notes spec.killSignal)
      (stopMain (recording os) spec.killSignal s) := by
  obtain ⟨m, w⟩ := s
  obtain ⟨hspec, hp, hstate, hsignal, hnotes⟩ := h
  have hspec : m.spec = spec := hspec
  have hp : m.record.pid = some pid := hp
  obtain ⟨command, hcommand⟩ := Option.isSome_iff_exists.mp hstop
  subst hspec
  obtain rfl : w.2 = notes := hnotes
  rw [stopMain, service_bind]
  simp only [hp, hcommand, Option.isSome_some, if_true]
  obtain ⟨e, he⟩ := hrefuses (script m [command] (some pid) "stop".toList) w.1
  have hspawn : spawnStopCommand (recording os) pid (m, w) = .error ([] ++ e)
      (m, (os.spawnCommand (script m [command] (some pid) "stop".toList) w.1).2, w.2) := by
    rw [spawnStopCommand, service_bind]
    simp only [hcommand]
    rw [bind_of_error]
    rw [required, call_bind]
    have hcall : ((recording os).spawnCommand (script m [command] (some pid) "stop".toList)
        (m, w).2).1 = .error e := he
    rw [hcall]
    rfl
  change Ends _ _ (EStateM.tryCatch (spawnStopCommand (recording os) pid) _ (m, w))
  rw [EStateM.tryCatch, hspawn]
  change Ends _ _ (sendSignal (recording os) pid (m.stopSignal.getD m.spec.killSignal) (m, _))
  rw [hsignal]
  exact sendSignal_delivers hp hmode hsignal

theorem stopBare_poised {spec : ServiceSpec} {pid : Nat} :
    Leads (Poised ω spec notes pid) (stopBare (recording os)) (fun _ => Poised ω spec notes pid)
      fun _ => False := by
  rintro ⟨m, w⟩ hs
  have hbare : ¬ (m.record.state = .stopping ∧ m.record.pid.isNone) := by
    rintro ⟨-, hnone⟩
    simp [show m.record.pid = some pid from hs.process] at hnone
  rw [stopBare, service_bind, if_neg hbare]
  exact hs

theorem stopActive_poised {spec : ServiceSpec} {pid : Nat} (now : Instant)
    (state : ServiceState) :
    Leads (Poised ω spec notes pid) (stopActive (recording os) now state)
      (fun _ => Poised ω spec notes pid) fun _ => False := by
  rintro ⟨m, w⟩ hs
  have hstate : m.record.state = .stopping := hs.stopping
  have hother : ¬ (state = .active ∧ m.record.state = .exited) := by simp [hstate]
  rw [stopActive, service_bind, if_neg hother]
  exact hs

theorem stopResources_poised {spec : ServiceSpec} {pid : Nat} :
    Leads (Poised ω spec notes pid) (stopResources (recording os))
      (fun _ => Poised ω spec notes pid) fun _ => False := by
  rintro ⟨m, w⟩ hs
  have hstate : m.record.state = .stopping := hs.stopping
  have hother : ¬ m.record.state = .exited := by simp [hstate]
  rw [stopResources, service_bind, if_neg hother]
  exact hs

/-- What a part of the work on a service first tells its process. -/
def Tells (os : Os ω) (m : ManagedService) (w : Recorded ω) (part : Part) (signal : Int) : Prop :=
  w.2 ++ [.signal signal] <+: (final (act (recording os) part) (m, w)).2.2

section

variable (hmode : m.spec.killMode ≠ .none)
variable (hsignal : m.stopSignal.getD m.spec.killSignal = m.spec.killSignal)
variable (hlive : m.record.pid.isSome)

include hmode hsignal hlive

theorem stopDeadline_tells {now : Instant} (hs : m.record.state = .stopping)
    (hdue : due now m.stopDeadline) : Tells os m w (.stopDeadline now) sigKill := by
  obtain ⟨pid, hp⟩ := Option.isSome_iff_exists.mp hlive
  have hframe : Insensitive (recording os) (Delivered ω w.2 sigKill) := delivered_insensitive
  apply ends_final (i := Delivered ω w.2 sigKill)
  change Ends _ _ (checkStopDeadline (recording os) now (m, w))
  rw [checkStopDeadline, service_bind, if_pos ⟨hs, hdue⟩]
  apply felled_then_delivers (fun r => .stopTimedOut r.generation) (fells_stopTimedOut hp hs)
    hmode hsignal
  intro _
  refine preserves_bind (killStartHelper_preserves hframe) fun _ => ?_
  refine preserves_bind (killExecConditionHelper_preserves hframe) fun _ => ?_
  refine preserves_bind (killStartPostHelper_preserves hframe) fun _ => ?_
  refine preserves_bind (killDbusProbe_preserves hframe) fun _ => ?_
  exact preserves_bind (killStopCommand_preserves hframe) fun _ => preserves_update fun _ _ h => h

theorem runtimeLimit_tells {now : Instant} (hs : m.record.state = .running)
    (hdue : due now m.runtimeDeadline) :
    Tells os m w (.runtimeLimit now) m.spec.killSignal := by
  obtain ⟨pid, hp⟩ := Option.isSome_iff_exists.mp hlive
  apply ends_final (i := Delivered ω w.2 m.spec.killSignal)
  change Ends _ _ (checkRuntimeLimit (recording os) now (m, w))
  rw [checkRuntimeLimit, service_bind, if_pos ⟨hs, hdue⟩, update_bind]
  apply felled_then_delivers (m := { m with runtimeDeadline := none })
    (fun r => .runtimeTimedOut r.generation) (fells_runtimeTimedOut hp hs) hmode hsignal
  exact fun _ => preserves_bind preserves_service fun _ => preserves_ite
    (fun _ => preserves_update fun _ _ h => h) fun _ => preserves_pure ()

theorem startDeadline_tells {now : Instant} (hs : m.record.state = .starting)
    (hdue : due now m.startDeadline) :
    Tells os m w (.startDeadline now) m.spec.killSignal := by
  obtain ⟨pid, hp⟩ := Option.isSome_iff_exists.mp hlive
  have hframe : Insensitive (recording os) (Delivered ω w.2 m.spec.killSignal) :=
    delivered_insensitive
  apply ends_final (i := Delivered ω w.2 m.spec.killSignal)
  change Ends _ _ (checkStartDeadline (recording os) now (m, w))
  rw [checkStartDeadline, service_bind, if_pos ⟨hs, hdue⟩]
  apply felled_then_delivers (fun r => .startTimedOut r.generation) (fells_startTimedOut hp hs)
    hmode hsignal
  intro _
  refine preserves_bind (preserves_update fun _ _ h => h) fun _ => ?_
  refine preserves_bind (killStartHelper_preserves hframe) fun _ => ?_
  refine preserves_bind (killStartPostHelper_preserves hframe) fun _ => ?_
  refine preserves_bind (killDbusProbe_preserves hframe) fun _ => ?_
  exact preserves_bind preserves_service fun _ => preserves_ite
    (fun _ => preserves_update fun _ _ h => h) fun _ => preserves_pure ()

theorem startPostExit_tells {now : Instant} {exit : ExitKind} (hs : m.record.state = .running)
    (hexit : !isSuccess exit) :
    Tells os m w (.startPostExit now exit) m.spec.killSignal := by
  obtain ⟨pid, hp⟩ := Option.isSome_iff_exists.mp hlive
  apply ends_final (i := Delivered ω w.2 m.spec.killSignal)
  change Ends _ _ (handleStartPostExit (recording os) now exit (m, w))
  rw [handleStartPostExit, update_bind, service_bind, if_pos ⟨hexit, hs⟩]
  apply felled_then_delivers (m := { m with startPostHelper := none })
    (fun r => .startFailed r.generation) (fells_startFailed hp hs) hmode hsignal
  exact fun _ => preserves_bind (preserves_update fun _ _ h => h) fun _ =>
    preserves_bind preserves_service fun _ => preserves_ite
      (fun _ => preserves_update fun _ _ h => h) fun _ => preserves_pure ()

theorem stopExit_tells (exit : ExitKind) : Tells os m w (.stopExit exit) m.spec.killSignal := by
  obtain ⟨pid, hp⟩ := Option.isSome_iff_exists.mp hlive
  apply ends_final (i := Delivered ω w.2 m.spec.killSignal)
  change Ends _ _ (handleStopExit (recording os) exit (m, w))
  rw [handleStopExit, update_bind, service_bind]
  simp only [hp]
  change Ends _ _ (sendSignal (recording os) pid (m.stopSignal.getD m.spec.killSignal) _)
  rw [hsignal]
  exact sendSignal_delivers (m := { m with stopCommand := none }) hp hmode hsignal

theorem markJobTimeout_tells {now : Instant}
    (hs : m.record.state = .starting ∨ m.record.state = .running) :
    Tells os m w (.asked (.markJobTimeout now)) m.spec.killSignal := by
  obtain ⟨pid, hp⟩ := Option.isSome_iff_exists.mp hlive
  have hframe : Insensitive (recording os) (Delivered ω w.2 m.spec.killSignal) :=
    delivered_insensitive
  apply ends_final (i := Delivered ω w.2 m.spec.killSignal)
  change Ends _ _ (markJobTimeout (recording os) now (m, w))
  rw [markJobTimeout, update_bind]
  obtain ⟨w', hprobe, hnotes⟩ := silent_of_updates (killDbusProbe_updates (recording os))
    killDbusProbe_unnoted { m with
      wantsRunning := false, restartAfterStop := false, restartAt := none,
      runtimeDeadline := none } w
  rw [bind_of_ok hprobe, service_bind, ← hnotes]
  rw [← hnotes] at hframe
  have hrest : ∀ u : Unit, Preserves (Delivered ω w'.2 m.spec.killSignal) (do
      update ({ · with startDeadline := none })
      killStartHelper (recording os)
      killExecConditionHelper (recording os)
      killStartPostHelper (recording os)
      let s ← service
      if s.record.state = .stopping ∧ s.record.pid.isSome then
        update ({ · with stopDeadline := timeoutDeadline now s.spec.stopTimeout })) := by
    intro _
    refine preserves_bind (preserves_update fun _ _ h => h) fun _ => ?_
    refine preserves_bind (killStartHelper_preserves hframe) fun _ => ?_
    refine preserves_bind (killExecConditionHelper_preserves hframe) fun _ => ?_
    refine preserves_bind (killStartPostHelper_preserves hframe) fun _ => ?_
    exact preserves_bind preserves_service fun _ => preserves_ite
      (fun _ => preserves_update fun _ _ h => h) fun _ => preserves_pure ()
  rcases hs with hs | hs
  · simp only [hs]
    exact felled_then_delivers (m := { m with
        wantsRunning := false, restartAfterStop := false, restartAt := none,
        runtimeDeadline := none, dbusProbe := none, dbusProbeAt := none })
      (fun r => .startTimedOut r.generation) (fells_startTimedOut hp hs) hmode hsignal hrest
  · simp only [hs]
    exact felled_then_delivers (m := { m with
        wantsRunning := false, restartAfterStop := false, restartAt := none,
        runtimeDeadline := none, dbusProbe := none, dbusProbeAt := none })
      (fun r => .startFailed r.generation) (fells_startFailed hp hs) hmode hsignal hrest

omit hsignal in
theorem stop_delivers {now : Instant} (hs : m.record.state = .starting ∨ m.record.state = .running)
    (hstop : m.spec.stop = none) :
    Ends (fun _ => Delivered ω w.2 m.spec.killSignal) (fun _ => Delivered ω w.2 m.spec.killSignal)
      (stop (recording os) now (m, w)) := by
  obtain ⟨pid, hp⟩ := Option.isSome_iff_exists.mp hlive
  change Ends _ _ (stopWithSignal (recording os) now m.spec.killSignal (m, w))
  rw [stopWithSignal_eq, update_bind]
  obtain ⟨w', hprobe, hnotes⟩ := silent_of_updates (killDbusProbe_updates (recording os))
    killDbusProbe_unnoted { m with
      wantsRunning := false, restartAfterStop := false, restartAt := none,
      runtimeDeadline := none } w
  rw [bind_of_ok hprobe, service_bind, ← hnotes]
  apply ends_bind (p := fun _ => Delivered ω w'.2 m.spec.killSignal)
  · rw [askToStop, service_bind, service_bind, if_pos hs, update_bind]
    exact felled_delivers (m := { m with
        wantsRunning := false, restartAfterStop := false, restartAt := none,
        runtimeDeadline := none, dbusProbe := none, dbusProbeAt := none,
        stopSignal := some m.spec.killSignal, stopSignalSent := false })
      (fun _ => .stopRequested) (fells_stopRequested hp hs hstop) hmode rfl
  · exact fun _ s h => afterAsking_delivered now m.spec.killSignal _ s h

/-- A stop whose command cannot be run signals the process instead. -/
theorem stop_refused_delivers {now : Instant} (hrefuses : Refuses os)
    (hs : m.record.state ∈ [.starting, .running, .stopping]) (hstop : m.spec.stop.isSome) :
    Ends (fun _ => Delivered ω w.2 m.spec.killSignal) (fun _ => Delivered ω w.2 m.spec.killSignal)
      (stop (recording os) now (m, w)) := by
  obtain ⟨pid, hp⟩ := Option.isSome_iff_exists.mp hlive
  change Ends _ _ (stopWithSignal (recording os) now m.spec.killSignal (m, w))
  rw [stopWithSignal_eq, update_bind]
  obtain ⟨w', hprobe, hnotes⟩ := silent_of_updates (killDbusProbe_updates (recording os))
    killDbusProbe_unnoted { m with
      wantsRunning := false, restartAfterStop := false, restartAt := none,
      runtimeDeadline := none } w
  rw [bind_of_ok hprobe, service_bind, ← hnotes]
  have hnever {i : ManagedService × Recorded ω → Prop} (e : Str) (s : ManagedService × Recorded ω)
      (h : False) : i s := h.elim
  have hasked := @askToStop_poised ω os { m with
    wantsRunning := false, restartAfterStop := false, restartAt := none, runtimeDeadline := none,
    dbusProbe := none, dbusProbeAt := none } w' pid hs hstop hp hsignal
  apply ends_bind (ends_mono (fun _ _ h => h) hnever hasked)
  intro _ s h
  apply ends_bind (ends_mono (fun _ _ h => h) hnever (@stopListening_poised ω os _ _ _ _ s h))
  intro _ s h
  apply ends_bind (ends_mono (fun _ _ h => h) hnever (@stopBare_poised ω os _ _ _ s h))
  intro _ s h
  apply ends_bind (ends_mono (fun _ _ h => h) hnever (@stopActive_poised ω os _ _ _ now _ s h))
  intro _ s h
  apply ends_bind (ends_mono (fun _ _ h => h) hnever (@stopResources_poised ω os _ _ _ s h))
  intro _ s h
  apply ends_bind (stopMain_delivers hrefuses hmode hstop h)
  exact fun _ _ h => h

end

end

section

variable {ω : Type} {os : Os ω}

/-- A stop that signals the process at once. -/
def StopsNow (os : Os ω) (m : ManagedService) : Prop :=
  (m.record.state = .starting ∨ m.record.state = .running) ∧ m.spec.stop = none ∨
    m.record.state ∈ [.starting, .running, .stopping] ∧ m.spec.stop.isSome ∧ Refuses os

/-- The parts that stop a service, or go on with that once its stop command has exited. -/
def Stops (os : Os ω) (m : ManagedService) (w : ω) : Part → Prop
  | .asked (.stop _) => StopsNow os m
  | .asked (.markJobTimeout _) => m.record.state = .starting ∨ m.record.state = .running
  | .oom _ => StopsNow os m ∧ m.record.state = .running ∧ m.spec.oomPolicy = .stop ∧
    ∃ path current, m.cgroupPath = some path ∧ os.readCgroupOomEvents w path = some current ∧
      m.oomEvents.any (· < current)
  | .runtimeLimit now => m.record.state = .running ∧ due now m.runtimeDeadline
  | .startDeadline now => m.record.state = .starting ∧ due now m.startDeadline
  | .startPostExit _ exit => m.record.state = .running ∧ !isSuccess exit
  | .stopExit _ => True
  | _ => False

/-- A restart that finds something to stop sends no signal of its own. -/
def Plainly (s : ManagedService × ω) : Part → Prop
  | .asked (.restart _) => s.1.record.state = .starting ∨ s.1.record.state = .running →
    s.1.spec.restartKillSignal.getD s.1.spec.killSignal = s.1.spec.killSignal
  | _ => True

theorem perform_remembers {spec : ServiceSpec} (request : Request) {s : ManagedService × ω}
    (hs : Remembers ω (plain spec) s) (hplain : Plainly s (.asked request)) :
    Ends (fun _ => Remembers ω (plain spec)) (fun _ => Remembers ω (plain spec))
      (perform os request s) := by
  have hframe : Insensitive os (Remembers ω (plain spec)) := remembers_insensitive
  cases request with
  | start now => exact start_remembers os now s hs
  | stop now => exact stop_remembers os now s hs
  | restart now =>
    refine restart_remembers os now s ⟨hs, fun hup => ?_⟩
    have hsignal := hplain hup
    rwa [hs.1] at hsignal
  | markJobTimeout now => exact markJobTimeout_remembers os now s hs
  | poll now => exact poll_remembers os now s hs
  | triggerDue now =>
    exact preserves_bind (triggerDue_preserves hframe now) (fun _ => preserves_pure ()) s hs
  | refreshLostMount =>
    refine preserves_bind preserves_service (fun m => ?_) s hs
    refine preserves_bind (preserves_look _) fun _ => preserves_ite
      (fun _ => markLost_remembers os _) fun _ => ?_
    exact preserves_bind (preserves_look _) fun _ => preserves_ite
      (fun _ => markLost_remembers os _) fun _ => preserves_pure ()
  | reload => exact reload_preserves hframe s hs
  | resetFailed => exact resetFailed_remembers os s hs
  | setActivationFds fds names => exact setActivationFds_remembers os fds names s hs
  | setActivationConnection fd => exact setActivationConnection_remembers os fd s hs
  | clearActivationFds => exact clearActivationFds_preserves hframe s hs

theorem act_remembers {spec : ServiceSpec} (part : Part) {s : ManagedService × ω}
    (hs : Remembers ω (plain spec) s) (hplain : Plainly s part) :
    Ends (fun _ => Remembers ω (plain spec)) (fun _ => Remembers ω (plain spec))
      (act os part s) := by
  have hframe : Insensitive os (Remembers ω (plain spec)) := remembers_insensitive
  cases part with
  | asked request => exact perform_remembers request hs hplain
  | notification now message => exact acceptNotification_remembers os now message s hs
  | dbus now => exact observeDbus_remembers os now s hs
  | oom now => exact checkOom_remembers os now s hs
  | watchdog now => exact checkWatchdog_remembers os now s hs
  | runtimeLimit now => exact checkRuntimeLimit_remembers os now s hs
  | execConditionExit now exit => exact handleExecConditionExit_remembers os now exit s hs
  | startHelperExit now exit => exact handleStartHelperExit_remembers os now exit s hs
  | startPostExit now exit => exact handleStartPostExit_remembers os now exit s hs
  | activeStopExit now exit => exact handleActiveStopExit_remembers os now exit s hs
  | stopPostExit now exit => exact handleStopPostExit_remembers os now exit s hs
  | reloadExit exit => exact handleReloadExit_preserves hframe exit s hs
  | stopExit exit => exact handleStopExit_preserves hframe exit s hs
  | mainExit now exit => exact handleMainExit_remembers os now exit s hs
  | adoptForking now => exact tryAdoptForking_remembers os now s hs
  | stopDeadline now => exact checkStopDeadline_remembers os now s hs
  | activeStopDeadline now => exact checkActiveStopDeadline_remembers os now s hs
  | startDeadline now => exact checkStartDeadline_remembers os now s hs
  | restart now => exact checkRestart_remembers os now s hs

theorem reached_remembers {r : ServiceRecord} {s : ManagedService × ω}
    (h : Reached os Plainly r s) : Remembers ω (plain r.spec) s := by
  induction h with
  | new w => exact ⟨rfl, rfl⟩
  | drift w' _ ih => exact ih
  | act part _ hplain ih => exact ends_final (act_remembers part ih hplain)

theorem stop_tells {m : ManagedService} {w : Recorded ω} (now : Instant)
    (hmode : m.spec.killMode ≠ .none)
    (hsignal : m.stopSignal.getD m.spec.killSignal = m.spec.killSignal)
    (hlive : m.record.pid.isSome) (hs : StopsNow os m) :
    Ends (fun _ => Delivered ω w.2 m.spec.killSignal) (fun _ => Delivered ω w.2 m.spec.killSignal)
      (stop (recording os) now (m, w)) := by
  obtain ⟨hs, hstop⟩ | ⟨hs, hstop, hrefuses⟩ := hs
  · exact stop_delivers hmode hlive hs hstop
  · exact stop_refused_delivers hmode hsignal hlive hrefuses hs hstop

theorem oom_tells {m : ManagedService} {w : Recorded ω} {now : Instant}
    (hmode : m.spec.killMode ≠ .none)
    (hsignal : m.stopSignal.getD m.spec.killSignal = m.spec.killSignal)
    (hlive : m.record.pid.isSome) (hs : Stops os m w.1 (.oom now)) :
    Tells os m w (.oom now) m.spec.killSignal := by
  obtain ⟨hstops, hrunning, hpolicy, path, current, hpath, hevents, hmore⟩ := hs
  apply ends_final (i := Delivered ω w.2 m.spec.killSignal)
  have hevents : (recording os).readCgroupOomEvents w path = some current := hevents
  change Ends _ _ (checkOom (recording os) now (m, w))
  rw [checkOom, service_bind]
  simp only [hpath, look_bind, hevents, update_bind, hmore, hrunning, and_self, if_true]
  rw [oomStop, service_bind]
  have hpolicy : m.record.spec.oomPolicy = .stop := hpolicy
  simp only [ManagedService.spec, hpolicy]
  have htells := stop_tells (m := { m with cgroupPath := some path, oomEvents := some current })
    (w := w) now hmode hsignal hlive hstops
  exact htells

/-- Where no restart has sent a signal of its own, a stop that has taken too long kills the
process, and every stop sends the signal that the service is to be stopped with. -/
theorem stop_signals {r : ServiceRecord} {s : ManagedService × Recorded ω}
    (h : Reached (recording os) Plainly r s) (hmode : s.1.spec.killMode ≠ .none)
    (hlive : s.1.record.pid.isSome) :
    (∀ now, s.1.record.state = .stopping → due now s.1.stopDeadline →
        Tells os s.1 s.2 (.stopDeadline now) sigKill) ∧
      ∀ part, Stops os s.1 s.2.1 part → Tells os s.1 s.2 part s.1.spec.killSignal := by
  have hsignal : s.1.stopSignal.getD s.1.spec.killSignal = s.1.spec.killSignal := by
    obtain ⟨hspec, hsignal⟩ := reached_remembers h
    rw [hspec]
    exact hsignal
  refine ⟨fun now hs hdue => stopDeadline_tells hmode hsignal hlive hs hdue, fun part hs => ?_⟩
  cases part with
  | asked request =>
    cases request with
    | stop now =>
      exact ends_final (i := Delivered ω s.2.2 s.1.spec.killSignal)
        (stop_tells now hmode hsignal hlive hs)
    | markJobTimeout now => exact markJobTimeout_tells hmode hsignal hlive hs
    | start | restart | poll | triggerDue | refreshLostMount | reload | resetFailed
      | setActivationFds | setActivationConnection | clearActivationFds => exact hs.elim
  | oom now => exact oom_tells hmode hsignal hlive hs
  | runtimeLimit now => exact runtimeLimit_tells hmode hsignal hlive hs.1 hs.2
  | startDeadline now => exact startDeadline_tells hmode hsignal hlive hs.1 hs.2
  | startPostExit now exit => exact startPostExit_tells hmode hsignal hlive hs.1 hs.2
  | stopExit exit => exact stopExit_tells hmode hsignal hlive exit
  | notification | dbus | watchdog | execConditionExit | startHelperExit | activeStopExit
    | stopPostExit | reloadExit | mainExit | adoptForking | stopDeadline | activeStopDeadline
    | restart => exact hs.elim

end

def plainRestart : ServiceSpec := { plainService ['a'] with restartKillSignal := some sigTerm }

def plainStarted : ManagedService × Recorded Box :=
  final (act (recording boxOs) (.asked (.start 0))) (.ofRecord (fresh plainRestart), box, [])

def plainRestarted : ManagedService × Recorded Box :=
  final (act (recording boxOs) (.asked (.restart 1))) (plainStarted.1, ⟨0, 1, true, []⟩, [])

theorem plainRestarted_reached :
    Reached (recording boxOs) Plainly (fresh plainRestart) plainRestarted := by
  have hplain : Plainly (plainStarted.1, ((⟨0, 1, true, []⟩, []) : Recorded Box))
      (.asked (.restart 1)) := by
    intro _
    decide +kernel
  have hstarted : Reached (recording boxOs) Plainly (fresh plainRestart) plainStarted :=
    .act (.asked (.start 0)) (.new _) trivial
  exact .act (.asked (.restart 1)) (.drift _ hstarted) hplain

theorem stop_signals_plainRestart :
    plainRestarted.1.record.state = .stopping ∧
      Tells boxOs plainRestarted.1 plainRestarted.2 (.stopDeadline (1 + seconds 5)) sigKill ∧
      Tells boxOs plainRestarted.1 plainRestarted.2 (.stopExit (.exited 0))
        plainRestarted.1.spec.killSignal := by
  have hsignals := stop_signals plainRestarted_reached (by decide +kernel) (by decide +kernel)
  refine ⟨by decide +kernel, hsignals.1 _ (by decide +kernel) (by decide +kernel), ?_⟩
  exact hsignals.2 (.stopExit (.exited 0)) trivial

def signalledAfter (spec : ServiceSpec) (requests : List (Box × Request)) :
    ManagedService × Recorded Box :=
  Machine.EventRuns.final (lifetime (recording boxOs)) (.ofRecord (fresh spec), (⟨0, 0, true, []⟩, []))
    (requests.map fun e => ((e.1, []), e.2))

/-- A service that is killed at once where it is stopped, but not where it is restarted. -/
def gentleRestart : ServiceSpec :=
  { plainService ['a'] with killSignal := sigKill, restartKillSignal := some sigTerm }

def gentleRestarted : ManagedService × Recorded Box :=
  signalledAfter gentleRestart
    [(⟨0, 0, true, []⟩, .start 0), (⟨0, 1, true, []⟩, .restart 1)]

/-- One that is not to run for long, and is restarted. -/
def shortLived : ServiceSpec :=
  { plainService ['a'] with restartKillSignal := some 2, runtimeMax := some (seconds 10) }

def shortLivedAgain : ManagedService × Recorded Box :=
  signalledAfter shortLived
    [(⟨0, 0, true, []⟩, .start 0), (⟨0, 1, true, []⟩, .restart 1), (⟨0, 1, true, [1]⟩, .poll 2)]

/-- The restart that takes too long is not killed. The signal of a restart that is over goes to the
next process, too, when it has run for too long. -/
theorem restart_signal_stays :
    (gentleRestarted.1.record.state = .stopping ∧ due (1 + seconds 5) gentleRestarted.1.stopDeadline ∧
      (final (act (recording boxOs) (.stopDeadline (1 + seconds 5))) gentleRestarted).2.2 =
        gentleRestarted.2.2 ++ [.signal sigTerm]) ∧
    (shortLivedAgain.1.record.state = .running ∧ shortLivedAgain.1.restartAfterStop = false ∧
      (final (act (recording boxOs) (.runtimeLimit (seconds 20))) shortLivedAgain).2.2 =
        shortLivedAgain.2.2 ++ [.signal 2]) := by
  decide +kernel

end FractalD.Supervisor.StopSignals
