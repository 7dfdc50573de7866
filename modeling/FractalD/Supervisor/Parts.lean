import FractalD.Supervisor.Lifetime

namespace FractalD.Supervisor.Parts

open FractalD.Core.Record FractalD.Core.Spec FractalD.Machine.CString FractalD.Machine.Effect
open FractalD.Machine.EventRuns (Along run_keeps)
open FractalD.Supervisor.Frame FractalD.Supervisor.Lifetime FractalD.Supervisor.Service
open FractalD.Supervisor.ServicePoll FractalD.Supervisor.System

/-- What is done to a service at a time. A poll takes many of these one after the other. -/
inductive Part
  | asked (request : Request)
  | notification (now : Instant) (message : Str)
  | dbus (now : Instant)
  | oom (now : Instant)
  | watchdog (now : Instant)
  | runtimeLimit (now : Instant)
  | execConditionExit (now : Instant) (exit : ExitKind)
  | startHelperExit (now : Instant) (exit : ExitKind)
  | startPostExit (now : Instant) (exit : ExitKind)
  | activeStopExit (now : Instant) (exit : ExitKind)
  | stopPostExit (now : Instant) (exit : ExitKind)
  | reloadExit (exit : ExitKind)
  | stopExit (exit : ExitKind)
  | mainExit (now : Instant) (exit : ExitKind)
  | adoptForking (now : Instant)
  | stopDeadline (now : Instant)
  | activeStopDeadline (now : Instant)
  | startDeadline (now : Instant)
  | restart (now : Instant)

section

variable {ω : Type} (os : Os ω)

def act : Part → Op ω Unit
  | .asked request => perform os request
  | .notification now message => acceptNotification os now message
  | .dbus now => observeDbus os now
  | .oom now => checkOom os now
  | .watchdog now => checkWatchdog os now
  | .runtimeLimit now => checkRuntimeLimit os now
  | .execConditionExit now exit => handleExecConditionExit os now exit
  | .startHelperExit now exit => handleStartHelperExit os now exit
  | .startPostExit now exit => handleStartPostExit os now exit
  | .activeStopExit now exit => handleActiveStopExit os now exit
  | .stopPostExit now exit => handleStopPostExit os now exit
  | .reloadExit exit => handleReloadExit exit
  | .stopExit exit => handleStopExit os exit
  | .mainExit now exit => handleMainExit os now exit
  | .adoptForking now => tryAdoptForking os now
  | .stopDeadline now => checkStopDeadline os now
  | .activeStopDeadline now => checkActiveStopDeadline os now
  | .startDeadline now => checkStartDeadline os now
  | .restart now => checkRestart os now

/-- The states of a service between what is done to it, where all that is done meets a
condition. The system may change in any way. -/
inductive Reached (q : ManagedService × ω → Part → Prop) (r : ServiceRecord) :
    ManagedService × ω → Prop
  | new (w : ω) : Reached q r (.ofRecord r, w)
  | drift {s : ManagedService × ω} (w' : ω) : Reached q r s → Reached q r (s.1, w')
  | act {s : ManagedService × ω} (part : Part) :
    Reached q r s → q s part → Reached q r (final (act os part) s)

/-- A condition that no part of a poll breaks. -/
def Polls (q : ManagedService × ω → Part → Prop) : Prop :=
  ∀ s part, (∀ request, part ≠ .asked request) → q s part

variable {os} {q : ManagedService × ω → Part → Prop} {r : ServiceRecord}

theorem ends_of_final {α : Type} {x : Op ω α} {s : ManagedService × ω}
    {i : ManagedService × ω → Prop} (h : i (final x s)) : Ends (fun _ => i) (fun _ => i) (x s) := by
  unfold final at h
  cases hr : x s with
  | ok a t =>
    rw [hr] at h
    exact h
  | error e t =>
    rw [hr] at h
    exact h

theorem act_reached (part : Part) (hq : ∀ s, q s part) :
    Preserves (Reached os q r) (act os part) :=
  fun s hs => ends_of_final (.act part hs (hq s))

theorem observe_reached {α : Type} {c : Call ω (Except Str α)} (describe : Str) :
    Preserves (Reached os q r) (required describe c) :=
  preserves_required (fun _ _ hs => .drift _ hs) describe

theorem observeHelper_reached (label : String) (helper : ManagedService → Option HelperProcess) :
    Preserves (Reached os q r) (observeHelper os label helper) := by
  refine preserves_bind preserves_service fun s => ?_
  cases helper s with
  | none => exact preserves_pure none
  | some process => exact observe_reached _

theorem observeExit_reached : Preserves (Reached os q r) (observeExit os) := by
  refine preserves_bind preserves_service fun s => ?_
  cases s.adoptedPid with
  | some pid => exact preserves_look _
  | none =>
    cases s.pidfd with
    | some fd => exact observe_reached _
    | none =>
      cases s.child with
      | some pid => exact observe_reached _
      | none => exact preserves_pure none

theorem observeNotify_reached (hq : Polls q) (now : Instant) :
    Preserves (Reached os q r) (observeNotify os now) := by
  refine preserves_bind preserves_service fun s => ?_
  cases s.notifySocket with
  | none => exact preserves_pure ()
  | some socket =>
    refine preserves_bind (observe_reached _) fun received => ?_
    refine preserves_bind (preserves_look _) fun allowed => preserves_forM (fun e => ?_) _
    exact act_reached (.notification now e.1) fun s => hq s _ (by simp)

theorem onExit_reached {handle : ExitKind → Op ω Unit}
    (h : ∀ exit, Preserves (Reached os q r) (handle exit)) (exit : Option ExitKind) :
    Preserves (Reached os q r) (onExit exit handle) :=
  preserves_optionForM h exit

theorem poll_reached (hq : Polls q) (now : Instant) :
    Preserves (Reached os q r) (poll os now) := by
  have hpart (part : Part) (hp : ∀ request, part ≠ .asked request) :
      Preserves (Reached os q r) (act os part) := act_reached part fun s => hq s part hp
  have hexit (handle : ExitKind → Part) (hp : ∀ exit request, handle exit ≠ .asked request) :
      ∀ exit, Preserves (Reached os q r) (onExit exit fun exit => act os (handle exit)) :=
    onExit_reached fun exit => hpart (handle exit) (hp exit)
  refine preserves_bind (observeNotify_reached hq now) fun _ => ?_
  refine preserves_bind (hpart (.dbus now) (by simp)) fun _ => ?_
  refine preserves_bind (hpart (.oom now) (by simp)) fun _ => ?_
  refine preserves_bind (hpart (.watchdog now) (by simp)) fun _ => ?_
  refine preserves_bind (hpart (.runtimeLimit now) (by simp)) fun _ => ?_
  refine preserves_bind (observeHelper_reached _ _) fun exit => ?_
  refine preserves_bind (hexit (.execConditionExit now) (by simp) exit) fun _ => ?_
  refine preserves_bind (observeHelper_reached _ _) fun exit => ?_
  refine preserves_bind (hexit (.startHelperExit now) (by simp) exit) fun _ => ?_
  refine preserves_bind (observeHelper_reached _ _) fun exit => ?_
  refine preserves_bind (hexit (.startPostExit now) (by simp) exit) fun _ => ?_
  refine preserves_bind (observeHelper_reached _ _) fun exit => ?_
  refine preserves_bind (hexit (.activeStopExit now) (by simp) exit) fun _ => ?_
  refine preserves_bind (observeHelper_reached _ _) fun exit => ?_
  refine preserves_bind (hexit (.stopPostExit now) (by simp) exit) fun _ => ?_
  refine preserves_bind (observeHelper_reached _ _) fun exit => ?_
  refine preserves_bind (hexit .reloadExit (by simp) exit) fun _ => ?_
  refine preserves_bind (observeHelper_reached _ _) fun exit => ?_
  refine preserves_bind (hexit .stopExit (by simp) exit) fun _ => ?_
  refine preserves_bind observeExit_reached fun exit => ?_
  refine preserves_bind (hexit (.mainExit now) (by simp) exit) fun _ => ?_
  refine preserves_bind preserves_service fun s => ?_
  have hlast : Preserves (Reached os q r) (do
      checkStopDeadline os now
      checkActiveStopDeadline os now
      checkStartDeadline os now
      checkRestart os now) :=
    preserves_bind (hpart (.stopDeadline now) (by simp)) fun _ =>
      preserves_bind (hpart (.activeStopDeadline now) (by simp)) fun _ =>
        preserves_bind (hpart (.startDeadline now) (by simp)) fun _ =>
          hpart (.restart now) (by simp)
  exact preserves_ite (fun _ => preserves_bind (hpart (.adoptForking now) (by simp)) fun _ => hlast)
    fun _ => hlast

theorem lifetime_reached (hq : Polls q) {s : ManagedService × ω} (hs : Reached os q r s)
    {es : List (ω × Request)} (hes : Along (lifetime os)
      (fun s e => (∃ now, e.2 = .poll now) ∨ q (s.1, e.1) (.asked e.2)) s es) :
    Reached os q r (Machine.EventRuns.final (lifetime os) s es) := by
  apply (run_keeps (p := fun _ => True) ?_ hs hes).1
  rintro s ⟨w, request⟩ hrequest hs
  refine ⟨?_, fun _ _ => trivial⟩
  have hs : Reached os q r (s.1, w) := .drift w hs
  obtain ⟨now, rfl⟩ | hrequest := hrequest
  · exact ends_final (poll_reached hq now _ hs)
  · exact .act (.asked request) hs hrequest

end

end FractalD.Supervisor.Parts
