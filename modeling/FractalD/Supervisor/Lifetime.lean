import FractalD.Machine.EventRuns
import FractalD.Supervisor.Exits

namespace FractalD.Supervisor.Lifetime

open FractalD.Core.Record FractalD.Core.Restarts FractalD.Core.Spec FractalD.Machine.CString
open FractalD.Machine.Effect FractalD.Machine.EventRuns FractalD.Supervisor.Coherence
open FractalD.Supervisor.Demands FractalD.Supervisor.Execution FractalD.Supervisor.Exits
open FractalD.Supervisor.Frame FractalD.Supervisor.Polling FractalD.Supervisor.Service
open FractalD.Supervisor.Standdown FractalD.Supervisor.StartFailure FractalD.Supervisor.System

/-- What a supervisor asks of a service. -/
inductive Request
  | start (now : Instant)
  | stop (now : Instant)
  | restart (now : Instant)
  | markJobTimeout (now : Instant)
  | poll (now : Instant)
  | triggerDue (now : Instant)
  | refreshLostMount
  | reload
  | resetFailed
  | setActivationFds (fds : List Nat) (names : List Str)
  | setActivationConnection (fd : Nat)
  | clearActivationFds

section

variable {ω : Type} (os : Os ω)

def refreshLostMount : Op ω Unit := do
  let s ← service
  if ← look (mountIsLost os s) then markLost os "cannot record lost mount "
  else if ← look (deviceIsLost os s) then markLost os "cannot record lost device "

def perform : Request → Op ω Unit
  | .start now => Service.start os now
  | .stop now => Service.stop os now
  | .restart now => Service.restart os now
  | .markJobTimeout now => Service.markJobTimeout os now
  | .poll now => ServicePoll.poll os now
  | .triggerDue now => do let _ ← Service.triggerDue os now
  | .refreshLostMount => refreshLostMount os
  | .reload => Service.reload os
  | .resetFailed => Service.resetFailed os
  | .setActivationFds fds names => Service.setActivationFds os fds names
  | .setActivationConnection fd => Service.setActivationConnection os fd
  | .clearActivationFds => Service.clearActivationFds os

/-- A service that is asked for something after the system has changed in any way. -/
def lifetime : EventMachine (ManagedService × ω) (ω × Request) Unit :=
  fun s e => (Machine.Effect.final (perform os e.2) (s.1, e.1), some [])

/-- What a request has to find so that it breaks no promise. -/
def Meets (q : Mode) (s : ManagedService × ω) : Request → Prop
  | .start _ => ¬ q.halted
  | .restart _ => ¬ q.halted ∧ Stoppable os q (core s.1)
  | .stop _ => Stoppable os q (core s.1)
  | .markJobTimeout _ => Expirable q (core s.1)
  | .poll now => Pollable q now (core s.1)
  | .refreshLostMount => deviceIsLost os s.1 s.2 → s.1.listeners = []
  | .setActivationFds fds names => q.empty → Takes (core s.1) → fds = [] ∧ names = []
  | .setActivationConnection _ => q.empty → ¬ Takes (core s.1)
  | .triggerDue _ | .reload | .resetFailed | .clearActivationFds => True

variable {q : Mode}

theorem refreshLostMount_sound {m : ManagedService} {w : ω} (hm : Sound q (core m))
    (hl : deviceIsLost os m w → m.listeners = []) :
    Ends (fun _ => On ω (Sound q)) (fun _ => On ω (Sound q)) (refreshLostMount os (m, w)) := by
  simp only [refreshLostMount, service_bind, look_bind]
  split
  next hlost =>
    simp only [mountIsLost, Bool.and_eq_true, decide_eq_true_eq] at hlost
    have hlisten : m.listeners = [] := by
      by_contra hne
      have hsocket := (hm.listening hne).1
      rw [← hm.spec] at hsocket
      cases hlost.1.1.symm.trans hsocket
    exact markLost_sound os _ (m, w) ⟨hm, hlost.1.2, hlisten⟩
  next =>
    simp only [look_bind]
    split
    next hlost =>
      have hactive : m.record.state = .active := by
        simp only [deviceIsLost, Bool.and_eq_true, decide_eq_true_eq] at hlost
        exact hlost.1
      exact markLost_sound os _ (m, w) ⟨hm, hactive, hl hlost⟩
    next => exact hm

/-- A request that finds what it has to keeps the parts of a service in agreement. -/
theorem perform_sound (hclock : q.clock = none) (request : Request) :
    ∀ s, On ω (Sound q) s → Meets os q s request →
      Ends (fun _ => On ω (Sound q)) (fun _ => On ω (Sound q)) (perform os request s) := by
  have hframe : Insensitive os (On ω (Sound q)) := sound_loose.insensitive
  rintro ⟨m, w⟩ hm hmeets
  cases request with
  | start now => exact start_unclocked os hmeets hclock now (m, w) hm
  | stop now =>
    exact ends_mono (fun _ _ h => Sound.of_halt h) (fun _ _ h => Sound.of_halt h)
      (stopWithSignal_sound os now _ (m, w) ⟨hm, hmeets⟩)
  | restart now => exact restart_sound os hmeets.1 hclock now (m, w) ⟨hm, hmeets.2⟩
  | markJobTimeout now => exact markJobTimeout_sound os now (m, w) ⟨hm, hmeets⟩
  | poll now => exact poll_sound os now hclock (m, w) ⟨hm, hmeets⟩
  | triggerDue now =>
    exact preserves_bind (triggerDue_preserves hframe now) (fun _ => preserves_pure ()) (m, w) hm
  | refreshLostMount => exact refreshLostMount_sound os hm hmeets
  | reload => exact reload_preserves hframe (m, w) hm
  | resetFailed => exact resetFailed_sound os (m, w) hm
  | setActivationFds fds names => exact setActivationFds_sound os (m, w) ⟨hm, hmeets⟩
  | setActivationConnection fd => exact setActivationConnection_sound os (m, w) ⟨hm, hmeets⟩
  | clearActivationFds => exact clearActivationFds_preserves hframe (m, w) hm

theorem lifetime_sound (hclock : q.clock = none) {p : ManagedService × ω → Request → Prop}
    (hp : ∀ s request, Sound q (core s.1) → p s request → Meets os q s request)
    {s : ManagedService × ω} (hs : Sound q (core s.1)) {es : List (ω × Request)}
    (hes : Along (lifetime os) (fun s e => p (s.1, e.1) e.2) s es) :
    Sound q (core (Machine.EventRuns.final (lifetime os) s es).1) := by
  have hstep : ∀ s (e : ω × Request), p (s.1, e.1) e.2 → On ω (Sound q) s →
      On ω (Sound q) (lifetime os s e).1 ∧ ∀ a ∈ emitted (lifetime os) s e, True := by
    intro s e he hs
    refine ⟨?_, fun _ _ => trivial⟩
    exact ends_final (perform_sound os hclock e.2 (s.1, e.1) hs (hp (s.1, e.1) e.2 hs he))
  exact (run_keeps hstep hs hes).1

theorem ofRecord_sound {spec : ServiceSpec} {record : ServiceRecord}
    (h : ServiceRecord.new spec = .ok record) (hspec : q.spec = spec) :
    Sound q (core (.ofRecord record)) := by
  have hidle : Idle q (core (.ofRecord record)) := by
    rw [new_ok h]
    exact {
      spec := hspec.symm
      pid := rfl
      gone := ⟨rfl, rfl, rfl, rfl, rfl, rfl, rfl, rfl, rfl⟩
      preparing := rfl
      asking := rfl
      listening := rfl
      waiting := rfl
      empty := fun _ => rfl
      unhurried := fun _ _ => nofun }
  rw [new_ok h] at hidle ⊢
  exact hidle.sound rfl (fun _ _ => ⟨rfl, rfl⟩) fun _ => ⟨rfl, rfl⟩

end

end FractalD.Supervisor.Lifetime
