import FractalD.Manager.Jobs

namespace FractalD.Manager.Runs

open FractalD.Core.Spec FractalD.Machine.CString
open FractalD.Manager.Registry FractalD.Supervisor FractalD.Supervisor.System

/-- What the daemon asks of its supervisor. -/
inductive Command
  | add (spec : ServiceSpec)
  | reload (specs : List ServiceSpec)
  | start (name : Str)
  | isolate (name : Str)
  | stop (name : Str)
  | stopForReconfigure (name : Str)
  | restart (name : Str)
  | reloadService (name : Str)
  | resetFailed (name : Str)
  | resetFailedAll
  | stopAll
  | takeManagerAction
  | reapUntrackedChildren
  | poll
  deriving DecidableEq, Repr

variable {ω : Type} (os : Os ω)

def perform (depth : Nat) : Command → Manage ω Unit
  | .add spec => add os spec
  | .reload specs => reload os specs
  | .start name => Jobs.start os depth name
  | .isolate name => Jobs.isolate os depth name
  | .stop name => Jobs.stop os name
  | .stopForReconfigure name => Jobs.stopForReconfigure os name
  | .restart name => Jobs.restart os depth name
  | .reloadService name => reloadService os name
  | .resetFailed name => resetFailed os name
  | .resetFailedAll => resetFailedAll os
  | .stopAll => Jobs.stopAll os
  | .takeManagerAction => do let _ ← takeManagerAction
  | .reapUntrackedChildren => reapUntrackedChildren os
  | .poll => Jobs.poll os depth

/-- A command that ends leaves a state, also where it fails. -/
def Leads (c : Command) (s t : Supervisor × ω) : Prop :=
  ∃ depth, perform os depth c s = .ok () t ∨ ∃ e, perform os depth c s = .error (.error e) t

/-- The state after a command, if that ends. -/
def after (depth : Nat) (c : Command) (s : Supervisor × ω) : Option (Supervisor × ω) :=
  match perform os depth c s with
  | .ok _ t | .error (.error _) t => some t
  | .error .stackOverflow _ => none

theorem leads_of_after {depth : Nat} {c : Command} {s t : Supervisor × ω}
    (h : after os depth c s = some t) : Leads os c s t := by
  refine ⟨depth, ?_⟩
  simp only [after] at h
  split at h
  next h' =>
    cases h
    exact .inl h'
  next e u h' =>
    cases h
    exact .inr ⟨e, h'⟩
  next => cases h

/-- The states of a supervisor. Between two commands the system around it may
change in any way. -/
inductive Reachable : Supervisor × ω → Prop
  | new (w : ω) : Reachable (Supervisor.new, w)
  | drift {s : Supervisor} {w : ω} (w' : ω) : Reachable (s, w) → Reachable (s, w')
  | command {c : Command} {s t : Supervisor × ω} : Reachable s → Leads os c s t → Reachable t

theorem reachable_of_foldlM {depth : Nat} {commands : List Command} {s t : Supervisor × ω}
    (hs : Reachable os s) (h : commands.foldlM (fun s c => after os depth c s) s = some t) :
    Reachable os t := by
  induction commands generalizing s with
  | nil =>
    cases h
    exact hs
  | cons c commands ih =>
    rw [List.foldlM_cons] at h
    obtain ⟨u, hu, h⟩ := Option.bind_eq_some_iff.mp h
    exact ih (.command hs (leads_of_after os hu)) h

inductive Happening (ω : Type)
  | drift (w : ω)
  | command (c : Command)

/-- A condition holds whenever the supervisor is polled in a run. -/
def AtPolls (p : Supervisor × ω → Prop) : List (Happening ω) → Supervisor × ω → Prop
  | [], _ => True
  | .drift w :: run, s => AtPolls p run (s.1, w)
  | .command c :: run, s => (c = .poll → p s) ∧ ∀ t, Leads os c s t → AtPolls p run t

theorem atPolls_congr {p q : Supervisor × ω → Prop} (h : ∀ s, p s ↔ q s)
    (run : List (Happening ω)) (s : Supervisor × ω) : AtPolls os p run s ↔ AtPolls os q run s := by
  induction run generalizing s with
  | nil => exact Iff.rfl
  | cons happening run ih =>
    cases happening with
    | drift w => exact ih (s.1, w)
    | command c =>
      simp only [AtPolls, h]
      exact and_congr_right fun _ => forall_congr' fun t => imp_congr_right fun _ => ih t

end FractalD.Manager.Runs
