import FractalD.Manager.Survival
import FractalD.Supervisor.Lifetime

namespace FractalD.Supervisor.Teardown

open FractalD.Core.Record FractalD.Core.Restarts FractalD.Core.Spec FractalD.Machine.EventRuns
open FractalD.Manager.Survival FractalD.Supervisor.Coherence FractalD.Supervisor.Demands
open FractalD.Supervisor.Exits FractalD.Supervisor.Frame FractalD.Supervisor.Lifetime
open FractalD.Supervisor.Service FractalD.Supervisor.Standdown FractalD.Supervisor.System

/-- What is left of a service that is down goes with the commands of its stop. -/
def TornDown (m : ManagedService) : Prop :=
  m.execConditionHelper = none ∧
    (m.activeStopHelper = none → m.stopPostHelper = none →
      m.credentialDirectory = none ∧ m.privateTmpPaths = none) ∧
    (m.directChildPids = [] → m.isStopped)

instance (m : ManagedService) : Decidable (TornDown m) :=
  inferInstanceAs (Decidable (m.execConditionHelper = none ∧
    (m.activeStopHelper = none → m.stopPostHelper = none →
      m.credentialDirectory = none ∧ m.privateTmpPaths = none) ∧
    (m.directChildPids = [] → m.isStopped)))

section

variable {q : Mode} {m : ManagedService}

theorem isStopped_of_sound (h : Sound q (core m)) (hempty : q.empty)
    (hdown : ManagedService.isDown m.record.state) (hpids : m.directChildPids = []) :
    m.isStopped := by
  simp only [ManagedService.directChildPids, ManagedService.helpers, List.append_eq_nil_iff,
    Option.toList_eq_nil_iff, Option.map_eq_none_iff, List.flatMap_cons, List.flatMap_nil] at hpids
  obtain ⟨⟨⟨⟨⟨hpid, hchild⟩, hstop⟩, hreload⟩, hprobe⟩, hstart, hasking, hpost, hactive, hafter, -⟩ :=
    hpids
  obtain ⟨-, h₁, h₂, h₃, h₄, h₅, h₆, h₇, h₈⟩ := h.gone hpid
  obtain ⟨hcredentials, hpaths⟩ := h.released (startable_iff.mpr (.inl hdown)) hactive hafter
  have hactivation := h.empty hempty
  simp only [core, Prod.mk.injEq] at h₁ h₂ h₃ h₄ h₅ h₆ h₇ h₈ hcredentials hpaths hactivation
  have hlisten : m.listeners = [] := by
    by_contra hne
    have hstate : m.record.state = .active := (h.listening hne).2
    simp [hstate, ManagedService.isDown] at hdown
  have hrestart : m.restartAt = none := by
    by_contra hne
    have hstate : m.record.state = .backoff := h.waiting (Option.isSome_iff_ne_none.mpr hne)
    simp [hstate, ManagedService.isDown] at hdown
  simp [ManagedService.isStopped, ManagedService.helpers, hchild, hstop, hreload, hprobe, hstart,
    hasking, hpost, hactive, hafter, h₁, h₂, h₃, h₄, h₅, h₆, h₇, h₈, hcredentials, hpaths,
    hactivation, hlisten, hrestart, hdown]

theorem tornDown_of_sound (h : Sound q (core m)) (hempty : q.empty)
    (hdown : ManagedService.isDown m.record.state) : TornDown m := by
  refine ⟨?_, h.released (startable_iff.mpr (.inl hdown)), isStopped_of_sound h hempty hdown⟩
  by_contra hne
  have hstate : m.record.state = .starting :=
    (h.asking (Option.isSome_iff_ne_none.mpr hne)).1
  simp [hstate, ManagedService.isDown] at hdown

end

section

variable {ω : Type} (os : Os ω)

/-- A request that does not lose track of what a service holds: no process of a
start is left alone when its time is over, nothing is handed to a service that
cannot take it, and the stop command of an active unit can be executed. -/
def Tidy (s : ManagedService × ω) : Request → Prop
  | .stop _ | .restart _ =>
    s.1.record.state = .active → s.1.spec.stop.isSome →
      Released (core s.1) ∨ StopRuns os s.1.spec
  | .markJobTimeout _ =>
    s.1.record.state = .starting → s.1.record.pid = none → AfterStop (core s.1)
  | .poll now =>
    (s.1.record.state = .starting → s.1.record.pid = none → due now s.1.startDeadline →
      Released (core s.1) ∧ s.1.execConditionHelper = none) ∧
    (s.1.restartAfterStop → s.1.spec.startTimeout ≠ 0)
  | .refreshLostMount => deviceIsLost os s.1 s.2 → s.1.listeners = []
  | .setActivationFds fds names => Takes (core s.1) → fds = [] ∧ names = []
  | .setActivationConnection _ => ¬ Takes (core s.1)
  | .start _ | .triggerDue _ | .reload | .resetFailed | .clearActivationFds => True

/-- The promises that a teardown needs. -/
def tidyMode (spec : ServiceSpec) : Mode := ⟨spec, False, True, False, none, id⟩

theorem meets_of_tidy {spec : ServiceSpec} (s : ManagedService × ω) (request : Request)
    (hs : Sound (tidyMode spec) (core s.1)) (h : Tidy os s request) :
    Meets os (tidyMode spec) s request := by
  obtain rfl : s.1.spec = spec := hs.spec
  cases request with
  | start now => exact id
  | stop now => exact ⟨nofun, h⟩
  | restart now => exact ⟨id, nofun, h⟩
  | markJobTimeout now => exact ⟨nofun, nofun, h⟩
  | poll now => exact ⟨h.1, h.2⟩
  | refreshLostMount => exact h
  | setActivationFds fds names => exact fun _ => h
  | setActivationConnection fd => exact fun _ => h
  | triggerDue now => trivial
  | reload => trivial
  | resetFailed => trivial
  | clearActivationFds => trivial

/-- In a run of tidy requests a service that is down has let go of what it held. -/
theorem teardown_complete {spec : ServiceSpec} {record : ServiceRecord}
    (h : ServiceRecord.new spec = .ok record) (w : ω) {es : List (ω × Request)}
    (hes : Along (lifetime os) (fun s e => Tidy os (s.1, e.1) e.2) (.ofRecord record, w) es) :
    let m := (final (lifetime os) (.ofRecord record, w) es).1
    ManagedService.isDown m.record.state → TornDown m := by
  intro m hdown
  have hsound : Sound (tidyMode spec) (core m) :=
    lifetime_sound os rfl (meets_of_tidy os) (ofRecord_sound h rfl) hes
  exact tornDown_of_sound hsound trivial hdown

end

/-- A system that gives every service credentials, and in which all processes that
exit succeed. -/
def helperOs : Os Box :=
  { boxOs with
    prepareCredentials := fun _ w => (.ok (some "/run/credentials".toList), w)
    spawnScript := fun _ w => (.ok ⟨w.processes + 1, false⟩, { w with processes := w.processes + 1 })
    tryWait := fun
      | .pidfd pid, w | .child pid, w =>
        (.ok (if pid ∈ w.gone then some (.exited 0) else none), w) }

def conditional : ServiceSpec :=
  { name := "conditional".toList, program := "/bin/serve".toList,
    execConditions := [⟨"/bin/check".toList, []⟩] }

theorem new_conditional : ServiceRecord.new conditional = .ok (fresh conditional) := rfl

def box : Box := ⟨0, 0, true, []⟩

/-- The system once its first process has exited. -/
def boxAfter : Box := ⟨0, 1, true, [1]⟩

def conditionalAfter (requests : List (Box × Request)) : ManagedService :=
  (final (lifetime helperOs) (.ofRecord (fresh conditional), box) requests).1

theorem teardown_complete_stopped :
    TornDown (conditionalAfter [(box, .start 0), (box, .poll 1), (box, .stop 2)]) := by
  refine teardown_complete helperOs new_conditional box ?_ (by decide +kernel)
  refine ⟨trivial, ⟨fun _ _ hdue => absurd hdue (by decide +kernel), ?_⟩, ?_, trivial⟩
  · exact fun hagain => absurd hagain (by decide +kernel)
  · exact fun hactive => absurd hactive (by decide +kernel)

/-- A start whose condition takes too long fails, and leaves the helper that asks for
the condition and the credentials of the service. They are left when the helper has
exited, too. -/
theorem teardown_incomplete :
    let late := conditionalAfter [(box, .start 0), (box, .poll (seconds 30))]
    let ended := conditionalAfter [(box, .start 0), (box, .poll (seconds 30)),
      (boxAfter, .poll (seconds 31))]
    (late.record.state = .failed ∧ late.execConditionHelper.isSome ∧
        late.credentialDirectory.isSome) ∧
      ended.record.state = .failed ∧ ended.directChildPids = [] ∧ ended.isStopped = false ∧
        ¬ TornDown ended := by
  decide +kernel

end FractalD.Supervisor.Teardown
