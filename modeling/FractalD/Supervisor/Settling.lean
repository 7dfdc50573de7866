import FractalD.Supervisor.Teardown

namespace FractalD.Supervisor.Settling

open FractalD.Core.Record FractalD.Core.Restarts FractalD.Core.Spec FractalD.Machine.Effect
open FractalD.Machine.EventRuns FractalD.Manager.Survival FractalD.Supervisor.Coherence
open FractalD.Supervisor.Demands FractalD.Supervisor.Execution FractalD.Supervisor.Exits
open FractalD.Supervisor.Frame FractalD.Supervisor.Lifetime FractalD.Supervisor.Service
open FractalD.Supervisor.Standdown FractalD.Supervisor.System FractalD.Supervisor.Teardown

/-- No failure that is restarted is on its way to the record. -/
def Calm (r : ServiceRecord) : Prop := ¬ (failing r ∧ retries r)

/-- A service that waits for its restart is wanted, and knows when. -/
def Paced (m : ManagedService) : Prop :=
  m.record.state = .backoff → m.wantsRunning ∧ m.restartAt.isSome

instance (m : ManagedService) : Decidable (Paced m) :=
  inferInstanceAs (Decidable (m.record.state = .backoff → m.wantsRunning ∧ m.restartAt.isSome))

/-- No descriptors wait for the process of a service. -/
def Unfed (m : ManagedService) : Prop :=
  m.activationFdNames = [] ∧ m.activationFds = [] ∧ m.activationOwnedFds = []

instance (m : ManagedService) : Decidable (Unfed m) :=
  inferInstanceAs (Decidable
    (m.activationFdNames = [] ∧ m.activationFds = [] ∧ m.activationOwnedFds = []))

def asksToRun : Request → Bool
  | .start _ | .restart _ => true
  | .stop _ | .markJobTimeout _ | .poll _ | .triggerDue _ | .refreshLostMount | .reload
  | .resetFailed | .setActivationFds .. | .setActivationConnection _ | .clearActivationFds => false

section

variable {ω : Type} (os : Os ω)

/-- A request that does not lose track of whether a service is wanted. -/
def Steady (s : ManagedService × ω) : Request → Prop
  | .stop now => Calm s.1.record ∧ Tidy os s (.stop now)
  | .restart now => Calm s.1.record ∧ Tidy os s (.restart now)
  | .markJobTimeout now =>
    (Calm s.1.record ∧ (s.1.record.state ∈ [ServiceState.starting, .running] →
      s.1.record.pid.isSome → ¬ retries s.1.record)) ∧ Tidy os s (.markJobTimeout now)
  | .poll now => Tidy os s (.poll now)
  | .refreshLostMount => Tidy os s .refreshLostMount
  | .start _ | .triggerDue _ | .reload | .resetFailed | .setActivationFds ..
  | .setActivationConnection _ | .clearActivationFds => True

/-- The promises of a service that may be started again. -/
def pacedMode (spec : ServiceSpec) : Mode := ⟨spec, True, False, False, none, False.elim⟩

/-- The promises of one that is to stop, and of one that has been told to. -/
def leavingMode (spec : ServiceSpec) : Mode := ⟨spec, True, True, False, none, False.elim⟩

def haltedMode (spec : ServiceSpec) : Mode := (leavingMode spec).halt

theorem meets_of_steady {spec : ServiceSpec} (s : ManagedService × ω) (request : Request)
    (hs : Sound (pacedMode spec) (core s.1)) (h : Steady os s request) :
    Meets os (pacedMode spec) s request := by
  obtain rfl : s.1.spec = spec := hs.spec
  cases request with
  | start now => exact id
  | stop now => exact ⟨fun _ => h.1, h.2⟩
  | restart now => exact ⟨id, fun _ => h.1, h.2⟩
  | markJobTimeout now => exact ⟨fun _ => h.1.1, fun _ => h.1.2, h.2⟩
  | poll now => exact ⟨h.1, h.2⟩
  | refreshLostMount => exact h
  | setActivationFds fds names => exact nofun
  | setActivationConnection fd => exact nofun
  | triggerDue now => trivial
  | reload => trivial
  | resetFailed => trivial
  | clearActivationFds => trivial

/-- A request to a service that has been told to stop. -/
def Leaves (s : ManagedService × ω) (request : Request) : Prop :=
  Steady os s request ∧ Tidy os s request ∧ !asksToRun request

theorem meets_of_leaves {spec : ServiceSpec} (s : ManagedService × ω) (request : Request)
    (hs : Sound (haltedMode spec) (core s.1)) (h : Leaves os s request) :
    Meets os (haltedMode spec) s request := by
  obtain rfl : s.1.spec = spec := hs.spec
  obtain ⟨hsteady, htidy, hruns⟩ := h
  cases request with
  | start now => cases hruns
  | restart now => cases hruns
  | stop now => exact ⟨fun _ => hsteady.1, htidy⟩
  | markJobTimeout now => exact ⟨fun _ => hsteady.1.1, fun _ => hsteady.1.2, htidy⟩
  | poll now => exact ⟨htidy.1, htidy.2⟩
  | refreshLostMount => exact htidy
  | setActivationFds fds names => exact fun _ => htidy
  | setActivationConnection fd => exact fun _ => htidy
  | triggerDue now => trivial
  | reload => trivial
  | resetFailed => trivial
  | clearActivationFds => trivial

/-- A stop holds from the moment it is asked for, even where it fails. -/
theorem stop_halts {spec : ServiceSpec} {s : ManagedService × ω} {w : ω} {now : Instant}
    (hs : Sound (pacedMode spec) (core s.1)) (hfed : Unfed s.1)
    (h : Steady os (s.1, w) (.stop now)) :
    Sound (haltedMode spec) (core (lifetime os s (w, .stop now)).1.1) := by
  have hspec : s.1.spec = spec := hs.spec
  obtain ⟨hnames, hfds, howned⟩ := hfed
  have hleaving : Sound (leavingMode spec) (core s.1) :=
    { hs with empty := fun _ => by simp [core, hnames, hfds, howned] }
  have hstop : Stoppable os (leavingMode spec) (core s.1) := ⟨fun _ => h.1, hspec ▸ h.2⟩
  have hends : Ends (fun _ => On ω (Sound (haltedMode spec)))
      (fun _ => On ω (Sound (haltedMode spec))) (perform os (.stop now) (s.1, w)) :=
    stopWithSignal_sound os now s.1.spec.killSignal (s.1, w) ⟨hleaving, hstop⟩
  exact ends_final hends

theorem isStopped_of_halted {spec : ServiceSpec} {m : ManagedService}
    (h : Sound (haltedMode spec) (core m)) (hpids : m.directChildPids = []) : m.isStopped := by
  have hunwanted : m.wantsRunning = false := (h.halted trivial).1
  have hpersists : ¬ Persists m.record := by
    intro hp
    have hwants : m.wantsRunning = true := h.wanted trivial hp
    simp [hunwanted] at hwants
  have hpid : m.record.pid = none := by
    simp only [ManagedService.directChildPids, List.append_eq_nil_iff,
      Option.toList_eq_nil_iff] at hpids
    exact hpids.1.1.1.1.1
  have hdown : ManagedService.isDown m.record.state := by
    cases hst : m.record.state with
    | defined | exited | skipped | failed => rfl
    | starting | running | backoff => exact absurd (.inl (by simp [hst])) hpersists
    | active => exact absurd hst (h.halted trivial).2.2
    | stopping =>
      have hsome : m.record.pid.isSome := h.process (by simp [core, hst])
      simp [hpid] at hsome
  exact isStopped_of_sound h trivial hdown hpids

/-- In a run of steady requests a service waits for a restart only if it is wanted,
and once it has been told to stop it stops. -/
theorem stop_settles {spec : ServiceSpec} {record : ServiceRecord}
    (h : ServiceRecord.new spec = .ok record) (w : ω) {es : List (ω × Request)}
    (hes : Along (lifetime os) (fun s e => Steady os (s.1, e.1) e.2) (.ofRecord record, w) es) :
    let s := final (lifetime os) (.ofRecord record, w) es
    Paced s.1 ∧
      ∀ w' now fs, Unfed s.1 → Steady os (s.1, w') (.stop now) →
        Along (lifetime os) (fun s e => Leaves os (s.1, e.1) e.2)
          (lifetime os s (w', .stop now)).1 fs →
        let m := (final (lifetime os) (lifetime os s (w', .stop now)).1 fs).1
        m.directChildPids = [] → m.isStopped := by
  intro s
  have hs : Sound (pacedMode spec) (core s.1) :=
    lifetime_sound os rfl (meets_of_steady os) (ofRecord_sound h rfl) hes
  refine ⟨fun hback => ?_, ?_⟩
  · exact ⟨hs.wanted trivial (.inl (by simp [core, hback])), hs.scheduled trivial hback⟩
  · intro w' now fs hfed hstop hfs m hpids
    have hm : Sound (haltedMode spec) (core m) :=
      lifetime_sound os rfl (meets_of_leaves os) (stop_halts os hs hfed hstop) hfs
    exact isStopped_of_halted hm hpids

end

/-- The system when the service runs, and when that process has exited too. -/
def boxRunning : Box := ⟨0, 2, true, [1]⟩

def boxExited : Box := ⟨0, 2, true, [1, 2]⟩

def conditionalRunning : ManagedService × Box :=
  final (lifetime helperOs) (.ofRecord (fresh conditional), box) [(box, .start 0), (boxAfter, .poll 1)]

def conditionalStopping : ManagedService × Box :=
  (lifetime helperOs conditionalRunning (boxRunning, .stop 2)).1

def conditionalStopped : ManagedService × Box :=
  final (lifetime helperOs) conditionalStopping [(boxExited, .poll 3)]

theorem stop_settles_conditional :
    Paced conditionalRunning.1 ∧ conditionalRunning.1.record.state = .running ∧
      conditionalStopping.1.record.state = .stopping ∧ conditionalStopped.1.isStopped := by
  have hpoll : Steady helperOs (conditionalAfter [(box, .start 0)], boxAfter) (.poll 1) :=
    ⟨fun _ _ hdue => absurd hdue (by decide +kernel),
      fun hagain => absurd hagain (by decide +kernel)⟩
  have hcalm : ¬ (failing conditionalRunning.1.record ∧ retries conditionalRunning.1.record) := by
    decide +kernel
  have hactive : conditionalRunning.1.record.state ≠ .active := by decide +kernel
  have hfed : Unfed conditionalRunning.1 := by decide +kernel
  have hes : Along (lifetime helperOs) (fun s e => Steady helperOs (s.1, e.1) e.2)
      (.ofRecord (fresh conditional), box) [(box, .start 0), (boxAfter, .poll 1)] :=
    ⟨trivial, hpoll, trivial⟩
  have hstarting : conditionalStopping.1.record.state ≠ .starting := by decide +kernel
  have hagain : ¬ conditionalStopping.1.restartAfterStop = true := by decide +kernel
  have htidy : Tidy helperOs (conditionalStopping.1, boxExited) (.poll 3) :=
    ⟨fun h => absurd h hstarting, fun h => absurd h hagain⟩
  have hfs : Along (lifetime helperOs) (fun s e => Leaves helperOs (s.1, e.1) e.2)
      conditionalStopping [(boxExited, .poll 3)] := ⟨⟨htidy, htidy, rfl⟩, trivial⟩
  have hpids : conditionalStopped.1.directChildPids = [] := by decide +kernel
  obtain ⟨hpaced, hsettles⟩ := stop_settles helperOs new_conditional box hes
  refine ⟨hpaced, by decide +kernel, by decide +kernel, ?_⟩
  exact hsettles boxRunning 2 _ hfed ⟨hcalm, fun ha => absurd ha hactive⟩ hfs hpids

/-- A system in which every process that exits fails. -/
def failingOs : Os Box :=
  { boxOs with
    spawnScript := fun _ w => (.ok ⟨w.processes + 1, false⟩, { w with processes := w.processes + 1 }) }

def fragile : ServiceSpec :=
  { name := "fragile".toList, program := "/bin/serve".toList, restart := .onFailure,
    startPost := [⟨"/bin/announce".toList, []⟩] }

def fragileAfter (requests : List (Box × Request)) : ManagedService :=
  (final (lifetime failingOs) (.ofRecord (fresh fragile), box) requests).1

/-- A service whose commands after its start have failed is told to stop while its
process exits. It waits for a restart that never comes. -/
theorem stop_rests_in_backoff :
    let m := fragileAfter [(box, .start 0), (⟨0, 2, true, [2]⟩, .poll 1),
      (⟨0, 2, true, [2]⟩, .stop 2), (⟨0, 2, true, [1, 2]⟩, .poll 3)]
    m.directChildPids = [] ∧ m.isStopped = false ∧ m.record.state = .backoff ∧ ¬ Paced m := by
  decide +kernel

end FractalD.Supervisor.Settling
