import FractalD.Supervisor.Teardown

namespace FractalD.Supervisor.RepeatedStop

open FractalD.Core.Outcomes FractalD.Core.Record FractalD.Core.Restarts FractalD.Core.Spec
open FractalD.Machine.CString FractalD.Machine.Effect FractalD.Manager.Survival
open FractalD.Supervisor.Execution FractalD.Supervisor.Frame FractalD.Supervisor.Lifetime
open FractalD.Supervisor.Service FractalD.Supervisor.Standdown FractalD.Supervisor.StartFailure
open FractalD.Supervisor.Stopping FractalD.Supervisor.System FractalD.Supervisor.Teardown

/-- The states in which a stop finds a service to bring down. -/
def Up (state : ServiceState) : Prop := state ∈ [ServiceState.starting, .running, .stopping]

instance : DecidablePred Up := fun _ => inferInstanceAs (Decidable (_ ∈ _))

/-- Nothing is to start the service again, and nothing probes it. -/
def Calm (m : ManagedService) : Prop :=
  m.wantsRunning = false ∧ m.restartAfterStop = false ∧ m.restartAt = none ∧
    m.runtimeDeadline = none ∧ m.dbusProbe = none ∧ m.dbusProbeAt = none

/-- A record that has been told to stop, as it was before. -/
def Told (r : ServiceRecord) (m : ManagedService) : Prop :=
  m.record.spec = r.spec ∧ m.record.pid = r.pid ∧
    m.record.state ∈ [ServiceState.defined, .exited, .skipped, .failed, .stopping] ∧
    (m.record.state = .stopping ↔ Up r.state)

/-- One that stops only if there is a process to wait for. -/
def Brought (r : ServiceRecord) (m : ManagedService) : Prop :=
  m.record.spec = r.spec ∧ m.record.pid = r.pid ∧
    m.record.state ∈ [ServiceState.defined, .exited, .skipped, .failed, .stopping] ∧
    (m.record.state = .stopping ↔ Up r.state ∧ r.pid.isSome)

def Closed (m : ManagedService) : Prop :=
  m.record.spec.serviceType = .socket → m.listeners = [] ∧ m.activationOwnedFds = [] ∧
    m.activationFdNames = [] ∧ m.activationFds = []

/-- What a service that has exited held is gone, but for what a helper still needs. -/
def Cleared (m : ManagedService) : Prop :=
  m.record.state = .exited → m.trigger = .reset ∧
    (m.activeStopHelper.isNone ∧ m.stopPostHelper.isNone →
      m.directories = [] ∧ m.credentialDirectory = none ∧ m.privateTmpPaths = none)

/-- What a stop at some time leaves of a service. -/
def Stopped (now : Instant) (r : ServiceRecord) (m : ManagedService) : Prop :=
  Calm m ∧ Brought r m ∧ Closed m ∧ Cleared m ∧
    m.stopDeadline =
      if Up r.state ∧ r.pid.isSome then timeoutDeadline now r.spec.stopTimeout else none

/-- A condition on the service. -/
def Of (ω : Type) (p : ManagedService → Prop) (s : ManagedService × ω) : Prop := p s.1

section

variable {ω : Type} (os : Os ω) {r : ServiceRecord} {e : ManagedService × ω → Prop}

theorem told_of_stopRequested {r' : ServiceRecord} {actions : List Action}
    (h : r.transition .stopRequested = .ok (r', actions)) {m : ManagedService}
    (hm : m.record = r') : Told r m := by
  obtain ⟨hpid, -, hstate⟩ := stopRequested_outcome h
  refine ⟨hm ▸ (transition_moved h).spec, hm ▸ hpid, ?_⟩
  rw [hm]
  obtain ⟨hs, hs', -⟩ | ⟨hs, hs', -⟩ | ⟨hs, rfl, -⟩ := hstate
  · rw [hs']
    exact ⟨by decide, iff_of_true rfl (by rcases hs with hs | hs <;> rw [hs] <;> decide)⟩
  · rw [hs']
    exact ⟨by decide, iff_of_false (by decide) (by rcases hs with hs | hs <;> rw [hs] <;> decide)⟩
  · refine ⟨hs, ?_⟩
    cases hr : r'.state with
    | starting | running | active | backoff => simp [hr] at hs
    | defined | exited | skipped | failed | stopping => decide

theorem calm_deaf (c : ManagedService → Prop)
    (hc : ∀ m b, c m → c { m with stopSignalSent := b }) : Deaf os (Of ω c) :=
  ⟨fun h => hc _ _ h, fun _ h => h⟩

theorem askToStop_calm (signal : Int) :
    Leads (Of ω fun m => Calm m ∧ m.record = r) (askToStop os signal)
      (fun _ => Of ω fun m => Calm m ∧ Told r m) fun _ => True := by
  have hask : Leads (Of ω fun m => Calm m ∧ m.record = r)
      (do applyActions os (← transition "cannot stop ".toList fun _ => .stopRequested))
      (fun _ => Of ω fun m => Calm m ∧ Told r m) fun _ => True := by
    apply leads_bind (q := fun _ => Of ω fun m => Calm m ∧ Told r m)
    · rintro ⟨m, w⟩ ⟨hm, rfl⟩
      apply ends_transition
      · intro r' actions hr
        exact ⟨hm, told_of_stopRequested hr rfl⟩
      · trivial
    · intro actions s hs
      have hdeaf : Deaf os (Of ω fun m => Calm m ∧ Told r m) := calm_deaf os _ fun _ _ h => h
      exact ends_mono (fun _ _ h => h) (fun _ _ _ => trivial) (applyActions_preserves hdeaf actions s hs)
  apply leads_service_bind
  intro _
  apply leads_service_bind
  intro _
  apply leads_ite
  · intro _
    exact leads_bind (leads_update fun _ _ h => h) fun _ => hask
  · intro _
    exact hask

theorem stopListening_calm {spec : ServiceSpec} (hspec : r.spec = spec) :
    Leads (Of ω fun m => Calm m ∧ Told r m) (stopListening os spec)
      (fun _ => Of ω fun m => Calm m ∧ Told r m ∧ Closed m) e := by
  rintro ⟨m, w⟩ ⟨hcalm, htold⟩
  simp only [stopListening]
  split
  next =>
    apply ends_bind (p := fun _ => Of ω fun m => Calm m ∧ Told r m ∧ m.listeners = [])
    · exact ends_updates (closeListeners_updates os _) fun _ => ⟨hcalm, htold, rfl⟩
    · rintro _ ⟨m, w⟩ ⟨hcalm, htold, hlisteners⟩
      apply ends_updates (clearActivationFds_updates os)
      exact fun _ => ⟨hcalm, htold, fun _ => ⟨hlisteners, rfl, rfl, rfl⟩⟩
  next hother =>
    refine ⟨hcalm, htold, fun hsocket => absurd ?_ hother⟩
    rwa [htold.1, hspec] at hsocket

theorem brought_of_told {m : ManagedService} (h : Told r m)
    (hb : ¬ (m.record.state = .stopping ∧ m.record.pid.isNone)) : Brought r m := by
  obtain ⟨hspec, hpid, hstate, hup⟩ := h
  refine ⟨hspec, hpid, hstate, ?_⟩
  rw [← hup, ← hpid]
  constructor
  · intro hs
    refine ⟨hs, ?_⟩
    rw [← Option.not_isNone, Bool.not_eq_true', ← Bool.not_eq_true]
    exact fun hp => hb ⟨hs, hp⟩
  · exact And.left

theorem completeStop_calm :
    Leads (Of ω fun m => (Calm m ∧ Told r m ∧ Closed m) ∧ m.record.state = .stopping ∧
        m.record.pid.isNone) (completeStop os)
      (fun _ => Of ω fun m => Calm m ∧ Brought r m ∧ Closed m) fun _ => True := by
  let bare := Of ω fun m => (Calm m ∧ Told r m ∧ Closed m) ∧ m.record.pid.isNone
  apply leads_bind (q := fun _ => bare)
  · rintro ⟨m, w⟩ hm
    exact ends_updates (killExecConditionHelper_updates os) fun _ => ⟨hm.1, hm.2.2⟩
  intro _
  apply leads_bind (q := fun _ => bare)
  · rintro ⟨m, w⟩ hm
    exact ends_updates (killStartHelper_updates os) fun _ => hm
  intro _
  apply leads_bind (q := fun _ => bare)
  · rintro ⟨m, w⟩ hm
    exact ends_updates (killStartPostHelper_updates os) fun _ => hm
  intro _
  apply leads_bind (q := fun _ => bare)
  · exact leads_update fun _ _ hm => hm
  rintro _ ⟨m, w⟩ ⟨⟨hcalm, ⟨hspec, hpid, -, -⟩, hclosed⟩, hnone⟩
  apply ends_bind (p := fun _ => Of ω fun m => Calm m ∧ Brought r m ∧ Closed m)
  · apply ends_transition
    · intro r' actions hr
      have hspec' : r'.spec = m.record.spec := (transition_moved hr).spec
      obtain ⟨-, -, hs, hp⟩ := stopCompleted_outcome hr
      have hbare : r.pid = none := hpid ▸ Option.isNone_iff_eq_none.mp hnone
      refine ⟨hcalm, ⟨hspec'.trans hspec, hp.trans hbare.symm, ?_, ?_⟩, ?_⟩
      · rw [hs]
        decide
      · exact iff_of_false (fun h => absurd (hs.symm.trans h) (by decide)) fun h => by
          simp [hbare] at h
      · exact fun h => hclosed (hspec' ▸ h)
    · trivial
  · exact fun _ _ h => h

theorem stopBare_calm :
    Leads (Of ω fun m => Calm m ∧ Told r m ∧ Closed m) (stopBare os)
      (fun _ => Of ω fun m => Calm m ∧ Brought r m ∧ Closed m) fun _ => True := by
  rintro ⟨m, w⟩ hm
  simp only [stopBare, service_bind]
  split
  next hbare => exact completeStop_calm os (m, w) ⟨hm, hbare⟩
  next hbare => exact ⟨hm.1, brought_of_told hm.2.1 hbare, hm.2.2⟩

theorem spawnStopPost_calm {p : ManagedService → Prop}
    (hp : ∀ m helper, p m → p { m with stopPostHelper := helper }) (pid : Option Nat) :
    Preserves (Of ω p) (spawnStopPost os pid) := by
  refine preserves_bind preserves_service fun s => preserves_ite (fun _ => preserves_pure ())
    fun _ => ?_
  have hkill : Preserves (Of ω p) (killStopPostHelper os) := by
    rintro ⟨m, w⟩ hm
    exact ends_updates (killStopPostHelper_updates os) fun _ => hp m none hm
  refine preserves_bind hkill fun _ => preserves_bind (preserves_call fun _ _ h => h) fun r => ?_
  cases r with
  | ok helper => exact preserves_update fun m _ h => hp m (some helper) h
  | error e => exact preserves_pure ()

theorem stopActive_calm (now : Instant) (state : ServiceState) :
    Preserves (Of ω fun m => Calm m ∧ Brought r m ∧ Closed m) (stopActive os now state) := by
  refine preserves_bind preserves_service fun s => preserves_ite (fun _ => ?_) fun _ =>
    preserves_pure ()
  refine preserves_ite (fun _ => ?_) fun _ => spawnStopPost_calm os (fun _ _ h => h) none
  refine preserves_bind (preserves_bind preserves_service fun s => ?_) fun _ =>
    preserves_update fun _ _ h => h
  cases s.spec.stop with
  | none => exact preserves_throw _
  | some command =>
    exact preserves_bind (preserves_required (fun _ _ h => h) _) fun _ =>
      preserves_update fun _ _ h => h

theorem stopResources_calm :
    Leads (Of ω fun m => Calm m ∧ Brought r m ∧ Closed m) (stopResources os)
      (fun _ => Of ω fun m => Calm m ∧ Brought r m ∧ Closed m ∧ Cleared m) e := by
  rintro ⟨m, w⟩ ⟨hcalm, hbrought, hclosed⟩
  simp only [stopResources, service_bind]
  split
  next hexited =>
    simp only [resetTriggerState, update_bind]
    split
    next =>
      apply ends_updates (cleanupDirectories_updates os)
      exact fun _ => ⟨hcalm, hbrought, hclosed, fun _ => ⟨rfl, fun _ => ⟨rfl, rfl, rfl⟩⟩⟩
    next hhelpers => exact ⟨hcalm, hbrought, hclosed, fun _ => ⟨rfl, fun h => absurd h hhelpers⟩⟩
  next hexited => exact ⟨hcalm, hbrought, hclosed, fun h => absurd h hexited⟩

theorem stopMain_calm (signal : Int) :
    Preserves (Of ω fun m => Calm m ∧ Brought r m ∧ Closed m ∧ Cleared m) (stopMain os signal) := by
  have hdeaf : Deaf os (Of ω fun m => Calm m ∧ Brought r m ∧ Closed m ∧ Cleared m) :=
    calm_deaf os _ fun _ _ h => h
  refine preserves_bind preserves_service fun s => ?_
  cases s.record.pid with
  | none => exact preserves_pure ()
  | some pid =>
    refine preserves_ite (fun _ => ?_) fun _ => preserves_pure ()
    refine preserves_tryCatch (preserves_bind preserves_service fun s => ?_) fun _ =>
      preserves_bind preserves_service fun _ => sendSignal_preserves hdeaf pid _
    cases s.spec.stop with
    | none => exact preserves_throw _
    | some command =>
      exact preserves_bind (preserves_required (fun _ _ h => h) _) fun _ =>
        preserves_update fun _ _ h => h

theorem limitStop_stopped (now : Instant) :
    Leads (Of ω fun m => Calm m ∧ Brought r m ∧ Closed m ∧ Cleared m) (limitStop now)
      (fun _ => Of ω (Stopped now r)) e := by
  apply leads_update
  rintro m w ⟨hcalm, hbrought, hclosed, hcleared⟩
  refine ⟨hcalm, hbrought, hclosed, hcleared, ?_⟩
  obtain ⟨hspec, hpid, -, hstate⟩ := hbrought
  have hlive : (m.record.state = .stopping ∧ m.record.pid.isSome) ↔ (Up r.state ∧ r.pid.isSome) := by
    rw [hstate, hpid, and_assoc, and_self]
  have hspec : m.record.spec = r.spec := hspec
  simp only [hlive, ManagedService.spec, hspec]

theorem stopWithSignal_stopped (now : Instant) (signal : Int) (m : ManagedService) (w : ω) :
    Ends (fun _ => Of ω (Stopped now m.record)) (fun _ _ => True)
      (stopWithSignal os now signal (m, w)) := by
  rw [stopWithSignal_eq, update_bind]
  apply ends_bind (p := fun _ => Of ω fun m' => Calm m' ∧ m'.record = m.record)
  · exact ends_updates (killDbusProbe_updates os) fun _ => ⟨⟨rfl, rfl, rfl, rfl, rfl, rfl⟩, rfl⟩
  rintro _ ⟨before, w⟩ hbefore
  rw [service_bind]
  have hspec : m.record.spec = before.spec := congrArg ServiceRecord.spec hbefore.2.symm
  apply ends_bind (askToStop_calm os signal (before, w) hbefore)
  intro _ s hs
  apply ends_bind (stopListening_calm os hspec s hs)
  intro _ s hs
  apply ends_bind (stopBare_calm os s hs)
  intro _ s hs
  apply ends_bind (ends_mono (fun _ _ h => h) (fun _ _ _ => trivial)
    (stopActive_calm os now before.record.state s hs))
  intro _ s hs
  apply ends_bind (stopResources_calm os s hs)
  intro _ s hs
  apply ends_bind (ends_mono (fun _ _ h => h) (fun _ _ _ => trivial) (stopMain_calm os signal s hs))
  intro _ s hs
  exact limitStop_stopped now s hs

end

section

variable {ω : Type} (os : Os ω) {r : ServiceRecord} {m : ManagedService} {w : ω}

/-- An operation that changes nothing. -/
def Still (x : Op ω Unit) (m : ManagedService) (w : ω) : Prop := x (m, w) = .ok () (m, w)

theorem still_of_eq {x : Op ω Unit} {n : ManagedService} (h : x (m, w) = .ok () (n, w))
    (hn : n = m) : Still x m w := hn ▸ h

/-- A service that has been stopped changes no more where it is told so again. -/
theorem Calm.same (h : Calm m) :
    { m with
      wantsRunning := false, restartAfterStop := false, restartAt := none,
      runtimeDeadline := none } = m ∧ { m with dbusProbe := none, dbusProbeAt := none } = m := by
  obtain ⟨h₁, h₂, h₃, h₄, h₅, h₆⟩ := h
  cases m
  simp only [ManagedService.mk.injEq] at *
  simp [h₁, h₂, h₃, h₄, h₅, h₆]

theorem killDbusProbe_again (h : Calm m) : Still (killDbusProbe os) m w := by
  apply still_of_eq (n := { m with dbusProbe := none, dbusProbeAt := none }) ?_ h.same.2
  rw [killDbusProbe, service_bind]
  simp only [h.2.2.2.2.1]
  rfl

theorem askToStop_again (signal : Int) (h : Brought r m) :
    Still (askToStop os signal) m w := by
  obtain ⟨-, -, hstate, -⟩ := h
  have hother : ¬ (m.record.state = .starting ∨ m.record.state = .running) := by
    rintro (hs | hs) <;> simp [hs] at hstate
  have hstop : m.record.transition .stopRequested = .ok (m.record, []) := by
    simp only [ServiceRecord.transition, ServiceRecord.stop]
    cases hs : m.record.state <;> simp [hs] at hstate <;> rfl
  simp only [askToStop, Still, service_bind, if_neg hother]
  have htransition : transition "cannot stop ".toList (fun _ => .stopRequested) (m, w) =
      .ok [] (m, w) := by
    rw [transition_ok (s := (m, w)) (x := (m.record, [])) hstop]
  exact bind_of_ok htransition

theorem closeListeners_again (remove : Bool) (h : m.listeners = []) :
    Still (closeListeners os remove) m w := by
  apply still_of_eq (n := { m with listeners := [] })
  · simp only [closeListeners, service_bind, h]
    rfl
  · rw [← h]

theorem clearActivationFds_again (howned : m.activationOwnedFds = [])
    (hnames : m.activationFdNames = []) (hfds : m.activationFds = []) :
    Still (clearActivationFds os) m w := by
  apply still_of_eq (n := { m with
    activationOwnedFds := [], activationFdNames := [], activationFds := [] })
  · simp only [clearActivationFds, service_bind, howned]
    rfl
  · cases m
    simp only at howned hnames hfds
    simp only [howned, hnames, hfds]

theorem stopListening_again (h : Closed m) : Still (stopListening os m.spec) m w := by
  unfold stopListening
  split
  next hsocket =>
    obtain ⟨hlisteners, howned, hnames, hfds⟩ := h hsocket
    exact (bind_of_ok (closeListeners_again os _ hlisteners)).trans
      (clearActivationFds_again os howned hnames hfds)
  next => rfl

theorem stopBare_again (h : Brought r m) : Still (stopBare os) m w := by
  have hprocess : ¬ (m.record.state = .stopping ∧ m.record.pid.isNone) := by
    rintro ⟨hs, hp⟩
    have hlive := (h.2.2.2.mp hs).2
    rw [← h.2.1, ← Option.not_isNone, hp] at hlive
    exact absurd hlive (by decide)
  simp only [stopBare, Still, service_bind, if_neg hprocess]
  rfl

theorem stopResources_again (h : Cleared m) : Still (stopResources os) m w := by
  by_cases hexited : m.record.state = .exited
  · obtain ⟨htrigger, hheld⟩ := h hexited
    have hreset : { m with trigger := .reset } = m := by
      rw [← htrigger]
    simp only [stopResources, Still, service_bind, if_pos hexited, resetTriggerState, update_bind,
      hreset]
    split
    next hhelpers =>
      obtain ⟨hdirectories, hcredentials, hpaths⟩ := hheld hhelpers
      apply still_of_eq (n := { m with
        directories := [], credentialDirectory := none, privateTmpPaths := none })
      · simp only [cleanupDirectories, service_bind, hdirectories, hcredentials, hpaths]
        rfl
      · cases m
        simp only at hdirectories hcredentials hpaths
        simp only [hdirectories, hcredentials, hpaths]
    next => rfl
  · simp only [stopResources, Still, service_bind, if_neg hexited]
    rfl

theorem stopWithSignal_again {now : Instant} (h : Stopped now r m) (later : Instant) (signal : Int) :
    stopWithSignal os later signal (m, w) =
      (stopMain os signal >>= fun _ => limitStop later) (m, w) := by
  obtain ⟨hcalm, hbrought, hclosed, hcleared, -⟩ := h
  have hactive : Still (stopActive os later m.record.state) m w := by
    have hstate : m.record.state ≠ .active := fun hs => by
      simp [hs, Brought] at hbrought
    simp only [stopActive, Still, service_bind, if_neg (fun h => hstate (And.left h))]
    rfl
  rw [stopWithSignal_eq, update_bind, hcalm.same.1, bind_of_ok (killDbusProbe_again os hcalm),
    service_bind, bind_of_ok (askToStop_again os signal hbrought),
    bind_of_ok (stopListening_again os hclosed), bind_of_ok (stopBare_again os hbrought),
    bind_of_ok hactive, bind_of_ok (stopResources_again os hcleared)]

end

/-- The commands that the system is asked to run are counted. -/
structure Tallies {ω : Type} (os : Os ω) (asked : ω → Nat) : Prop where
  runs : ∀ script w, asked w < asked (os.spawnCommand script w).2
  kept : ∀ {w w'}, Drifts os w w' → asked w ≤ asked w'

section

variable {ω : Type} {os : Os ω} {asked : ω → Nat} {m : ManagedService} {w : ω}

/-- Where there is a process and a stop command, the command is run. -/
theorem stopMain_asks (h : Tallies os asked) (hp : m.record.pid.isSome) (hs : m.spec.stop.isSome)
    (signal : Int) (now : Instant) :
    asked w < asked (final (stopMain os signal >>= fun _ => limitStop now) (m, w)).2 := by
  obtain ⟨pid, hp⟩ := Option.isSome_iff_exists.mp hp
  obtain ⟨command, hs⟩ := Option.isSome_iff_exists.mp hs
  have hdeaf : Deaf os fun s => asked w < asked s.2 :=
    ⟨fun h => h, fun hd hlt => Nat.lt_of_lt_of_le hlt (h.kept hd)⟩
  have hlimit : Preserves (fun s => asked w < asked s.2) (limitStop now : Op ω Unit) :=
    preserves_update fun _ _ h => h
  have hspawn : Ends (fun _ s => asked w < asked s.2) (fun _ s => asked w < asked s.2)
      (spawnStopCommand os pid (m, w)) := by
    rw [spawnStopCommand, service_bind]
    simp only [hs]
    apply ends_bind (p := fun _ s => asked w < asked s.2)
    · simp only [required, call_bind]
      cases (os.spawnCommand (script m [command] (some pid) "stop".toList) w).1 with
      | ok helper => exact h.runs _ w
      | error e => exact h.runs _ w
    · exact fun _ _ ht => ht
  have hmain : Ends (fun _ s => asked w < asked s.2) (fun _ s => asked w < asked s.2)
      (stopMain os signal (m, w)) := by
    simp only [stopMain, service_bind, hp, hs, Option.isSome_some, if_true]
    refine leads_tryCatch (i := fun s => s = (m, w)) (e := fun s => asked w < asked s.2) ?_ ?_
      (m, w) rfl
    · rintro s rfl
      exact hspawn
    · exact fun _ => preserves_bind preserves_service fun _ => sendSignal_preserves hdeaf pid _
  exact ends_final (i := fun s => asked w < asked s.2) (ends_bind hmain fun _ s hs => hlimit s hs)

theorem stopMain_again (h : m.record.pid.isSome → m.spec.stop = none) (signal : Int) :
    Still (stopMain os signal) m w := by
  rw [Still, stopMain, service_bind]
  cases hp : m.record.pid with
  | none => rfl
  | some pid =>
    rw [h (hp ▸ rfl)]
    rfl

/-- What a second stop leaves where it runs no command. -/
theorem again_final (h : m.record.pid.isSome → m.spec.stop = none) (signal : Int) (now : Instant) :
    final (stopMain os signal >>= fun _ => limitStop now) (m, w) =
      ({ m with stopDeadline :=
        if m.record.state = .stopping ∧ m.record.pid.isSome
        then timeoutDeadline now m.spec.stopTimeout else none }, w) :=
  final_of_ok (bind_of_ok (stopMain_again h signal))

theorem deadline_same {deadline : Option Instant} :
    { m with stopDeadline := deadline } = m ↔ deadline = m.stopDeadline := by
  constructor
  · intro h
    rw [← h]
  · rintro rfl
    rfl

/-- A stop that is repeated changes nothing exactly if no process is left, or if it has no command
to run and no other deadline to set. -/
theorem stop_idempotent_iff (h : Tallies os asked) {s t : ManagedService × ω}
    {first second : Instant} (hfirst : stop os first s = .ok () t) :
    ((final (stop os second) t).1 = t.1 ∧ asked (final (stop os second) t).2 = asked t.2) ↔
      (s.1.record.pid.isSome → s.1.spec.stop = none ∧
        (Up s.1.record.state → timeoutDeadline second s.1.spec.stopTimeout =
          timeoutDeadline first s.1.spec.stopTimeout)) := by
  obtain ⟨m, w⟩ := s
  obtain ⟨m₁, w₁⟩ := t
  change (_ = m₁ ∧ _ = asked w₁) ↔ (m.record.pid.isSome → m.spec.stop = none ∧
    (Up m.record.state → timeoutDeadline second m.spec.stopTimeout =
      timeoutDeadline first m.spec.stopTimeout))
  have hstopped : Stopped first m.record m₁ := by
    have hends := stopWithSignal_stopped os first m.spec.killSignal m w
    change stopWithSignal os first m.spec.killSignal (m, w) = _ at hfirst
    rwa [hfirst] at hends
  have hagain := stopWithSignal_again os (w := w₁) hstopped second m₁.spec.killSignal
  have hsecond : final (stop os second) (m₁, w₁) =
      final (stopMain os m₁.spec.killSignal >>= fun _ => limitStop second) (m₁, w₁) := by
    rw [final, final, ← hagain]
    rfl
  rw [hsecond]
  obtain ⟨-, ⟨hspec, hpid, -, hstate⟩, -, -, hdeadline⟩ := hstopped
  have hspec' : m₁.spec = m.spec := hspec
  by_cases hruns : m.record.pid.isSome → m.spec.stop = none
  · have hlive : (m₁.record.state = .stopping ∧ m₁.record.pid.isSome) ↔
        (Up m.record.state ∧ m.record.pid.isSome) := by
      rw [hstate, hpid, and_assoc, and_self]
    have hnone : m₁.record.pid.isSome → m₁.spec.stop = none := by rwa [hspec', hpid]
    rw [again_final hnone, deadline_same, hdeadline, and_iff_left rfl]
    simp only [hlive, hspec']
    by_cases hlive : Up m.record.state ∧ m.record.pid.isSome
    · rw [if_pos hlive, if_pos hlive]
      exact ⟨fun he hp => ⟨hruns hp, fun _ => he⟩, fun he => (he hlive.2).2 hlive.1⟩
    · rw [if_neg hlive, if_neg hlive]
      exact iff_of_true rfl fun hp => ⟨hruns hp, fun hup => absurd ⟨hup, hp⟩ hlive⟩
  · obtain ⟨hp, hs⟩ := Classical.not_imp.mp hruns
    have hasks := stopMain_asks h (m := m₁) (w := w₁) (hpid ▸ hp)
      (hspec' ▸ Option.isSome_iff_ne_none.mpr hs) m₁.spec.killSignal second
    exact iff_of_false (fun he => absurd he.2 hasks.ne') fun he => hs (he hp).1

end

/-- A system on which the commands of a service can be run. -/
def commandOs : Os Box :=
  { boxOs with
    spawnCommand := fun _ w =>
      (.ok ⟨w.processes + 1, false⟩, { w with processes := w.processes + 1 }) }

theorem commandOs_tallies : Tallies commandOs Box.processes where
  runs _ w := Nat.lt_succ_self w.processes
  kept h := by
    cases h with
    | spawnCommand => exact Nat.le_succ _
    | tryWait handle => cases handle <;> exact Nat.le_refl _
    | _ => exact Nat.le_refl _

def commandedAfter (spec : ServiceSpec) (requests : List (Box × Request)) : ManagedService × Box :=
  Machine.EventRuns.final (lifetime commandOs) (.ofRecord (fresh spec), box) requests

/-- A service that may take any time to stop. -/
def patient : ServiceSpec := { plainService ['a'] with stopTimeout := durationMax }

def patientStarted : ManagedService × Box := commandedAfter patient [(box, .start 0)]

theorem stop_idempotent_iff_patient :
    patientStarted.1.record.state = .running ∧ patientStarted.1.record.pid.isSome ∧
      (final (stop commandOs 2) (final (stop commandOs 1) patientStarted)).1 =
        (final (stop commandOs 1) patientStarted).1 := by
  have hfirst : stop commandOs 1 patientStarted = .ok () (final (stop commandOs 1) patientStarted) :=
    ok_final (by decide +kernel)
  have hsame : patientStarted.1.spec.stop = none ∧
      timeoutDeadline 2 patientStarted.1.spec.stopTimeout =
        timeoutDeadline 1 patientStarted.1.spec.stopTimeout := by decide +kernel
  have hagain := (stop_idempotent_iff commandOs_tallies hfirst).mpr
    fun _ => ⟨hsame.1, fun _ => hsame.2⟩
  exact ⟨by decide +kernel, by decide +kernel, hagain.1⟩

def commanded : ServiceSpec := { plainService ['a'] with stop := some ⟨"/bin/halt".toList, []⟩ }

/-- The second stop runs the command a second time in place of the first one, and puts the
deadline off. -/
theorem stop_repeated :
    let once := commandedAfter commanded [(box, .start 0), (⟨0, 1, true, []⟩, .stop 1)]
    let twice := final (stop commandOs 2) once
    once.1.record.state = .stopping ∧
      (once.1.stopCommand = some ⟨2, false⟩ ∧ once.1.stopDeadline = some (1 + seconds 5)) ∧
      (twice.1.stopCommand = some ⟨3, false⟩ ∧ twice.1.stopDeadline = some (2 + seconds 5)) := by
  decide +kernel

end FractalD.Supervisor.RepeatedStop
