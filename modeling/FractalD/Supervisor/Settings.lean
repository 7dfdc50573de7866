import FractalD.Core.Restarts
import FractalD.Supervisor.Stopping

namespace FractalD.Supervisor.Settings

open FractalD.Core.Record FractalD.Core.Restarts FractalD.Core.Spec FractalD.Machine.CString
open FractalD.Machine.Effect FractalD.Supervisor.Frame FractalD.Supervisor.Service
open FractalD.Supervisor.Stopping FractalD.Supervisor.System

def HasSpec (ω : Type) (spec : ServiceSpec) (s : ManagedService × ω) : Prop := s.1.spec = spec

/-- What the remembered signal of a stop may be, so that it may be dropped and be the one that
the service is to be stopped with. -/
structure Memory (spec : ServiceSpec) where
  holds : Option Int → Prop
  dropped : holds none
  plain : holds (some spec.killSignal)

def Remembers (ω : Type) {spec : ServiceSpec} (p : Memory spec) (s : ManagedService × ω) : Prop :=
  s.1.spec = spec ∧ p.holds s.1.stopSignal

section

variable {ω α : Type} {os : Os ω} {spec : ServiceSpec} {p : Memory spec}

theorem remembers_insensitive : Insensitive os (Remembers ω p) :=
  marked_insensitive (q := fun r signal => r.spec = spec ∧ p.holds signal)

theorem remembers_update {f : ManagedService → ManagedService}
    (h : ∀ m, ((f m).spec, (f m).stopSignal) = (m.spec, m.stopSignal)) :
    Preserves (Remembers ω p) (update f : Op ω Unit) := by
  apply preserves_update
  intro m w hm
  obtain ⟨hspec, hsignal⟩ := Prod.ext_iff.mp (h m)
  have hspec : (f m).spec = m.spec := hspec
  have hsignal : (f m).stopSignal = m.stopSignal := hsignal
  rwa [Remembers, hspec, hsignal]

theorem remembers_call (c : Call ω α) : Preserves (Remembers ω p) (call c) :=
  preserves_call fun _ _ hm => hm

theorem remembers_record {m : ManagedService} {w : ω} {event : Event} {record : ServiceRecord}
    {actions : List Action} (h : m.record.transition event = .ok (record, actions))
    (hm : Remembers ω p (m, w)) : Remembers ω p ({ m with record := record }, w) :=
  ⟨(transition_moved h).spec.trans hm.1, hm.2⟩

theorem remembers_transition (describe : Str) (event : ServiceRecord → Event) :
    Preserves (Remembers ω p) (transition describe event : Op ω (List Action)) :=
  preserves_transition fun _ _ _ _ hm h => remembers_record h hm

end

section

variable {ω α : Type} (os : Os ω) {spec : ServiceSpec} {p : Memory spec}

theorem cleanupDirectories_remembers : Preserves (Remembers ω p) (cleanupDirectories os) :=
  cleanupDirectories_marked (q := fun r signal => r.spec = spec ∧ p.holds signal) os

theorem markSpawnFailed_remembers (generation : Nat) (now : Instant) :
    Preserves (Remembers ω p) (markSpawnFailed os generation now) := by
  refine preserves_bind (killExecConditionHelper_preserves remembers_insensitive) fun _ => ?_
  refine preserves_bind (clearActivationFds_preserves remembers_insensitive) fun _ => ?_
  refine preserves_bind (cleanupDirectories_remembers os) fun _ => ?_
  refine preserves_bind (remembers_transition _ _) fun actions => preserves_forM (fun action => ?_) _
  cases action with
  | scheduleRestart generation after => exact remembers_update fun _ => rfl
  | sendSignal pid signal => exact sendSignal_preserves remembers_insensitive.deaf pid signal
  | spawn generation => exact preserves_pure ()

theorem orSpawnFailed_remembers {undo : Op ω Unit} (hu : Preserves (Remembers ω p) undo)
    (generation : Nat) (now : Instant) (describe : Str) (c : Call ω (Except Str α)) :
    Preserves (Remembers ω p) (orSpawnFailed os undo generation now describe c) := by
  refine preserves_bind (remembers_call c) fun r => ?_
  cases r with
  | ok a => exact preserves_pure a
  | error e =>
    exact preserves_bind hu fun _ => preserves_bind (markSpawnFailed_remembers os generation now)
      fun _ => preserves_throw _

theorem prepareReadiness_remembers (spec' : ServiceSpec) (generation : Nat) (now : Instant) :
    Preserves (Remembers ω p) (prepareReadiness os spec' generation now) := by
  refine preserves_ite (fun _ => ?_) fun _ => preserves_pure none
  rw [map_eq_pure_bind]
  exact preserves_bind (orSpawnFailed_remembers os (preserves_pure ()) _ _ _ _) fun _ =>
    preserves_pure _

theorem launchMain_remembers (spec' : ServiceSpec) (notify cgroup : Option Str) (generation : Nat)
    (now : Instant) :
    Preserves (Remembers ω p) (launchMain os spec' notify cgroup generation now) := by
  have hframe : Insensitive os (Remembers ω p) := remembers_insensitive
  have hu := undoLaunch_preserves hframe notify cgroup
  refine preserves_bind preserves_service fun s => ?_
  refine preserves_bind (orSpawnFailed_remembers os hu _ _ _ _) fun _ => ?_
  refine preserves_bind (orSpawnFailed_remembers os hu _ _ _ _) fun _ => ?_
  refine preserves_bind (orSpawnFailed_remembers os hu _ _ _ _) fun _ => ?_
  refine preserves_bind preserves_service fun s => ?_
  refine preserves_bind (remembers_update fun _ => rfl) fun _ => ?_
  refine preserves_bind (orSpawnFailed_remembers os hu _ _ _ _) fun _ => ?_
  refine preserves_bind (remembers_call _) fun spawned => ?_
  refine preserves_bind (preserves_forM (fun _ => remembers_call _) _) fun _ => ?_
  exact orSpawnFailed_remembers os hu _ _ _ _

section

variable {undo : Op ω Unit} (hu : Preserves (Remembers ω p) undo)

include hu

theorem forwardJournal_remembers (wanted : Bool) (label : String) (pid generation : Nat)
    (now : Instant) :
    Preserves (Remembers ω p) (forwardJournal os wanted label pid undo generation now) :=
  preserves_bind preserves_service fun _ =>
    preserves_ite (fun _ => orSpawnFailed_remembers os hu _ _ _ _) fun _ => preserves_pure ()

theorem attachMain_remembers (cgroup : Option Str) (pid generation : Nat) (now : Instant) :
    Preserves (Remembers ω p) (attachMain os cgroup pid undo generation now) :=
  preserves_optionForM (fun _ => orSpawnFailed_remembers os hu _ _ _ _) _

theorem openMainPidFd_remembers (pid generation : Nat) (now : Instant) :
    Preserves (Remembers ω p) (openMainPidFd os pid undo generation now) := by
  refine preserves_bind (remembers_call _) fun r => ?_
  cases r with
  | opened => exact preserves_pure true
  | unavailable => exact preserves_pure false
  | failed e => exact orSpawnFailed_remembers os hu _ _ _ _

theorem registerMain_remembers (generation pid : Nat) (pidfd : Bool) :
    Preserves (Remembers ω p) (registerMain os generation pid pidfd undo) := by
  refine preserves_service_bind fun m w hm => ?_
  cases hr : m.record.transition (.spawned pid generation) with
  | ok x => exact remembers_record hr hm
  | error e =>
    suffices hrest : Preserves (Remembers ω p) (do
        if pidfd then let _ ← call (os.pidfdSendSignal pid sigKill)
        else call (os.kill pid)
        undo
        throw ("cannot register ".toList ++ printUnsigned pid) : Op ω Unit) from hrest _ hm
    have hthrow : Preserves (Remembers ω p) (do
        undo
        throw ("cannot register ".toList ++ printUnsigned pid) : Op ω Unit) :=
      preserves_bind hu fun _ => preserves_throw _
    exact preserves_ite (fun _ => preserves_bind (remembers_call _) fun _ => hthrow) fun _ =>
      preserves_bind (remembers_call _) fun _ => hthrow

end

theorem spawnMain_remembers (generation : Nat) (now : Instant) :
    Preserves (Remembers ω p) (spawnMain os generation now) := by
  have hframe : Insensitive os (Remembers ω p) := remembers_insensitive
  have hu := undoLaunch_preserves hframe
  refine preserves_bind preserves_service fun s => ?_
  refine preserves_bind (orSpawnFailed_remembers os (preserves_pure ()) _ _ _ _) fun _ => ?_
  refine preserves_bind (prepareReadiness_remembers os _ _ now) fun notify => ?_
  refine preserves_bind (orSpawnFailed_remembers os (hu notify none) _ _ _ _) fun cgroup => ?_
  refine preserves_bind (launchMain_remembers os _ notify cgroup _ now) fun ⟨pid, _⟩ => ?_
  have hk := preserves_bind (remembers_call (os.kill pid)) fun _ => hu notify cgroup
  refine preserves_bind (forwardJournal_remembers os hk _ _ pid _ now) fun _ => ?_
  refine preserves_bind (forwardJournal_remembers os hk _ _ pid _ now) fun _ => ?_
  refine preserves_bind (attachMain_remembers os hk cgroup pid _ now) fun _ => ?_
  refine preserves_bind (preserves_look _) fun oomEvents => ?_
  refine preserves_bind (openMainPidFd_remembers os hk pid _ now) fun pidfd => ?_
  refine preserves_bind (registerMain_remembers os (hu notify cgroup) _ pid pidfd) fun _ => ?_
  refine preserves_bind (remembers_update fun _ => rfl) fun _ => ?_
  exact preserves_ite (fun _ => spawnStartPost_preserves remembers_insensitive pid) fun _ =>
    preserves_pure ()

theorem spawnSocket_remembers (generation : Nat) (now : Instant) :
    Preserves (Remembers ω p) (spawnSocket os generation now) := by
  refine preserves_service_bind fun m w hm => ?_
  refine ends_bind (orSpawnFailed_remembers os (preserves_pure ()) _ _ _ _ (m, w) hm)
    fun listeners t ht => ?_
  cases hr : m.record.transition (.activated generation) with
  | ok x => exact ⟨(transition_moved hr).spec.trans hm.1, ht.2⟩
  | error e =>
    suffices hclose : Preserves (Remembers ω p) (do
        listeners.forM fun listener => call (os.closeListener listener true)
        throw ("cannot activate socket ".toList ++ m.spec.name) : Op ω Unit) from hclose t ht
    exact preserves_bind (preserves_forM (fun _ => remembers_call _) _) fun _ => preserves_throw _

theorem spawnTrigger_remembers (generation : Nat) (now : Instant) :
    Preserves (Remembers ω p) (spawnTrigger os generation now) :=
  preserves_bind (remembers_transition _ _) fun _ => preserves_bind preserves_service fun _ =>
    preserves_bind (preserves_look _) fun _ => remembers_update fun _ => rfl

theorem spawn_remembers (generation : Nat) (now : Instant) :
    Preserves (Remembers ω p) (spawn os generation now) := by
  refine preserves_bind preserves_service fun s => ?_
  refine preserves_ite (fun _ => spawnSocket_remembers os generation now) fun _ => ?_
  refine preserves_ite (fun _ => spawnTrigger_remembers os generation now) fun _ => ?_
  refine preserves_ite (fun _ => ?_) fun _ => preserves_ite (fun _ => ?_) fun _ =>
    spawnMain_remembers os generation now
  · exact preserves_bind (orSpawnFailed_remembers os (preserves_pure ()) _ _ _ _) fun _ =>
      remembers_update fun _ => rfl
  · exact preserves_bind (orSpawnFailed_remembers os (preserves_pure ()) _ _ _ _) fun _ =>
      remembers_update fun _ => rfl

theorem applyStartActions_remembers (actions : List Action) (now : Instant) :
    Preserves (Remembers ω p) (applyStartActions os actions now) := by
  refine preserves_forM (fun action => ?_) actions
  cases action with
  | spawn generation => exact spawn_remembers os generation now
  | sendSignal pid signal => exact applyAction_preserves remembers_insensitive.deaf _
  | scheduleRestart generation after => exact applyAction_preserves remembers_insensitive.deaf _

theorem enforceStartLimit_remembers (now : Instant) :
    Preserves (Remembers ω p) (enforceStartLimit os now) := by
  refine preserves_bind preserves_service fun s => ?_
  refine preserves_ite (fun _ => preserves_pure ()) fun _ => ?_
  refine preserves_ite (fun _ => preserves_bind (remembers_update fun _ => rfl) fun _ =>
    preserves_pure ()) fun _ => ?_
  refine preserves_bind (remembers_update fun _ => rfl) fun _ => ?_
  have hlast : ∀ attempts, Preserves (Remembers ω p)
      (update ({ · with startAttempts := attempts }) : Op ω Unit) :=
    fun _ => remembers_update fun _ => rfl
  refine preserves_ite (fun _ => ?_) fun _ => hlast _
  refine preserves_bind (remembers_transition _ _) fun _ => ?_
  refine preserves_bind (remembers_update fun _ => rfl) fun _ => ?_
  have hframe : Insensitive os (Remembers ω p) := remembers_insensitive
  refine preserves_bind (resetTriggerState_preserves hframe) fun _ => ?_
  refine preserves_bind (cleanupDirectories_remembers os) fun _ => ?_
  exact preserves_bind (preserves_throw _) fun _ => hlast _

theorem prepare_remembers (generation : Nat) (now : Instant) :
    Preserves (Remembers ω p) (prepare os generation now) := by
  have hu : Preserves (Remembers ω p) (cleanupDirectories os) := cleanupDirectories_remembers os
  refine preserves_bind preserves_service fun s => ?_
  refine preserves_bind (orSpawnFailed_remembers os hu _ _ _ _) fun _ => ?_
  refine preserves_bind (remembers_update fun _ => rfl) fun _ => ?_
  refine preserves_bind (orSpawnFailed_remembers os hu _ _ _ _) fun _ => ?_
  refine preserves_bind (remembers_update fun _ => rfl) fun _ => ?_
  refine preserves_bind (orSpawnFailed_remembers os hu _ _ _ _) fun _ => ?_
  exact remembers_update fun _ => rfl

theorem startAfresh_remembers (now : Instant) :
    Preserves (Remembers ω p) (startAfresh os now) := by
  refine preserves_bind (enforceStartLimit_remembers os now) fun _ => ?_
  refine preserves_bind (preserves_update fun _ _ hm => ⟨hm.1, p.dropped⟩) fun _ => ?_
  refine preserves_bind (remembers_transition _ _) fun actions => ?_
  refine preserves_bind preserves_service fun s => ?_
  refine preserves_bind (preserves_look _) fun met => preserves_bind (preserves_look _) fun _ => ?_
  refine preserves_ite (fun _ => preserves_bind (remembers_transition _ _) fun _ =>
    remembers_update fun _ => rfl) fun _ => ?_
  refine preserves_ite (fun _ => preserves_bind (remembers_transition _ _) fun _ =>
    remembers_update fun _ => rfl) fun _ => ?_
  refine preserves_bind (remembers_update fun _ => rfl) fun _ => ?_
  refine preserves_bind (prepare_remembers os _ now) fun _ => ?_
  exact preserves_bind (remembers_update fun _ => rfl) fun _ =>
    applyStartActions_remembers os actions now

theorem start_remembers (now : Instant) : Preserves (Remembers ω p) (start os now) := by
  refine preserves_bind (remembers_update fun _ => rfl) fun _ => ?_
  refine preserves_bind preserves_service fun s => ?_
  cases s.record.state with
  | running | starting | active => exact preserves_pure ()
  | stopping => exact remembers_update fun _ => rfl
  | exited =>
    exact preserves_ite (fun _ => remembers_update fun _ => rfl) fun _ => startAfresh_remembers os now
  | defined | backoff | skipped | failed => exact startAfresh_remembers os now

theorem spawnStopPost_remembers (pid : Option Nat) :
    Preserves (Remembers ω p) (spawnStopPost os pid) :=
  spawnStopPost_marked (q := fun r signal => r.spec = spec ∧ p.holds signal) os pid

section

variable {signal : Int} (hs : p.holds (some signal))

include hs

theorem askToStop_remembers : Preserves (Remembers ω p) (askToStop os signal) := by
  have hask : Preserves (Remembers ω p) (do
      applyActions os (← transition "cannot stop ".toList fun _ => .stopRequested)) :=
    preserves_bind (remembers_transition _ _) fun actions =>
      applyActions_preserves remembers_insensitive.deaf actions
  refine preserves_bind preserves_service fun _ => preserves_bind preserves_service fun _ => ?_
  refine preserves_ite (fun _ => ?_) fun _ => hask
  exact preserves_bind (preserves_update fun _ _ hm => ⟨hm.1, hs⟩) fun _ => hask

theorem stopWithSignal_remembers (now : Instant) :
    Preserves (Remembers ω p) (stopWithSignal os now signal) := by
  have hframe : Insensitive os (Remembers ω p) := remembers_insensitive
  rw [stopWithSignal_eq]
  refine preserves_bind (remembers_update fun _ => rfl) fun _ => ?_
  refine preserves_bind (killDbusProbe_preserves hframe) fun _ => ?_
  refine preserves_bind preserves_service fun before => ?_
  refine preserves_bind (askToStop_remembers os hs) fun _ => ?_
  apply afterAsking_marked (q := fun r signal => r.spec = spec ∧ p.holds signal)
  exact fun _ _ _ _ hr h => ⟨(transition_moved h).spec.trans hr.1, hr.2⟩

end

theorem stop_remembers (now : Instant) : Preserves (Remembers ω p) (stop os now) :=
  preserves_service_bind fun m w hm =>
    stopWithSignal_remembers os (hm.1 ▸ p.plain : p.holds (some m.spec.killSignal)) now (m, w) hm

end

section

variable {ω α : Type} {os : Os ω} {spec : ServiceSpec}

def Memory.any (spec : ServiceSpec) : Memory spec := ⟨fun _ => True, trivial, trivial⟩

theorem hasSpec_iff {s : ManagedService × ω} :
    Remembers ω (Memory.any spec) s ↔ HasSpec ω spec s := and_iff_left trivial

theorem hasSpec_of_remembers {x : Op ω α} (h : Preserves (Remembers ω (Memory.any spec)) x) :
    Preserves (HasSpec ω spec) x :=
  fun s hs => ends_mono (fun _ _ => hasSpec_iff.mp) (fun _ _ => hasSpec_iff.mp)
    (h s (hasSpec_iff.mpr hs))

theorem hasSpec_insensitive : Insensitive os (HasSpec ω spec) :=
  onRecord_insensitive (p := (·.spec = spec))

variable (os)

theorem start_hasSpec (now : Instant) : Preserves (HasSpec ω spec) (start os now) :=
  hasSpec_of_remembers (start_remembers os now)

theorem stop_hasSpec (now : Instant) : Preserves (HasSpec ω spec) (stop os now) :=
  hasSpec_of_remembers (stop_remembers os now)

end

end FractalD.Supervisor.Settings
