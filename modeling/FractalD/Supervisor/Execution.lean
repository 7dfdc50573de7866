import FractalD.Supervisor.Stopping
import FractalD.Supervisor.StartFailure

namespace FractalD.Supervisor.Execution

open FractalD.Core.Record FractalD.Core.Spec FractalD.Machine.CString FractalD.Machine.Effect
open FractalD.Supervisor.Frame FractalD.Supervisor.Service FractalD.Supervisor.ServicePoll
open FractalD.Supervisor.StartFailure FractalD.Supervisor.System

variable {ω α β : Type}

def On (ω : Type) (p : Core → Prop) (s : ManagedService × ω) : Prop := p (core s.1)

/-- A condition that survives that the helpers of a start and descriptors are dropped. -/
structure Loose (p : Core → Prop) : Prop where
  startHelper : ∀ {c}, p c → p { c with startHelper := none }
  execConditionHelper : ∀ {c}, p c → p { c with execConditionHelper := none }
  listeners : ∀ {c}, p c → p { c with listeners := [] }
  activation : ∀ {c}, p c → p { c with activation := ([], [], []) }

section

variable {p p' : Core → Prop} {os : Os ω}

theorem Loose.insensitive (h : Loose p) : Insensitive os (On ω p) := by
  apply insensitive_service (q := fun m => p (core m))
  · intro m m' hc _ hm
    exact hc ▸ hm
  · exact h.startHelper
  · exact h.execConditionHelper
  · exact h.listeners
  · exact h.activation

theorem Loose.and (h : Loose p) (h' : Loose p') : Loose fun c => p c ∧ p' c :=
  ⟨fun hc => hc.imp h.startHelper h'.startHelper,
    fun hc => hc.imp h.execConditionHelper h'.execConditionHelper,
    fun hc => hc.imp h.listeners h'.listeners, fun hc => hc.imp h.activation h'.activation⟩

theorem loose_of_congr (h : ∀ {c c' : Core}, c'.record = c.record →
    c'.wantsRunning = c.wantsRunning → c'.restartAfterStop = c.restartAfterStop →
      c'.startDeadline = c.startDeadline → p c → p c') : Loose p :=
  ⟨h rfl rfl rfl rfl, h rfl rfl rfl rfl, h rfl rfl rfl rfl, h rfl rfl rfl rfl⟩

end

/-- The operation succeeds and does this to the service. -/
def Updates (f : ManagedService → ManagedService) (x : Op ω Unit) : Prop :=
  ∀ m w, ∃ w', x (m, w) = .ok () (f m, w')

section

variable {f g : ManagedService → ManagedService} {x y : Op ω Unit} {γ : Type}

theorem updates_update : Updates f (update f : Op ω Unit) := fun _ w => ⟨w, rfl⟩

theorem updates_pure : Updates id (pure () : Op ω Unit) := fun _ w => ⟨w, rfl⟩

theorem updates_call (c : Call ω Unit) : Updates id (call c) := fun _ w => ⟨(c w).2, rfl⟩

theorem updates_bind (hx : Updates f x) (hy : Updates g y) :
    Updates (fun m => g (f m)) (x >>= fun _ => y) := by
  intro m w
  obtain ⟨w₁, h₁⟩ := hx m w
  obtain ⟨w₂, h₂⟩ := hy (f m) w₁
  exact ⟨w₂, (bind_of_ok h₁).trans h₂⟩

theorem updates_service {k : ManagedService → Op ω Unit}
    (h : ∀ m w, ∃ w', k m (m, w) = .ok () (f m, w')) : Updates f (service >>= k) := h

theorem updates_forM {k : γ → Op ω Unit} (hk : ∀ c, Updates id (k c)) (l : List γ) :
    Updates id (l.forM k) := by
  induction l with
  | nil => exact updates_pure
  | cons c l ih => exact updates_bind (hk c) ih

theorem updates_optionForM {k : γ → Op ω Unit} (hk : ∀ c, Updates id (k c)) (o : Option γ) :
    Updates id (o.forM k) := by
  cases o with
  | none => exact updates_pure
  | some c => exact hk c

theorem updates_after (hx : Updates id x) (hy : Updates g y) : Updates g (x >>= fun _ => y) :=
  updates_bind hx hy

theorem updates_last (hx : Updates id x) (m : ManagedService) (w : ω) :
    ∃ w', (x >>= fun _ => update f) (m, w) = .ok () (f m, w') := updates_after hx updates_update m w

theorem ends_updates {p : Unit → ManagedService × ω → Prop} {q : Str → ManagedService × ω → Prop}
    (hx : Updates f x) {m : ManagedService} {w : ω} (h : ∀ w, p () (f m, w)) :
    Ends p q (x (m, w)) := by
  obtain ⟨w', hw⟩ := hx m w
  rw [hw]
  exact h w'

theorem leads_updates {p q : Core → Prop} {e : ManagedService × ω → Prop} (hx : Updates f x)
    (h : ∀ m, p (core m) → q (core (f m))) : Leads (On ω p) x (fun _ => On ω q) e := by
  rintro ⟨m, w⟩ hm
  apply ends_updates hx
  intro w'
  exact h m hm

end

section

variable (os : Os ω)

theorem killHelper_updates (helper : Option HelperProcess) : Updates id (killHelper os helper) :=
  updates_optionForM (fun _ => updates_call _) helper

theorem killExecConditionHelper_updates :
    Updates ({ · with execConditionHelper := none }) (killExecConditionHelper os) := by
  apply updates_service
  intro m
  exact updates_last (killHelper_updates os _) m

theorem killStartHelper_updates :
    Updates ({ · with startHelper := none }) (killStartHelper os) := by
  apply updates_service
  intro m
  exact updates_last (killHelper_updates os _) m

theorem killActiveStopHelper_updates :
    Updates ({ · with activeStopHelper := none }) (killActiveStopHelper os) := by
  apply updates_service
  intro m
  exact updates_last (killHelper_updates os _) m

theorem killStopPostHelper_updates :
    Updates ({ · with stopPostHelper := none }) (killStopPostHelper os) := by
  apply updates_service
  intro m
  exact updates_last (killHelper_updates os _) m

theorem clearActivationFds_updates :
    Updates ({ · with activationOwnedFds := [], activationFdNames := [], activationFds := [] })
      (clearActivationFds os) := by
  apply updates_service
  intro m
  exact updates_last (updates_forM (fun _ => updates_call _) _) m

theorem closeListeners_updates (removeOnStop : Bool) :
    Updates ({ · with listeners := [] }) (closeListeners os removeOnStop) := by
  apply updates_service
  intro m
  exact updates_last (updates_forM (fun _ => updates_call _) _) m

theorem killStartPostHelper_updates :
    Updates ({ · with startPostHelper := none }) (killStartPostHelper os) := by
  apply updates_service
  intro m
  exact updates_last (killHelper_updates os _) m

theorem killStopCommand_updates :
    Updates ({ · with stopCommand := none }) (killStopCommand os) := by
  apply updates_service
  intro m
  exact updates_last (killHelper_updates os _) m

theorem killReloadCommand_updates :
    Updates (fun m => { m with
      reloadCommand := none, reloadFailed := m.reloadFailed || m.reloadCommand.isSome })
      (killReloadCommand os) := by
  apply updates_service
  intro m w
  obtain ⟨w', hw⟩ := killHelper_updates os m.reloadCommand m w
  exact ⟨w', bind_of_ok hw⟩

theorem killDbusProbe_updates :
    Updates ({ · with dbusProbe := none, dbusProbeAt := none }) (killDbusProbe os) := by
  apply updates_service
  intro m
  exact updates_last (updates_optionForM (fun _ => updates_call _) _) m

theorem cleanupDirectories_updates :
    Updates ({ · with directories := [], credentialDirectory := none, privateTmpPaths := none })
      (cleanupDirectories os) := by
  apply updates_service
  intro m
  have hpaths (paths : PrivateTmpPaths) : Updates id (do
      call (os.removeTree paths.tmp)
      call (os.removeTree paths.varTmp) : Op ω Unit) := updates_bind (updates_call _) (updates_call _)
  have hpath (path : Str) : Updates id (call (os.removeTree path)) := updates_call _
  have hdirectory (d : ManagedDirectory) : Updates id (call (os.removeDirectory d.path)) :=
    updates_call _
  apply updates_after (updates_forM hdirectory _)
  apply updates_after (updates_optionForM hpath _)
  exact updates_after (updates_optionForM hpaths _) updates_update

end

section

variable {os : Os ω} {m : ManagedService} {w : ω} {describe : Str} {event : ServiceRecord → Event}
variable {p : List Action → ManagedService × ω → Prop} {q : Str → ManagedService × ω → Prop}

theorem ends_transition
    (h : ∀ r actions, m.record.transition (event m.record) = .ok (r, actions) →
      p actions ({ m with record := r }, w))
    (he : q (describe ++ m.spec.name) (m, w)) : Ends p q (transition describe event (m, w)) := by
  rw [transition, service_bind]
  cases hr : m.record.transition (event m.record) with
  | ok x => exact h x.1 x.2 hr
  | error e => exact he

theorem ends_transition_ok {x : ServiceRecord × List Action}
    (h : m.record.transition (event m.record) = .ok x) (hp : p x.2 ({ m with record := x.1 }, w)) :
    Ends p q (transition describe event (m, w)) := by
  rw [transition_ok h]
  exact hp

end

section

variable {p : α → ManagedService × ω → Prop} {e : ManagedService × ω → Prop}
variable {i : ManagedService × ω → Prop}

theorem leads_service {k : ManagedService → Op ω α}
    (h : ∀ m w, i (m, w) → Ends p (fun _ => e) (k m (m, w))) : Leads i (service >>= k) p e :=
  fun s hs => h s.1 s.2 hs

theorem leads_service_bind {k : ManagedService → Op ω α} (h : ∀ m, Leads i (k m) p e) :
    Leads i (service >>= k) p e :=
  fun s hs => h s.1 s hs

theorem leads_look_bind {γ : Type} {g : ω → γ} {k : γ → Op ω α} (h : ∀ a, Leads i (k a) p e) :
    Leads i (look g >>= k) p e :=
  fun s hs => h (g s.2) s hs

theorem leads_update {f : ManagedService → ManagedService}
    {p : Unit → ManagedService × ω → Prop} (h : ∀ m w, i (m, w) → p () (f m, w)) :
    Leads i (update f : Op ω Unit) p e :=
  fun s hs => h s.1 s.2 hs

theorem leads_tryCatch {x : Op ω α} {h : Str → Op ω α} {e' : ManagedService × ω → Prop}
    (hx : Leads i x p e) (hh : ∀ err, Leads e (h err) p e') : Leads i (tryCatch x h) p e' := by
  intro s hs
  have hend := hx s hs
  change Ends _ _ (EStateM.tryCatch x h s)
  rw [EStateM.tryCatch]
  cases hr : x s with
  | ok a t =>
    rw [hr] at hend
    exact hend
  | error err t =>
    rw [hr] at hend
    exact hh err t hend

theorem leads_update_bind {f : ManagedService → ManagedService} {k : Unit → Op ω α}
    {i j : Core → Prop} (h : ∀ m, i (core m) → j (core (f m))) (hk : Leads (On ω j) (k ()) p e) :
    Leads (On ω i) (update f >>= k) p e :=
  fun s hs => hk _ (h s.1 hs)

theorem leads_aside {p : Core → Prop} (c : Call ω α) :
    Leads (On ω p) (call c) (fun _ => On ω p) e :=
  fun _ hs => hs

end

end FractalD.Supervisor.Execution
