import FractalD.Daemon.Idempotence

namespace FractalD.Daemon.Atomicity

open FractalD.Core.Record FractalD.Core.Spec FractalD.Daemon.Idempotence FractalD.Daemon.Reload
open FractalD.Machine.CString FractalD.Machine.Effect FractalD.Machine.OrderedMap
open FractalD.Manager.Issues FractalD.Manager.Jobs FractalD.Manager.Registry
open FractalD.Manager.Resolution FractalD.Manager.Runs FractalD.Manager.Survival FractalD.Manager.Waiting
open FractalD.Supervisor.System

/-- The same services are up, and all have the same settings. -/
structure Unchanged (s t : Supervisor) : Prop where
  up : ∀ name, (s.state name).any serviceWasUp = (t.state name).any serviceWasUp
  settings : settings t = settings s

section

variable {ω : Type} (os : Os ω) (src : Sources ω)

/-- A reload that fails changes nothing. -/
def FailsUnchanged (s : Supervisor × ω) : Prop :=
  ∀ depth turns e t, reloadNativeConfiguration os src depth turns s = .error (.error e) t →
    Unchanged s.1 t.1

/-- The reload fails before it stops anything, or it has nothing to stop and what
follows cannot fail. -/
def StopsNothingInVain (s : Supervisor × ω) : Prop :=
  match src.loadAllServiceSpecs s.2 with
  | (.error _, _) => True
  | (.ok specs, w) => stoppingFor specs s.1 = [] ∧
      (¬ Accepts os specs (s.1, (os.now w).2) ∨ ∀ w, ∃ names, (src.enabledNames w).1 = .ok names)

theorem unchanged_refl (s : Supervisor) : Unchanged s s := ⟨fun _ => rfl, rfl⟩

variable {os} {depth : Nat}

theorem raises_attempt {α : Type} {x : Manage ω α} :
    Raises (· = .stackOverflow) (attempt x) := by
  intro s e t h
  rw [attempt] at h
  split at h
  · cases h
  · cases h
  · cases h
    rfl

theorem raises_supervisor : Raises (· = .stackOverflow) (supervisor : Manage ω Supervisor) :=
  raises_of_ok fun _ => ⟨_, _, rfl⟩

theorem raises_call {α : Type} (c : Call ω α) : Raises (· = .stackOverflow) (call c) :=
  raises_of_ok fun _ => ⟨_, _, rfl⟩

theorem raises_forM {α : Type} {f : α → Manage ω Unit}
    (hf : ∀ a, Raises (· = .stackOverflow) (f a)) (l : List α) :
    Raises (· = .stackOverflow) (l.forM f) := by
  induction l with
  | nil => exact raises_pure ()
  | cons a l ih => exact raises_bind (hf a) fun _ => ih

theorem raises_start (name : Str) : Raises (· = .stackOverflow) (do
    let _ ← attempt (start os depth name) : Manage ω Unit) :=
  raises_bind raises_attempt fun _ => raises_pure ()

/-- The starts that follow a reload cannot fail, but for a list that cannot be read. -/
theorem raises_startConfigured (h : ∀ w, ∃ names, (src.enabledNames w).1 = .ok names) :
    Raises (· = .stackOverflow) (startConfigured os src depth) := by
  apply raises_bind
  · apply raises_bind raises_supervisor
    intro s
    cases s.resolveName "storage".toList with
    | none => exact raises_pure ()
    | some name => exact raises_start name
  intro _
  apply raises_bind
  · apply raises_bind (raises_call _)
    intro configured
    cases configured.or (if src.pid1 then some "boot".toList else none) with
    | none => exact raises_pure none
    | some profile =>
      apply raises_bind raises_attempt
      intro r
      cases r with
      | error e => exact raises_pure _
      | ok name => exact raises_bind raises_attempt fun _ => raises_pure _
  intro profile
  apply raises_bind
  · cases profile with
    | none => exact raises_pure ()
    | some profile =>
      apply raises_bind raises_supervisor
      exact fun s => raises_forM raises_start _
  intro _
  apply raises_bind
  · apply raises_of_ok
    intro s
    obtain ⟨names, hnames⟩ := h s.2
    refine ⟨names, (s.1, (src.enabledNames s.2).2), ?_⟩
    have hrun : (do orFail (← call src.enabledNames) : Manage ω (List Str)) s =
        orFail (src.enabledNames s.2).1 (s.1, (src.enabledNames s.2).2) := rfl
    rw [describing, hrun, hnames]
    rfl
  intro names
  apply raises_forM
  intro requestedName
  apply raises_bind raises_attempt
  intro r
  cases r with
  | error e => exact raises_pure ()
  | ok name => exact raises_start name

variable (os)

/-- A reload that stops nothing before it fails leaves the services as they were. -/
theorem failed_reload_unchanged {s : Supervisor × ω} (h : StopsNothingInVain os src s) :
    FailsUnchanged os src s := by
  intro depth turns e t herror
  rw [StopsNothingInVain] at h
  rcases hload : src.loadAllServiceSpecs s.2 with ⟨r, w⟩
  have hcall : call src.loadAllServiceSpecs s = .ok r (s.1, w) := by
    have hrun : call src.loadAllServiceSpecs s = .ok (src.loadAllServiceSpecs s.2).1
      (s.1, (src.loadAllServiceSpecs s.2).2) := rfl
    rw [hrun, hload]
  rw [hload] at h
  cases r with
  | error text =>
    have hfail : reloadNativeConfiguration os src depth turns s =
        .error (.error text) (s.1, w) := by
      refine (bind_of_ok hcall).trans (bind_of_error ?_)
      rfl
    cases hfail.symm.trans herror
    exact unchanged_refl _
  | ok specs =>
    obtain ⟨hnone, hrest⟩ := h
    rw [reload_nothing_stops os src hload hnone] at herror
    cases turns with
    | zero =>
      have hwait : waitForReconfigure os src depth 0 [] (s.1, w) =
        .error .stackOverflow (s.1, (os.now w).2) := rfl
      cases (bind_of_error hwait).symm.trans herror
    | succ turns =>
      rw [bind_of_ok (waitForReconfigure_nil os src depth turns (s.1, w))] at herror
      cases hreload : reload os specs (s.1, (os.now w).2) with
      | error e' t' =>
        obtain ⟨rfl, text, rfl⟩ := reload_error os hreload
        have hfail : describing "cannot reload native services: ".toList (reload os specs)
            (s.1, (os.now w).2) = .error (.error ("cannot reload native services: ".toList ++ text))
              (s.1, (os.now w).2) := by
          rw [describing, hreload]
        cases (bind_of_error hfail).symm.trans herror
        exact unchanged_refl _
      | ok u t' =>
        have hok : describing "cannot reload native services: ".toList (reload os specs)
            (s.1, (os.now w).2) = .ok () t' := by
          rw [describing, hreload]
        rw [bind_of_ok hok] at herror
        obtain hrefused | hreadable := hrest
        · exact absurd ((reload_accepts os).mpr ⟨t', hreload⟩) hrefused
        · cases raises_startConfigured src hreadable t' _ t herror

end

/-- A system in which processes exit when they are told to. -/
def obedientOs : Os Box := { boxOs with
  signalProcess := fun pid _ w => (.ok (), { w with gone := pid :: w.gone })
  signalProcessGroup := fun pid _ w => (.ok (), { w with gone := pid :: w.gone })
  pidfdSendSignal := fun pid _ w => (.ok (), { w with gone := pid :: w.gone }) }

/-- A configuration with a new description of a service, and another service that takes
its name as an alias. -/
def conflicting : List ServiceSpec :=
  [{ plainSpec "a" with restartLimit := 3 }, { plainSpec "b" with aliases := ["a".toList] }]

def running : Option (Supervisor × Box) :=
  [.add (plainSpec "a"), .start "a".toList].foldlM
    (fun s c => after obedientOs 1 c s) (Supervisor.new, ⟨0, 0, true, []⟩)

/-- The reload has failed after it has stopped a service. -/
def stopsInVain (s : Supervisor × Box) : Bool :=
  match reloadNativeConfiguration obedientOs (boxSources conflicting []) 1 9 s with
  | .error (.error _) t =>
    s.1.state "a".toList = some .running && t.1.state "a".toList = some .exited
  | .error .stackOverflow _ | .ok _ _ => false

theorem failed_reload_stops : ∃ s, Reachable obedientOs s ∧
    ¬ FailsUnchanged obedientOs (boxSources conflicting []) s := by
  have hrun : running.any stopsInVain = true := by decide +kernel
  obtain ⟨s, hs, hstops⟩ := (Option.any_eq_true _ _).mp hrun
  refine ⟨s, reachable_of_foldlM obedientOs (.new _) hs, fun h => ?_⟩
  rw [stopsInVain] at hstops
  split at hstops
  next e t hr =>
    obtain ⟨hbefore, hafter⟩ := Bool.and_eq_true_iff.mp hstops
    have hup := (h 1 9 e t hr).up "a".toList
    rw [of_decide_eq_true hbefore, of_decide_eq_true hafter] at hup
    cases hup
  next => cases hstops
  next => cases hstops

theorem failed_reload_unchanged_booted :
    FailsUnchanged boxOs (boxSources conflicting []) booted :=
  failed_reload_unchanged boxOs (boxSources conflicting [])
    ⟨by decide +kernel, .inr fun _ => ⟨[], rfl⟩⟩

end FractalD.Daemon.Atomicity
