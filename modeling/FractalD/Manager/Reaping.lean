import FractalD.Manager.Issues
import FractalD.Manager.Resolution
import Mathlib.Data.List.Perm.Subperm

namespace FractalD.Manager.Reaping

open FractalD.Core.Graph FractalD.Core.Record FractalD.Core.Restarts FractalD.Core.Spec
open FractalD.Machine.CString FractalD.Machine.Effect FractalD.Machine.OrderedMap
open FractalD.Manager.Jobs FractalD.Manager.Registry FractalD.Manager.Resolution
open FractalD.Manager.Survival FractalD.Supervisor FractalD.Supervisor.Frame
open FractalD.Supervisor.Service (ManagedService)
open FractalD.Supervisor.Stopping FractalD.Supervisor.System

/-- The state of a record is none of those in which a service is up. -/
def Down (r : ServiceRecord) : Prop := serviceWasUp r.state = false

def Up (s : Supervisor) (name : Str) : Prop :=
  ∃ m, s.services.get name = some m ∧ serviceWasUp m.record.state = true

section

variable {ω : Type} (os : Os ω)

theorem stop_down {r r' : ServiceRecord} {actions : List Action} (h : r.stop = .ok (r', actions)) :
    Down r' := by
  rw [ServiceRecord.stop] at h
  cases hr : r.state <;> simp only [hr] at h
  case starting | running =>
    split at h <;> cases h <;> rfl
  all_goals
    cases h
    first | rfl | rw [Down, hr, serviceWasUp]

theorem down_completes : Completes Down := by
  intro r r' actions _ h
  change r.stopCompleted = _ at h
  rw [ServiceRecord.stopCompleted] at h
  split at h
  · cases h
  · cases h
    rfl

theorem askToStop_down (signal : Int) (s : ManagedService × ω) :
    Ends (fun _ => OnRecord ω Down) (fun _ _ => True) (askToStop os signal s) := by
  have htransition : ∀ s, Ends (fun _ => OnRecord ω Down) (fun _ _ => True)
      ((Service.transition "cannot stop ".toList fun _ => .stopRequested :
        Service.Op ω (List Action)) s) := by
    intro s
    refine ends_bind (p := fun service t => s = t ∧ service = s.1) ⟨rfl, rfl⟩ ?_
    rintro _ _ ⟨rfl, rfl⟩
    cases hr : s.1.record.transition .stopRequested with
    | ok x => exact stop_down hr
    | error e => trivial
  have hask : ∀ s, Ends (fun _ => OnRecord ω Down) (fun _ _ => True)
      ((Service.transition "cannot stop ".toList (fun _ => .stopRequested) >>=
        Service.applyActions os : Service.Op ω Unit) s) := fun s =>
    ends_bind (htransition s) fun actions t ht =>
      ends_mono (fun _ _ h => h) (fun _ _ _ => trivial)
        (applyActions_preserves onRecord_insensitive.deaf actions t ht)
  rw [askToStop]
  refine ends_bind (ends_trivial _) fun _ s _ => ends_bind (ends_trivial _) fun _ s _ => ?_
  split
  · exact ends_bind (ends_trivial _) fun _ s _ => hask s
  · exact hask s

theorem stopped_down (now : Instant) (s : ManagedService × ω) :
    Ends (fun _ => OnRecord ω Down) (fun _ _ => True) (Service.stop os now s) := by
  change Ends _ _ (Service.stopWithSignal os now s.1.spec.killSignal s)
  rw [stopWithSignal_eq]
  refine ends_bind (ends_trivial _) fun _ s _ => ?_
  refine ends_bind (ends_trivial _) fun _ s _ => ?_
  refine ends_bind (ends_trivial _) fun before s _ => ?_
  refine ends_bind (askToStop_down os _ s) fun _ t ht => ?_
  exact ends_mono (fun _ _ h => h) (fun _ _ _ => trivial)
    (afterAsking_onRecord os down_completes now _ before t ht)

end

section

variable {ω : Type} (os : Os ω) {s : Supervisor × ω}

theorem cancelStartJobs_none (name : Str) (h : s.1.startJobs = []) :
    cancelStartJobs os name s = .ok () (s.1, (os.now s.2).2) := by
  let keep (job : StartJob) : Bool := job.root ≠ name && !job.selected.contains name
  change ((s.1.startJobs.filter fun job => !keep job).forM
      (fun job => rollbackStartJob os job (os.now s.2).1) >>= fun _ =>
    update ({ · with startJobs := s.1.startJobs.filter keep }))
    ({ s.1 with startJobs := [] }, (os.now s.2).2) = _
  have hsame : { s.1 with startJobs := [] } = s.1 := by rw [← h]
  rw [h, hsame]
  change EStateM.Result.ok () ({ s.1 with startJobs := [] }, (os.now s.2).2) = _
  rw [hsame]

/-- No jobs are pending, and no service is up that was not before. -/
def Subsides (s t : Supervisor) : Prop := t.startJobs = [] ∧ ∀ name, Up t name → Up s name

theorem subsides_trans {s t u : Supervisor} (hst : Subsides s t) (htu : Subsides t u) :
    Subsides s u :=
  ⟨htu.1, fun name hname => hst.2 name (htu.2 name hname)⟩

theorem onService_stop_down (now : Instant) (name : Str) (h : s.1.startJobs = []) :
    Ends (fun _ t => Subsides s.1 t.1 ∧ ¬ Up t.1 name) (fun e _ => ∃ text, e = .error text)
      (onService name (Service.stop os now) s) := by
  rw [onService]
  cases hm : s.1.services.get name with
  | none => exact ⟨_, rfl⟩
  | some m =>
    have hdown := stopped_down os now (m, s.2)
    dsimp only
    cases hr : Service.stop os now (m, s.2) with
    | error e t => exact ⟨_, rfl⟩
    | ok u t =>
      rw [hr] at hdown
      refine ⟨⟨h, fun name' hup => ?_⟩, fun hup => ?_⟩
      · obtain ⟨m', hm', hup⟩ := hup
        rw [get_insert] at hm'
        split at hm'
        · cases hm'
          cases hup.symm.trans hdown
        · exact ⟨m', hm', hup⟩
      · obtain ⟨m', hm', hup⟩ := hup
        rw [get_insert_self] at hm'
        cases hm'
        cases hup.symm.trans hdown

theorem stopUnneeded_ends (now : Instant) (name : Str) (h : s.1.startJobs = []) :
    Ends (fun _ t => Subsides s.1 t.1 ∧
        ∀ m, s.1.services.get name = some m → m.spec.stopWhenUnneeded → ¬ Up t.1 name)
      (fun e _ => ∃ text, e = .error text) (stopUnneeded os now name s) := by
  change Ends _ _ ((if (s.1.services.get name).any (fun m => m.spec.stopWhenUnneeded) then
      cancelStartJobs os name >>= fun _ => onService name (Service.stop os now)
    else pure () : Manage ω Unit) s)
  split
  next =>
    rw [bind_of_ok (cancelStartJobs_none os name h)]
    exact ends_mono (fun _ t ht => ⟨ht.1, fun _ _ _ => ht.2⟩) (fun _ _ he => he)
      (onService_stop_down os now name h)
  next hnot =>
    refine ⟨⟨h, fun _ hup => hup⟩, fun m hm hstop => absurd ?_ hnot⟩
    rw [hm, Option.any_some, hstop]

theorem stopAllUnneeded_ends (now : Instant) (names : List Str) (h : s.1.startJobs = []) :
    Ends (fun _ t => Subsides s.1 t.1) (fun e _ => ∃ text, e = .error text)
      (names.forM (stopUnneeded os now) s) := by
  refine ends_forM (i := fun t : Supervisor × ω => Subsides s.1 t.1) (fun name _ t ht => ?_)
    ⟨h, fun _ hup => hup⟩
  exact ends_mono (fun _ _ hu => subsides_trans ht hu.1) (fun _ _ he => he)
    (stopUnneeded_ends os now name ht.1)

end

def upNames (s : Supervisor) : List Str :=
  (s.services.filterKeys fun _ m => serviceWasUp m.record.state).keys

section

variable {s t : Supervisor} {name : Str}

theorem mem_upNames : name ∈ upNames s ↔ Up s name := by
  rw [upNames, mem_keys, contains_filterKeys, Up]

theorem upNames_le : (upNames s).length ≤ s.names.length := by
  apply List.Subperm.length_le
  apply List.subperm_of_subset (keys_nodup _)
  intro name hname
  obtain ⟨m, hm, -⟩ := mem_upNames.mp hname
  exact mem_keys.mpr (contains_iff.mpr ⟨m, hm⟩)

theorem upNames_lt (h : ∀ name, Up t name → Up s name) (hs : Up s name) (ht : ¬ Up t name) :
    (upNames t).length < (upNames s).length := by
  have hnodup : (name :: upNames t).Nodup :=
    List.nodup_cons.mpr ⟨fun hmem => ht (mem_upNames.mp hmem), keys_nodup _⟩
  have hsubset : name :: upNames t ⊆ upNames s := by
    intro name' hname'
    obtain rfl | hname' := List.mem_cons.mp hname'
    · exact mem_upNames.mpr hs
    · exact mem_upNames.mpr (h name' (mem_upNames.mp hname'))
  exact (List.subperm_of_subset hnodup hsubset).length_le

end

/-- A service that is up needs another one: it requires or wants that service, or is the
socket that activates it. -/
def Needed (s : Supervisor) (g : DependencyGraph) (source : Str) : Prop :=
  ∃ name m dependency, s.services.get name = some m ∧ name ≠ source ∧
    serviceWasUp m.record.state ∧ s.resolveName dependency = some source ∧
    ((g.requiredDependencies name).contains dependency ∨ dependency ∈ m.spec.dependencies.wants ∨
      m.spec.serviceType = .socket ∧ m.spec.socketService = some dependency)

/-- All services that are to stop when they are not needed are needed or down. -/
def Settled (s : Supervisor) (g : DependencyGraph) : Prop :=
  ∀ source m, s.services.get source = some m → m.spec.stopWhenUnneeded →
    serviceWasUp m.record.state → Needed s g source

section

variable {s : Supervisor} {g : DependencyGraph} {source : Str}

theorem hasActiveDependent_iff : hasActiveDependent s g source ↔ Needed s g source := by
  simp only [hasActiveDependent, List.any_eq_true, Bool.and_eq_true, Bool.or_eq_true,
    decide_eq_true_eq, List.mem_append, mem_keys, Option.mem_toList]
  constructor
  · rintro ⟨⟨name, m⟩, hm, ⟨hne, hup⟩, ⟨d, hd, hresolved⟩ | ⟨hsocket, d, hd, hresolved⟩⟩
    · exact ⟨name, m, d, get_eq_some.mpr hm, hne, hup, hresolved,
        hd.elim .inl fun hwants => .inr (.inl hwants)⟩
    · exact ⟨name, m, d, get_eq_some.mpr hm, hne, hup, hresolved, .inr (.inr ⟨hsocket, hd⟩)⟩
  · rintro ⟨name, m, d, hm, hne, hup, hresolved, hneeds⟩
    refine ⟨(name, m), get_eq_some.mp hm, ⟨hne, hup⟩, ?_⟩
    obtain hrequires | hwants | ⟨hsocket, hd⟩ := hneeds
    · exact .inl ⟨d, .inl hrequires, hresolved⟩
    · exact .inl ⟨d, .inr hwants, hresolved⟩
    · exact .inr ⟨hsocket, d, hd, hresolved⟩

theorem mem_unneeded : source ∈ unneeded s g ↔ ∃ m, s.services.get source = some m ∧
    m.spec.stopWhenUnneeded ∧ serviceWasUp m.record.state ∧ ¬ Needed s g source := by
  simp only [unneeded, mem_keys, contains_filterKeys, Bool.and_eq_true, Bool.not_eq_true',
    ← Bool.not_eq_true, hasActiveDependent_iff, and_assoc]

theorem unneeded_nil (h : unneeded s g = []) : Settled s g := by
  intro source m hm hstop hup
  by_contra hneeded
  have hmem := mem_unneeded.mpr ⟨m, hm, hstop, hup, hneeded⟩
  rw [h] at hmem
  cases hmem

end

section

variable {ω : Type} (os : Os ω)

theorem reapRounds_ends (now : Instant) {rounds : Nat} {s : Supervisor × ω}
    (h : s.1.startJobs = []) (hrounds : (upNames s.1).length < rounds) :
    Ends (fun _ t => ∃ g, graphOf os t.1 = .ok g ∧ Settled t.1 g)
      (fun e _ => ∃ text, e = .error text) (reapRounds os now rounds s) := by
  induction rounds generalizing s with
  | zero => cases hrounds
  | succ rounds ih =>
    rw [reapRounds]
    have hgraph : Ends (fun g t => s = t ∧ graphOf os s.1 = .ok g)
        (fun e _ => ∃ text, e = .error text) (graph os s) := by
      change Ends _ _ (orFailGraph os _ (graphOf os s.1) s)
      cases graphOf os s.1 with
      | ok g => exact ⟨rfl, rfl⟩
      | error e => exact ⟨_, rfl⟩
    refine ends_bind hgraph ?_
    rintro g _ ⟨rfl, hg⟩
    refine ends_bind (p := fun all t => s = t ∧ all = s.1) ⟨rfl, rfl⟩ ?_
    rintro _ _ ⟨rfl, rfl⟩
    cases hnames : unneeded s.1 g with
    | nil => exact ⟨g, hg, unneeded_nil hnames⟩
    | cons first rest =>
      obtain ⟨m, hm, hstop, hup, -⟩ := mem_unneeded.mp (hnames ▸ List.mem_cons_self)
      refine ends_bind (p := fun _ t => Subsides s.1 t.1 ∧ ¬ Up t.1 first) ?_ ?_
      · refine ends_bind (stopUnneeded_ends os now first h) fun _ t ht => ?_
        refine ends_mono (fun _ u hu => ?_) (fun _ _ he => he)
          (stopAllUnneeded_ends os now rest ht.1.1)
        exact ⟨subsides_trans ht.1 hu, fun hfirst => ht.2 m hm hstop (hu.2 first hfirst)⟩
      · rintro _ t ⟨hsubsides, hfirst⟩
        apply ih hsubsides.1
        have hlt := upNames_lt hsubsides.2 ⟨m, hm, hup⟩ hfirst
        omega

/-- Without pending jobs the rounds come to an end, and then no service that is up is
one that should stop because it is not needed. -/
theorem reapUnneeded_settles (now : Instant) {s : Supervisor × ω} (h : s.1.startJobs = []) :
    (∀ rounds t, s.1.names.length < rounds →
      reapRounds os now rounds s ≠ .error .stackOverflow t) ∧
    ∀ t, reapUnneeded os now s = .ok () t → ∃ g, graphOf os t.1 = .ok g ∧ Settled t.1 g := by
  have hend : ∀ rounds, s.1.names.length < rounds →
      Ends (fun _ t => ∃ g, graphOf os t.1 = .ok g ∧ Settled t.1 g)
        (fun e _ => ∃ text, e = .error text) (reapRounds os now rounds s) := fun rounds hlt =>
    reapRounds_ends os now h (Nat.lt_of_le_of_lt upNames_le hlt)
  constructor
  · intro rounds t hlt ht
    obtain ⟨text, ⟨⟩⟩ := ends_of_error (hend rounds hlt) ht
  · intro t ht
    change (if s.1.startJobs.isEmpty then reapRounds os now (s.1.names.length + 1)
      else pure ()) s = _ at ht
    rw [h] at ht
    have hsettled := hend _ (Nat.lt_succ_self _)
    rwa [show reapRounds os now (s.1.names.length + 1) s = _ from ht] at hsettled

end

/-- An active service that stops when it is not needed. -/
def helping (spec : ServiceSpec) : ManagedService :=
  .ofRecord { fresh { spec with stopWhenUnneeded := true } with state := .active }

def helpers : Supervisor where
  services :=
    ((empty.insert "c".toList (helping (plainSpec "c"))).insert "b".toList
      (helping { plainSpec "b" with dependencies := { wants := ["c".toList] } })).insert "a".toList
        (helping { plainSpec "a" with dependencies := { requires := ["b".toList] } })
  aliases := empty
  startJobs := []
  pendingManagerAction := none
  progressingSocketActivation := false

theorem reapUnneeded_settles_helpers : ∃ t g,
    reapUnneeded boxOs 0 (helpers, ⟨0, 0, true, []⟩) = .ok () t ∧
      t.1.services.values.all (·.record.state = .exited) ∧
      graphOf boxOs t.1 = .ok g ∧ Settled t.1 g := by
  have hrun := ok_final (x := reapUnneeded boxOs 0) (s := (helpers, ⟨0, 0, true, []⟩))
    (by decide +kernel)
  obtain ⟨g, hg, hsettled⟩ := (reapUnneeded_settles boxOs 0 rfl).2 _ hrun
  exact ⟨_, g, hrun, by decide +kernel, hg, hsettled⟩

end FractalD.Manager.Reaping
