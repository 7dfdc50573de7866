import FractalD.Core.Shutdown
import FractalD.Manager.Reaping
import FractalD.Manager.RequisiteRestarts

namespace FractalD.Manager.StopOrder

open FractalD.Core.Graph FractalD.Core.Planning FractalD.Core.Restarts FractalD.Core.Shutdown
open FractalD.Core.Spec FractalD.Machine.CString FractalD.Machine.Effect FractalD.Machine.Logs
open FractalD.Machine.OrderedMap FractalD.Machine.Precedence FractalD.Manager.Issues
open FractalD.Manager.Jobs FractalD.Manager.Reaping FractalD.Manager.Registry
open FractalD.Manager.RequisiteRestarts FractalD.Manager.Requisites FractalD.Manager.Resolution
open FractalD.Manager.Runs FractalD.Manager.StartOrder FractalD.Manager.Survival
open FractalD.Supervisor FractalD.Supervisor.Settings FractalD.Supervisor.System

/-- An operation with the services that it asks to stop. -/
abbrev Asking (ω : Type) := Logged Str Failure (Supervisor × ω)

section

variable {ω : Type} (os : Os ω)

def askingStop (now : Instant) (name : Str) : Asking ω Unit := do
  note [name]
  quiet (onService name (Service.stop os now))

def askingDependent (now : Instant) (dependent : Str) : Asking ω Unit := do
  quiet (cancelStartJobs os dependent)
  askingStop os now dependent

def askingDependents (source : Str) (includePartOf : Bool) (now : Instant) : Asking ω Unit := do
  (dependentNames (← quiet supervisor) source includePartOf).forM (askingDependent os now)

def askingTurn (now : Instant) (name : Str) : Asking ω Unit := do
  askingStop os now name
  askingDependents os name true now

/-- `stopAll` with the services that it asks to stop. No jobs are pending then, so that
nothing is asked where those of a service are cancelled. -/
def askingStopAll : Asking ω Unit := do
  quiet (update ({ · with startJobs := [] }))
  let g ← quiet (graph os)
  let order ← quiet <|
    match g.planAllStop with
    | .error (.cycle _) =>
      orFailGraph os "cannot plan shutdown: ".toList g.planAllStopBestEffort
    | order => orFailGraph os "cannot plan shutdown: ".toList order
  let now ← quiet (call os.now)
  order.forM (askingTurn os now)

theorem askingStop_notes (now : Instant) (name : Str) :
    Notes (askingStop os now name) (onService name (Service.stop os now)) :=
  notes_bind (notes_note [name]) fun _ => notes_quiet _

theorem askingDependents_notes (source : Str) (includePartOf : Bool) (now : Instant) :
    Notes (askingDependents os source includePartOf now)
      (stopDependents os source includePartOf now) :=
  notes_bind (notes_quiet _) fun _ => notes_forM
    (fun _ => notes_bind (notes_quiet _) fun _ => askingStop_notes os now _) _

theorem askingStopAll_notes : Notes (askingStopAll os) (stopAll os) := by
  refine notes_bind (notes_quiet _) fun _ => notes_bind (notes_quiet _) fun g => ?_
  have hrest : ∀ order : List Str, Notes (do
      let now ← quiet (call os.now)
      order.forM (askingTurn os now)) (do
      let now ← call os.now
      order.forM fun name => do
        onService name (Service.stop os now)
        stopDependents os name true now) := fun order =>
    notes_bind (notes_quiet _) fun now => notes_forM
      (fun name => notes_bind (askingStop_notes os now name) fun _ =>
        askingDependents_notes os name true now) order
  cases g.planAllStop with
  | ok order => exact notes_bind (notes_quiet _) hrest
  | error e => cases e <;> exact notes_bind (notes_quiet _) hrest

def stopsAsked (s : Supervisor × ω) : List Str := (final (askingStopAll os) (s, [])).2

end

/-- When a service is asked to stop, all those that are to start after it have been asked. -/
def InOrder (g : DependencyGraph) (asked : List Str) : Prop :=
  Placed (fun before u => ∀ v, AllBefore g u v → v ∈ before) asked

/-- Whatever the states of its services, a registry is stopped in order. -/
def StopAllInOrder {ω : Type} (os : Os ω) (s₀ : Supervisor) (g : DependencyGraph) : Prop :=
  ∀ s : Supervisor × ω, SameRegistry s₀ s.1 → InOrder g (stopsAsked os s)

/-- A dependent that is stopped with its source, and ahead of its own turn, has all those
that are to start after it stopped by then: they had their turn, or they are stopped with
a source that had its turn, or with the same source and have a smaller name. -/
def DependentsInOrder (s₀ : Supervisor) (g : DependencyGraph) : Prop :=
  ∀ earlier source later, g.planAllStop = .ok (earlier ++ source :: later) →
    ∀ u ∈ dependentNames s₀ source true, u ∈ later → ∀ v, AllBefore g u v →
      v = source ∨ v ∈ earlier ∨ (∃ t ∈ earlier, v ∈ dependentNames s₀ t true) ∨
        v ∈ dependentNames s₀ source true ∧ v < u

section

variable {g : DependencyGraph} {order : List Str}

theorem planAllStop_ok (h : g.planAllStop = .ok order) :
    order.Nodup ∧ (∀ u, u ∈ order ↔ g.services.contains u) ∧ InOrder g order := by
  obtain ⟨start, hstart, rfl⟩ : ∃ start, g.planAllStart = .ok start ∧ start.reverse = order := by
    rw [DependencyGraph.planAllStop] at h
    cases hstart : g.planAllStart with
    | ok start =>
      rw [hstart] at h
      cases h
      exact ⟨start, rfl, rfl⟩
    | error e =>
      rw [hstart] at h
      cases h
  obtain ⟨hn, hmem, hbefore, -⟩ := topologicalOrder_ok g (services g) hstart
  refine ⟨List.nodup_reverse.mpr hn, fun u => ?_, fun l u m hsplit v huv => ?_⟩
  · rw [List.mem_reverse, hmem, mem_services, mem_keys]
  · have hu := (hmem u).mpr huv.1
    have hv := (hmem v).mpr huv.2.1
    apply (idxOf_split (List.nodup_reverse.mpr hn) hsplit).mp
    exact (idxOf_reverse hn hu hv).mpr (hbefore u v hu hv huv.2.2)

variable {s₀ : Supervisor}

/-- The services that are asked to stop when it is a service's turn. -/
def turn (s₀ : Supervisor) (name : Str) : List Str := name :: dependentNames s₀ name true

theorem dependentNames_ne {source u : Str} (h : u ∈ dependentNames s₀ source true) :
    u ≠ source := by
  obtain ⟨m, -, hm⟩ := contains_filterKeys.mp (mem_keys.mp h)
  simp only [Bool.and_eq_true, decide_eq_true_eq] at hm
  exact hm.1

theorem mem_turns {earlier : List Str} {v : Str} : v ∈ earlier.flatMap (turn s₀) ↔
    v ∈ earlier ∨ ∃ t ∈ earlier, v ∈ dependentNames s₀ t true := by
  rw [List.mem_flatMap]
  constructor
  · rintro ⟨t, ht, hv⟩
    rcases List.mem_cons.mp hv with rfl | hv
    · exact .inl ht
    · exact .inr ⟨t, ht, hv⟩
  · rintro (hv | ⟨t, ht, hv⟩)
    · exact ⟨v, hv, List.mem_cons_self⟩
    · exact ⟨t, ht, List.mem_cons_of_mem t hv⟩

/-- In a list that ascends, what comes before an element is what is smaller. -/
theorem mem_before {l before after : List Str} {u v : Str} (hl : l.Pairwise (· < ·))
    (hsplit : l = before ++ u :: after) : v ∈ before ↔ v ∈ l ∧ v < u := by
  subst hsplit
  obtain ⟨-, hafter, hbefore⟩ := List.pairwise_append.mp hl
  constructor
  · exact fun hv => ⟨List.mem_append_left _ hv, hbefore v hv u List.mem_cons_self⟩
  · rintro ⟨hv, hlt⟩
    refine (List.mem_append.mp hv).resolve_right fun hrest => ?_
    rcases List.mem_cons.mp hrest with rfl | hv
    · exact lt_irrefl _ hlt
    · exact lt_asymm hlt ((List.pairwise_cons.mp hafter).1 v hv)

theorem inOrder_turns_iff (hplan : g.planAllStop = .ok order)
    (hservices : ∀ u, g.services.contains u = s₀.services.contains u) :
    InOrder g (order.flatMap (turn s₀)) ↔ DependentsInOrder s₀ g := by
  obtain ⟨hn, hmem, horder⟩ := planAllStop_ok hplan
  have hknown : ∀ {source u}, u ∈ dependentNames s₀ source true → u ∈ order := by
    intro source u hu
    obtain ⟨m, hm, -⟩ := contains_filterKeys.mp (mem_keys.mp hu)
    rw [hmem, hservices]
    exact contains_iff.mpr ⟨m, hm⟩
  rw [InOrder, placed_flatMap]
  constructor
  · intro h earlier source later hsplit u hu hlater v huv
    cases hplan.symm.trans hsplit
    obtain ⟨before, after, hdependents⟩ := List.append_of_mem hu
    have hturn : turn s₀ source = (source :: before) ++ u :: after := by
      rw [turn, hdependents]
      rfl
    have hv := h earlier source later rfl (source :: before) u after hturn v huv
    rcases List.mem_append.mp hv with hv | hv
    · rcases mem_turns.mp hv with hv | hv
      · exact .inr (.inl hv)
      · exact .inr (.inr (.inl hv))
    · rcases List.mem_cons.mp hv with hv | hv
      · exact .inl hv
      · exact .inr (.inr (.inr ((mem_before (keys_sorted _) hdependents).mp hv)))
  · intro h earlier source later hsplit
    refine placed_cons.mpr ⟨fun v huv => ?_, fun before u after hdependents v huv => ?_⟩
    · rw [List.append_nil]
      exact mem_turns.mpr (.inl (horder earlier source later hsplit v huv))
    · have hu : u ∈ dependentNames s₀ source true := by
        rw [hdependents]
        exact List.mem_append_right _ List.mem_cons_self
      have hin := hknown hu
      rw [hsplit] at hin
      rw [List.mem_append]
      rcases List.mem_append.mp hin with hin | hin
      · obtain ⟨l, m, rfl⟩ := List.append_of_mem hin
        have hv := horder l u (m ++ source :: later) (by rw [hsplit]; simp) v huv
        exact .inl (mem_turns.mpr (.inl (List.mem_append_left _ hv)))
      · have hlater := (List.mem_cons.mp hin).resolve_left (dependentNames_ne hu)
        rcases h earlier source later (hsplit ▸ hplan) u hu hlater v huv with rfl | hv | hv | hv
        · exact .inr List.mem_cons_self
        · exact .inl (mem_turns.mpr (.inl hv))
        · exact .inl (mem_turns.mpr (.inr hv))
        · exact .inr (List.mem_cons_of_mem _ ((mem_before (keys_sorted _) hdependents).mpr hv))

end

section

variable {ω : Type} (os : Os ω) {s₀ : Supervisor}

def Quiesced (ω : Type) (s₀ : Supervisor) (s : Supervisor × ω) : Prop :=
  s.1.startJobs = [] ∧ SameRegistry s₀ s.1

theorem dependentNames_same {s : Supervisor} (h : SameRegistry s₀ s) (source : Str)
    (includePartOf : Bool) :
    dependentNames s source includePartOf = dependentNames s₀ source includePartOf := by
  have hsettings : ∀ t : Supervisor, (∀ d, t.resolveName d = s₀.resolveName d) →
      dependentNames t source includePartOf = ((settings t).filterKeys fun name spec =>
        name ≠ source &&
          (spec.dependencies.bindsTo.any (fun d => s₀.resolveName d = some source) ||
            includePartOf &&
              spec.dependencies.partOf.any fun d => s₀.resolveName d = some source)).keys := by
    intro t ht
    rw [settings, filterKeys_map, dependentNames]
    simp only [ht]
  rw [hsettings s h.resolveName, hsettings s₀ fun _ => rfl, h.settings]

theorem onService_stop_quiesced (now : Instant) (name : Str) (s : Supervisor × ω)
    (h : Quiesced ω s₀ s) :
    Ends (fun _ => Quiesced ω s₀) (fun _ _ => True)
      (onService name (Service.stop os now) s) := by
  obtain ⟨hjobs, hregistry⟩ := h
  rw [onService]
  cases hm : s.1.services.get name with
  | none => trivial
  | some m =>
    have hspec := stop_hasSpec os now (m, s.2) rfl
    dsimp only
    cases hr : Service.stop os now (m, s.2) with
    | error e t => trivial
    | ok u t =>
      rw [hr] at hspec
      have hsettings := (touches_insert hm hspec).settings
      exact ⟨hjobs, hsettings.trans hregistry.settings, hregistry.aliases⟩

theorem askingStop_emits (now : Instant) (name : Str) :
    Emits (Quiesced ω s₀) [name] (askingStop os now name) :=
  emits_bind (emits_note [name]) fun _ =>
    emits_quiet fun s hs => onService_stop_quiesced os now name s hs

theorem askingDependents_emits (source : Str) (includePartOf : Bool) (now : Instant) :
    Emits (Quiesced ω s₀) (dependentNames s₀ source includePartOf)
      (askingDependents os source includePartOf now) := by
  have hone : ∀ dependent, Emits (Quiesced ω s₀) [dependent] (askingDependent os now dependent) := by
    intro dependent
    have hcancel : Emits (Quiesced ω s₀) []
        (quiet (cancelStartJobs os dependent) : Asking ω Unit) := by
      refine emits_quiet fun s hs => ?_
      rw [cancelStartJobs_none os dependent hs.1]
      exact hs
    exact emits_bind hcancel fun _ => askingStop_emits os now dependent
  intro s hs
  change Ends _ _ ((dependentNames s.1.1 source includePartOf).forM (askingDependent os now) s)
  rw [dependentNames_same hs.2]
  have hall := emits_forM (l := dependentNames s₀ source includePartOf) fun c _ => hone c
  rw [List.flatMap_singleton'] at hall
  exact hall s hs

theorem askingTurn_emits (now : Instant) (name : Str) :
    Emits (Quiesced ω s₀) (turn s₀ name) (askingTurn os now name) :=
  emits_bind (askingStop_emits os now name) fun _ => askingDependents_emits os name true now

theorem askingStopAll_eq {g : DependencyGraph} {order : List Str} {s : Supervisor × ω}
    (hg : graphOf os { s.1 with startJobs := [] } = .ok g) (hplan : g.planAllStop = .ok order) :
    askingStopAll os (s, []) = order.forM (askingTurn os (os.now s.2).1)
      (({ s.1 with startJobs := [] }, (os.now s.2).2), []) := by
  have hgraph : (quiet (graph os) : Asking ω DependencyGraph)
      (({ s.1 with startJobs := [] }, s.2), []) =
        .ok g (({ s.1 with startJobs := [] }, s.2), []) := by
    have hrun : graph os ({ s.1 with startJobs := [] }, s.2) =
        .ok g ({ s.1 with startJobs := [] }, s.2) := by
      change orFailGraph os _ (graphOf os { s.1 with startJobs := [] }) _ = _
      rw [hg]
      rfl
    rw [quiet, hrun]
  have hupdate : (quiet (update ({ · with startJobs := [] })) : Asking ω Unit) (s, []) =
      .ok () (({ s.1 with startJobs := [] }, s.2), []) := rfl
  rw [askingStopAll, bind_of_ok hupdate, bind_of_ok hgraph, hplan]
  rfl

theorem stopsAsked_eq {g : DependencyGraph} {order : List Str} {s : Supervisor × ω}
    (hg : graphOf os { s.1 with startJobs := [] } = .ok g) (hplan : g.planAllStop = .ok order) :
    stopsAsked os s = (final (order.forM (askingTurn os (os.now s.2).1))
      (({ s.1 with startJobs := [] }, (os.now s.2).2), [])).2 := by
  rw [stopsAsked, final, askingStopAll_eq os hg hplan]
  rfl

theorem planned {g : DependencyGraph} (hs : Wellformed s₀) (hg : graphOf os s₀ = .ok g)
    {s : Supervisor × ω} (h : SameRegistry s₀ s.1) :
    graphOf os { s.1 with startJobs := [] } = .ok g ∧
      ∀ u, g.services.contains u = s₀.services.contains u := by
  have hdescribes := describes_of_graphOf hs hg
  refine ⟨(hdescribes { s.1 with startJobs := [] } h.settings).1, fun u => ?_⟩
  have hget := (hdescribes s₀ rfl).2 u
  rw [BTreeMap.contains, hget, BTreeMap.contains, Option.isSome_map]

theorem stopsAsked_begins {g : DependencyGraph} {order : List Str} (hs : Wellformed s₀)
    (hg : graphOf os s₀ = .ok g) (hplan : g.planAllStop = .ok order) {s : Supervisor × ω}
    (h : SameRegistry s₀ s.1) : stopsAsked os s <+: order.flatMap (turn s₀) := by
  have hall := emits_forM (i := Quiesced ω s₀) (l := order) fun name _ =>
    askingTurn_emits os (os.now s.2).1 name
  have hrun := hall (({ s.1 with startJobs := [] }, (os.now s.2).2), []) ⟨rfl, h.settings, h.aliases⟩
  rw [stopsAsked_eq os (planned os hs hg h).1 hplan]
  apply ends_final (i := fun t : (Supervisor × ω) × List Str => t.2 <+: order.flatMap (turn s₀))
  refine ends_mono ?_ ?_ hrun
  · rintro _ t ⟨-, ht⟩
    rw [ht]
    exact List.prefix_rfl
  · rintro _ t ⟨fs, hfs, ht⟩
    rw [ht]
    exact hfs

theorem askingStopAll_resting {order : List Str} (now : Instant)
    (hknown : ∀ name ∈ order, s₀.services.contains name) {s : Supervisor × ω}
    (h : AllResting s₀ s.1) (log : List Str) :
    Ends (fun _ _ => True) (fun _ _ => False) (order.forM (askingTurn os now) (s, log)) := by
  have hone : ∀ name, s₀.services.contains name → ∀ t : (Supervisor × ω) × List Str,
      AllResting s₀ t.1.1 →
      Ends (fun _ t => AllResting s₀ t.1.1) (fun _ _ => False) (askingStop os now name t) := by
    intro name hname t ht
    apply ends_bind (p := fun _ t => AllResting s₀ t.1.1)
    · exact ht
    intro _ t ht
    exact ends_mono (fun _ _ h => h.1) (fun _ _ h => h.1)
      (ends_quiet (stopService_resting os now ht hname))
  refine ends_mono (fun _ _ _ => trivial) (fun _ _ h => h)
    (ends_forM (i := fun t : (Supervisor × ω) × List Str => AllResting s₀ t.1.1)
      (fun name hname t ht => ?_) h)
  apply ends_bind (hone name (hknown name hname) t ht)
  intro _ t ht
  change Ends _ _ ((dependentNames t.1.1 name true).forM (askingDependent os now) t)
  have hdependents : ∀ dependent ∈ dependentNames t.1.1 name true,
      s₀.services.contains dependent := by
    intro dependent hdependent
    obtain ⟨m, hm, -⟩ := contains_filterKeys.mp (mem_keys.mp hdependent)
    rw [← ht.registry.contains]
    exact contains_iff.mpr ⟨m, hm⟩
  refine ends_forM (i := fun t : (Supervisor × ω) × List Str => AllResting s₀ t.1.1)
    (fun dependent hdependent t ht => ?_) ht
  apply ends_bind (p := fun _ t => AllResting s₀ t.1.1)
  · exact ends_mono (fun _ _ h => h.1) (fun _ _ h => h.1)
      (ends_quiet (cancelStartJobs_resting os dependent ht))
  · exact fun _ t ht => hone dependent (hdependents dependent hdependent) t ht

theorem stopsAsked_rested {g : DependencyGraph} {order : List Str} (w : ω) (hs : Wellformed s₀)
    (hg : graphOf os s₀ = .ok g) (hplan : g.planAllStop = .ok order) :
    stopsAsked os (rested s₀, w) = order.flatMap (turn s₀) := by
  have hresting : AllResting s₀ (rested s₀) := rested_resting
  obtain ⟨hgraph, hservices⟩ := planned os hs hg (s := (rested s₀, w)) hresting.registry
  have hknown : ∀ name ∈ order, s₀.services.contains name := by
    intro name hname
    rw [← hservices]
    exact ((planAllStop_ok hplan).2.1 name).mp hname
  have hends := askingStopAll_resting os (os.now w).1 hknown
    (s := ({ rested s₀ with startJobs := [] }, (os.now w).2)) hresting []
  have hall := emits_forM (i := Quiesced ω s₀) (l := order) fun name _ =>
    askingTurn_emits os (os.now w).1 name
  have hrun := hall (({ rested s₀ with startJobs := [] }, (os.now w).2), [])
    ⟨rfl, hresting.registry.settings, hresting.registry.aliases⟩
  rw [stopsAsked_eq os hgraph hplan, final]
  cases hr : order.forM (askingTurn os (os.now w).1)
      (({ rested s₀ with startJobs := [] }, (os.now w).2), []) with
  | error e t =>
    rw [hr] at hends
    exact hends.elim
  | ok u t =>
    rw [hr] at hrun
    exact hrun.2

/-- Services are asked to stop in order exactly if no dependent that is stopped along the
way is ahead of what is to be stopped before it. -/
theorem stopAll_in_order_iff {g : DependencyGraph} (w : ω) (hs : Wellformed s₀)
    (hg : graphOf os s₀ = .ok g) (hacyclic : Acyclic (AllBefore g)) :
    StopAllInOrder os s₀ g ↔ DependentsInOrder s₀ g := by
  obtain ⟨order, hplan, -⟩ := bestEffort_acyclic g hacyclic
  have hservices := (planned os hs hg (s := (s₀, w)) ⟨rfl, rfl⟩).2
  rw [← inOrder_turns_iff hplan hservices]
  constructor
  · intro h
    have hrested := h (rested s₀, w) rested_resting.registry
    rwa [stopsAsked_rested os w hs hg hplan] at hrested
  · exact fun h s hs' => placed_prefix (stopsAsked_begins os hs hg hplan hs') h

end

def parts : List ServiceSpec :=
  [{ plainService ['a'] with dependencies := { partOf := [['c']] } },
    { plainService ['b'] with dependencies := { after := [['a']] } }, plainService ['c']]

def parted : Supervisor :=
  { Supervisor.new with
    services := parts.foldl (fun t spec => t.insert spec.name (.ofRecord (fresh spec))) empty }

def partedGraph : DependencyGraph := ⟨parted.services.map (·.spec), boxOs.directories⟩

def partsStarted : Option (Supervisor × Box) :=
  (parts.map Command.add ++ parts.map (Command.start ·.name)).foldlM
    (fun s c => after boxOs 1 c s) (Supervisor.new, ⟨0, 0, true, []⟩)

theorem parted_wellformed : Wellformed parted := by
  intro name service h
  have hall : ∀ e ∈ parted.services.entries, e.2.spec.name = e.1 ∧ e.2.spec.validate = .ok () := by
    decide +kernel
  exact hall (name, service) (get_eq_some.mp h)

theorem parted_acyclic : Acyclic (AllBefore partedGraph) := by
  have hplan : partedGraph.planAllStart = .ok [['a'], ['b'], ['c']] := by decide +kernel
  exact (topologicalOrder_ok partedGraph (services partedGraph) hplan).2.2.2

theorem stopAll_in_order_iff_parted :
    StopAllInOrder boxOs parted partedGraph ↔ DependentsInOrder parted partedGraph :=
  stopAll_in_order_iff boxOs ⟨0, 0, true, []⟩ parted_wellformed rfl parted_acyclic

/-- The running part is asked to stop with its source, and only then the running service
that starts after it. -/
theorem part_stopped_early : ∃ s, Reachable boxOs s ∧ SameRegistry parted s.1 ∧
    (∀ name ∈ s.1.names, s.1.state name = some .running) ∧
    stopsAsked boxOs s = [['c'], ['a'], ['b'], ['a']] ∧
    AllBefore partedGraph ['a'] ['b'] ∧ ¬ InOrder partedGraph (stopsAsked boxOs s) := by
  have hrun : partsStarted.any (fun s =>
      (settings s.1).entries = (settings parted).entries ∧ s.1.aliases.entries = [] ∧
        (∀ name ∈ s.1.names, s.1.state name = some .running) ∧
        stopsAsked boxOs s = [['c'], ['a'], ['b'], ['a']]) = true := by decide +kernel
  obtain ⟨s, hs, hall⟩ := (Option.any_eq_true _ _).mp hrun
  obtain ⟨hsettings, haliases, hrunning, hasked⟩ := of_decide_eq_true hall
  have hedge : AllBefore partedGraph ['a'] ['b'] :=
    ⟨by decide +kernel, by decide +kernel, .inl (by decide +kernel)⟩
  refine ⟨s, reachable_of_foldlM boxOs (.new _) hs, ⟨?_, ?_⟩, hrunning, hasked, hedge, fun h => ?_⟩
  · exact eq_of_entries hsettings
  · exact eq_of_entries haliases
  · have hbefore := h [['c']] ['a'] [['b'], ['a']] hasked ['b'] hedge
    exact absurd hbefore (by decide)

end FractalD.Manager.StopOrder
