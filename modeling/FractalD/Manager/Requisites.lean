import FractalD.Machine.Result
import FractalD.Manager.Standing
import FractalD.Manager.StartOrder

namespace FractalD.Manager.Requisites

open FractalD.Core.Graph FractalD.Core.Planning FractalD.Core.Record FractalD.Core.Restarts
open FractalD.Core.Spec
open FractalD.Core.StartPlan FractalD.Machine.CString FractalD.Machine.Effect
open FractalD.Machine.Logs FractalD.Machine.OrderedMap FractalD.Machine.Result
open FractalD.Manager.Acceptance FractalD.Manager.Idle FractalD.Manager.Issues
open FractalD.Manager.Jobs FractalD.Manager.Registry FractalD.Manager.Resolution
open FractalD.Manager.Runs FractalD.Manager.Standing FractalD.Manager.StartOrder
open FractalD.Manager.Survival
open FractalD.Supervisor FractalD.Supervisor.Settings FractalD.Supervisor.SettingsPoll
open FractalD.Supervisor.System
open FractalD.Supervisor.Service (ManagedService)

/-- Services may be started that have this one as a requisite. -/
def Active (m : ManagedService) : Prop :=
  m.record.state ∈ [ServiceState.active, .exited] ∨ m.readyForDependency

def RequisitesActive (s : Supervisor) (name : Str) : Prop :=
  ∀ service, s.services.get name = some service → ∀ d ∈ service.spec.dependencies.requisite,
    ∃ r m, s.resolveName d = some r ∧ s.services.get r = some m ∧ Active m

/-- The services have the same settings and the same other names. -/
structure SameRegistry (s₀ s : Supervisor) : Prop where
  settings : settings s = settings s₀
  aliases : s.aliases = s₀.aliases

theorem checkRequisites_ok {s : Supervisor} {name : Str} :
    checkRequisites s name = .ok () ↔ s.services.contains name ∧ RequisitesActive s name := by
  rw [checkRequisites, contains_iff, RequisitesActive]
  cases s.services.get name with
  | none => simp
  | some service =>
    simp only [Option.some.injEq, exists_eq', true_and, forall_eq']
    rw [forM_ok]
    simp only [mem_ofList]
    refine forall_congr' fun d => imp_congr_right fun _ => ?_
    cases s.resolveName d with
    | none => simp
    | some r =>
      cases hr : s.services.get r with
      | none => simp [hr]
      | some m =>
        simp only [hr, Option.some.injEq, exists_and_left, exists_eq_left']
        unfold Active
        split
        next h => exact iff_of_true rfl h
        next h => exact iff_of_false (fun he => nomatch he) h

section

variable {s₀ s : Supervisor}

theorem SameRegistry.contains (h : SameRegistry s₀ s) (name : Str) :
    s.services.contains name = s₀.services.contains name := by
  have hget := congrArg (BTreeMap.contains · name) h.settings
  simp only [Issues.settings, BTreeMap.contains, get_map, Option.isSome_map] at hget
  exact hget

theorem SameRegistry.resolveName (h : SameRegistry s₀ s) (d : Str) :
    s.resolveName d = s₀.resolveName d := by
  have hnames : s.names = s₀.names := by
    have hkeys := congrArg BTreeMap.keys h.settings
    rwa [Issues.settings, Issues.settings, keys_map, keys_map] at hkeys
  simp only [Supervisor.resolveName, h.contains, h.aliases, hnames]

theorem SameRegistry.spec (h : SameRegistry s₀ s) {name : Str} {m : ManagedService}
    (hm : s.services.get name = some m) :
    ∃ m₀, s₀.services.get name = some m₀ ∧ m₀.spec = m.spec := by
  have hget := congrArg (BTreeMap.get · name) h.settings
  simp only [Issues.settings, get_map, hm, Option.map_some] at hget
  exact Option.map_eq_some_iff.mp hget.symm

theorem sameRegistry_iff : SameRegistry s₀ s ↔
    Stands (Issues.settings s₀) s₀.aliases (fun _ => True) s :=
  ⟨fun h => ⟨h.settings, h.aliases, fun _ _ _ _ => trivial⟩, fun h => ⟨h.settings, h.aliases⟩⟩

end

/-- A start of a service waits for its requisite until that is active. -/
def Secured {ω : Type} (os : Os ω) (s : Supervisor) (g : DependencyGraph) (v d : Str) : Prop :=
  ∃ r m, s.resolveName d = some r ∧ s.services.get r = some m ∧
    r ∈ (g.requiredDependencies v).keys ∧ ∀ w, skippedMountIsAvailable os w m.spec = false

/-- All requisites of a service are also required of it, and are not skipped where they
are there already. -/
def Guarded {ω : Type} (os : Os ω) (s : Supervisor) (g : DependencyGraph) (v : Str) : Prop :=
  ∀ service, s.services.get v = some service →
    ∀ d ∈ service.spec.dependencies.requisite, Secured os s g v d

section

variable {ω : Type} {os : Os ω} {s₀ : Supervisor} {g : DependencyGraph} {root : Str}
  {order : List Str}

/-- A start that a job for the plan asks for. -/
structure Asked (os : Os ω) (s₀ : Supervisor) (order : List Str) (i : Issue) : Prop where
  registry : SameRegistry s₀ i.services
  selected : i.job.selected = ofList order
  member : i.name ∈ order
  asked : ∃ w, issues os i.services w i.name i.job

theorem required_in_order {u v : Str} (hplan : g.planStart root = .ok order) (hv : v ∈ order)
    (hu : u ∈ (g.requiredDependencies v).keys) : u ∈ order := by
  obtain ⟨selected, hs, ho⟩ := planStart_ok hplan
  obtain ⟨hmem, -⟩ := selected_pulled hs
  obtain ⟨-, horder, -⟩ := topologicalOrder_ok _ _ ho
  have hpulled : Pulled g root v := (hmem v).mp ((horder v).mp hv)
  exact (horder u).mpr ((hmem u).mpr (hpulled.tail (.inl hu)))

/-- What a start requires is active when it goes on, unless it is a mount that was skipped
because it was there. -/
theorem active_of_done {s : Supervisor} {w : ω} {job : StartJob} {r : Str} {m : ManagedService}
    (hm : s.services.get r = some m)
    (havailable : requiredDependencyIsUnavailable os s w r = false)
    (hmount : skippedMountIsAvailable os w m.spec = false) (hdone : Done s job r) : Active m := by
  simp only [requiredDependencyIsUnavailable, hm] at havailable
  have hfailed : m.record.state ≠ .failed := fun h => by simp [h] at havailable
  have hskipped : m.record.state ≠ .skipped := fun h => by simp [h, hmount] at havailable
  rw [Active]
  obtain ⟨-, hcomplete⟩ | hready := hdone
  · simp only [serviceStartComplete, hm, Option.any_some] at hcomplete
    cases hstate : m.record.state <;> simp_all
  · simp only [serviceIsReadyWithoutStart, hm, Option.any_some] at hready
    simpa [hskipped, or_assoc] using hready

theorem asked_active (hs : Wellformed s₀) (hg : graphOf os s₀ = .ok g)
    (hplan : g.planStart root = .ok order) {i : Issue} (hguarded : Guarded os s₀ g i.name)
    (h : Asked os s₀ order i) : RequisitesActive i.services i.name := by
  intro service hservice d hd
  obtain ⟨m₀, hm₀, hspec⟩ := h.registry.spec hservice
  obtain ⟨r, mr, hr, hmr, hrequired, hmount⟩ := hguarded m₀ hm₀ d (hspec ▸ hd)
  obtain ⟨w, hissues⟩ := h.asked
  obtain ⟨hg', hget⟩ := describes_of_graphOf hs hg i.services h.registry.settings
  have hselected : i.job.selected.contains r := by
    rw [h.selected]
    exact mem_keys.mp (mem_ofList.mpr (required_in_order hplan h.member hrequired))
  obtain ⟨havailable, hdone⟩ := startDependenciesReady_awaited os hg' hget
    ((issues_iff os).mp hissues).2 hselected (.inl hrequired)
  obtain ⟨m, hm⟩ : ∃ m, i.services.services.get r = some m := by
    apply contains_iff.mp
    rw [h.registry.contains]
    exact contains_iff.mpr ⟨mr, hmr⟩
  refine ⟨r, m, (h.registry.resolveName d).trans hr, hm, ?_⟩
  have hmount' : skippedMountIsAvailable os w m.spec = false := by
    obtain ⟨m', hm', hspec'⟩ := h.registry.spec hm
    cases hmr.symm.trans hm'
    rw [← hspec']
    exact hmount w
  exact active_of_done hm (havailable hrequired) hmount' hdone

end

section

variable {ω : Type} (os : Os ω) {s₀ : Supervisor} {root : Str} {order : List Str}

/-- What holds during the turns of a job for a plan. -/
structure Underway (s₀ : Supervisor) (order : List Str) (job : StartJob)
    (t : (Supervisor × ω) × List Issue) : Prop where
  registry : SameRegistry s₀ t.1.1
  selected : job.selected = ofList order
  asked : ∀ i ∈ t.2, Asked os s₀ order i

theorem startMember_registry (now : Instant) (p : Pass) (name : Str) {s : Supervisor × ω}
    (hs : SameRegistry s₀ s.1) :
    Ends (fun p' t => SameRegistry s₀ t.1 ∧ p'.job.selected = p.job.selected) (fun _ _ => True)
      (startMember os now p name s) := by
  have hstands : Ends (fun p' t => Known (fun _ => True) p'.job ∧
      StandsIn ω (Issues.settings s₀) s₀.aliases (fun _ => True) t)
      (fun _ => StandsIn ω (Issues.settings s₀) s₀.aliases fun _ => True)
      (startMember os now p name s) :=
    startMember_yields os now p name (fun _ _ => trivial) s (sameRegistry_iff.mp hs)
  have hselected : Ends (fun p' _ => p'.job.selected = p.job.selected) (fun _ _ => True)
      (startMember os now p name s) := by
    rw [startMember_eq]
    split
    · exact ends_mono (fun _ _ h => h.1.selected) (fun _ _ h => h) (beginMember_ends os now p name s)
    · rw [passBy]
      split <;> rfl
  exact ends_mono (fun _ _ h => ⟨sameRegistry_iff.mpr h.1.2, h.2⟩) (fun _ _ _ => trivial)
    (ends_and hstands hselected)

theorem issuingMember_underway (now : Instant) {p : Pass} {name : Str} (hname : name ∈ order)
    {t : (Supervisor × ω) × List Issue} (h : Underway os s₀ order p.job t) :
    Ends (fun p' t' => Underway os s₀ order p'.job t') (fun _ t' => ∀ i ∈ t'.2, Asked os s₀ order i)
      (issuingMember os now p name t) := by
  change Ends _ _ (quiet (startMember os now p name) (t.1, t.2 ++
    if issues os t.1.1 t.1.2 name p.job then [⟨name, p.job, t.1.1⟩] else []))
  have hasked : ∀ i ∈ t.2 ++ (if issues os t.1.1 t.1.2 name p.job then
      [⟨name, p.job, t.1.1⟩] else []), Asked os s₀ order i := by
    refine List.forall_mem_append.mpr ⟨h.asked, ?_⟩
    split
    next hissues =>
      exact List.forall_mem_singleton.mpr ⟨h.registry, h.selected, hname, t.1.2, hissues⟩
    next => exact fun _ hi => absurd hi List.not_mem_nil
  refine ends_mono (fun p' t' h' => ⟨h'.1.1, h'.1.2.trans h.selected, ?_⟩) (fun _ t' h' => ?_)
    (ends_quiet (startMember_registry os now p name h.registry))
  · rw [h'.2]
    exact hasked
  · rw [h'.2]
    exact hasked

theorem members_underway (now : Instant) {rest : List Str} (hrest : ∀ name ∈ rest, name ∈ order)
    {p : Pass} {t : (Supervisor × ω) × List Issue} (h : Underway os s₀ order p.job t) :
    Ends (fun p' t' => Underway os s₀ order p'.job t') (fun _ t' => ∀ i ∈ t'.2, Asked os s₀ order i)
      (rest.foldlM (issuingMember os now) p t) := by
  induction rest generalizing p t with
  | nil => exact h
  | cons name rest ih =>
    obtain ⟨hname, hrest⟩ := List.forall_mem_cons.mp hrest
    rw [List.foldlM_cons]
    apply ends_bind (issuingMember_underway os now hname h)
    exact fun p' t' h' => ih hrest h'

/-- The starts that a job has asked for stay those when it rolls back. -/
theorem quiet_asked {α : Type} (x : Manage ω α) {t : (Supervisor × ω) × List Issue}
    (h : ∀ i ∈ t.2, Asked os s₀ order i) :
    Ends (fun _ t' => ∀ i ∈ t'.2, Asked os s₀ order i) (fun _ t' => ∀ i ∈ t'.2, Asked os s₀ order i)
      (quiet x t) :=
  preserves_quiet (i := fun log => ∀ i ∈ log, Asked os s₀ order i) x t h

/-- A job between its turns: what it is a start of, and the starts it has asked for. -/
def Kept (s₀ : Supervisor) (order : List Str) (job : StartJob) (log : List Issue) : Prop :=
  job.selected = ofList order ∧ ∀ i ∈ log, Asked os s₀ order i

theorem issuingMembers_kept (now : Instant) (passes : Nat) {p : Pass}
    {t : (Supervisor × ω) × List Issue} (h : Underway os s₀ order p.job t) :
    Ends (fun r t' => Kept os s₀ order r.job t'.2) (fun _ t' => ∀ i ∈ t'.2, Asked os s₀ order i)
      (issuingMembers os now passes p t) := by
  induction passes generalizing p t with
  | zero => exact ⟨h.selected, h.asked⟩
  | succ passes ih =>
    have hkeys : ∀ name ∈ p.job.selected.keys, name ∈ order := by
      rw [h.selected]
      exact fun name hname => mem_ofList.mp hname
    apply ends_bind (members_underway os now hkeys (p := { p with progressed := false }) h)
    intro p' t' h'
    change Ends _ _ ((if requiredDependencyFailed os t'.1.1 t'.1.2 p'.job then _ else _ :
      Issuing ω Progress) t')
    split
    · apply ends_bind (quiet_asked os _ h'.asked)
      exact fun _ _ ht => ⟨h'.selected, ht⟩
    split
    · exact ih h'
    · exact ⟨h'.selected, h'.asked⟩

theorem issuingStartJob_kept (now : Instant) {job : StartJob}
    {t : (Supervisor × ω) × List Issue} (h : Underway os s₀ order job t) :
    Ends (fun r t' => Kept os s₀ order r.job t'.2) (fun _ t' => ∀ i ∈ t'.2, Asked os s₀ order i)
      (issuingStartJob os now job t) := by
  change Ends _ _ ((if !jobComplete t.1.1 job ∧ due now job.deadline then _ else _ :
    Issuing ω Progress) t)
  split
  · apply ends_bind (quiet_asked os _ h.asked)
    exact fun _ _ ht => ⟨h.selected, ht⟩
  split
  · exact ⟨h.selected, h.asked⟩
  · exact issuingMembers_kept os now _ h

/-- A job takes its turns until it is not pending any more. Between them anything may
happen to the services, which keep their settings and their other names. -/
inductive Career (s₀ : Supervisor) (job : StartJob) : Option StartJob → List Issue → Prop
  | accepted : Career s₀ job (some job) []
  | turn {job' : StartJob} {log : List Issue} (now : Instant) (s : Supervisor × ω) :
    Career s₀ job (some job') log → SameRegistry s₀ s.1 →
      Career s₀ job (turn os now job' s log).1 (turn os now job' s log).2

variable {os}

theorem career_kept {g : DependencyGraph} {job : StartJob} {last : Option StartJob}
    {log : List Issue} (hjob : Accepted os s₀ g root order job) (h : Career os s₀ job last log) :
    (∀ i ∈ log, Asked os s₀ order i) ∧ ∀ job' ∈ last, job'.selected = ofList order := by
  induction h with
  | accepted =>
    refine ⟨fun _ hi => absurd hi List.not_mem_nil, ?_⟩
    rintro job' ⟨⟩
    exact hjob.selected
  | @turn job' log now s _ hregistry ih =>
    obtain ⟨hasked, hlast⟩ := ih
    have hend := issuingStartJob_kept os now (t := (s, log)) ⟨hregistry, hlast job' rfl, hasked⟩
    rw [turn]
    cases hr : issuingStartJob os now job' (s, log) with
    | error e t =>
      rw [hr] at hend
      exact ⟨hend, by simp⟩
    | ok p t =>
      rw [hr] at hend
      refine ⟨hend.2, fun job'' hjob'' => ?_⟩
      obtain ⟨-, rfl⟩ : p.pending = true ∧ p.job = job'' := by simpa using hjob''
      exact hend.1

end

section

variable {ω : Type} {os : Os ω} {s₀ : Supervisor} {g : DependencyGraph} {root v d : Str}
  {order : List Str}

/-- The requisite that a name is of, or the service itself if it is of none. -/
def requisiteOf (s : Supervisor) (v d : Str) : Str := (s.resolveName d).getD v

theorem down_of_placed {s : Supervisor} {u : Str} {σ : ServiceState} {m : ManagedService}
    (h : ∀ name, s.record name = (placed s₀ v u σ).record name)
    (hσ : σ = .stopping ∨ σ = .skipped) (hregistry : SameRegistry s₀ s) {r : Str}
    (hr : r = v ∨ r = u) (hm : s.services.get r = some m) : ¬ Active m := by
  have hname : s₀.services.contains r := by
    rw [← hregistry.contains]
    exact contains_iff.mpr ⟨m, hm⟩
  obtain ⟨m', hm', hstate⟩ := get_of_placed h hname
  cases hm.symm.trans hm'
  have hdown : m.record.state ∈ [ServiceState.defined, .stopping, .skipped] := by
    rw [hstate]
    split
    · simp
    · rw [if_pos (hr.resolve_left ‹_›)]
      obtain rfl | rfl := hσ <;> simp
  rw [Active, Service.ManagedService.readyForDependency]
  simp only [List.mem_cons, List.not_mem_nil, or_false] at hdown ⊢
  obtain hdown | hdown | hdown := hdown <;> simp [hdown]

theorem not_requisitesActive {s : Supervisor} {σ : ServiceState}
    (h : ∀ name, s.record name = (placed s₀ v (requisiteOf s₀ v d) σ).record name)
    (hσ : σ = .stopping ∨ σ = .skipped) (hregistry : SameRegistry s₀ s)
    {service : ManagedService} (hservice : s₀.services.get v = some service)
    (hd : d ∈ service.spec.dependencies.requisite) : ¬ RequisitesActive s v := by
  intro hactive
  obtain ⟨m, hm⟩ : ∃ m, s.services.get v = some m := by
    apply contains_iff.mp
    rw [hregistry.contains]
    exact contains_iff.mpr ⟨service, hservice⟩
  obtain ⟨m₀, hm₀, hspec⟩ := hregistry.spec hm
  cases hservice.symm.trans hm₀
  obtain ⟨r, mr, hr, hmr, hup⟩ := hactive m hm d (hspec ▸ hd)
  refine down_of_placed h hσ hregistry (.inr ?_) hmr hup
  rw [requisiteOf, ← hregistry.resolveName, hr, Option.getD_some]

theorem placed_issues (hs : Wellformed s₀) (hg : graphOf os s₀ = .ok g)
    (hplan : g.planStart root = .ok order) (hv : v ∈ order) {σ : ServiceState} {u : Str} {w : ω}
    (hready : u ∈ order → Awaited g u v → σ = .skipped ∧ (u ∈ (g.requiredDependencies v).keys →
      ∀ m, s₀.services.get u = some m → skippedMountIsAvailable os w m.spec))
    {p : Pass} {t : (Supervisor × ω) × List Issue}
    (h : Unmoved (placed s₀ v u σ) w root v (ofList order) p t) :
    issues os t.1.1 t.1.2 v p.job := by
  obtain ⟨hg', hget⟩ := describes_of_graphOf hs hg t.1.1 (settings_of_placed h.records)
  have hknown : ∀ name ∈ order, s₀.services.contains name := fun name hname =>
    order_registered hs hg hplan hname
  obtain ⟨mv, hmv, hstatev⟩ := get_of_placed h.records (hknown v hv)
  rw [if_pos rfl] at hstatev
  apply issues_of_ready hg' hget h.selected h.fresh
  · simp [Supervisor.state, Supervisor.record, hmv, hstatev]
  intro dependency hmem hawaited
  have hne : dependency ≠ v := by
    rintro rfl
    exact not_before_self hplan hv (before_of_awaited hawaited)
  obtain ⟨m, hm, hstate⟩ := get_of_placed h.records (hknown dependency hmem)
  rw [if_neg hne] at hstate
  by_cases hu : dependency = u
  · subst hu
    obtain ⟨rfl, havailable⟩ := hready hmem hawaited
    rw [if_pos rfl] at hstate
    refine ⟨by simp [serviceIsReadyWithoutStart, hm, hstate], fun hrequired => ?_⟩
    obtain ⟨m₀, hm₀, hspec⟩ := (SameRegistry.mk (settings_of_placed h.records) h.aliases).spec hm
    have hmount := havailable hrequired m₀ hm₀
    rw [hspec, ← h.world] at hmount
    simp [requiredDependencyIsUnavailable, hm, hstate, hmount]
  · rw [if_neg hu] at hstate
    simp [requiredDependencyIsUnavailable, serviceIsReadyWithoutStart, hm, hstate]

/-- A job in whose first turn a service is started whose requisite is down. -/
theorem unmet_of_unsecured (w : ω) (hs : Wellformed s₀) (hg : graphOf os s₀ = .ok g)
    (hplan : g.planStart root = .ok order) (hv : v ∈ order) {service : ManagedService}
    (hservice : s₀.services.get v = some service)
    (hd : d ∈ service.spec.dependencies.requisite) (hnot : ¬ Secured os s₀ g v d) :
    ∃ job last log, Accepted os s₀ g root order job ∧ Career os s₀ job last log ∧
      ∃ i ∈ log, ¬ RequisitesActive i.services i.name := by
  let u := requisiteOf s₀ v d
  obtain ⟨σ, w, hσ, hready⟩ : ∃ (σ : ServiceState) (w : ω),
      (σ = .stopping ∨ σ = .skipped ∧ u ≠ root) ∧
      (u ∈ order → Awaited g u v → σ = .skipped ∧ (u ∈ (g.requiredDependencies v).keys →
        ∀ m, s₀.services.get u = some m → skippedMountIsAvailable os w m.spec)) := by
    by_cases hawaited : u ∈ order ∧ Awaited g u v
    · have hbefore := before_of_awaited hawaited.2
      have hroot : u ≠ root := fun he => not_before_root hplan hv (he ▸ hbefore)
      have huv : u ≠ v := fun he => not_before_self hplan hv (he ▸ hbefore)
      by_cases hmount : ∃ w, ∀ m, s₀.services.get u = some m → skippedMountIsAvailable os w m.spec
      · obtain ⟨w, hmount⟩ := hmount
        exact ⟨.skipped, w, .inr ⟨rfl, hroot⟩, fun _ _ => ⟨rfl, fun _ => hmount⟩⟩
      · refine ⟨.skipped, w, .inr ⟨rfl, hroot⟩, fun _ _ => ⟨rfl, fun hrequired => ?_⟩⟩
        -- What the service requires is secured if it is never skipped as being there.
        obtain ⟨m, hm⟩ := contains_iff.mp (order_registered hs hg hplan hawaited.1)
        refine absurd ⟨u, m, ?_, hm, hrequired, fun w => ?_⟩ hnot
        · cases hresolve : s₀.resolveName d with
          | none => exact absurd (by simp [u, requisiteOf, hresolve]) huv
          | some r => simp [u, requisiteOf, hresolve]
        · rw [← Bool.not_eq_true]
          refine fun h => hmount ⟨w, fun m' hm' => ?_⟩
          cases hm.symm.trans hm'
          exact h
    · exact ⟨.stopping, w, .inl rfl, fun hu ha => absurd ⟨hu, ha⟩ hawaited⟩
  let job : StartJob := ⟨root, ofList order, empty, order, empty, empty, empty, none, .none⟩
  have hjob : Accepted os s₀ g root order job := ⟨hg, hplan, rfl, rfl, rfl⟩
  refine ⟨job, _, _, hjob, .turn 0 (placed s₀ v u σ, w) .accepted ⟨settings_placed, rfl⟩, ?_⟩
  have hrests : ∀ name ∈ order, name ≠ v → Rests (placed s₀ v u σ) root name :=
    fun name hname hne => placed_rests hσ (order_registered hs hg hplan hname) hne
  have hend := @issuingStartJob_noted ω os (placed s₀ v u σ) w root v
    (fun i => ¬ RequisitesActive i.services i.name) order hv hrests fun p t ht =>
      ⟨placed_issues hs hg hplan hv hready ht, not_requisitesActive ht.records
        (hσ.imp_right And.left) ⟨settings_of_placed ht.records, ht.aliases⟩ hservice hd⟩
  rw [turn]
  cases hr : issuingStartJob os 0 job ((placed s₀ v u σ, w), []) with
  | ok p t =>
    rw [hr] at hend
    exact hend
  | error e t =>
    rw [hr] at hend
    exact hend

theorem starts_meet_iff (w : ω) (hs : Wellformed s₀) (hg : graphOf os s₀ = .ok g)
    (hplan : g.planStart root = .ok order) :
    (∀ job last log, Accepted os s₀ g root order job → Career os s₀ job last log →
      ∀ i ∈ log, RequisitesActive i.services i.name) ↔ ∀ v ∈ order, Guarded os s₀ g v := by
  constructor
  · intro h v hv service hservice d hd
    by_contra hnot
    obtain ⟨job, last, log, hjob, hcareer, i, hi, hunmet⟩ :=
      unmet_of_unsecured w hs hg hplan hv hservice hd hnot
    exact hunmet (h job last log hjob hcareer i hi)
  · intro hguarded job last log hjob hcareer i hi
    have hasked := (career_kept hjob hcareer).1 i hi
    exact asked_active hs hg hplan (hguarded i.name hasked.member) hasked

end

end FractalD.Manager.Requisites
