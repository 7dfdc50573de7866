import FractalD.Manager.Idle

namespace FractalD.Manager.StartOrder

open FractalD.Core.Graph FractalD.Core.Planning FractalD.Core.Restarts FractalD.Core.Spec
open FractalD.Core.StartPlan
open FractalD.Machine.CString FractalD.Machine.Effect FractalD.Machine.Logs
open FractalD.Machine.OrderedMap FractalD.Manager.Acceptance FractalD.Manager.Idle
open FractalD.Manager.Issues
open FractalD.Manager.Jobs FractalD.Manager.Registry FractalD.Manager.Resolution
open FractalD.Manager.Runs FractalD.Manager.Survival FractalD.Supervisor FractalD.Supervisor.System

/-- A start of a service waits for another one that is started with it. -/
def Awaited (g : DependencyGraph) (u v : Str) : Prop :=
  u ∈ (g.requiredDependencies v).keys ∨ u ∈ g.named v (·.after) ∨ v ∈ g.named u (·.before)

/-- Nothing need be done for a service any more before what comes after it is started. -/
def Done (s : Supervisor) (job : StartJob) (u : Str) : Prop :=
  job.attempted.contains u ∧ serviceStartComplete s u ∨ serviceIsReadyWithoutStart s u

section

variable {g : DependencyGraph} {root u v : Str} {order : List Str}

theorem before_of_pullsIn (h : PullsIn g u v) : Before g v u := by
  refine .inl (List.mem_append_left _ (List.mem_append.mpr ?_))
  obtain h | ⟨h, -⟩ | h := h
  · exact .inl h
  · exact .inr (mem_ofList.mpr (List.mem_append_left _ h))
  · exact .inr (mem_ofList.mpr (List.mem_append_right _ h))

theorem pulled_before (h : Pulled g root v) :
    Relation.ReflTransGen (PulledBefore g root) v root := by
  induction h with
  | refl => exact .refl
  | tail hy hyz ih => exact .head ⟨hy.tail hyz, hy, before_of_pullsIn hyz⟩ ih

theorem not_before_root (h : g.planStart root = .ok order) (hv : v ∈ order) :
    ¬ Before g root v := by
  obtain ⟨selected, hs, ho⟩ := planStart_ok h
  obtain ⟨hmem, -⟩ := selected_pulled hs
  obtain ⟨-, horder, -, hacyclic⟩ := topologicalOrder_ok _ _ ho
  rw [beforeIn_pulled hmem] at hacyclic
  have hpulled : Pulled g root v := (hmem v).mp ((horder v).mp hv)
  intro hbefore
  exact hacyclic root (.head' ⟨.refl, hpulled, hbefore⟩ (pulled_before hpulled))

end

section

variable {ω : Type} (os : Os ω) {g : DependencyGraph} {s : Supervisor} {w : ω} {job : StartJob}
  {u v : Str}

theorem startDependenciesReady_awaited (hg : graphOf os s = .ok g)
    (hget : ∀ name, g.services.get name = (s.services.get name).map (·.spec))
    (h : startDependenciesReady os s w v job) (hu : job.selected.contains u)
    (huv : Awaited g u v) :
    (u ∈ (g.requiredDependencies v).keys → requiredDependencyIsUnavailable os s w u = false) ∧
      Done s job u := by
  obtain ⟨service, hservice, hall⟩ := (Option.any_eq_true _ _).mp h
  have hnamed : ∀ list, g.named v list = list service.spec.dependencies := fun list => by
    simp only [DependencyGraph.named, hget, hservice, Option.map_some]
  simp only [hg] at hall
  have hready := List.all_eq_true.mp hall u ?_
  · obtain ⟨havailable, hdone⟩ := Bool.and_eq_true_iff.mp hready
    constructor
    · intro hrequired
      have hmem : ((g.requiredDependencies v).keys.filter job.selected.contains).contains u :=
        List.contains_iff_mem.mpr (List.mem_filter.mpr ⟨hrequired, hu⟩)
      rwa [hmem, Bool.true_and, Bool.not_eq_true'] at havailable
    · obtain hready | hcomplete := Bool.or_eq_true_iff.mp hdone
      · exact .inr hready
      · exact .inl (Bool.and_eq_true_iff.mp hcomplete)
  · obtain h | h | h := huv
    · exact List.mem_append_left _ (List.mem_append_left _ (List.mem_filter.mpr ⟨h, hu⟩))
    · rw [hnamed] at h
      exact List.mem_append_left _ (List.mem_append_right _ (List.mem_filter.mpr ⟨h, hu⟩))
    · refine List.mem_append_right _ (List.mem_filter.mpr ⟨mem_keys.mpr hu, ?_⟩)
      simp only [DependencyGraph.named, hget] at h
      cases hother : s.services.get u with
      | none => simp [hother] at h
      | some other => simpa [hother] using h

end

/-- The graph of all supervisors whose services have the given settings. -/
def Describes {ω : Type} (os : Os ω) (specs : BTreeMap Str ServiceSpec) (g : DependencyGraph) :
    Prop :=
  ∀ s, settings s = specs → graphOf os s = .ok g ∧
    ∀ name, g.services.get name = (s.services.get name).map (·.spec)

theorem describes_of_graphOf {ω : Type} {os : Os ω} {s₀ : Supervisor} {g : DependencyGraph}
    (hs : Wellformed s₀) (hg : graphOf os s₀ = .ok g) : Describes os (settings s₀) g := by
  obtain ⟨g', hg', hget⟩ := graphOf_ok os hs
  obtain rfl : g = g' := by
    cases hg.symm.trans hg'
    rfl
  intro s hsettings
  refine ⟨by rw [graphOf_settings, hsettings, ← graphOf_settings, hg], fun name => ?_⟩
  rw [hget, ← get_map, ← get_map]
  exact congrArg (·.get name) hsettings.symm

/-- Each start that a job has asked for was of another member, for which all was done
that comes before it. None was of a member that comes before one that had been started. -/
structure Follows (g : DependencyGraph) (order : List Str) (issues : List Issue) : Prop where
  members : ∀ i ∈ issues, i.name ∈ order
  done : ∀ i ∈ issues, ∀ u ∈ order, Before g u i.name → Done i.services i.job u
  nodup : (issues.map (·.name)).Nodup
  order : (issues.map (·.name)).Pairwise fun a b => ¬ Before g b a

/-- What holds of a job between its passes. -/
structure Covered (g : DependencyGraph) (order : List Str) (job : StartJob)
    (issues : List Issue) : Prop where
  selected : job.selected = ofList order
  attempted : ∀ i ∈ issues, job.attempted.contains i.name
  before : ∀ i ∈ issues, ∀ u ∈ order, Before g u i.name → job.attempted.contains u

/-- What holds of a job in a pass that has yet to come to the given members. -/
structure Passing (g : DependencyGraph) (order rest : List Str) (s : Supervisor) (job : StartJob)
    (issues : List Issue) : Prop where
  selected : job.selected = ofList order
  attempted : ∀ i ∈ issues, job.attempted.contains i.name
  before : ∀ i ∈ issues, ∀ u ∈ order, Before g u i.name →
    job.attempted.contains u ∨ u ∈ rest ∧ u ≠ job.root ∧ serviceIsReadyWithoutStart s u
  visited : ∀ u ∈ order, u ∉ rest → u ≠ job.root →
    job.attempted.contains u ∨ ¬ serviceIsReadyWithoutStart s u

section

variable {ω : Type} (os : Os ω) {specs : BTreeMap Str ServiceSpec} {g : DependencyGraph}
  {order rest : List Str} {s t : Supervisor} {w : ω} {p p' : Pass} {name : Str} {log : List Issue}

theorem passing_passBy (h : Passing g order (name :: rest) s p.job log) :
    Passing g order rest s (passBy s p name).job log := by
  rw [passBy]
  split
  next hready =>
    have hname : (p.job.attempted.add name).contains name := contains_add.mpr (.inl rfl)
    have hkept : ∀ {u}, p.job.attempted.contains u → (p.job.attempted.add name).contains u :=
      fun hu => contains_add.mpr (.inr hu)
    refine ⟨h.selected, fun i hi => hkept (h.attempted i hi), fun i hi u hu hb => ?_,
      fun u hu hrest hroot => ?_⟩
    · obtain hu' | ⟨hu', hroot, hr⟩ := h.before i hi u hu hb
      · exact .inl (hkept hu')
      · obtain rfl | hu' := List.mem_cons.mp hu'
        · exact .inl hname
        · exact .inr ⟨hu', hroot, hr⟩
    · by_cases hu' : u = name
      · exact .inl (hu' ▸ hname)
      · exact (h.visited u hu (by simp [hu', hrest]) hroot).imp_left hkept
  next hready =>
    have hname : name ≠ p.job.root → p.job.attempted.contains name ∨
        ¬ serviceIsReadyWithoutStart s name := by
      intro hroot
      by_contra hn
      push Not at hn
      exact hready ⟨by simpa using hn.1, hroot, hn.2⟩
    refine ⟨h.selected, h.attempted, fun i hi u hu hb => ?_, fun u hu hrest hroot => ?_⟩
    · obtain hu' | ⟨hu', hroot, hr⟩ := h.before i hi u hu hb
      · exact .inl hu'
      · obtain rfl | hu' := List.mem_cons.mp hu'
        · exact .inl ((hname hroot).resolve_right (not_not.mpr hr))
        · exact .inr ⟨hu', hroot, hr⟩
    · by_cases hu' : u = name
      · subst hu'
        exact hname hroot
      · exact h.visited u hu (by simp [hu', hrest]) hroot

theorem issues_done {job : StartJob} (hdescribes : Describes os specs g) (hs : settings s = specs)
    (htracked : ∀ u ∈ order, ∀ v ∈ order, Before g u v → Awaited g u v)
    (hselected : job.selected = ofList order) (hname : name ∈ order)
    (hissues : issues os s w name job) : ∀ u ∈ order, Before g u name → Done s job u := by
  intro u hu hb
  obtain ⟨hg, hget⟩ := hdescribes s hs
  refine (startDependenciesReady_awaited os hg hget ((issues_iff os).mp hissues).2 ?_
    (htracked u hu name hname hb)).2
  rw [hselected]
  exact mem_keys.mp (mem_ofList.mpr hu)

theorem follows_begin {job : StartJob}
    (hdone : ∀ u ∈ order, Before g u name → Done s job u)
    (h : Passing g order (name :: rest) s job log) (hname : name ∈ order)
    (hissues : issues os s w name job) (hfollows : Follows g order log) :
    Follows g order (log ++ [⟨name, job, s⟩]) := by
  obtain ⟨⟨hfresh, hnot⟩, -⟩ := (issues_iff os).mp hissues
  refine ⟨?_, ?_, ?_, ?_⟩
  · exact List.forall_mem_append.mpr ⟨hfollows.members, by simpa using hname⟩
  · exact List.forall_mem_append.mpr ⟨hfollows.done, by simpa using hdone⟩
  · rw [List.map_append, List.nodup_append]
    refine ⟨hfollows.nodup, by simp, fun a ha b hb => ?_⟩
    obtain ⟨i, hi, rfl⟩ := List.mem_map.mp ha
    obtain rfl : b = name := by simpa using hb
    rintro rfl
    simp [h.attempted i hi] at hfresh
  · rw [List.map_append, List.pairwise_append]
    refine ⟨hfollows.order, by simp, fun a ha b hb => ?_⟩
    obtain ⟨i, hi, rfl⟩ := List.mem_map.mp ha
    obtain rfl : b = name := by simpa using hb
    intro hbefore
    obtain hattempted | ⟨-, hroot, hr⟩ := h.before i hi _ hname hbefore
    · simp [hattempted] at hfresh
    · exact hnot ⟨hroot, hr⟩

theorem passing_begin (hplan : g.planStart p.job.root = .ok order)
    (hdone : ∀ u ∈ order, Before g u name → Done s p.job u)
    (h : Passing g order (name :: rest) s p.job log) (hname : name ∈ order)
    (hp : Attempts name p p') (ht : Touches name s t) :
    Passing g order rest t p'.job (log ++ [⟨name, p.job, s⟩]) := by
  have hadd : ∀ {u}, p'.job.attempted.contains u ↔ u = name ∨ p.job.attempted.contains u := by
    intro u
    rw [hp.attempted, contains_add]
  have hsame : ∀ {u}, u ≠ name →
      serviceIsReadyWithoutStart t u = serviceIsReadyWithoutStart s u := fun hu => by
    simp only [serviceIsReadyWithoutStart, ht.others _ hu]
  refine ⟨hp.selected.trans h.selected, ?_, ?_, fun u hu hrest hroot => ?_⟩
  · exact List.forall_mem_append.mpr ⟨fun i hi => hadd.mpr (.inr (h.attempted i hi)),
      by simpa using hadd.mpr (.inl rfl)⟩
  · refine List.forall_mem_append.mpr ⟨fun i hi u hu hb => ?_, ?_⟩
    · by_cases hun : u = name
      · exact .inl (hadd.mpr (.inl hun))
      · obtain hu' | ⟨hu', hroot, hr⟩ := h.before i hi u hu hb
        · exact .inl (hadd.mpr (.inr hu'))
        · refine .inr ⟨(List.mem_cons.mp hu').resolve_left hun, ?_, ?_⟩
          · rwa [hp.root]
          · rwa [hsame hun]
    · refine List.forall_mem_singleton.mpr fun u hu hb => ?_
      by_cases hun : u = name
      · exact .inl (hadd.mpr (.inl hun))
      · obtain ⟨ha, -⟩ | hr := hdone u hu hb
        · exact .inl (hadd.mpr (.inr ha))
        · have hroot : u ≠ p.job.root := fun he => not_before_root hplan hname (he ▸ hb)
          by_cases hrest : u ∈ rest
          · refine .inr ⟨hrest, ?_, ?_⟩
            · rwa [hp.root]
            · rwa [hsame hun]
          · -- The pass has passed it by, so that it was not ready then.
            obtain ha | hn := h.visited u hu (by simp [hun, hrest]) hroot
            · exact .inl (hadd.mpr (.inr ha))
            · exact absurd hr hn
  · by_cases hun : u = name
    · exact .inl (hadd.mpr (.inl hun))
    · rw [hsame hun]
      rw [hp.root] at hroot
      exact (h.visited u hu (by simp [hun, hrest]) hroot).imp_left fun ha => hadd.mpr (.inr ha)

theorem passing_of_covered {job : StartJob} (h : Covered g order job log) (s : Supervisor) :
    Passing g order job.selected.keys s job log := by
  refine ⟨h.selected, h.attempted, fun i hi u hu hb => .inl (h.before i hi u hu hb),
    fun u hu hrest => ?_⟩
  rw [h.selected] at hrest
  exact absurd (mem_ofList.mpr hu) hrest

theorem covered_of_passing {job : StartJob} (h : Passing g order [] s job log) :
    Covered g order job log := by
  refine ⟨h.selected, h.attempted, fun i hi u hu hb => ?_⟩
  obtain ha | ⟨hu', -⟩ := h.before i hi u hu hb
  · exact ha
  · exact absurd hu' List.not_mem_nil

end

section

variable {ω : Type} (os : Os ω) {specs : BTreeMap Str ServiceSpec} {g : DependencyGraph}
  {root : Str} {order : List Str}

/-- What holds in a pass that has yet to come to the given members. -/
structure InPass (specs : BTreeMap Str ServiceSpec) (g : DependencyGraph) (root : Str)
    (order rest : List Str) (p : Pass) (t : (Supervisor × ω) × List Issue) : Prop where
  settings : settings t.1.1 = specs
  root : p.job.root = root
  follows : Follows g order t.2
  passing : Passing g order rest t.1.1 p.job t.2

variable (hplan : g.planStart root = .ok order) (hdescribes : Describes os specs g)
  (htracked : ∀ u ∈ order, ∀ v ∈ order, Before g u v → Awaited g u v)

include hplan hdescribes htracked

theorem issuingMember_ends (now : Instant) {rest : List Str} {name : Str} (hname : name ∈ order)
    {p : Pass} {t : (Supervisor × ω) × List Issue}
    (h : InPass specs g root order (name :: rest) p t) :
    Ends (fun p' t' => InPass specs g root order rest p' t') (fun _ t' => Follows g order t'.2)
      (issuingMember os now p name t) := by
  obtain ⟨hs, rfl, hfollows, hpassing⟩ := h
  change Ends _ _ (quiet (startMember os now p name) (t.1, t.2 ++
    if issues os t.1.1 t.1.2 name p.job then [⟨name, p.job, t.1.1⟩] else []))
  by_cases hissues : issues os t.1.1 t.1.2 name p.job
  · have hdone := issues_done os hdescribes hs htracked hpassing.selected hname hissues
    have hnext := follows_begin os hdone hpassing hname hissues hfollows
    have hbegun := beginMember_ends os now p name t.1
    have heq := startMember_eq os now p name t.1
    rw [if_pos hissues] at heq ⊢
    rw [← heq] at hbegun
    refine ends_mono (fun p' t' h' => ?_) (fun _ t' h' => ?_) (ends_quiet hbegun)
    · obtain ⟨⟨hp, ht⟩, hlog⟩ := h'
      refine ⟨ht.settings.trans hs, hp.root, ?_, ?_⟩
      · rwa [hlog]
      · rw [hlog]
        exact passing_begin hplan hdone hpassing hname hp ht
    · rwa [h'.2]
  · have heq := startMember_eq os now p name t.1
    rw [if_neg hissues] at heq ⊢
    rw [quiet, List.append_nil, heq]
    refine ⟨hs, ?_, hfollows, passing_passBy hpassing⟩
    rw [passBy]
    split <;> rfl

theorem members_end (now : Instant) {rest : List Str} (hrest : ∀ name ∈ rest, name ∈ order)
    {p : Pass} {t : (Supervisor × ω) × List Issue} (h : InPass specs g root order rest p t) :
    Ends (fun p' t' => InPass specs g root order [] p' t') (fun _ t' => Follows g order t'.2)
      (rest.foldlM (issuingMember os now) p t) := by
  induction rest generalizing p t with
  | nil => exact h
  | cons name rest ih =>
    obtain ⟨hname, hrest⟩ := List.forall_mem_cons.mp hrest
    rw [List.foldlM_cons]
    exact ends_bind (issuingMember_ends os hplan hdescribes htracked now hname h) fun p' t' h' =>
      ih hrest h'

theorem issuingMembers_ends (now : Instant) (passes : Nat) {p : Pass}
    {t : (Supervisor × ω) × List Issue} (hs : settings t.1.1 = specs) (hroot : p.job.root = root)
    (hfollows : Follows g order t.2) (hcovered : Covered g order p.job t.2) :
    Ends (fun r t' => Follows g order t'.2 ∧ r.job.root = root ∧ Covered g order r.job t'.2)
      (fun _ t' => Follows g order t'.2) (issuingMembers os now passes p t) := by
  induction passes generalizing p t with
  | zero => exact ⟨hfollows, hroot, hcovered⟩
  | succ passes ih =>
    have hin : InPass specs g root order p.job.selected.keys { p with progressed := false } t :=
      ⟨hs, hroot, hfollows, passing_of_covered hcovered t.1.1⟩
    have hkeys : ∀ name ∈ p.job.selected.keys, name ∈ order := fun name hname => by
      rw [hcovered.selected] at hname
      exact mem_ofList.mp hname
    refine ends_bind (members_end os hplan hdescribes htracked now hkeys hin) fun p' t' h' => ?_
    obtain ⟨hs', hroot', hfollows', hpassing⟩ := h'
    have hcovered' := covered_of_passing hpassing
    change Ends _ _ ((if requiredDependencyFailed os t'.1.1 t'.1.2 p'.job then _ else _ :
      Issuing ω Progress) t')
    split
    · refine ends_bind (p := fun _ t'' => t''.2 = t'.2) ?_ fun _ t'' hlog => ?_
      · refine ends_mono (fun _ _ h => h.2) (fun _ t'' h => ?_) (ends_quiet (ends_trivial _))
        rwa [h.2]
      · exact ⟨hlog ▸ hfollows', hroot', hlog ▸ hcovered'⟩
    · split
      · exact ih hs' hroot' hfollows' hcovered'
      · exact ⟨hfollows', hroot', hcovered'⟩

theorem issuingStartJob_ends (now : Instant) {job : StartJob}
    {t : (Supervisor × ω) × List Issue} (hs : settings t.1.1 = specs) (hroot : job.root = root)
    (hfollows : Follows g order t.2) (hcovered : Covered g order job t.2) :
    Ends (fun r t' => Follows g order t'.2 ∧ r.job.root = root ∧ Covered g order r.job t'.2)
      (fun _ t' => Follows g order t'.2) (issuingStartJob os now job t) := by
  change Ends _ _ ((if !jobComplete t.1.1 job ∧ due now job.deadline then _ else _ :
    Issuing ω Progress) t)
  split
  · refine ends_bind (p := fun _ t' => t'.2 = t.2) ?_ fun _ t' hlog => ?_
    · refine ends_mono (fun _ _ h => h.2) (fun _ t' h => ?_) (ends_quiet (ends_trivial _))
      rwa [h.2]
    · exact ⟨hlog ▸ hfollows, hroot, hlog ▸ hcovered⟩
  · split
    · exact ⟨hfollows, hroot, hcovered⟩
    · exact issuingMembers_ends os hplan hdescribes htracked now _ hs hroot hfollows hcovered

end

section

variable {ω : Type} (os : Os ω)

/-- What is left of a job that takes its turn, and the starts it has asked for since it
was accepted. -/
def turn (now : Instant) (job : StartJob) (s : Supervisor × ω) (log : List Issue) :
    Option StartJob × List Issue :=
  match issuingStartJob os now job (s, log) with
  | .ok p t => (if p.pending then some p.job else none, t.2)
  | .error _ t => (none, t.2)

/-- A job takes its turns until it is not pending any more. Between them anything may
happen to the services, which keep their settings. -/
inductive Life (specs : BTreeMap Str ServiceSpec) (job : StartJob) :
    Option StartJob → List Issue → Prop
  | accepted : Life specs job (some job) []
  | turn {job' : StartJob} {log : List Issue} (now : Instant) (s : Supervisor × ω) :
    Life specs job (some job') log → settings s.1 = specs →
      Life specs job (turn os now job' s log).1 (turn os now job' s log).2

/-- The start of a selected service waits for each selected service that is ordered
before it. Of those that it only wants, has wanted mounts of or has as a requisite this
is not so. -/
def Tracked (g : DependencyGraph) (order : List Str) : Prop :=
  ∀ u ∈ order, ∀ v ∈ order, Before g u v → Awaited g u v

variable {os}

section

variable {s₀ : Supervisor} {g : DependencyGraph} {root : Str} {order : List Str}

theorem life_follows {job : StartJob} {last : Option StartJob} {log : List Issue}
    (hs : Wellformed s₀) (hjob : Accepted os s₀ g root order job) (htracked : Tracked g order)
    (h : Life os (settings s₀) job last log) :
    Follows g order log ∧ ∀ job' ∈ last, job'.root = root ∧ Covered g order job' log := by
  have hdescribes := describes_of_graphOf hs hjob.graph
  induction h with
  | accepted =>
    refine ⟨⟨by simp, by simp, by simp, by simp⟩, ?_⟩
    rintro job' ⟨⟩
    exact ⟨hjob.root, hjob.selected, by simp, by simp⟩
  | @turn job' log now s _ hsettings ih =>
    obtain ⟨hfollows, hlast⟩ := ih
    obtain ⟨hroot, hcovered⟩ := hlast job' rfl
    have hend := issuingStartJob_ends os hjob.plan hdescribes htracked now (t := (s, log)) hsettings
      hroot hfollows hcovered
    rw [turn]
    cases hr : issuingStartJob os now job' (s, log) with
    | error e t =>
      rw [hr] at hend
      exact ⟨hend, by simp⟩
    | ok p t =>
      rw [hr] at hend
      refine ⟨hend.1, fun job'' hjob'' => ?_⟩
      obtain ⟨-, rfl⟩ : p.pending = true ∧ p.job = job'' := by simpa using hjob''
      exact hend.2

end

end

section

variable {ω : Type} (os : Os ω) {s₀ : Supervisor} {g : DependencyGraph} {root u v : Str}
  {order : List Str}

/-- All services are up, but for one that is down and one that is being stopped. -/
def arranged (s₀ : Supervisor) (u v : Str) : Supervisor :=
  { s₀ with
    services := s₀.services.mapKeyed fun name m => { m with
      record := { m.record with
        state := if name = v then .defined else if name = u then .stopping else .active } } }

/-- No service is in another state than when they were arranged. -/
structure Arranged (s₀ : Supervisor) (root u v : Str) (order : List Str) (p : Pass)
    (t : (Supervisor × ω) × List Issue) : Prop where
  records : ∀ name, t.1.1.record name = (arranged s₀ u v).record name
  fresh : p.job.attempted.contains v = false
  root : p.job.root = root
  selected : p.job.selected = ofList order

theorem arranged_of_unmoved {w : ω} {p : Pass} {t : (Supervisor × ω) × List Issue}
    (h : Unmoved (arranged s₀ u v) w root v (ofList order) p t) : Arranged s₀ root u v order p t :=
  ⟨h.records, h.fresh, h.root, h.selected⟩

theorem pulled_registered (h : g.planStart root = .ok order) (hv : v ∈ order) :
    g.services.contains v := by
  obtain ⟨selected, hs, ho⟩ := planStart_ok h
  obtain ⟨hmem, hcomplete⟩ := selected_pulled hs
  obtain ⟨-, horder, -⟩ := topologicalOrder_ok _ _ ho
  have hpulled : Pulled g root v := (hmem v).mp ((horder v).mp hv)
  cases hpulled with
  | refl => exact (closureOf_registered hs).2
  | tail hy hyz => exact pulls_registered (hcomplete _ hy) _ (mem_pulls.mpr hyz)

theorem order_registered {os : Os ω} (hs : Wellformed s₀) (hg : graphOf os s₀ = .ok g)
    (hplan : g.planStart root = .ok order) {name : Str} (hname : name ∈ order) :
    s₀.services.contains name := by
  have hregistered := pulled_registered hplan hname
  have hget := (describes_of_graphOf hs hg s₀ rfl).2 name
  rwa [BTreeMap.contains, hget, Option.isSome_map] at hregistered

theorem before_of_awaited (h : Awaited g u v) : Before g u v := by
  obtain h | h | h := h
  · exact .inl (List.mem_append_left _ (List.mem_append_left _ h))
  · exact .inl (List.mem_append_right _ h)
  · exact .inr (.inl h)

theorem not_before_self (h : g.planStart root = .ok order) (hv : v ∈ order) : ¬ Before g v v := by
  obtain ⟨selected, -, ho⟩ := planStart_ok h
  exact fun hb => lt_irrefl _ ((topologicalOrder_ok _ _ ho).2.2.1 v v hv hv hb)

variable {os} in
theorem issues_of_ready {s : Supervisor} {w : ω} {job : StartJob} (hg : graphOf os s = .ok g)
    (hget : ∀ name, g.services.get name = (s.services.get name).map (·.spec))
    (hselected : job.selected = ofList order) (hfresh : job.attempted.contains v = false)
    (hdown : s.state v = some .defined)
    (hready : ∀ u ∈ order, Awaited g u v → serviceIsReadyWithoutStart s u ∧
      (u ∈ (g.requiredDependencies v).keys → requiredDependencyIsUnavailable os s w u = false)) :
    issues os s w v job := by
  obtain ⟨mv, hmv, hstatev⟩ := get_of_state hdown
  refine (issues_iff os).mpr ⟨⟨hfresh, fun hup => ?_⟩, ?_⟩
  · simp [serviceIsReadyWithoutStart, hmv, hstatev, Service.ManagedService.readyForDependency]
      at hup
  · rw [startDependenciesReady, hmv, Option.any_some]
    simp only [hg]
    apply List.all_eq_true.mpr
    intro dependency hdependency
    have hin : ∀ {name}, job.selected.contains name → name ∈ order := fun hname => by
      rw [hselected] at hname
      exact mem_ofList.mp (mem_keys.mpr hname)
    obtain ⟨hmem, hawaited⟩ : dependency ∈ order ∧ Awaited g dependency v := by
      obtain hd | hd := List.mem_append.mp hdependency
      · obtain hd | hd := List.mem_append.mp hd
        · obtain ⟨hd, hsel⟩ := List.mem_filter.mp hd
          exact ⟨hin hsel, .inl hd⟩
        · obtain ⟨hd, hsel⟩ := List.mem_filter.mp hd
          refine ⟨hin hsel, .inr (.inl ?_)⟩
          simpa only [DependencyGraph.named, hget, hmv, Option.map_some] using hd
      · obtain ⟨hsel, hd⟩ := List.mem_filter.mp hd
        refine ⟨hin (mem_keys.mp hsel), .inr (.inr ?_)⟩
        obtain ⟨other, hother, hd⟩ := (Option.any_eq_true _ _).mp hd
        simpa [DependencyGraph.named, hget, hother] using hd
    obtain ⟨hisReady, havailable⟩ := hready dependency hmem hawaited
    rw [hisReady, Bool.true_or, Bool.and_true, Bool.not_eq_true', Bool.and_eq_false_iff]
    by_cases hrequired : dependency ∈ (g.requiredDependencies v).keys
    · exact .inr (havailable hrequired)
    · left
      rw [List.contains_eq_mem, decide_eq_false_iff_not]
      exact fun hd => hrequired (List.mem_of_mem_filter hd)

variable {os} in
/-- The job comes to a service before one that its start does not wait for is done. -/
theorem arranged_issues (hs : Wellformed s₀) (hg : graphOf os s₀ = .ok g)
    (hplan : g.planStart root = .ok order) (hu : u ∈ order) (hv : v ∈ order) (hb : Before g u v)
    (hnot : ¬ Awaited g u v) {p : Pass} {t : (Supervisor × ω) × List Issue}
    (h : Arranged s₀ root u v order p t) :
    issues os t.1.1 t.1.2 v p.job ∧ ¬ Done t.1.1 p.job u := by
  obtain ⟨hg', hget⟩ := describes_of_graphOf hs hg t.1.1 (settings_of_placed h.records)
  have hknown : ∀ name ∈ order, s₀.services.contains name := fun name hname =>
    order_registered hs hg hplan hname
  have huv : u ≠ v := fun he => not_before_self hplan hv (he ▸ hb)
  obtain ⟨mu, hmu, hstateu⟩ := get_of_placed h.records (hknown u hu)
  obtain ⟨mv, hmv, hstatev⟩ := get_of_placed h.records (hknown v hv)
  rw [if_neg huv, if_pos rfl] at hstateu
  rw [if_pos rfl] at hstatev
  constructor
  · apply issues_of_ready hg' hget h.selected h.fresh
    · simp [Supervisor.state, Supervisor.record, hmv, hstatev]
    · intro dependency hmem hawaited
      obtain ⟨m, hm, hstate⟩ := get_of_placed h.records (hknown dependency hmem)
      have hactive : m.record.state = .active := by
        rw [hstate, if_neg, if_neg]
        · exact fun he => hnot (he ▸ hawaited)
        · intro he
          rw [he] at hawaited
          exact not_before_self hplan hv (before_of_awaited hawaited)
      simp [requiredDependencyIsUnavailable, serviceIsReadyWithoutStart, hm, hactive]
  · simp [Done, serviceStartComplete, serviceIsReadyWithoutStart, hmu, hstateu,
      Service.ManagedService.readyForDependency]

/-- The start of a service has been asked for too early. -/
def Outrun (u v : Str) (log : List Issue) : Prop :=
  ∃ i ∈ log, i.name = v ∧ ¬ Done i.services i.job u

theorem not_follows_of_outrun {log : List Issue} (hu : u ∈ order) (hb : Before g u v)
    (h : Outrun u v log) : ¬ Follows g order log := by
  obtain ⟨i, hi, rfl, hnot⟩ := h
  exact fun hfollows => hnot (hfollows.done i hi u hu hb)

/-- A job in whose first turn a service is started too early. -/
theorem outrun_of_untracked (w : ω) (hs : Wellformed s₀) (hg : graphOf os s₀ = .ok g)
    (hplan : g.planStart root = .ok order) (hu : u ∈ order) (hv : v ∈ order) (hb : Before g u v)
    (hnot : ¬ Awaited g u v) :
    ∃ job last log, Accepted os s₀ g root order job ∧ Life os (settings s₀) job last log ∧
      Outrun u v log := by
  let job : StartJob := ⟨root, ofList order, empty, order, empty, empty, empty, none, .none⟩
  have hjob : Accepted os s₀ g root order job := ⟨hg, hplan, rfl, rfl, rfl⟩
  refine ⟨job, _, _, hjob, .turn 0 (arranged s₀ u v, w) .accepted settings_placed, ?_⟩
  have hrests : ∀ name ∈ order, name ≠ v → Rests (arranged s₀ u v) root name := fun name hname hne =>
    placed_rests (.inl rfl) (order_registered hs hg hplan hname) hne
  have hend := @issuingStartJob_noted ω os (arranged s₀ u v) w root v
    (fun i => i.name = v ∧ ¬ Done i.services i.job u) order hv hrests fun p t ht => by
      obtain ⟨hissues, hundone⟩ := arranged_issues hs hg hplan hu hv hb hnot (arranged_of_unmoved ht)
      exact ⟨hissues, rfl, hundone⟩
  rw [turn]
  cases hr : issuingStartJob os 0 job ((arranged s₀ u v, w), []) with
  | ok p t =>
    rw [hr] at hend
    exact hend
  | error e t =>
    rw [hr] at hend
    exact hend

end

section

variable {ω : Type} (os : Os ω) {s₀ : Supervisor} {g : DependencyGraph} {root : Str}
  {order : List Str}

/-- The starts of all jobs for a root follow its plan exactly if the start of a service
waits for all that comes before it. -/
theorem starts_follow_plan_iff (w : ω) (hs : Wellformed s₀) (hg : graphOf os s₀ = .ok g)
    (hplan : g.planStart root = .ok order) :
    (∀ job last log, Accepted os s₀ g root order job → Life os (settings s₀) job last log →
      Follows g order log) ↔ Tracked g order := by
  constructor
  · intro h u hu v hv hb
    by_contra hnot
    obtain ⟨job, last, log, hjob, hlife, hout⟩ := outrun_of_untracked os w hs hg hplan hu hv hb hnot
    exact not_follows_of_outrun hu hb hout (h job last log hjob hlife)
  · exact fun htracked job last log hjob hlife => (life_follows hs hjob htracked hlife).1

end

def page : ServiceSpec := { plainService ['a'] with dependencies := { wants := [['m']] } }

def wanting : Supervisor :=
  { Supervisor.new with
    services := (empty.insert ['a'] (.ofRecord (fresh page))).insert ['m']
      (.ofRecord (fresh (plainService ['m']))) }

def wantingGraph : DependencyGraph := ⟨wanting.services.map (·.spec), boxOs.directories⟩

def plannedJob (root : Str) (order : List Str) : StartJob :=
  ⟨root, ofList order, empty, order, empty, empty, empty, none, .none⟩

theorem wanting_wellformed : Wellformed wanting := by
  intro name service h
  have hmem : (name, service) ∈ wanting.services.entries := get_eq_some.mp h
  obtain h | hmem := List.mem_cons.mp hmem
  · cases h
    exact ⟨rfl, rfl⟩
  · cases List.mem_singleton.mp hmem
    exact ⟨rfl, rfl⟩

theorem wanting_reachable : Reachable boxOs (wanting, ⟨0, 0, true, []⟩) := by
  have hadd : [Command.add page, .add (plainService ['m'])].foldlM (fun s c => after boxOs 1 c s)
      (Supervisor.new, ⟨0, 0, true, []⟩) = some (wanting, ⟨0, 0, true, []⟩) := by rfl
  exact reachable_of_foldlM boxOs (.new _) hadd

theorem wanting_accepted :
    Accepted boxOs wanting wantingGraph ['a'] [['m'], ['a']] (plannedJob ['a'] [['m'], ['a']]) :=
  ⟨rfl, by decide +kernel, rfl, rfl, rfl⟩

theorem starts_follow_plan_iff_wanting :
    (∀ job last log, Accepted boxOs wanting wantingGraph ['a'] [['m'], ['a']] job →
      Life boxOs (settings wanting) job last log → Follows wantingGraph [['m'], ['a']] log) ↔
    Tracked wantingGraph [['m'], ['a']] :=
  starts_follow_plan_iff boxOs ⟨0, 0, true, []⟩ wanting_wellformed rfl wanting_accepted.plan

/-- The service is started before the one that it wants, which the plan has first. -/
theorem wanted_started_last :
    ∃ last log, Reachable boxOs (wanting, ⟨0, 0, true, []⟩) ∧
      Accepted boxOs wanting wantingGraph ['a'] [['m'], ['a']]
        (plannedJob ['a'] [['m'], ['a']]) ∧
      Life boxOs (settings wanting) (plannedJob ['a'] [['m'], ['a']]) last log ∧
      log.map (·.name) = [['a'], ['m']] ∧ Before wantingGraph ['m'] ['a'] ∧
      ¬ Follows wantingGraph [['m'], ['a']] log := by
  have hbefore : Before wantingGraph ['m'] ['a'] := .inl (by decide +kernel)
  have hlog : (turn boxOs 0 (plannedJob ['a'] [['m'], ['a']]) (wanting, ⟨0, 0, true, []⟩)
      []).2.map (·.name) = [['a'], ['m']] := by decide +kernel
  refine ⟨_, _, wanting_reachable, wanting_accepted, .turn 0 _ .accepted rfl, hlog, hbefore,
    fun h => ?_⟩
  have horder := h.order
  rw [hlog] at horder
  exact (List.pairwise_cons.mp horder).1 ['m'] List.mem_cons_self hbefore

end FractalD.Manager.StartOrder
