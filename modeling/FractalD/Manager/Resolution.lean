import FractalD.Core.Restarts
import FractalD.Core.StartPlan
import FractalD.Manager.Survival

namespace FractalD.Manager.Resolution

open FractalD.Core.Graph FractalD.Core.Spec FractalD.Core.StartPlan
open FractalD.Machine.CString FractalD.Machine.OrderedMap FractalD.Machine.Text
open FractalD.Manager.Registry FractalD.Supervisor.System
open FractalD.Core.Record FractalD.Core.Restarts FractalD.Manager.Survival
open FractalD.Supervisor.Service (ManagedService DynamicIdentity newWithDynamicIdentity withIdentity)

/-- Every service stands under its own name, and its settings are valid. -/
def Wellformed (s : Supervisor) : Prop :=
  ∀ {name service}, s.services.get name = some service →
    service.spec.name = name ∧ service.spec.validate = .ok ()

section

variable {ω : Type} (os : Os ω) {s : Supervisor}

theorem foldlM_add {l : List (Str × ManagedService)} {g : DependencyGraph}
    (hl : l.Pairwise fun a b => a.1 < b.1) (hname : ∀ e ∈ l, e.2.spec.name = e.1)
    (hg : ∀ e ∈ l, ¬ g.services.contains e.1) :
    ∃ g', (l.map Prod.snd).foldlM (fun g service => g.add service.spec) g = .ok g' ∧
      ∀ name spec, g'.services.get name = some spec ↔
        g.services.get name = some spec ∨ ∃ service, (name, service) ∈ l ∧ service.spec = spec := by
  induction l generalizing g with
  | nil => exact ⟨g, rfl, by simp⟩
  | cons e l ih =>
    obtain ⟨hbelow, hl⟩ := List.pairwise_cons.mp hl
    obtain ⟨he, hrest⟩ := List.forall_mem_cons.mp hname
    obtain ⟨hnot, hg⟩ := List.forall_mem_cons.mp hg
    have hadd : g.add e.2.spec = .ok { g with services := g.services.insert e.1 e.2.spec } := by
      simp only [DependencyGraph.add, he, hnot]
      rfl
    have hfresh : ∀ d ∈ l, ¬ (g.services.insert e.1 e.2.spec).contains d.1 := by
      intro d hd hc
      obtain h | h := contains_insert.mp hc
      · exact lt_irrefl _ (h ▸ hbelow d hd)
      · exact hg d hd h
    obtain ⟨g', hok, hget⟩ := ih (g := { g with services := g.services.insert e.1 e.2.spec })
      hl hrest hfresh
    refine ⟨g', ?_, fun name spec => ?_⟩
    · rw [List.map_cons, List.foldlM_cons, hadd]
      exact hok
    · have hnone : g.services.get e.1 ≠ some spec := fun h => hnot (contains_iff.mpr ⟨spec, h⟩)
      rw [hget, get_insert]
      by_cases hn : name = e.1
      · subst hn
        have hlater : ∀ service, (e.1, service) ∉ l := fun service h =>
          lt_irrefl _ (hbelow (e.1, service) h)
        simp [hnone, hlater, Prod.ext_iff]
      · simp [hn, Prod.ext_iff]

theorem graphOf_ok (hs : Wellformed s) : ∃ g, graphOf os s = .ok g ∧
    ∀ name, g.services.get name = (s.services.get name).map (·.spec) := by
  have hname : ∀ e ∈ s.services.entries, e.2.spec.name = e.1 := fun e he =>
    (hs (get_eq_some.mpr he)).1
  obtain ⟨g, hok, hget⟩ := foldlM_add (g := ⟨empty, os.directories⟩) s.services.sorted hname
    fun e _ => by simp [BTreeMap.contains]
  refine ⟨g, hok, fun name => Option.ext fun spec => ?_⟩
  rw [hget, Option.map_eq_some_iff]
  simp only [get_empty, reduceCtorEq, false_or, get_eq_some]

/-- The supervisor plans over a registry of valid services. -/
theorem graphOf_registry (hs : Wellformed s) :
    ∃ r : Registry, graphOf os s = .ok r.toDependencyGraph := by
  obtain ⟨g, hok, hget⟩ := graphOf_ok os hs
  refine ⟨⟨g, fun {name spec} h => ?_⟩, hok⟩
  obtain ⟨service, hservice, rfl⟩ := Option.map_eq_some_iff.mp ((hget name).symm.trans h)
  exact hs hservice

end

section

variable {ω : Type} (os : Os ω) {s : Supervisor}

theorem of_record {spec : ServiceSpec} {service : ManagedService}
    (h : (match ServiceRecord.new spec with
      | .ok record => pure (ManagedService.ofRecord record)
      | .error _ => throw "invalid service specification".toList : Except Str ManagedService) =
        .ok service) : service.spec = spec ∧ service.spec.validate = .ok () := by
  cases hr : ServiceRecord.new spec with
  | error e =>
    rw [hr] at h
    cases h
  | ok record =>
    rw [hr] at h
    cases h
    cases hv : spec.validate with
    | error e =>
      simp only [ServiceRecord.new, hv] at hr
      cases hr
    | ok _ =>
      rw [new_ok hr]
      exact ⟨rfl, hv⟩

/-- A service that is made has the settings of its descriptor, or those and an identity. -/
theorem new_cases {spec : ServiceSpec} {identity : Option DynamicIdentity}
    {service : ManagedService} (h : newWithDynamicIdentity spec identity = .ok service) :
    service.spec.validate = .ok () ∧
      (spec.dynamicUser = false ∧ service.spec = spec ∨
        ∃ id, spec.dynamicUser = true ∧ identity = some id ∧
          service.spec = withIdentity spec id) := by
  simp only [newWithDynamicIdentity] at h
  cases hd : spec.dynamicUser with
  | false =>
    rw [hd] at h
    obtain ⟨hs, hv⟩ := of_record h
    exact ⟨hv, .inl ⟨rfl, hs⟩⟩
  | true =>
    cases identity with
    | none =>
      rw [hd] at h
      cases h
    | some id =>
      rw [hd] at h
      obtain ⟨hs, hv⟩ := of_record h
      exact ⟨hv, .inr ⟨id, rfl, rfl, hs⟩⟩

theorem new_wellformed {spec : ServiceSpec} {identity : Option DynamicIdentity}
    {service : ManagedService} (h : newWithDynamicIdentity spec identity = .ok service) :
    service.spec.name = spec.name ∧ service.spec.validate = .ok () := by
  obtain ⟨hv, ⟨-, hs⟩ | ⟨id, -, -, hs⟩⟩ := new_cases h
  · exact ⟨by rw [hs], hv⟩
  · exact ⟨by rw [hs, withIdentity], hv⟩

end

/-- The settings with a dependency written in another way. -/
def written (d n : Str) (spec : ServiceSpec) : ServiceSpec :=
  let write (names : List Str) : List Str := names.map fun x => if x = d then n else x
  let dependencies := spec.dependencies
  { spec with dependencies := {
      requires := write dependencies.requires
      wants := write dependencies.wants
      after := write dependencies.after
      before := write dependencies.before
      conflicts := write dependencies.conflicts
      partOf := write dependencies.partOf
      bindsTo := write dependencies.bindsTo
      requisite := write dependencies.requisite
      onSuccess := write dependencies.onSuccess
      onFailure := write dependencies.onFailure } }

def rewritten (g : DependencyGraph) (d n : Str) : DependencyGraph :=
  { g with services := g.services.map (written d n) }

/-- A dependency means the same to the planner and to the rest of the supervisor. -/
def ResolvesAlike (s : Supervisor) (g : DependencyGraph) (d : Str) : Prop :=
  (g.services.contains d ↔ (s.resolveName d).isSome) ∧
  (∀ spec n, g.services.get d = some spec → s.resolveName d = some n → spec.name = n) ∧
  ∀ root, g.planStart root = (rewritten g d (s.canonicalName d)).planStart root

def stem (name : Str) : Str := (removeSuffix svcSuffix name).getD name

/-- A name is that of no service, in none of the ways to write it. -/
def Unknown (s : Supervisor) (d : Str) : Prop :=
  (∀ name ∈ [d, stem d], ¬ s.services.contains name ∧ ¬ s.aliases.contains name) ∧
    ¬ s.services.contains (stem d ++ svcSuffix)

section

variable {s : Supervisor} {d : Str}

theorem resolveName_of_contains (h : s.services.contains d) : s.resolveName d = some d := by
  simp [Supervisor.resolveName, h]

theorem known_none {name : Str} :
    (if s.services.contains name then some name else s.aliases.get name) = none ↔
      ¬ s.services.contains name ∧ ¬ s.aliases.contains name := by
  by_cases h : s.services.contains name
  · simp [h]
  · rw [if_neg h, and_iff_right h, BTreeMap.contains, Option.not_isSome_iff_eq_none]

theorem resolveName_none : s.resolveName d = none ↔ Unknown s d := by
  have hsuffix : (s.names.find? fun candidate => removeSuffix svcSuffix candidate = some (stem d)) =
      none ↔ ¬ s.services.contains (stem d ++ svcSuffix) := by
    rw [List.find?_eq_none]
    constructor
    · exact fun h hc => h _ (mem_keys.mpr hc) (decide_eq_true (removeSuffix_some.mpr rfl))
    · intro h candidate hc heq
      exact h (removeSuffix_some.mp (of_decide_eq_true heq) ▸ mem_keys.mp hc)
  rw [Supervisor.resolveName, Option.or_eq_none_iff, Option.or_eq_none_iff, known_none]
  change _ ∧ (if s.services.contains (stem d) then some (stem d) else s.aliases.get (stem d)) =
    none ∧ _ ↔ _
  rw [known_none]
  change _ ∧ _ ∧ (s.names.find? fun candidate =>
    removeSuffix svcSuffix candidate = some (stem d)) = none ↔ _
  rw [hsuffix, Unknown]
  simp [and_assoc]

theorem written_self (spec : ServiceSpec) : written d d spec = spec := by
  have hwrite (names : List Str) : (names.map fun x => if x = d then d else x) = names :=
    List.map_id'' (fun x => by split <;> simp_all) names
  simp only [written, hwrite]

theorem rewritten_self (g : DependencyGraph) : rewritten g d d = g := by
  have h : g.services.map (written d d) = g.services := by
    simp [BTreeMap.map, written_self]
  rw [rewritten, h]

end

/-- The planner understands a dependency as the rest of the supervisor does if and only
if it is the exact name of a service, or no name of any service. -/
theorem resolvesAlike_iff {ω : Type} (os : Os ω) {s : Supervisor} (hs : Wellformed s) (d : Str) :
    ∃ g, graphOf os s = .ok g ∧
      (ResolvesAlike s g d ↔ s.services.contains d ∨ Unknown s d) := by
  obtain ⟨g, hok, hget⟩ := graphOf_ok os hs
  have hcontains : g.services.contains d ↔ s.services.contains d := by
    rw [BTreeMap.contains, hget, Option.isSome_map, BTreeMap.contains]
  refine ⟨g, hok, fun h => ?_, ?_⟩
  · by_cases hd : s.services.contains d
    · exact .inl hd
    · have hnone : ¬ (s.resolveName d).isSome := fun hsome => hd (hcontains.mp (h.1.mpr hsome))
      exact .inr (resolveName_none.mp (Option.not_isSome_iff_eq_none.mp hnone))
  · rintro (hd | hunknown)
    · have hresolve := resolveName_of_contains hd
      have hcanonical : s.canonicalName d = d := by simp [Supervisor.canonicalName, hresolve]
      refine ⟨by simp [hcontains, hd, hresolve], fun spec n hspec hn => ?_, fun root => ?_⟩
      · obtain ⟨service, hservice, rfl⟩ := Option.map_eq_some_iff.mp ((hget d).symm.trans hspec)
        rw [(hs hservice).1]
        exact Option.some.inj (hresolve.symm.trans hn)
      · rw [hcanonical, rewritten_self]
    · have hresolve := resolveName_none.mpr hunknown
      have hcanonical : s.canonicalName d = d := by simp [Supervisor.canonicalName, hresolve]
      have hnot : ¬ s.services.contains d := (hunknown.1 d List.mem_cons_self).1
      refine ⟨by simp [hcontains, hnot, hresolve], fun spec n _ hn => ?_, fun root => ?_⟩
      · simp [hresolve] at hn
      · rw [hcanonical, rewritten_self]

def plainSpec (name : String) : ServiceSpec :=
  { name := name.toList, program := "/bin/serve".toList }

def database : ManagedService :=
  .ofRecord (fresh { plainSpec "db" with aliases := ["database".toList] })

def application : ManagedService :=
  .ofRecord (fresh { plainSpec "app" with dependencies := { requires := ["database".toList] } })

def demo : Supervisor :=
  { Supervisor.new with
    services := (empty.insert "app".toList application).insert "db".toList database
    aliases := empty.insert "database".toList "db".toList }

theorem demo_wellformed : Wellformed demo := by
  intro name service h
  have hentries : demo.services.entries =
      [("app".toList, application), ("db".toList, database)] := rfl
  have hmem : (name, service) ∈ demo.services.entries := get_eq_some.mp h
  rw [hentries] at hmem
  obtain h | hmem := List.mem_cons.mp hmem
  · cases h
    exact ⟨rfl, rfl⟩
  · cases List.mem_singleton.mp hmem
    exact ⟨rfl, rfl⟩

theorem resolvesAlike_iff_demo : ∃ g, graphOf boxOs demo = .ok g ∧
    (ResolvesAlike demo g "db".toList ↔
      demo.services.contains "db".toList ∨ Unknown demo "db".toList) :=
  resolvesAlike_iff boxOs demo_wellformed "db".toList

def demoGraph : DependencyGraph := ⟨demo.services.map (·.spec), boxOs.directories⟩

/-- A start fails because of the name of a dependency, which the supervisor knows. -/
theorem alias_not_planned : graphOf boxOs demo = .ok demoGraph ∧
    demo.resolveName "database".toList = some "db".toList ∧
    demoGraph.planStart "app".toList =
      .error (.missingRequired "app".toList "database".toList) ∧
    (rewritten demoGraph "database".toList "db".toList).planStart "app".toList =
      .ok ["db".toList, "app".toList] ∧
    ¬ ResolvesAlike demo demoGraph "database".toList := by
  have hresolve : demo.resolveName "database".toList = some "db".toList := by decide +kernel
  refine ⟨rfl, hresolve, by decide +kernel, by decide +kernel, fun h => ?_⟩
  have hcontains := h.1.mpr (by rw [hresolve]; rfl)
  revert hcontains
  decide +kernel

end FractalD.Manager.Resolution
