import FractalD.Core.Planning

namespace FractalD.Core.StartPlan

open FractalD.Core.Graph FractalD.Core.Spec FractalD.Core.Closure FractalD.Core.Planning
open FractalD.Machine.CString FractalD.Machine.OrderedMap FractalD.Machine.Precedence
open FractalD.Machine.Text Relation

/-- The graph of services that are valid, each under its own name. -/
structure Registry extends DependencyGraph where
  valid : ∀ {name spec}, services.get name = some spec → spec.name = name ∧ spec.validate = .ok ()

section

variable {g g' : DependencyGraph} {spec : ServiceSpec} {root : Str}

theorem validate_name (h : spec.validate = .ok ()) : spec.name ≠ [] := by
  intro hn
  simp only [ServiceSpec.validate, hn] at h
  cases h

theorem registered_ne_nil (r : Registry) (h : Registered r.toDependencyGraph root) : root ≠ [] := by
  obtain ⟨spec, hs⟩ := contains_iff.mp h
  obtain ⟨rfl, hv⟩ := r.valid hs
  exact validate_name hv

theorem add_registry (r : Registry) (hs : spec.validate = .ok ())
    (h : r.add spec = .ok g) : ∃ r' : Registry, r'.toDependencyGraph = g := by
  simp only [DependencyGraph.add] at h
  split at h
  · cases h
  · cases h
    refine ⟨⟨_, fun {name s} hget => ?_⟩, rfl⟩
    rw [get_insert] at hget
    split at hget
    next he =>
      cases hget
      exact ⟨he.symm, hs⟩
    next => exact r.valid hget

theorem mountsOf_registered {name dependency : Str} {paths : List (List Str)}
    (h : dependency ∈ g.mountsOf name paths) : Registered g dependency := by
  obtain ⟨spec, hs, -⟩ := contains_filterKeys.mp (mem_keys.mp h)
  exact contains_iff.mpr ⟨spec, hs⟩

theorem wantedMounts_registered {name dependency : Str}
    (h : dependency ∈ g.wantedMountDependencies name) : Registered g dependency := by
  rw [DependencyGraph.wantedMountDependencies] at h
  split at h
  · exact absurd h List.not_mem_nil
  · exact mountsOf_registered h

/-- A service that requires nothing unknown pulls nothing unknown. -/
theorem pulls_registered {name : Str} (h : Complete g name) :
    ∀ dependency ∈ g.pulls name, Registered g dependency := by
  intro dependency hd
  obtain hd | hd := List.mem_append.mp hd
  · obtain hd | hd := List.mem_append.mp hd
    · exact h dependency hd
    · exact (List.mem_filter.mp hd).2
  · exact wantedMounts_registered hd

theorem required_reached {x : Str}
    (h : Reached (fun name => (g.requiredDependencies name).keys) root x) :
    Reached g.pulls root x :=
  ReflTransGen.mono (fun _ _ h => List.mem_append_left _ (List.mem_append_left _ h)) root x h

theorem planStart_ok {order : List Str} (h : g.planStart root = .ok order) :
    ∃ selected, g.selectStartClosure root = .ok selected ∧
      g.topologicalOrder selected = .ok order := by
  cases hs : g.selectStartClosure root with
  | error e =>
    simp only [DependencyGraph.planStart, hs] at h
    cases h
  | ok selected =>
    simp only [DependencyGraph.planStart, hs] at h
    exact ⟨selected, rfl, h⟩

theorem closureOf_registered {next : Str → List Str} {all : BTreeSet Str}
    (h : g.closureOf next root = .ok all) : root ≠ [] ∧ Registered g root := by
  simp only [DependencyGraph.closureOf] at h
  split at h
  · cases h
  · split at h
    · cases h
    next hr hn => exact ⟨hr, by simpa [Registered] using hn⟩

end

def PullsIn (g : DependencyGraph) (name dependency : Str) : Prop :=
  dependency ∈ (g.requiredDependencies name).keys ∨
    dependency ∈ g.named name (·.wants) ∧ g.services.contains dependency ∨
    dependency ∈ g.wantedMountDependencies name

def Pulled (g : DependencyGraph) : Str → Str → Prop := ReflTransGen (PullsIn g)

/-- The order among what a start pulls in. -/
def PulledBefore (g : DependencyGraph) (root u v : Str) : Prop :=
  Pulled g root u ∧ Pulled g root v ∧ Before g u v

section

variable {g : DependencyGraph} {root : Str}

theorem mem_pulls {name dependency : Str} :
    dependency ∈ g.pulls name ↔ PullsIn g name dependency := by
  simp [DependencyGraph.pulls, PullsIn, mem_ofList]

theorem reached_pulls : Reached g.pulls = Pulled g := by
  have h : Leads g.pulls = PullsIn g :=
    funext fun _ => funext fun _ => propext mem_pulls
  rw [Reached, h, Pulled]

theorem pulled_iff {x : Str} : Pulled g root x ↔
    ∀ s : Str → Prop, s root → (∀ y, s y → ∀ z, PullsIn g y z → s z) → s x := by
  constructor
  · intro h s hroot hclosed
    induction h with
    | refl => exact hroot
    | tail _ hyz ih => exact hclosed _ ih _ hyz
  · exact fun h => h _ ReflTransGen.refl fun y hy z hyz => hy.tail hyz

theorem selected_pulled {selected : BTreeSet Str} (h : g.selectStartClosure root = .ok selected) :
    (∀ x, selected.contains x ↔ Pulled g root x) ∧ ∀ x, Pulled g root x → Complete g x := by
  obtain ⟨hne, hr⟩ := closureOf_registered h
  obtain ⟨all, hall, hmem, hc⟩ | ⟨x, d, herror, -⟩ :=
    closureOf_cases (fun x hx => pulls_registered hx) hne hr
  · cases h.symm.trans hall
    rw [reached_pulls] at hmem hc
    exact ⟨hmem, hc⟩
  · cases h.symm.trans herror

theorem select_of_complete (r : Registry) (hroot : Registered r.toDependencyGraph root)
    (h : ∀ x, Pulled r.toDependencyGraph root x → Complete r.toDependencyGraph x) :
    ∃ selected, r.selectStartClosure root = .ok selected := by
  obtain ⟨all, hall, -⟩ | ⟨x, d, -, hx, hc⟩ :=
    closureOf_cases (fun x hx => pulls_registered hx) (registered_ne_nil r hroot) hroot
  · exact ⟨all, hall⟩
  · rw [reached_pulls] at hx
    exact absurd (h x hx) hc

theorem requiredClosure_of_complete (r : Registry) (hroot : Registered r.toDependencyGraph root)
    (h : ∀ x, Pulled r.toDependencyGraph root x → Complete r.toDependencyGraph x) :
    ∃ required, r.requiredClosure root = .ok required ∧
      ∀ x, required.contains x → Pulled r.toDependencyGraph root x := by
  obtain ⟨all, hall, hmem, -⟩ | ⟨x, d, -, hx, hc⟩ :=
    closureOf_cases (fun _ hx => hx) (registered_ne_nil r hroot) hroot
  · refine ⟨all, hall, fun x hx => ?_⟩
    rw [← reached_pulls]
    exact required_reached ((hmem x).mp hx)
  · have hpulled := required_reached hx
    rw [reached_pulls] at hpulled
    exact absurd (h x hpulled) hc

theorem beforeIn_pulled {selected : BTreeSet Str} (h : ∀ x, selected.contains x ↔ Pulled g root x) :
    BeforeIn g selected = PulledBefore g root :=
  funext fun u => funext fun v => by simp only [BeforeIn, PulledBefore, h]

end

/-- The planner orders a start if and only if all that it needs is known and does not
wait for itself. The order has each service that is pulled in once, after those that
come before it; a stop is planned in reverse. -/
theorem planStart_correct (r : Registry) (root : Str) :
    ((∃ order, r.planStart root = .ok order) ↔
      r.services.contains root ∧
      (∀ x, Pulled r.toDependencyGraph root x →
        ∀ dependency ∈ (r.requiredDependencies x).keys, r.services.contains dependency) ∧
      Acyclic (PulledBefore r.toDependencyGraph root)) ∧
    ∀ order, r.planStart root = .ok order →
      order.Nodup ∧
      (∀ x, x ∈ order ↔ ∀ s : Str → Prop, s root →
        (∀ y, s y → ∀ z, PullsIn r.toDependencyGraph y z → s z) → s x) ∧
      (∀ u v, u ∈ order → v ∈ order → Before r.toDependencyGraph u v →
        order.idxOf u < order.idxOf v) ∧
      (∃ required, r.requiredClosure root = .ok required ∧
        ∀ x, required.contains x → x ∈ order) ∧
      r.planStop root = .ok order.reverse := by
  refine ⟨⟨?_, ?_⟩, fun order h => ?_⟩
  · rintro ⟨order, h⟩
    obtain ⟨selected, hs, ho⟩ := planStart_ok h
    obtain ⟨hmem, hcomplete⟩ := selected_pulled hs
    refine ⟨(closureOf_registered hs).2, hcomplete, ?_⟩
    rw [← beforeIn_pulled hmem]
    exact (topologicalOrder_ok _ _ ho).2.2.2
  · rintro ⟨hroot, hcomplete, hacyclic⟩
    obtain ⟨selected, hs⟩ := select_of_complete r hroot hcomplete
    rw [← beforeIn_pulled (selected_pulled hs).1] at hacyclic
    obtain ⟨order, ho⟩ := topologicalOrder_of_acyclic _ _ hacyclic
    refine ⟨order, ?_⟩
    simp only [DependencyGraph.planStart, hs]
    exact ho
  · obtain ⟨selected, hs, ho⟩ := planStart_ok h
    obtain ⟨hmem, hcomplete⟩ := selected_pulled hs
    obtain ⟨hnodup, horder, hbefore, -⟩ := topologicalOrder_ok _ _ ho
    refine ⟨hnodup, fun x => ?_, hbefore, ?_, ?_⟩
    · rw [horder, hmem, pulled_iff]
    · obtain ⟨required, hr, hsub⟩ := requiredClosure_of_complete r
        (closureOf_registered hs).2 hcomplete
      exact ⟨required, hr, fun x hx => (horder x).mpr ((hmem x).mpr (hsub x hx))⟩
    · simp only [DependencyGraph.planStop, h]
      rfl

end FractalD.Core.StartPlan
