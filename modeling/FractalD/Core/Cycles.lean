import FractalD.Core.StartPlan

namespace FractalD.Core.Cycles

open FractalD.Core.Closure FractalD.Core.Graph FractalD.Core.Planning FractalD.Core.Spec
open FractalD.Core.StartPlan FractalD.Machine.CString FractalD.Machine.OrderedMap
open FractalD.Machine.Precedence Relation

section

variable {nodes order : List Str} {F : Str → Str → Prop} {edges : BTreeMap Str (BTreeSet Str)}
  {indegree : BTreeMap Str Nat} {v : Str}

theorem not_ordered {c : Str} (hF : ∀ u v, F u v → u ∈ nodes ∧ v ∈ nodes)
    (hplaced : Placed (Free F nodes) order) (hc : TransGen F c c) (hv : ReflTransGen F c v) :
    v ∉ order := by
  have hcycle : c ∈ nodes := by
    obtain ⟨b, hcb, -⟩ := TransGen.head'_iff.mp hc
    exact (hF c b hcb).1
  refine waiting_not_placed (fun a ha => ?_) (waiting_reached hc) hplaced hv
  obtain rfl | ⟨b, -, hba⟩ := ReflTransGen.cases_tail ha
  · exact hcycle
  · exact (hF b a hba).2

theorem left_iff (hF : ∀ u v, F u v → u ∈ nodes ∧ v ∈ nodes)
    (hplaced : Placed (Free F nodes) order) (hrest : ∀ v, ¬ Next nodes F order v) :
    v ∈ nodes ∧ v ∉ order ↔ v ∈ nodes ∧ ∃ c, TransGen F c c ∧ ReflTransGen F c v := by
  refine and_congr_right fun hv => ⟨fun hvo => ?_, fun ⟨c, hc, hcv⟩ => ?_⟩
  · have hfinite : {a | a ∈ nodes ∧ a ∉ order}.Finite :=
      nodes.finite_toSet.subset fun a ha => ha.1
    obtain ⟨c, hc, hcv⟩ := exists_cycle hfinite (waiting_rest hrest) ⟨hv, hvo⟩
    have hmono : Among F {a | a ∈ nodes ∧ a ∉ order} ≤ F := fun _ _ h => h.1
    exact ⟨c, TransGen.mono hmono c c hc, ReflTransGen.mono hmono c v hcv⟩
  · exact not_ordered hF hplaced hc hcv

theorem degree_iff (h : Sorting nodes F order edges indegree)
    (hrest : ∀ v, ¬ Next nodes F order v) (hv : v ∈ nodes) :
    indegree.get v ≠ some 0 ↔ v ∉ order := by
  rw [not_iff_not, h.indegree]
  constructor
  · rintro ⟨-, hw⟩
    by_contra hvo
    exact hrest v ⟨hv, hvo, hw.symm⟩
  · exact fun hvo => ⟨hv, (h.done v hvo).symm⟩

end

/-- A service that waits for itself among those that a start pulls in. -/
def OnCycle (g : DependencyGraph) (root v : Str) : Prop := TransGen (PulledBefore g root) v v

/-- The report has the services on a cycle, and no others. -/
def NamesCycle (g : DependencyGraph) (root : Str) (names : List Str) : Prop :=
  ∀ v, v ∈ names ↔ OnCycle g root v

section

variable {g : DependencyGraph} {root : Str} {names : List Str}

theorem closure_no_cycle {next : Str → List Str} {fuel : Nat} {pending : List Str}
    {selected : BTreeSet Str} : g.closure next fuel pending selected ≠ .error (.cycle names) := by
  induction fuel generalizing pending selected with
  | zero =>
    intro h
    cases h
  | succ fuel ih =>
    cases pending with
    | nil =>
      intro h
      cases h
    | cons name pending =>
      rw [DependencyGraph.closure]
      split
      · exact ih
      · cases g.firstMissing name with
        | some dependency =>
          intro h
          cases h
        | none => exact ih

theorem planStart_cycle (h : g.planStart root = .error (.cycle names)) :
    ∃ selected, g.selectStartClosure root = .ok selected ∧
      g.topologicalOrder selected = .error (.cycle names) := by
  cases hs : g.selectStartClosure root with
  | ok selected =>
    simp only [DependencyGraph.planStart, hs] at h
    exact ⟨selected, rfl, h⟩
  | error e =>
    simp only [DependencyGraph.planStart, hs] at h
    cases h
    simp only [DependencyGraph.selectStartClosure, DependencyGraph.closureOf] at hs
    split at hs
    · cases hs
    · split at hs
      · cases hs
      · exact absurd hs closure_no_cycle

theorem mem_report (h : g.planStart root = .error (.cycle names)) {v : Str} :
    v ∈ names ↔ ∃ c, OnCycle g root c ∧ ReflTransGen (PulledBefore g root) c v := by
  obtain ⟨selected, hselect, htop⟩ := planStart_cycle h
  obtain ⟨i, order, hsort, hs, hplaced, hrest⟩ := sort_cases g selected
  have hresult := topologicalOrder_of_sort hsort
  rw [htop] at hresult
  have hF : ∀ u v, BeforeIn g selected u v → u ∈ selected.keys ∧ v ∈ selected.keys :=
    fun u v huv => ⟨mem_keys.mpr huv.1, mem_keys.mpr huv.2.1⟩
  have hnames : names = selected.keys.filter fun name => i.get name ≠ some 0 := by
    split at hresult
    · cases hresult
      rfl
    · cases hresult
  have hleft : v ∈ names ↔ v ∈ selected.keys ∧ v ∉ order := by
    rw [hnames, List.mem_filter, decide_eq_true_eq]
    exact and_congr_right fun hv => degree_iff hs hrest hv
  rw [hleft, left_iff hF hplaced hrest, beforeIn_pulled (selected_pulled hselect).1]
  refine ⟨And.right, fun ⟨c, hc, hcv⟩ => ⟨?_, c, hc, hcv⟩⟩
  rw [mem_keys, (selected_pulled hselect).1]
  obtain rfl | ⟨b, -, hbv⟩ := ReflTransGen.cases_tail hcv
  · obtain ⟨b, hb, -⟩ := TransGen.head'_iff.mp hc
    exact hb.1
  · exact hbv.2.1

/-- The report names the cycles exactly if nothing that is started after a service on a
cycle is itself on none. -/
theorem namesCycle_iff (h : g.planStart root = .error (.cycle names)) :
    NamesCycle g root names ↔
      ∀ u v, OnCycle g root u → PulledBefore g root u v → OnCycle g root v := by
  constructor
  · intro hnames u v hu huv
    rw [← hnames, mem_report h]
    exact ⟨u, hu, ReflTransGen.single huv⟩
  · intro hclosed v
    rw [mem_report h]
    refine ⟨fun ⟨c, hc, hcv⟩ => ?_, fun hv => ⟨v, hv, ReflTransGen.refl⟩⟩
    induction hcv with
    | refl => exact hc
    | tail hcb hbv ih => exact hclosed _ _ (ih ⟨c, hc, hcb⟩) hbv

end

def waiter (name dependency : Str) : ServiceSpec :=
  { name := name, program := "/bin/true".toList,
    dependencies := { after := [dependency], wants := [dependency] } }

/-- Two services that wait for each other, and a third one that waits for the first. -/
def looped : DependencyGraph :=
  ⟨((empty.insert ['a'] (waiter ['a'] ['b'])).insert ['b'] (waiter ['b'] ['a'])).insert ['z']
    (waiter ['z'] ['a']), ⟨"/run".toList, "/var/lib".toList, "/root".toList⟩⟩

theorem namesCycle_iff_looped : NamesCycle looped ['a'] [['a'], ['b']] ↔
    ∀ u v, OnCycle looped ['a'] u → PulledBefore looped ['a'] u v → OnCycle looped ['a'] v :=
  namesCycle_iff (by decide +kernel)

/-- The third service is reported, though it is on no cycle. -/
theorem waiter_reported : looped.planStart ['z'] = .error (.cycle [['a'], ['b'], ['z']]) ∧
    ¬ OnCycle looped ['z'] ['z'] ∧ ¬ NamesCycle looped ['z'] [['a'], ['b'], ['z']] := by
  have hnone : ∀ v ∈ looped.services.keys, ¬ (['z'] ∈ looped.predecessors v ∨
      v ∈ looped.named ['z'] (·.before) ∨ ['z'] ∈ looped.named v (·.requisite)) := by
    decide +kernel
  have hplan : looped.planStart ['z'] = .error (.cycle [['a'], ['b'], ['z']]) := by decide +kernel
  have hlast : ¬ OnCycle looped ['z'] ['z'] := by
    intro h
    obtain ⟨v, ⟨-, hv, hbefore⟩, -⟩ := TransGen.head'_iff.mp h
    obtain ⟨selected, hs, -⟩ := planStart_cycle hplan
    have hregistered : v ∈ looped.services.keys := by
      rw [mem_keys]
      obtain rfl | ⟨b, hb, hbv⟩ := ReflTransGen.cases_tail hv
      · decide +kernel
      · exact pulls_registered ((selected_pulled hs).2 b hb) v (mem_pulls.mpr hbv)
    exact hnone v hregistered hbefore
  exact ⟨hplan, hlast, fun h => hlast ((h ['z']).mp (by decide))⟩

end FractalD.Core.Cycles
