import FractalD.Core.Planning

namespace FractalD.Core.Shutdown

open FractalD.Core.Graph FractalD.Core.Planning FractalD.Core.Spec FractalD.Machine.CString
open FractalD.Machine.OrderedMap FractalD.Machine.Precedence Relation

section

variable {nodes order : List Str} {F E : Str → Str → Prop} {edges : BTreeMap Str (BTreeSet Str)}
  {indegree : BTreeMap Str Nat} {ready dependents : BTreeSet Str} {name : Str}

/-- The dependents of a service that is ordered are taken away. -/
def Taken (order : List Str) (edges : BTreeMap Str (BTreeSet Str)) : Prop :=
  ∀ u ∈ order, edges.get u = some empty

/-- A relation without the edges to a service. -/
def Without (F : Str → Str → Prop) (name u v : Str) : Prop := F u v ∧ v ≠ name

theorem sorting_take (h : Sorting nodes F order edges indegree) (hname : name ∈ order) :
    Sorting nodes F order (edges.insert name empty) indegree := by
  refine { h with keys := fun v => ?_, edges := fun {u d} hu hget => ?_ }
  · rw [contains_insert, h.keys, or_iff_right_of_imp]
    rintro rfl
    exact h.inside v hname
  · have hne : u ≠ name := fun he => hu (he ▸ hname)
    rw [get_insert_of_ne _ hne] at hget
    exact h.edges hu hget

theorem taken_concat (h : Taken order edges) :
    Taken (order ++ [name]) (edges.insert name empty) := by
  intro u hu
  rw [get_insert]
  by_cases he : u = name
  · rw [if_pos he]
  · rw [if_neg he]
    exact h u ((List.mem_append.mp hu).resolve_right fun hm => he (List.mem_singleton.mp hm))

theorem foldlM_decrease {l : List Str} {n : Nat} (h : indegree.get name = some (l.length + n)) :
    ∃ i, l.foldlM (fun (indegree : BTreeMap Str Nat) (_ : Str) =>
        match indegree.get name with
        | some (degree + 1) => Except.ok (indegree.insert name degree)
        | _ => .error GraphError.panicked) indegree = .ok i ∧
      i.get name = some n ∧ ∀ v, v ≠ name → i.get v = indegree.get v := by
  induction l generalizing indegree with
  | nil => exact ⟨indegree, rfl, by simpa using h, fun _ _ => rfl⟩
  | cons x l ih =>
    have hget : indegree.get name = some (l.length + n + 1) := by
      rw [h, List.length_cons, Nat.add_right_comm]
    obtain ⟨i, hi, hname, hrest⟩ := ih (get_insert_self indegree name (l.length + n))
    refine ⟨i, ?_, hname, fun v hv => ?_⟩
    · rw [List.foldlM_cons, hget]
      exact hi
    · rw [hrest v hv, get_insert_of_ne _ hv]

theorem waits_without {v : Str} (hv : v ≠ name) :
    waits (Open (Without F name) order) nodes v = waits (Open F order) nodes v :=
  waits_congr fun u _ => by simp [Open, Without, hv]

theorem waits_without_self : waits (Open (Without F name) order) nodes name = 0 :=
  waits_eq_zero.mpr fun _ _ h => h.2.2 rfl

theorem sorting_without {i : BTreeMap Str Nat} (h : Sorting nodes F order edges indegree)
    (hin : name ∈ nodes) (ho : name ∉ order) (hi : i.get name = some 0)
    (hrest : ∀ v, v ≠ name → i.get v = indegree.get v) :
    Sorting nodes (Without F name) order (edges.map (·.erase name)) i := by
  refine ⟨h.inside, h.nodup, fun v => ?_, fun {u d} hu hd v => ?_, fun hF => h.target hF.1,
    fun v n => ?_, fun v hv => ?_⟩
  · rw [← h.keys, BTreeMap.contains, get_map, Option.isSome_map, BTreeMap.contains]
  · obtain ⟨d', hd', rfl⟩ := Option.map_eq_some_iff.mp ((get_map _).symm.trans hd)
    rw [contains_erase, h.edges hu hd', Without, and_comm]
  · by_cases hv : v = name
    · subst hv
      rw [hi, waits_without_self]
      simp [hin, eq_comm]
    · rw [hrest v hv, h.indegree, waits_without hv]
  · rw [waits_without fun he : v = name => ho (he ▸ hv)]
    exact h.done v hv

theorem taken_map (h : Taken order edges) : Taken order (edges.map (·.erase name)) := by
  intro u hu
  rw [get_map, h u hu]
  rfl

/-- When no service can be ordered, the last one is ordered without those it waits for. -/
theorem relax_ok (hn : nodes.Nodup) (h : Sorting nodes F order edges indegree)
    (ht : Taken order edges) (hnone : ∀ v, ¬ Next nodes F order v)
    (hleft : ∃ v ∈ nodes, v ∉ order) :
    ∃ name e i, DependencyGraph.relax edges indegree = .ok (name, e, i) ∧
      (∀ v ∈ nodes, v ∉ order → v ≤ name) ∧
      Sorting nodes (Without F name) order e i ∧ Taken order e ∧
      ∀ v, Next nodes (Without F name) order v ↔ v = name := by
  have hpositive : ∀ v, (indegree.filterKeys fun _ n => 0 < n).contains v ↔
      v ∈ nodes ∧ v ∉ order := by
    intro v
    simp only [contains_filterKeys, h.indegree, decide_eq_true_eq]
    constructor
    · rintro ⟨n, ⟨hv, rfl⟩, hpos⟩
      exact ⟨hv, fun hm => by have := h.done v hm; omega⟩
    · rintro ⟨hv, ho⟩
      exact ⟨_, ⟨hv, rfl⟩, Nat.pos_of_ne_zero fun hz => hnone v ⟨hv, ho, hz⟩⟩
  obtain ⟨name, hlast⟩ : ∃ name,
      (indegree.filterKeys fun _ n => 0 < n).keys.getLast? = some name := by
    obtain ⟨v, hv, ho⟩ := hleft
    have hmem := mem_keys.mpr ((hpositive v).mpr ⟨hv, ho⟩)
    exact ⟨_, List.getLast?_eq_some_getLast (List.ne_nil_of_mem hmem)⟩
  obtain ⟨hcontains, hmax⟩ := le_getLast hlast
  obtain ⟨hin, ho⟩ := (hpositive name).mp hcontains
  have hwaiting : ∀ u, u ∈ (edges.filterKeys fun _ d => d.contains name).keys ↔
      u ∈ nodes ∧ Open F order u name := by
    intro u
    rw [mem_keys, contains_filterKeys]
    constructor
    · rintro ⟨d, hd, hname⟩
      have hu : u ∉ order := fun hm => by
        rw [ht u hm, Option.some.injEq] at hd
        simp [← hd, BTreeMap.contains] at hname
      exact ⟨(h.keys u).mp (contains_iff.mpr ⟨d, hd⟩), hu, (h.edges hu hd name).mp hname⟩
    · rintro ⟨hu, huo, hF⟩
      obtain ⟨d, hd⟩ := contains_iff.mp ((h.keys u).mpr hu)
      exact ⟨d, hd, (h.edges huo hd name).mpr hF⟩
  have hdegree := (h.indegree name _).mpr ⟨hin, rfl⟩
  rw [waits_of_length hn (keys_nodup _) hwaiting] at hdegree
  obtain ⟨i, hi, hzero, hrest⟩ := foldlM_decrease (n := 0) hdegree
  refine ⟨name, edges.map (·.erase name), i, ?_, fun v hv hvo => ?_,
    sorting_without h hin ho hzero hrest, taken_map ht, fun v => ?_⟩
  · simp only [DependencyGraph.relax, hlast]
    exact congrArg (· >>= fun i => pure (name, edges.map (·.erase name), i)) hi
  · exact hmax v ((hpositive v).mpr ⟨hv, hvo⟩)
  · constructor
    · rintro ⟨hv, hvo, hvz⟩
      by_contra hne
      rw [waits_without hne] at hvz
      exact hnone v ⟨hv, hvo, hvz⟩
    · rintro rfl
      exact ⟨hin, ho, waits_without_self⟩

/-- One turn of the loop, once a service is chosen. -/
theorem turn_ok {steps : Nat} {e₀ : BTreeMap Str (BTreeSet Str)} {i₀ : BTreeMap Str Nat}
    (hd : edges.get name = some dependents)
    (hk : ready.keys = [] ∧ DependencyGraph.relax e₀ i₀ = .ok (name, edges, indegree) ∨
      (∃ names, ready.keys = name :: names) ∧ e₀ = edges ∧ i₀ = indegree)
    {i : BTreeMap Str Nat} {r : BTreeSet Str}
    (hr : DependencyGraph.release dependents.keys indegree (ready.erase name) = .ok (i, r)) :
    DependencyGraph.sortRelaxing (steps + 1) e₀ i₀ ready order =
      DependencyGraph.sortRelaxing steps (edges.insert name empty) i r (order ++ [name]) := by
  rw [DependencyGraph.sortRelaxing]
  obtain ⟨hk, hrelax⟩ | ⟨⟨names, hk⟩, rfl, rfl⟩ := hk
  · simp only [hk, hrelax, hd, hr, bind, Except.bind]
  · simp only [hk, hd, hr, bind, Except.bind, pure, Except.pure]

theorem sortRelaxing_ok {steps : Nat} (hn : nodes.Nodup)
    (h : Sorting nodes F order edges indegree) (ht : Taken order edges)
    (hready : ∀ v, ready.contains v ↔ Next nodes F order v)
    (hF : ∀ u v, v ∉ order → (F u v ↔ E u v))
    (hplaced : Placed (fun l v => Free E nodes l v ∨ Relaxed E nodes l v) order)
    (hsteps : order.length + steps = nodes.length) :
    ∃ all, DependencyGraph.sortRelaxing steps edges indegree ready order = .ok all ∧
      all.Nodup ∧ (∀ v, v ∈ all ↔ v ∈ nodes) ∧
      Placed (fun l v => Free E nodes l v ∨ Relaxed E nodes l v) all := by
  induction steps generalizing F order edges indegree ready with
  | zero =>
    have hsub : order ⊆ nodes := h.inside
    have hperm := (h.nodup.subperm hsub).perm_of_length_le (by omega)
    exact ⟨order, rfl, h.nodup, fun v => hperm.mem_iff, hplaced⟩
  | succ steps ih =>
    have hlength (name : Str) : (order ++ [name]).length + steps = nodes.length := by
      rw [List.length_append, List.length_singleton]
      omega
    cases hk : ready.keys with
    | cons name names =>
      have hname : Next nodes F order name :=
        (hready name).mp (mem_keys.mp (hk ▸ List.mem_cons_self))
      obtain ⟨dependents, hd⟩ := contains_iff.mp ((h.keys name).mpr hname.1)
      obtain ⟨i, r, hok, hs, hr⟩ := sorting_emit hn h hname hd fun v _ => hready v
      rw [turn_ok hd (.inr ⟨⟨names, hk⟩, rfl, rfl⟩) hok]
      refine ih (sorting_take hs (by simp)) (taken_concat ht) hr (fun u v hv => ?_) ?_
        (hlength name)
      · exact hF u v fun hm => hv (List.mem_append_left _ hm)
      · refine placed_concat hplaced (.inl fun u hu huv => ?_)
        exact next_free hname u hu ((hF u name hname.2.1).mpr huv)
    | nil =>
      have hnone : ∀ v, ¬ Next nodes F order v := fun v hv =>
        not_contains_of_keys hk ((hready v).mpr hv)
      have hleft : ∃ v ∈ nodes, v ∉ order := by
        by_contra hall
        push Not at hall
        have := (hn.subperm hall).length_le
        omega
      obtain ⟨name, e, i₀, hrelax, hmax, hs₀, ht₀, hnext⟩ := relax_ok hn h ht hnone hleft
      have hname := (hnext name).mpr rfl
      obtain ⟨dependents, hd⟩ := contains_iff.mp ((hs₀.keys name).mpr hname.1)
      have hothers : ∀ v, v ≠ name → (ready.contains v ↔ Next nodes (Without F name) order v) :=
        fun v hv => ⟨fun hc => absurd hc (not_contains_of_keys hk),
          fun hc => absurd ((hnext v).mp hc) hv⟩
      obtain ⟨i, r, hok, hs, hr⟩ := sorting_emit hn hs₀ hname hd hothers
      rw [turn_ok hd (.inl ⟨hk, hrelax⟩) hok]
      refine ih (sorting_take hs (by simp)) (taken_concat ht₀) hr (fun u v hv => ?_) ?_
        (hlength name)
      · have hvo : v ∉ order := fun hm => hv (List.mem_append_left _ hm)
        have hvn : v ≠ name := fun he => hv (by simp [he])
        rw [Without, hF u v hvo, and_iff_left hvn]
      · refine placed_concat hplaced (.inr ⟨hmax, fun a ha => ?_⟩)
        obtain ⟨b, hb, hba⟩ := waiting_rest hnone a ha
        exact ⟨b, hb, (hF b a ha.2).mp hba⟩

theorem sortRelaxing_eq {steps : Nat} {edges' : BTreeMap Str (BTreeSet Str)} {i : BTreeMap Str Nat}
    {all : List Str} (hn : nodes.Nodup) (h : Sorting nodes F order edges indegree)
    (hready : ∀ v, ready.contains v ↔ Next nodes F order v)
    (hsort : DependencyGraph.sortReady edges (steps + 1) indegree ready order = .ok (i, all))
    (hall : all.length = nodes.length) (hedges : ∀ v, v ∉ order → edges'.get v = edges.get v)
    (hsteps : order.length + steps = nodes.length) :
    DependencyGraph.sortRelaxing steps edges' indegree ready order = .ok all := by
  induction steps generalizing order edges' indegree ready with
  | zero =>
    rw [DependencyGraph.sortReady] at hsort
    cases hk : ready.keys with
    | nil =>
      rw [hk] at hsort
      cases hsort
      rfl
    | cons name names =>
      have hname : Next nodes F order name :=
        (hready name).mp (mem_keys.mp (hk ▸ List.mem_cons_self))
      obtain ⟨dependents, hd⟩ := contains_iff.mp ((h.keys name).mpr hname.1)
      obtain ⟨i, r, -, hs, -⟩ := sorting_emit hn h hname hd fun v _ => hready v
      have := sorting_length hs
      rw [List.length_append, List.length_singleton] at this
      omega
  | succ steps ih =>
    rw [DependencyGraph.sortReady] at hsort
    cases hk : ready.keys with
    | nil =>
      rw [hk] at hsort
      cases hsort
      omega
    | cons name names =>
      have hname : Next nodes F order name :=
        (hready name).mp (mem_keys.mp (hk ▸ List.mem_cons_self))
      obtain ⟨dependents, hd⟩ := contains_iff.mp ((h.keys name).mpr hname.1)
      obtain ⟨i, r, hok, hs, hr⟩ := sorting_emit hn h hname hd fun v _ => hready v
      simp only [hk, hd, hok] at hsort
      rw [turn_ok ((hedges name hname.2.1).trans hd) (.inr ⟨⟨names, hk⟩, rfl, rfl⟩) hok]
      refine ih hs hr hsort (fun v hv => ?_) ?_
      · have hvn : v ≠ name := fun he => hv (by simp [he])
        rw [get_insert_of_ne _ hvn]
        exact hedges v fun hm => hv (List.mem_append_left _ hm)
      · rw [List.length_append, List.length_singleton]
        omega

end

def services (g : DependencyGraph) : BTreeSet Str := ofList g.services.keys

/-- The order among all services. -/
def AllBefore (g : DependencyGraph) : Str → Str → Prop := BeforeIn g (services g)

def OnCommonCycle (g : DependencyGraph) (u v : Str) : Prop :=
  TransGen (AllBefore g) u v ∧ TransGen (AllBefore g) v u

section

variable (g : DependencyGraph)

theorem mem_services {v : Str} : (services g).contains v ↔ v ∈ g.services.keys := by
  rw [services, ← mem_keys, mem_ofList]

theorem bestEffort_ok : ∃ order, g.planAllStopBestEffort = .ok order.reverse ∧
    order.Nodup ∧ (∀ v, v ∈ order ↔ v ∈ (services g).keys) ∧
    Placed (fun l v => Free (AllBefore g) (services g).keys l v ∨
      Relaxed (AllBefore g) (services g).keys l v) order := by
  have ho := draws_orderingGraph g (services g)
  have hsteps : ([] : List Str).length + (services g).keys.length = (services g).keys.length :=
    Nat.zero_add _
  obtain ⟨order, hok, hn, hmem, hplaced⟩ := sortRelaxing_ok (E := AllBefore g)
    (keys_nodup (services g)) (sorting_start ho) (fun u hu => absurd hu List.not_mem_nil)
    (readyOf_next ho) (fun _ _ _ => Iff.rfl) placed_nil hsteps
  refine ⟨order, ?_, hn, hmem, hplaced⟩
  have hplan : g.planAllStopBestEffort = (DependencyGraph.sortRelaxing (services g).keys.length
      (g.orderingGraph (services g)).edges (g.orderingGraph (services g)).indegree
      (DependencyGraph.readyOf (g.orderingGraph (services g)).indegree) [] >>=
        fun order => pure order.reverse) := rfl
  rw [hplan, hok]
  rfl

theorem bestEffort_acyclic (h : Acyclic (AllBefore g)) :
    ∃ order, g.planAllStop = .ok order ∧ g.planAllStopBestEffort = .ok order := by
  obtain ⟨i, order, hsort, -⟩ := sort_cases g (services g)
  obtain ⟨order', htop⟩ := topologicalOrder_of_acyclic g (services g) h
  have hresult := topologicalOrder_of_sort hsort
  rw [htop] at hresult
  have hlength : order.length = (services g).keys.length := by
    by_contra hne
    rw [if_pos hne] at hresult
    cases hresult
  rw [if_neg (not_not.mpr hlength)] at hresult
  cases hresult
  have ho := draws_orderingGraph g (services g)
  have hrelaxing := sortRelaxing_eq (keys_nodup (services g)) (sorting_start ho) (readyOf_next ho)
    hsort hlength (fun _ _ => rfl) (Nat.zero_add _)
  refine ⟨order.reverse, ?_, ?_⟩
  · have hstart : g.planAllStart = .ok order := htop
    simp only [DependencyGraph.planAllStop, hstart]
    rfl
  · exact congrArg (· >>= fun order => pure order.reverse) hrelaxing

def StopsInOrder : Prop :=
  ∃ order, g.planAllStopBestEffort = .ok order ∧ order.Perm g.services.keys ∧
    (Acyclic (AllBefore g) → g.planAllStop = .ok order) ∧
    ∀ u v, AllBefore g u v → ¬ OnCommonCycle g u v → order.idxOf v < order.idxOf u

/-- The shutdown keeps to the order if and only if no service waits for another one that
a cycle leads to, outside of a common cycle, where all the names are up to its own. -/
theorem stopsInOrder_iff : StopsInOrder g ↔
    ∀ u v, AllBefore g u v → ¬ OnCommonCycle g u v → ¬ Backed (AllBefore g) v u := by
  obtain ⟨order, hok, hn, hmem, hplaced⟩ := bestEffort_ok g
  have hE : ∀ u v, AllBefore g u v → u ∈ (services g).keys ∧ v ∈ (services g).keys :=
    fun u v h => ⟨mem_keys.mpr h.1, mem_keys.mpr h.2.1⟩
  have hreverse : ∀ u v, AllBefore g u v →
      (order.reverse.idxOf v < order.reverse.idxOf u ↔ order.idxOf u < order.idxOf v) :=
    fun u v h => idxOf_reverse hn ((hmem u).mpr (hE u v h).1) ((hmem v).mpr (hE u v h).2)
  constructor
  · rintro ⟨order', hok', -, -, hbefore⟩ u v huv hcycle hbacked
    cases hok.symm.trans hok'
    have hne : u ≠ v := by
      rintro rfl
      exact hcycle ⟨TransGen.single huv, TransGen.single huv⟩
    have hlt := (hreverse u v huv).mp (hbefore u v huv hcycle)
    exact lt_asymm hlt (after_of_backed hE hn hmem hplaced hne huv hbacked)
  · intro hall
    refine ⟨order.reverse, hok, ?_, fun hacyclic => ?_, fun u v huv hcycle => ?_⟩
    · refine (List.perm_ext_iff_of_nodup (List.nodup_reverse.mpr hn) (keys_nodup _)).mpr fun v => ?_
      rw [List.mem_reverse, hmem, mem_keys, mem_services]
    · obtain ⟨order', hstop, hbest⟩ := bestEffort_acyclic g hacyclic
      cases hok.symm.trans hbest
      exact hstop
    · refine (hreverse u v huv).mpr ?_
      exact before_of_not_backed hn hmem hplaced (hE u v huv).1 (hE u v huv).2 huv
        (hall u v huv hcycle)

end

def demoService (name : String) (after : List String) : ServiceSpec :=
  { name := name.toList, program := "/bin/true".toList,
    dependencies := { after := after.map String.toList } }

/-- Two services that wait for each other, and a third one that waits for the first. -/
def demo : DependencyGraph :=
  ⟨(empty.insert "a".toList (demoService "a" ["b"])).insert "b".toList (demoService "b" ["a"])
    |>.insert "z".toList (demoService "z" ["a"]),
    ⟨"/run".toList, "/var/lib".toList, "/root".toList⟩⟩

/-- The third service is relaxed, though it is on no cycle. -/
theorem stops_out_of_order : ¬ StopsInOrder demo := by
  have hplan : demo.planAllStopBestEffort = .ok ["a".toList, "b".toList, "z".toList] := by
    decide +kernel
  have hedge : AllBefore demo "a".toList "z".toList := by
    refine ⟨by decide +kernel, by decide +kernel, .inl (by decide +kernel)⟩
  have hlast : ∀ v, ¬ AllBefore demo "z".toList v := by
    have hnone : ∀ v ∈ demo.services.keys, ¬ ("z".toList ∈ demo.predecessors v ∨
        v ∈ demo.named "z".toList (·.before) ∨ "z".toList ∈ demo.named v (·.requisite)) := by
      decide +kernel
    exact fun v h => hnone v ((mem_services demo).mp h.2.1) h.2.2
  rintro ⟨order, hok, -, -, hbefore⟩
  cases hplan.symm.trans hok
  have hlt := hbefore _ _ hedge fun h => by
    obtain ⟨v, hv, -⟩ := TransGen.head'_iff.mp h.2
    exact hlast v hv
  revert hlt
  decide +kernel

end FractalD.Core.Shutdown
