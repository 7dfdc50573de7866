import FractalD.Core.Closure
import FractalD.Machine.Precedence

namespace FractalD.Core.Planning

open FractalD.Core.Graph FractalD.Core.Closure FractalD.Machine.CString FractalD.Machine.OrderedMap
open FractalD.Machine.Precedence

section

variable (g : DependencyGraph)

/-- A service is ordered before another one by the dependencies of one of them. -/
def Before (u v : Str) : Prop :=
  u ∈ g.predecessors v ∨ v ∈ g.named u (·.before) ∨ u ∈ g.named v (·.requisite)

/-- The order among selected services. -/
def BeforeIn (selected : BTreeSet Str) (u v : Str) : Prop :=
  selected.contains u ∧ selected.contains v ∧ Before g u v

end

/-- A graph that stands for a relation among the selected services. -/
structure Draws (selected : BTreeSet Str) (F : Str → Str → Prop) (o : OrderingGraph) : Prop where
  keys : ∀ u, o.edges.contains u ↔ selected.contains u
  edges : ∀ {u dependents}, o.edges.get u = some dependents → ∀ v, dependents.contains v ↔ F u v
  indegree : ∀ v n, o.indegree.get v = some n ↔ selected.contains v ∧ n = waits F selected.keys v

section

variable {selected : BTreeSet Str} {F G : Str → Str → Prop} {o : OrderingGraph} {a b : Str}

theorem draws_congr (h : ∀ u v, F u v ↔ G u v) (ho : Draws selected F o) : Draws selected G o := by
  have he : F = G := funext fun u => funext fun v => propext (h u v)
  exact he ▸ ho

theorem draws_addEdge (ho : Draws selected F o) (ha : selected.contains a)
    (hb : selected.contains b) :
    Draws selected (fun u v => F u v ∨ u = a ∧ v = b) (addEdge o a b) := by
  obtain ⟨dependents, hd⟩ := contains_iff.mp ((ho.keys a).mpr ha)
  by_cases hab : dependents.contains b
  · have hsame : addEdge o a b = o := by simp only [addEdge, hd, hab, if_true]
    rw [hsame]
    refine draws_congr (fun u v => ?_) ho
    have hF : F a b := (ho.edges hd b).mp hab
    constructor
    · exact .inl
    · rintro (h | ⟨rfl, rfl⟩)
      · exact h
      · exact hF
  · have hadd : addEdge o a b = ⟨o.edges.insert a (dependents.add b),
        o.indegree.insert b ((o.indegree.get b).getD 0 + 1)⟩ := by
      simp only [addEdge, hd, hab, Bool.false_eq_true, if_false]
    have hnot : ¬ F a b := fun hF => hab ((ho.edges hd b).mpr hF)
    rw [hadd]
    refine ⟨fun u => ?_, fun {u d} hu v => ?_, fun v n => ?_⟩
    · rw [contains_insert, ho.keys u, or_iff_right_of_imp]
      rintro rfl
      exact ha
    · rw [get_insert] at hu
      by_cases hua : u = a
      · subst hua
        rw [if_pos rfl, Option.some.injEq] at hu
        rw [← hu, contains_add, ho.edges hd v, or_comm]
        simp
      · rw [if_neg hua] at hu
        rw [ho.edges hu v]
        simp [hua]
    · rw [get_insert]
      by_cases hvb : v = b
      · subst hvb
        have hdegree : o.indegree.get v = some (waits F selected.keys v) :=
          (ho.indegree v _).mpr ⟨hb, rfl⟩
        have hsucc : waits (fun u w => F u w ∨ u = a ∧ w = v) selected.keys v =
            waits F selected.keys v + 1 := by
          refine waits_succ (keys_nodup selected) (mem_keys.mpr ha) (.inr ⟨rfl, rfl⟩) fun u _ => ?_
          constructor
          · exact fun hF => ⟨.inl hF, fun he => hnot (he ▸ hF)⟩
          · rintro ⟨hF | ⟨rfl, -⟩, hne⟩
            · exact hF
            · exact absurd rfl hne
        rw [if_pos rfl, hdegree, hsucc, Option.getD_some, Option.some.injEq]
        simp [hb, eq_comm]
      · have hsame : waits (fun u w => F u w ∨ u = a ∧ w = b) selected.keys v =
            waits F selected.keys v := waits_congr fun u _ => by simp [hvb]
        rw [if_neg hvb, ho.indegree v n, hsame]

theorem draws_foldl {e : Str → Str × Str} {names : List Str} (ho : Draws selected F o)
    (h : ∀ x ∈ names, selected.contains (e x).1 ∧ selected.contains (e x).2) :
    Draws selected (fun u v => F u v ∨ ∃ x ∈ names, (u, v) = e x)
      (names.foldl (fun o x => addEdge o (e x).1 (e x).2) o) := by
  induction names generalizing F o with
  | nil => exact draws_congr (fun u v => by simp) ho
  | cons x names ih =>
    obtain ⟨hx, hnames⟩ := List.forall_mem_cons.mp h
    refine draws_congr (fun u v => ?_) (ih (draws_addEdge ho hx.1 hx.2) hnames)
    simp [Prod.ext_iff, or_assoc]

end

section

variable {g : DependencyGraph} {selected : BTreeSet Str} {F : Str → Str → Prop}
  {o : OrderingGraph} {name : Str}

theorem draws_addEdges (hn : selected.contains name) (ho : Draws selected F o) :
    Draws selected (fun u v => F u v ∨ selected.contains u ∧ selected.contains v ∧
      (v = name ∧ (u ∈ g.predecessors name ∨ u ∈ g.named name (·.requisite)) ∨
        u = name ∧ v ∈ g.named name (·.before))) (g.addEdges selected o name) := by
  have hmem : ∀ (names : List Str), ∀ x ∈ names.filter (selected.contains ·),
      selected.contains x := fun names x hx => (List.mem_filter.mp hx).2
  have h₁ := draws_foldl (e := fun x => (x, name)) ho
    fun x hx => ⟨hmem (g.predecessors name) x hx, hn⟩
  have h₂ := draws_foldl (e := fun x => (name, x)) h₁
    fun x hx => ⟨hn, hmem (g.named name (·.before)) x hx⟩
  have h₃ := draws_foldl (e := fun x => (x, name)) h₂
    fun x hx => ⟨hmem (g.named name (·.requisite)) x hx, hn⟩
  refine draws_congr (fun u v => ?_) h₃
  simp only [Prod.mk.injEq, List.mem_filter]
  constructor
  · rintro (((hF | ⟨x, ⟨hx, hs⟩, rfl, rfl⟩) | ⟨x, ⟨hx, hs⟩, rfl, rfl⟩) | ⟨x, ⟨hx, hs⟩, rfl, rfl⟩)
    · exact .inl hF
    · exact .inr ⟨hs, hn, .inl ⟨rfl, .inl hx⟩⟩
    · exact .inr ⟨hn, hs, .inr ⟨rfl, hx⟩⟩
    · exact .inr ⟨hs, hn, .inl ⟨rfl, .inr hx⟩⟩
  · rintro (hF | ⟨hu, hv, ⟨rfl, hp | hr⟩ | ⟨rfl, hb⟩⟩)
    · exact .inl (.inl (.inl hF))
    · exact .inl (.inl (.inr ⟨u, ⟨hp, hu⟩, rfl, rfl⟩))
    · exact .inr ⟨u, ⟨hr, hu⟩, rfl, rfl⟩
    · exact .inl (.inr ⟨v, ⟨hb, hv⟩, rfl, rfl⟩)

theorem draws_names {names : List Str} (hn : ∀ name ∈ names, selected.contains name)
    (ho : Draws selected F o) :
    Draws selected (fun u v => F u v ∨ selected.contains u ∧ selected.contains v ∧
      (v ∈ names ∧ (u ∈ g.predecessors v ∨ u ∈ g.named v (·.requisite)) ∨
        u ∈ names ∧ v ∈ g.named u (·.before))) (names.foldl (g.addEdges selected) o) := by
  induction names generalizing F o with
  | nil => exact draws_congr (fun u v => by simp) ho
  | cons name names ih =>
    obtain ⟨hname, hnames⟩ := List.forall_mem_cons.mp hn
    refine draws_congr (fun u v => ?_) (ih hnames (draws_addEdges hname ho))
    simp only [List.mem_cons]
    constructor
    · rintro ((hF | ⟨hu, hv, ⟨rfl, h⟩ | ⟨rfl, h⟩⟩) | ⟨hu, hv, ⟨hm, h⟩ | ⟨hm, h⟩⟩)
      · exact .inl hF
      · exact .inr ⟨hu, hv, .inl ⟨.inl rfl, h⟩⟩
      · exact .inr ⟨hu, hv, .inr ⟨.inl rfl, h⟩⟩
      · exact .inr ⟨hu, hv, .inl ⟨.inr hm, h⟩⟩
      · exact .inr ⟨hu, hv, .inr ⟨.inr hm, h⟩⟩
    · rintro (hF | ⟨hu, hv, ⟨rfl | hm, h⟩ | ⟨rfl | hm, h⟩⟩)
      · exact .inl (.inl hF)
      · exact .inl (.inr ⟨hu, hv, .inl ⟨rfl, h⟩⟩)
      · exact .inr ⟨hu, hv, .inl ⟨hm, h⟩⟩
      · exact .inl (.inr ⟨hu, hv, .inr ⟨rfl, h⟩⟩)
      · exact .inr ⟨hu, hv, .inr ⟨hm, h⟩⟩

theorem draws_orderingGraph (g : DependencyGraph) (selected : BTreeSet Str) :
    Draws selected (BeforeIn g selected) (g.orderingGraph selected) := by
  have hbase : Draws selected (fun _ _ => False)
      ⟨selected.map fun _ => empty, selected.map fun _ => 0⟩ := by
    refine ⟨fun u => ?_, fun {u d} hu v => ?_, fun v n => ?_⟩
    · rw [BTreeMap.contains, get_map, Option.isSome_map, BTreeMap.contains]
    · obtain ⟨-, -, rfl⟩ := Option.map_eq_some_iff.mp ((get_map _).symm.trans hu)
      simp [BTreeMap.contains]
    · have hzero : waits (fun _ _ => False) selected.keys v = 0 := waits_eq_zero.mpr fun _ _ => id
      rw [get_map, Option.map_eq_some_iff, hzero, contains_iff]
      simp [eq_comm]
  refine draws_congr (fun u v => ?_) (draws_names (fun name hn => mem_keys.mp hn) hbase)
  simp only [BeforeIn, Before, mem_keys, false_or]
  constructor
  · rintro ⟨hu, hv, ⟨-, h⟩ | ⟨-, h⟩⟩
    · exact ⟨hu, hv, h.elim .inl fun hr => .inr (.inr hr)⟩
    · exact ⟨hu, hv, .inr (.inl h)⟩
  · rintro ⟨hu, hv, hp | hb | hr⟩
    · exact ⟨hu, hv, .inl ⟨hv, .inl hp⟩⟩
    · exact ⟨hu, hv, .inr ⟨hu, hb⟩⟩
    · exact ⟨hu, hv, .inl ⟨hv, .inr hr⟩⟩

end

/-- An edge that is not done. -/
def Open (F : Str → Str → Prop) (order : List Str) (u v : Str) : Prop := u ∉ order ∧ F u v

/-- What holds of the counters while services are ordered. -/
structure Sorting (nodes : List Str) (F : Str → Str → Prop) (order : List Str)
    (edges : BTreeMap Str (BTreeSet Str)) (indegree : BTreeMap Str Nat) : Prop where
  inside : ∀ v ∈ order, v ∈ nodes
  nodup : order.Nodup
  keys : ∀ v, edges.contains v ↔ v ∈ nodes
  edges : ∀ {u dependents}, u ∉ order → edges.get u = some dependents →
    ∀ v, dependents.contains v ↔ F u v
  target : ∀ {u v}, F u v → v ∈ nodes
  indegree : ∀ v n, indegree.get v = some n ↔ v ∈ nodes ∧ n = waits (Open F order) nodes v
  done : ∀ v ∈ order, waits (Open F order) nodes v = 0

def Next (nodes : List Str) (F : Str → Str → Prop) (order : List Str) (v : Str) : Prop :=
  v ∈ nodes ∧ v ∉ order ∧ waits (Open F order) nodes v = 0

section

variable {nodes order : List Str} {F : Str → Str → Prop} {edges : BTreeMap Str (BTreeSet Str)}
  {indegree : BTreeMap Str Nat} {ready dependents : BTreeSet Str} {name : Str}

theorem release_ok (ready : BTreeSet Str) {names : List Str} (hn : names.Nodup)
    (h : ∀ v ∈ names, ∃ n, indegree.get v = some (n + 1)) :
    ∃ i r, DependencyGraph.release names indegree ready = .ok (i, r) ∧
      (∀ v, i.get v = if v ∈ names then (indegree.get v).map (· - 1) else indegree.get v) ∧
      ∀ v, r.contains v ↔ ready.contains v ∨ v ∈ names ∧ indegree.get v = some 1 := by
  induction names generalizing indegree ready with
  | nil => exact ⟨indegree, ready, rfl, by simp, by simp⟩
  | cons name names ih =>
    obtain ⟨hnot, hnodup⟩ := List.nodup_cons.mp hn
    obtain ⟨⟨n, hget⟩, hrest⟩ := List.forall_mem_cons.mp h
    have hkept : ∀ v ∈ names, (indegree.insert name n).get v = indegree.get v := fun v hv =>
      get_insert_of_ne _ (fun he : v = name => hnot (he ▸ hv)) n
    obtain ⟨i, r, hok, hi, hr⟩ := ih (if n = 0 then ready.add name else ready) hnodup
      fun v hv => (hrest v hv).imp fun _ h => (hkept v hv).trans h
    refine ⟨i, r, ?_, fun v => ?_, fun v => ?_⟩
    · simp only [DependencyGraph.release, List.foldlM_cons, hget] at hok ⊢
      exact hok
    · rw [hi v]
      by_cases hv : v = name
      · subst hv
        simp [hnot, hget]
      · simp [hv, get_insert_of_ne indegree hv]
    · rw [hr v]
      by_cases hv : v = name
      · subst hv
        by_cases hz : n = 0
        · simp [hz, contains_add, hget]
        · simp [hz, hnot, hget]
      · have hadd : (if n = 0 then ready.add name else ready).contains v = true ↔
            ready.contains v = true := by
          split
          · rw [contains_add, or_iff_right hv]
          · rfl
        simp [hadd, hv, get_insert_of_ne indegree hv]

theorem open_concat {u v : Str} : Open F (order ++ [name]) u v ↔ Open F order u v ∧ u ≠ name := by
  simp only [Open, List.mem_append, List.mem_singleton, not_or]
  exact ⟨fun ⟨⟨ho, hn⟩, hF⟩ => ⟨⟨ho, hF⟩, hn⟩, fun ⟨⟨ho, hF⟩, hn⟩ => ⟨⟨ho, hn⟩, hF⟩⟩

theorem waits_concat (hn : nodes.Nodup) (hname : name ∈ nodes) (ho : name ∉ order) (v : Str) :
    (F name v ∧ waits (Open F order) nodes v = waits (Open F (order ++ [name])) nodes v + 1) ∨
      ¬ F name v ∧ waits (Open F order) nodes v = waits (Open F (order ++ [name])) nodes v := by
  by_cases hF : F name v
  · exact .inl ⟨hF, waits_succ hn hname ⟨ho, hF⟩ fun u _ => open_concat⟩
  · refine .inr ⟨hF, waits_congr fun u _ => ?_⟩
    rw [open_concat]
    exact ⟨fun h => ⟨h, fun he => hF (he ▸ h.2)⟩, And.left⟩

theorem sorting_emit (hn : nodes.Nodup) (h : Sorting nodes F order edges indegree)
    (hname : Next nodes F order name) (hd : edges.get name = some dependents)
    (hready : ∀ v, v ≠ name → (ready.contains v ↔ Next nodes F order v)) :
    ∃ i r, DependencyGraph.release dependents.keys indegree (ready.erase name) = .ok (i, r) ∧
      Sorting nodes F (order ++ [name]) edges i ∧
      ∀ v, r.contains v ↔ Next nodes F (order ++ [name]) v := by
  obtain ⟨hin, ho, hzero⟩ := hname
  have hdependents := h.edges ho hd
  have hdegree : ∀ v, v ∈ nodes → indegree.get v = some (waits (Open F order) nodes v) :=
    fun v hv => (h.indegree v _).mpr ⟨hv, rfl⟩
  have hw := waits_concat (F := F) hn hin ho
  obtain ⟨i, r, hok, hi, hr⟩ := release_ok (ready.erase name) (keys_nodup dependents)
    fun v hv => by
      have hF := (hdependents v).mp (mem_keys.mp hv)
      obtain ⟨-, hw⟩ | ⟨hnot, -⟩ := hw v
      · exact ⟨_, by rw [hdegree v (h.target hF), hw]⟩
      · exact absurd hF hnot
  have hmem : ∀ v, v ∈ dependents.keys ↔ F name v := fun v => by rw [mem_keys, hdependents]
  refine ⟨i, r, hok, ⟨?_, ?_, h.keys, ?_, h.target, fun v n => ?_, fun v hv => ?_⟩, fun v => ?_⟩
  · intro v hv
    obtain hv | hv := List.mem_append.mp hv
    · exact h.inside v hv
    · rwa [List.mem_singleton.mp hv]
  · refine List.nodup_append.mpr ⟨h.nodup, List.nodup_singleton name, fun a ha b hb => ?_⟩
    rw [List.mem_singleton.mp hb]
    exact fun he => ho (he ▸ ha)
  · intro u d hu
    exact h.edges fun hm => hu (List.mem_append_left _ hm)
  · rw [hi v]
    obtain ⟨hF, hw⟩ | ⟨hF, hw⟩ := hw v
    · have hv := h.target hF
      rw [if_pos ((hmem v).mpr hF), hdegree v hv, hw]
      simp [hv, eq_comm]
    · rw [if_neg (fun hm => hF ((hmem v).mp hm)), h.indegree v n, hw]
  · have hbefore : waits (Open F order) nodes v = 0 := by
      obtain hv | hv := List.mem_append.mp hv
      · exact h.done v hv
      · rwa [List.mem_singleton.mp hv]
    obtain ⟨-, hw⟩ | ⟨-, hw⟩ := hw v <;> omega
  · rw [hr v, contains_erase, hmem]
    constructor
    · rintro (⟨hv, hv'⟩ | ⟨hF, hone⟩)
      · obtain ⟨hvin, hvo, hvz⟩ := (hready v hv).mp hv'
        obtain ⟨-, hw⟩ | ⟨-, hw⟩ := hw v
        · omega
        · exact ⟨hvin, by simp [hvo, hv], by omega⟩
      · obtain ⟨hvin, hvone⟩ := (h.indegree v 1).mp hone
        have hvo : v ∉ order := fun hm => by
          have := h.done v hm
          omega
        have hv : v ≠ name := fun he => by
          subst he
          omega
        obtain ⟨-, hw⟩ | ⟨hnot, -⟩ := hw v
        · exact ⟨hvin, by simp [hvo, hv], by omega⟩
        · exact absurd hF hnot
    · rintro ⟨hvin, hvo, hvz⟩
      have hv : v ≠ name := fun he => hvo (by simp [he])
      have hvo' : v ∉ order := fun hm => hvo (List.mem_append_left _ hm)
      obtain ⟨hF, hw⟩ | ⟨-, hw⟩ := hw v
      · exact .inr ⟨hF, by rw [hdegree v hvin, hw, hvz]⟩
      · exact .inl ⟨hv, (hready v hv).mpr ⟨hvin, hvo', by omega⟩⟩

theorem next_nil {v : Str} : Next nodes F [] v ↔ v ∈ nodes ∧ waits F nodes v = 0 := by
  have h : waits (Open F []) nodes v = waits F nodes v := waits_congr fun u _ => by simp [Open]
  simp [Next, h]

theorem sorting_length (h : Sorting nodes F order edges indegree) :
    order.length ≤ nodes.length := (h.nodup.subperm h.inside).length_le

theorem next_free (h : Next nodes F order name) : Free F nodes order name := by
  intro u hu hF
  by_contra ho
  exact waits_eq_zero.mp h.2.2 u hu ⟨ho, hF⟩

theorem waiting_rest (h : ∀ v, ¬ Next nodes F order v) :
    Waiting F {a | a ∈ nodes ∧ a ∉ order} := by
  rintro a ⟨ha, hao⟩
  have hne : ¬ ∀ u ∈ nodes, ¬ Open F order u a := fun hz => h a ⟨ha, hao, waits_eq_zero.mpr hz⟩
  push Not at hne
  obtain ⟨u, hu, huo, hF⟩ := hne
  exact ⟨u, ⟨hu, huo⟩, hF⟩

theorem sortReady_ok {steps : Nat} (hn : nodes.Nodup) (h : Sorting nodes F order edges indegree)
    (hready : ∀ v, ready.contains v ↔ Next nodes F order v)
    (hplaced : Placed (Free F nodes) order) (hsteps : order.length + steps = nodes.length + 1) :
    ∃ i all, DependencyGraph.sortReady edges steps indegree ready order = .ok (i, all) ∧
      Sorting nodes F all edges i ∧ Placed (Free F nodes) all ∧ ∀ v, ¬ Next nodes F all v := by
  induction steps generalizing order indegree ready with
  | zero =>
    have := sorting_length h
    omega
  | succ steps ih =>
    rw [DependencyGraph.sortReady]
    cases hk : ready.keys with
    | nil =>
      refine ⟨indegree, order, rfl, h, hplaced, fun v hv => ?_⟩
      exact not_contains_of_keys hk ((hready v).mpr hv)
    | cons name names =>
      have hname : Next nodes F order name :=
        (hready name).mp (mem_keys.mp (hk ▸ List.mem_cons_self))
      obtain ⟨dependents, hd⟩ := contains_iff.mp ((h.keys name).mpr hname.1)
      obtain ⟨i, r, hok, hs, hr⟩ := sorting_emit hn h hname hd fun v _ => hready v
      simp only [hd, hok]
      refine ih hs hr (placed_concat hplaced (next_free hname)) ?_
      rw [List.length_append, List.length_singleton]
      omega

end

section

variable (g : DependencyGraph) (selected : BTreeSet Str)

variable {g selected} in
theorem sorting_start {o : OrderingGraph} (ho : Draws selected (BeforeIn g selected) o) :
    Sorting selected.keys (BeforeIn g selected) [] o.edges o.indegree := by
  refine ⟨by simp, List.nodup_nil, fun v => ?_, fun _ hd v => ho.edges hd v, fun h => ?_,
    fun v n => ?_, by simp⟩
  · rw [ho.keys, mem_keys]
  · exact mem_keys.mpr h.2.1
  · have h : waits (Open (BeforeIn g selected) []) selected.keys v =
        waits (BeforeIn g selected) selected.keys v := waits_congr fun u _ => by simp [Open]
    rw [ho.indegree, mem_keys, h]

variable {g selected} in
theorem readyOf_next {o : OrderingGraph} (ho : Draws selected (BeforeIn g selected) o) (v : Str) :
    (DependencyGraph.readyOf o.indegree).contains v ↔
      Next selected.keys (BeforeIn g selected) [] v := by
  rw [DependencyGraph.readyOf, contains_filterKeys, next_nil, mem_keys]
  simp only [ho.indegree, decide_eq_true_eq]
  constructor
  · rintro ⟨n, ⟨hv, rfl⟩, hn⟩
    exact ⟨hv, hn⟩
  · rintro ⟨hv, hn⟩
    exact ⟨_, ⟨hv, rfl⟩, hn⟩

variable {g selected} in
theorem topologicalOrder_of_sort {i : BTreeMap Str Nat} {order : List Str}
    (h : DependencyGraph.sortReady (g.orderingGraph selected).edges (selected.keys.length + 1)
      (g.orderingGraph selected).indegree
      (DependencyGraph.readyOf (g.orderingGraph selected).indegree) [] = .ok (i, order)) :
    g.topologicalOrder selected =
      if order.length ≠ selected.keys.length then
        .error (.cycle (selected.keys.filter fun name => i.get name ≠ some 0))
      else .ok order := by
  simp only [DependencyGraph.topologicalOrder, h, bind, Except.bind]
  split <;> rfl

theorem sort_cases : ∃ i order,
    DependencyGraph.sortReady (g.orderingGraph selected).edges (selected.keys.length + 1)
      (g.orderingGraph selected).indegree
      (DependencyGraph.readyOf (g.orderingGraph selected).indegree) [] = .ok (i, order) ∧
    Sorting selected.keys (BeforeIn g selected) order (g.orderingGraph selected).edges i ∧
    Placed (Free (BeforeIn g selected) selected.keys) order ∧
    ∀ v, ¬ Next selected.keys (BeforeIn g selected) order v := by
  have ho := draws_orderingGraph g selected
  exact sortReady_ok (keys_nodup selected) (sorting_start ho) (readyOf_next ho) placed_nil
    (Nat.zero_add _)

theorem topologicalOrder_cases :
    (∃ order, g.topologicalOrder selected = .ok order ∧ order.Nodup ∧
      (∀ a, a ∈ order ↔ selected.contains a) ∧
      Placed (Free (BeforeIn g selected) selected.keys) order) ∨
    (∃ names, g.topologicalOrder selected = .error (.cycle names)) ∧
      ¬ Acyclic (BeforeIn g selected) := by
  obtain ⟨i, order, hsort, hs, hplaced, hrest⟩ := sort_cases g selected
  have hresult := topologicalOrder_of_sort hsort
  have hsub : order ⊆ selected.keys := hs.inside
  by_cases hlength : order.length = selected.keys.length
  · have hok : g.topologicalOrder selected = .ok order := by
      rw [hresult, if_neg (not_not.mpr hlength)]
    refine .inl ⟨order, hok, hs.nodup, fun a => ?_, hplaced⟩
    have hperm := (hs.nodup.subperm hsub).perm_of_length_le hlength.ge
    rw [hperm.mem_iff, mem_keys]
  · refine .inr ⟨⟨_, by rw [hresult, if_pos hlength]⟩, ?_⟩
    have hleft : ∃ a ∈ selected.keys, a ∉ order := by
      by_contra hall
      push Not at hall
      have hle := ((keys_nodup selected).subperm hall).length_le
      have := sorting_length hs
      omega
    obtain ⟨a, ha, hao⟩ := hleft
    have hfinite : {a | a ∈ selected.keys ∧ a ∉ order}.Finite :=
      selected.keys.finite_toSet.subset fun a ha => ha.1
    exact waiting_not_acyclic hfinite (waiting_rest hrest) ⟨ha, hao⟩

theorem topologicalOrder_ok {order : List Str} (h : g.topologicalOrder selected = .ok order) :
    order.Nodup ∧ (∀ a, a ∈ order ↔ selected.contains a) ∧
      (∀ u v, u ∈ order → v ∈ order → Before g u v → order.idxOf u < order.idxOf v) ∧
      Acyclic (BeforeIn g selected) := by
  obtain ⟨order', h', hn, hmem, hplaced⟩ | ⟨⟨names, h'⟩, -⟩ := topologicalOrder_cases g selected
  · cases h.symm.trans h'
    refine ⟨hn, hmem, fun u v hu hv huv => ?_, ?_⟩
    · have hu' := (hmem u).mp hu
      exact free_before hn hplaced (mem_keys.mpr hu') hv ⟨hu', (hmem v).mp hv, huv⟩
    · refine free_acyclic (fun u v huv => ?_) hn (fun a ha => ?_) hplaced
      · exact ⟨mem_keys.mpr huv.1, mem_keys.mpr huv.2.1⟩
      · exact (hmem a).mpr (mem_keys.mp ha)
  · cases h.symm.trans h'

theorem topologicalOrder_of_acyclic (h : Acyclic (BeforeIn g selected)) :
    ∃ order, g.topologicalOrder selected = .ok order := by
  obtain ⟨order, ho, -⟩ | ⟨-, hn⟩ := topologicalOrder_cases g selected
  · exact ⟨order, ho⟩
  · exact absurd h hn

end

end FractalD.Core.Planning
