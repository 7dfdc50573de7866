import Mathlib.Data.List.Basic
import Mathlib.Logic.Relation
import Mathlib.Order.WellFoundedSet

namespace FractalD.Machine.Precedence

open Relation

section

variable {α : Type} (E : α → α → Prop)

def Acyclic : Prop := ∀ a, ¬ TransGen E a a

/-- Each element of a set has an edge from another one. -/
def Waiting (s : Set α) : Prop := ∀ a ∈ s, ∃ b ∈ s, E b a

def Among (s : Set α) (a b : α) : Prop := E a b ∧ a ∈ s ∧ b ∈ s

variable {E} {s : Set α} {a : α}

theorem exists_cycle (hs : s.Finite) (hw : Waiting E s) (ha : a ∈ s) :
    ∃ c, TransGen (Among E s) c c ∧ ReflTransGen (Among E s) c a := by
  by_contra hn
  let r (x y : α) : Prop := TransGen (Among E s) x y ∧ ReflTransGen (Among E s) y a
  have hirrefl : Std.Irrefl r := ⟨fun x hx => hn ⟨x, hx⟩⟩
  have htrans : IsTrans α r := ⟨fun x y z hxy hyz => ⟨hxy.1.trans hyz.1, hyz.2⟩⟩
  have hstrict : IsStrictOrder α r := {}
  have hwf : s.WellFoundedOn r := hs.wellFoundedOn
  have hnone : ReflTransGen (Among E s) a a → False := by
    refine hwf.induction (P := fun x => ReflTransGen (Among E s) x a → False) ha
      fun y hy ih hya => ?_
    obtain ⟨b, hb, hby⟩ := hw y hy
    have hstep : Among E s b y := ⟨hby, hb, hy⟩
    exact ih b hb ⟨TransGen.single hstep, hya⟩ (ReflTransGen.head hstep hya)
  exact hnone ReflTransGen.refl

theorem waiting_not_acyclic (hs : s.Finite) (hw : Waiting E s) (ha : a ∈ s) : ¬ Acyclic E := by
  obtain ⟨c, hc, -⟩ := exists_cycle hs hw ha
  have hmono : Among E s ≤ E := fun _ _ h => h.1
  exact fun h => h c (TransGen.mono hmono c c hc)

/-- A relation that goes up along a rank has no cycle. -/
theorem acyclic_of_rank {β : Type} [Preorder β] (rank : α → β)
    (h : ∀ a b, E a b → rank a < rank b) : Acyclic E := by
  have hup : ∀ a b, TransGen E a b → rank a < rank b := by
    intro a b hab
    induction hab with
    | single hedge => exact h _ _ hedge
    | tail _ hedge ih => exact ih.trans (h _ _ hedge)
  exact fun a ha => lt_irrefl _ (hup a a ha)

theorem waiting_reached {c : α} (hc : TransGen E c c) : Waiting E {a | ReflTransGen E c a} := by
  have hcycle : ∃ b, ReflTransGen E c b ∧ E b c := TransGen.tail'_iff.mp hc
  intro a ha
  obtain rfl | ⟨b, hb, hba⟩ := ReflTransGen.cases_tail ha
  · exact hcycle
  · exact ⟨b, hb, hba⟩

end

section

variable {α : Type}

open Classical in
/-- How many nodes have an edge to an element. -/
noncomputable def waits (E : α → α → Prop) (nodes : List α) (v : α) : Nat :=
  nodes.countP fun u => decide (E u v)

variable {E F : α → α → Prop} {nodes : List α} {a v : α}

theorem waits_eq_zero : waits E nodes v = 0 ↔ ∀ u ∈ nodes, ¬ E u v := by
  simp [waits, List.countP_eq_zero]

theorem waits_congr (h : ∀ u ∈ nodes, E u v ↔ F u v) : waits E nodes v = waits F nodes v :=
  List.countP_congr fun u hu => by simpa using h u hu

theorem waits_succ (hn : nodes.Nodup) (ha : a ∈ nodes) (hv : E a v)
    (h : ∀ u ∈ nodes, F u v ↔ E u v ∧ u ≠ a) : waits E nodes v = waits F nodes v + 1 := by
  classical
  have hperm := List.perm_cons_erase ha
  have hnot : ¬ F a v := fun hF => ((h a ha).mp hF).2 rfl
  have hsame : ∀ u ∈ nodes.erase a, E u v ↔ F u v := by
    intro u hu
    have hne : u ≠ a := fun he => hn.not_mem_erase (he ▸ hu)
    rw [h u (List.mem_of_mem_erase hu)]
    exact ⟨fun hE => ⟨hE, hne⟩, And.left⟩
  have hrest := waits_congr hsame
  simp only [waits] at hrest ⊢
  rw [hperm.countP_eq, hperm.countP_eq, List.countP_cons, List.countP_cons, hrest]
  simp [hv, hnot]

theorem waits_of_length (hn : nodes.Nodup) {l : List α} (hl : l.Nodup)
    (h : ∀ u, u ∈ l ↔ u ∈ nodes ∧ E u v) : waits E nodes v = l.length := by
  classical
  have hperm : l.Perm (nodes.filter fun u => decide (E u v)) := by
    refine (List.perm_ext_iff_of_nodup hl (hn.filter _)).mpr fun u => ?_
    rw [h u, List.mem_filter]
    simp
  rw [waits, List.countP_eq_length_filter, hperm.length_eq]

end

section

variable {α : Type} (p q : List α → α → Prop)

/-- A condition holds for each element of an order and those before it. -/
def Placed (order : List α) : Prop := ∀ l a m, order = l ++ a :: m → p l a

variable {p q} {order : List α} {a : α}

theorem placed_nil : Placed p [] := fun l a m h => by simp at h

theorem placed_concat (h : Placed p order) (ha : p order a) : Placed p (order ++ [a]) := by
  intro l b m hm
  obtain rfl | ⟨n, c, rfl⟩ := List.eq_nil_or_concat m
  · obtain ⟨rfl, hb⟩ := List.append_inj' hm rfl
    cases hb
    exact ha
  · rw [List.concat_eq_append, ← List.cons_append, ← List.append_assoc] at hm
    exact h l b n (List.append_inj' hm rfl).1

theorem placed_append {l m : List α} :
    Placed p (l ++ m) ↔ Placed p l ∧ Placed (fun before a => p (l ++ before) a) m := by
  constructor
  · refine fun h => ⟨fun x a y hl => ?_, fun x a y hm => ?_⟩
    · apply h x a (y ++ m)
      rw [hl, List.append_assoc, List.cons_append]
    · apply h (l ++ x) a y
      rw [hm, List.append_assoc]
  · rintro ⟨hl, hm⟩ x a y h
    obtain ⟨z, rfl, hz⟩ | ⟨z, rfl, hz⟩ := List.append_eq_append_iff.mp h
    · exact hm z a y hz
    · cases z with
      | nil =>
        have h := hm [] a y hz.symm
        rwa [List.append_nil, List.append_nil] at h
      | cons b z =>
        obtain ⟨rfl, rfl⟩ := List.cons.inj hz
        exact hl x a z rfl

theorem placed_prefix {l : List α} (hl : l <+: order) (h : Placed p order) : Placed p l := by
  obtain ⟨m, rfl⟩ := hl
  exact (placed_append.mp h).1

/-- An order that is put together from lists, one for each element of another order. -/
theorem placed_flatMap {β : Type} {f : β → List α} {turns : List β} :
    Placed p (turns.flatMap f) ↔ ∀ l b m, turns = l ++ b :: m →
      Placed (fun before a => p (l.flatMap f ++ before) a) (f b) := by
  induction turns generalizing p with
  | nil =>
    refine iff_of_true placed_nil fun l b m h => ?_
    simp at h
  | cons c turns ih =>
    rw [List.flatMap_cons, placed_append, ih]
    constructor
    · rintro ⟨hc, hrest⟩ l b m h
      cases l with
      | nil =>
        obtain ⟨rfl, -⟩ := List.cons.inj h
        exact hc
      | cons d l =>
        obtain ⟨rfl, hm⟩ := List.cons.inj h
        rw [List.flatMap_cons]
        simpa only [List.append_assoc] using hrest l b m hm
    · refine fun h => ⟨h [] c turns rfl, fun l b m hm => ?_⟩
      have hb := h (c :: l) b m (congrArg (c :: ·) hm)
      rw [List.flatMap_cons] at hb
      simpa only [List.append_assoc] using hb

theorem placed_cons {l : List α} :
    Placed p (a :: l) ↔ p [] a ∧ Placed (fun before b => p (a :: before) b) l := by
  have h := placed_append (p := p) (l := [a]) (m := l)
  rw [List.singleton_append] at h
  rw [h]
  refine and_congr_left fun _ => ⟨fun h => h [] a [] rfl, fun h x b y hx => ?_⟩
  cases x with
  | nil =>
    obtain ⟨rfl, -⟩ := List.cons.inj hx
    exact h
  | cons c x => simp at hx

end

section

variable {α : Type} [BEq α] [LawfulBEq α] {order : List α} {u v : α}

theorem idxOf_split (hn : order.Nodup) {l m : List α} (h : order = l ++ v :: m) :
    order.idxOf u < order.idxOf v ↔ u ∈ l := by
  subst h
  have hv : v ∉ l := fun hv => (List.nodup_append.mp hn).2.2 v hv v List.mem_cons_self rfl
  rw [List.idxOf_append_of_notMem hv, List.idxOf_cons_self]
  by_cases hu : u ∈ l
  · rw [List.idxOf_append_of_mem hu]
    simpa [hu] using List.idxOf_lt_length_of_mem hu
  · rw [List.idxOf_append_of_notMem hu]
    simp [hu]

theorem idxOf_reverse (hn : order.Nodup) (hu : u ∈ order) (hv : v ∈ order) :
    order.reverse.idxOf v < order.reverse.idxOf u ↔ order.idxOf u < order.idxOf v := by
  obtain ⟨l, m, hsplit⟩ := List.append_of_mem hv
  have hsplit' : order.reverse = m.reverse ++ v :: l.reverse := by simp [hsplit]
  have hl := idxOf_split (u := u) hn hsplit
  have hm := idxOf_split (u := u) (List.nodup_reverse.mpr hn) hsplit'
  have hv' : v ∈ order.reverse := List.mem_reverse.mpr hv
  rw [hl, ← not_iff_not, not_lt, Nat.le_iff_lt_or_eq, hm, List.mem_reverse]
  have hinj : order.reverse.idxOf u = order.reverse.idxOf v ↔ v = u := by
    rw [eq_comm]
    exact List.idxOf_inj hv'
  rw [hinj]
  rw [hsplit] at hn hu
  constructor
  · rintro (hm | rfl) hul
    · exact (List.nodup_append.mp hn).2.2 u hul u (List.mem_cons_of_mem v hm) rfl
    · exact (List.nodup_append.mp hn).2.2 v hul v List.mem_cons_self rfl
  · intro hul
    obtain rfl | hm := List.mem_cons.mp ((List.mem_append.mp hu).resolve_left hul)
    · exact .inr rfl
    · exact .inl hm

variable (E : α → α → Prop) (nodes : List α)

/-- All that an element has an edge from comes before it. -/
def Free (l : List α) (v : α) : Prop := ∀ u ∈ nodes, E u v → u ∈ l

variable {E nodes}

theorem free_before (hn : order.Nodup) (h : Placed (Free E nodes) order) (hu : u ∈ nodes)
    (hv : v ∈ order) (huv : E u v) : order.idxOf u < order.idxOf v := by
  obtain ⟨l, m, rfl⟩ := List.append_of_mem hv
  exact (idxOf_split hn rfl).mpr (h l v m rfl u hu huv)

theorem free_acyclic (hE : ∀ u v, E u v → u ∈ nodes ∧ v ∈ nodes) (hn : order.Nodup)
    (hall : ∀ a ∈ nodes, a ∈ order) (h : Placed (Free E nodes) order) : Acyclic E := by
  have hlt : ∀ a b, TransGen E a b → order.idxOf a < order.idxOf b := by
    intro a b hab
    induction hab with
    | single hab => exact free_before hn h (hE _ _ hab).1 (hall _ (hE _ _ hab).2) hab
    | tail _ hbc ih =>
      exact lt_trans ih (free_before hn h (hE _ _ hbc).1 (hall _ (hE _ _ hbc).2) hbc)
  exact fun a ha => lt_irrefl _ (hlt a a ha)

end

section

variable {α : Type} {E : α → α → Prop} {nodes order : List α} {v : α}

theorem waiting_not_placed {s : Set α} (hs : ∀ a ∈ s, a ∈ nodes) (hw : Waiting E s)
    (h : Placed (Free E nodes) order) (hv : v ∈ s) : v ∉ order := by
  intro hvo
  obtain ⟨l, m, hsplit⟩ := List.append_of_mem hvo
  induction hn : l.length using Nat.strong_induction_on generalizing l m v with
  | _ n ih =>
    obtain ⟨u, hu, huv⟩ := hw v hv
    obtain ⟨l₁, l₂, rfl⟩ := List.append_of_mem (h l v m hsplit u (hs u hu) huv)
    have hlt : l₁.length < n := by
      rw [← hn, List.length_append, List.length_cons]
      omega
    have hsplit' : order = l₁ ++ u :: (l₂ ++ v :: m) := by
      rw [hsplit, List.append_assoc, List.cons_append]
    have huo : u ∈ order := by simp [hsplit']
    exact ih l₁.length hlt hu huo l₁ (l₂ ++ v :: m) hsplit' rfl

end

section

variable {α : Type} [LinearOrder α] [BEq α] [LawfulBEq α] (E : α → α → Prop) (nodes : List α)

/-- All that is left waits, and an element is the last of it. -/
def Relaxed (l : List α) (v : α) : Prop :=
  (∀ a ∈ nodes, a ∉ l → a ≤ v) ∧ Waiting E {a | a ∈ nodes ∧ a ∉ l}

def UpTo (v : α) : Set α := {a | a ≤ v}

/-- A cycle up to an element leads to another element. -/
def Backed (v u : α) : Prop :=
  ∃ c, TransGen (Among E (UpTo v)) c c ∧ ReflTransGen (Among E (UpTo v)) c u

variable {E nodes} {order : List α} {u v : α}

theorem before_of_not_backed (hn : order.Nodup) (hall : ∀ a, a ∈ order ↔ a ∈ nodes)
    (h : Placed (fun l v => Free E nodes l v ∨ Relaxed E nodes l v) order)
    (hu : u ∈ nodes) (hv : v ∈ nodes) (huv : E u v) (hb : ¬ Backed E v u) :
    order.idxOf u < order.idxOf v := by
  obtain ⟨l, m, hsplit⟩ := List.append_of_mem ((hall v).mpr hv)
  rw [idxOf_split hn hsplit]
  by_contra hul
  obtain hfree | ⟨hlast, hwait⟩ := h l v m hsplit
  · exact hul (hfree u hu huv)
  · have hfinite : {a | a ∈ nodes ∧ a ∉ l}.Finite :=
      nodes.finite_toSet.subset fun a ha => ha.1
    obtain ⟨c, hc, hcu⟩ := exists_cycle hfinite hwait ⟨hu, hul⟩
    have hmono : Among E {a | a ∈ nodes ∧ a ∉ l} ≤ Among E (UpTo v) :=
      fun a b hab => ⟨hab.1, hlast a hab.2.1.1 hab.2.1.2, hlast b hab.2.2.1 hab.2.2.2⟩
    exact hb ⟨c, TransGen.mono hmono c c hc, ReflTransGen.mono hmono c u hcu⟩

theorem after_of_backed (hE : ∀ u v, E u v → u ∈ nodes ∧ v ∈ nodes) (hn : order.Nodup)
    (hall : ∀ a, a ∈ order ↔ a ∈ nodes)
    (h : Placed (fun l v => Free E nodes l v ∨ Relaxed E nodes l v) order)
    (hne : u ≠ v) (huv : E u v) (hb : Backed E v u) : order.idxOf v < order.idxOf u := by
  classical
  obtain ⟨c, hc, hcu⟩ := hb
  let s : Set α := {a | ReflTransGen (Among E (UpTo v)) c a ∨ a = v}
  have hup : ∀ a ∈ s, a ≤ v := by
    rintro a (ha | rfl)
    · obtain rfl | ⟨b, -, hba⟩ := ReflTransGen.cases_tail ha
      · obtain ⟨b, -, hba⟩ := TransGen.tail'_iff.mp hc
        exact hba.2.2
      · exact hba.2.2
    · exact le_rfl
  have hwait : Waiting E s := by
    rintro a (ha | rfl)
    · obtain ⟨b, hb, hba⟩ := waiting_reached hc a ha
      exact ⟨b, .inl hb, hba.1⟩
    · exact ⟨u, .inl hcu, huv⟩
  have hsome : ∃ a ∈ order, a ∈ s := ⟨v, (hall v).mpr (hE u v huv).2, .inr rfl⟩
  obtain ⟨w, hw⟩ := Option.isSome_iff_exists.mp
    (List.find?_isSome (p := fun a => decide (a ∈ s)) |>.mpr (by simpa using hsome))
  obtain ⟨hws, l, m, hsplit, hfirst⟩ := List.find?_eq_some_iff_append.mp hw
  have hnot : ∀ a ∈ s, a ∉ l := fun a ha hal => by simpa [ha] using hfirst a hal
  have hwv : w = v := by
    obtain hfree | ⟨hlast, -⟩ := h l w m hsplit
    · obtain ⟨b, hb, hbw⟩ := hwait w (by simpa using hws)
      exact absurd (hfree b (hE b w hbw).1 hbw) (hnot b hb)
    · exact le_antisymm (hup w (by simpa using hws)) (hlast v (hE u v huv).2 (hnot v (.inr rfl)))
  subst hwv
  have hle : order.idxOf w ≤ order.idxOf u :=
    not_lt.mp fun hlt => hnot u (.inl hcu) ((idxOf_split hn hsplit).mp hlt)
  have hmem : w ∈ order := (hall w).mpr (hE u w huv).2
  exact lt_of_le_of_ne hle fun he => hne ((List.idxOf_inj hmem).mp he).symm

end

end FractalD.Machine.Precedence
