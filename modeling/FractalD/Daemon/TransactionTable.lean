import FractalD.Daemon.Settlement
import Mathlib.Data.Finset.Card
import Mathlib.Data.Fintype.Pigeonhole

namespace FractalD.Daemon.TransactionTable

open FractalD.Daemon.Settlement FractalD.Daemon.Transactions FractalD.Machine.CString
open FractalD.Machine.OrderedMap

/-- The loop over ids ends with a free one and the id after it. -/
inductive Allocates (table : Table) : Nat → Nat → Nat → Prop
  | free {next : Nat} : ¬ table.contains (max next 1) →
    Allocates table next (max next 1) (successor next)
  | taken {next id after : Nat} : table.contains (max next 1) →
    Allocates table (successor next) id after → Allocates table next id after

def Returns (t : Ledger) : Prop := ∃ id after, Allocates t.table t.next id after

section

variable {table : Table} {next id after n : Nat}

theorem one_le_successor (next : Nat) : 1 ≤ successor next := Nat.le_max_right _ _

theorem not_contains_of_allocates (h : Allocates table next id after) : ¬ table.contains id := by
  induction h with
  | free hfree => exact hfree
  | taken _ _ ih => exact ih

theorem one_le_of_allocates (h : Allocates table next id after) : 1 ≤ id := by
  induction h with
  | free _ => exact Nat.le_max_right _ _
  | taken _ _ ih => exact ih

def tried (next k : Nat) : Nat := successor^[k] next

theorem exists_free (hpos : 1 ≤ next) (h : Allocates table next id after) :
    ∃ k, ¬ table.contains (tried next k) := by
  induction h with
  | @free next hfree =>
    rw [Nat.max_eq_left hpos] at hfree
    exact ⟨0, hfree⟩
  | taken _ _ ih =>
    obtain ⟨k, hk⟩ := ih (one_le_successor _)
    exact ⟨k + 1, hk⟩

theorem tried_repeats {i j : Nat} (hij : i < j) (he : tried next i = tried next j) (k : Nat) :
    ∃ l < j, tried next k = tried next l := by
  induction k using Nat.strong_induction_on with
  | h k ih =>
    by_cases hk : k < j
    · exact ⟨k, hk, rfl⟩
    · have hback : tried next k = tried next (k - j + i) := by
        have hsplit : k = (k - j) + j := by omega
        rw [hsplit]
        simp only [tried, Function.iterate_add_apply, Nat.add_sub_cancel] at he ⊢
        rw [← he]
      obtain ⟨l, hl, heq⟩ := ih (k - j + i) (by omega)
      exact ⟨l, hl, hback.trans heq⟩

theorem exists_free_within (h : ∃ k, ¬ table.contains (tried next k)) :
    ∃ k ≤ table.entries.length, ¬ table.contains (tried next k) := by
  by_contra hnone
  have hall (k : Nat) (hk : k ≤ table.entries.length) : table.contains (tried next k) :=
    by_contra fun hfree => hnone ⟨k, hk, hfree⟩
  obtain ⟨k, hk⟩ := h
  have hmaps : ∀ i ∈ Finset.range (table.entries.length + 1),
      tried next i ∈ table.keys.toFinset := by
    intro i hi
    rw [List.mem_toFinset, mem_keys]
    simpa using hall i (Nat.lt_succ_iff.mp (Finset.mem_range.mp hi))
  have hcard : table.keys.toFinset.card < (Finset.range (table.entries.length + 1)).card := by
    rw [Finset.card_range]
    refine Nat.lt_succ_of_le (table.keys.toFinset_card_le.trans ?_)
    rw [BTreeMap.keys, List.length_map]
  obtain ⟨i, hi, j, hj, hne, he⟩ := Finset.exists_ne_map_eq_of_card_lt_of_maps_to hcard hmaps
  wlog hij : i < j generalizing i j
  · exact this j hj i hi hne.symm he.symm (by omega)
  obtain ⟨l, hl, hkl⟩ := tried_repeats hij he k
  have hjlt := Finset.mem_range.mp hj
  exact hk (hkl ▸ hall l (by omega))

/-- With enough steps the search ends where the loop does. -/
theorem searchId_of_allocates (hpos : 1 ≤ next) (h : Allocates table next id after)
    (hn : ∃ k ≤ n, ¬ table.contains (tried next k)) : searchId table n next = (id, after) := by
  induction h generalizing n with
  | free hfree =>
    cases n with
    | zero => rfl
    | succ n => rw [searchId, if_neg hfree]
  | taken htaken _ ih =>
    obtain ⟨k, hk, hfree⟩ := hn
    rw [Nat.max_eq_left hpos] at htaken
    cases k with
    | zero => exact absurd htaken hfree
    | succ k =>
      cases n with
      | zero => omega
      | succ n =>
        rw [searchId, Nat.max_eq_left hpos, if_pos htaken]
        exact ih (one_le_successor _) ⟨k, by omega, hfree⟩

theorem exists_allocates {k : Nat} (hpos : 1 ≤ next) (hk : ¬ table.contains (tried next k)) :
    ∃ id after, Allocates table next id after := by
  induction k generalizing next with
  | zero => exact ⟨_, _, .free (by rwa [Nat.max_eq_left hpos])⟩
  | succ k ih =>
    by_cases htaken : table.contains (max next 1)
    · obtain ⟨id, after, h⟩ := ih (one_le_successor next) hk
      exact ⟨id, after, .taken htaken h⟩
    · exact ⟨_, _, .free htaken⟩

theorem tried_eq (hpos : 1 ≤ next) (hlt : next < 2 ^ 64) (k : Nat) :
    tried next k = (next - 1 + k) % (2 ^ 64 - 1) + 1 := by
  induction k with
  | zero =>
    rw [Nat.mod_eq_of_lt (by omega)]
    exact (Nat.sub_add_cancel hpos).symm
  | succ k ih =>
    have hstep : tried next (k + 1) = successor (tried next k) := Function.iterate_succ_apply' _ _ _
    rw [hstep, ih, successor]
    omega

/-- Unless every id is in the table the loop ends. -/
theorem allocates_of_length (hpos : 1 ≤ next) (hlt : next < 2 ^ 64)
    (hlength : table.entries.length < 2 ^ 64 - 1) : ∃ id after, Allocates table next id after := by
  by_contra hnone
  have hall (k : Nat) : table.contains (tried next k) :=
    by_contra fun hfree => hnone (exists_allocates hpos hfree)
  have hinj : Set.InjOn (tried next) (Finset.range (table.entries.length + 1)) := by
    intro i hi j hj he
    rw [Finset.mem_coe, Finset.mem_range] at hi hj
    rw [tried_eq hpos hlt, tried_eq hpos hlt] at he
    omega
  have hcard := Finset.card_le_card_of_injOn (t := table.keys.toFinset) (tried next)
    (fun i _ => by simpa [mem_keys] using hall i) hinj
  have hkeys : table.keys.toFinset.card ≤ table.keys.length := table.keys.toFinset_card_le
  have hentries : table.keys.length = table.entries.length := List.length_map _
  rw [Finset.card_range] at hcard
  omega

theorem allocateTransactionId_of_allocates {t : Ledger} (hpos : 1 ≤ t.next)
    (h : Allocates t.table t.next id after) : allocateTransactionId t = (id, after) :=
  searchId_of_allocates hpos h (exists_free_within (exists_free hpos h))

end

section

variable {table : Table} {id j n : Nat} {r s : TransactionRecord}

def Settled (r : TransactionRecord) : Prop := r.state ≠ .pending

theorem settledId_some (h : settledId table = some id) :
    (∃ r, table.get id = some r ∧ Settled r) ∧
      ∀ j s, table.get j = some s → Settled s → id ≤ j := by
  obtain ⟨e, he, rfl⟩ := Option.map_eq_some_iff.mp h
  obtain ⟨hsettled, before, rest, hentries, hbefore⟩ := List.find?_eq_some_iff_append.mp he
  refine ⟨⟨e.2, get_eq_some.mpr (hentries ▸ by simp), by simpa [Settled] using hsettled⟩,
    fun j s hj hs => ?_⟩
  have hmem := get_eq_some.mp hj
  rw [hentries, List.mem_append, List.mem_cons] at hmem
  obtain hmem | rfl | hmem := hmem
  · exact absurd (by simpa using hbefore _ hmem) hs
  · exact Nat.le_refl _
  · have hsorted := table.sorted
    rw [hentries] at hsorted
    exact Nat.le_of_lt ((List.pairwise_cons.mp (List.pairwise_append.mp hsorted).2.1).1 _ hmem)

theorem settledId_none (h : settledId table = none) (hj : table.get j = some s) : ¬ Settled s := by
  have hall := List.find?_eq_none.mp (Option.map_eq_none_iff.mp h)
  have := hall _ (get_eq_some.mp hj)
  simpa [Settled] using this

theorem length_erase (hid : table.get id = some r) :
    (table.erase id).entries.length + 1 = table.entries.length := by
  have hone : table.keys.count id = 1 :=
    List.count_eq_one_of_mem (keys_nodup table) (mem_keys.mpr (contains_iff.mpr ⟨r, hid⟩))
  have hcount : table.entries.countP (fun e => decide (¬ decide (e.1 ≠ id) = true)) = 1 := by
    rw [← hone, BTreeMap.keys, List.count, List.countP_map]
    congr 1
    funext e
    simp [Bool.beq_eq_decide_eq]
  have hsplit := List.length_eq_countP_add_countP (fun e : Nat × TransactionRecord =>
    decide (e.1 ≠ id)) (l := table.entries)
  rw [BTreeMap.erase, ← List.countP_eq_length_filter]
  omega

/-- What pruning does: the settled records with the smallest ids go, until there are no more
than the table may hold. -/
structure Pruned (table pruned : Table) : Prop where
  kept : ∀ j s, pruned.get j = some s → table.get j = some s
  pending : ∀ j s, table.get j = some s → ¬ Settled s → pruned.get j = some s
  smallest : ∀ i j s, table.contains i → ¬ pruned.contains i → pruned.get j = some s →
    Settled s → i < j
  few : pruned.entries.length ≤ maxTransactionRecords ∨ ∀ j s, pruned.get j = some s → ¬ Settled s
  enough : pruned = table ∨ maxTransactionRecords ≤ pruned.entries.length

theorem pruned_self (h : table.entries.length ≤ maxTransactionRecords ∨
    ∀ j s, table.get j = some s → ¬ Settled s) : Pruned table table where
  kept _ _ hj := hj
  pending _ _ hj _ := hj
  smallest _ _ _ hi hni := absurd hi hni
  few := h
  enough := .inl rfl

theorem pruneWithin_pruned (hn : table.entries.length ≤ n) : Pruned table (pruneWithin n table) := by
  induction n generalizing table with
  | zero => exact pruned_self (.inl (hn.trans (Nat.zero_le _)))
  | succ n ih =>
    rw [pruneWithin]
    by_cases hfew : table.entries.length ≤ maxTransactionRecords
    · rw [if_pos hfew]
      exact pruned_self (.inl hfew)
    rw [if_neg hfew]
    cases hsettled : settledId table with
    | none => exact pruned_self (.inr fun j s hj => settledId_none hsettled hj)
    | some id =>
      obtain ⟨⟨r, hr, hrs⟩, hleast⟩ := settledId_some hsettled
      have hlength := length_erase hr
      have hpruned : Pruned (table.erase id) (pruneWithin n (table.erase id)) := ih (by omega)
      have hkept : ∀ j s, (pruneWithin n (table.erase id)).get j = some s →
          j ≠ id ∧ table.get j = some s := by
        intro j s hj
        have hget := hpruned.kept j s hj
        rw [get_erase] at hget
        split at hget
        next => cases hget
        next hne => exact ⟨hne, hget⟩
      show Pruned table (pruneWithin n (table.erase id))
      refine ⟨fun j s hj => (hkept j s hj).2, fun j s hj hs => ?_, fun i j s hi hni hj hs => ?_,
        hpruned.few, .inr ?_⟩
      · have hne : j ≠ id := by
          rintro rfl
          rw [hr] at hj
          exact hs (Option.some.inj hj ▸ hrs)
        exact hpruned.pending j s (by rw [get_erase, if_neg hne, hj]) hs
      · obtain ⟨hne, hget⟩ := hkept j s hj
        by_cases hid : i = id
        · have hle := hleast j s hget hs
          omega
        · exact hpruned.smallest i j s (contains_erase.mpr ⟨hid, hi⟩) hni hj hs
      · obtain hsame | hmany := hpruned.enough
        · rw [hsame]
          omega
        · exact hmany

end

/-- The runs of a ledger, with the ids that were issued, the last one first. -/
inductive Run : List Nat → Ledger → Prop
  | new : Run [] Ledger.new
  | accepted {ids : List Nat} {t : Ledger} (operation name : Str) : Run ids t → Returns t →
    Run ((allocateTransactionId t).1 :: ids) (acceptedTransaction t operation name).2
  | refreshed {ids : List Nat} {t : Ledger} (outcome : Str → Outcome) : Run ids t →
    Run ids { t with table := refreshTransactions outcome t.table }

section

variable {ids : List Nat} {t : Ledger} {operation name : Str} {j : Nat} {s : TransactionRecord}

theorem accepted_next (t : Ledger) (operation name : Str) :
    (acceptedTransaction t operation name).2.next = (allocateTransactionId t).2 := rfl

theorem allocated (hpos : 1 ≤ t.next) (h : Returns t) :
    Allocates t.table t.next (allocateTransactionId t).1 (allocateTransactionId t).2 := by
  obtain ⟨id, after, ha⟩ := h
  rwa [allocateTransactionId_of_allocates hpos ha]

theorem one_le_after {table : Table} {next id after : Nat} (h : Allocates table next id after) :
    1 ≤ after := by
  induction h with
  | free _ => exact one_le_successor _
  | taken _ _ ih => exact ih

theorem one_le_next (h : Run ids t) : 1 ≤ t.next := by
  induction h with
  | new => exact Nat.le_refl 1
  | accepted operation name _ hreturns ih => exact one_le_after (allocated ih hreturns)
  | refreshed _ _ ih => exact ih

theorem after_lt {table : Table} {next id after : Nat} (h : Allocates table next id after) :
    after < 2 ^ 64 := by
  induction h with
  | @free next _ =>
    have := Nat.mod_lt (next + 1) (show 0 < 2 ^ 64 by omega)
    rw [successor]
    omega
  | taken _ _ ih => exact ih

theorem next_lt (h : Run ids t) : t.next < 2 ^ 64 := by
  induction h with
  | new => decide
  | accepted operation name hrun hreturns => exact after_lt (allocated (one_le_next hrun) hreturns)
  | refreshed _ _ ih => exact ih

theorem contains_accepted (h : (acceptedTransaction t operation name).2.table.get j = some s) :
    j = (allocateTransactionId t).1 ∨ t.table.contains j := by
  obtain ⟨hid, -⟩ | hget := get_of_accepted h
  · exact .inl hid
  · exact .inr (contains_iff.mpr ⟨s, hget⟩)

theorem issued_in_order (h : Run ids t) (hfew : ids.length < 2 ^ 64 - 1) :
    t.next = ids.length + 1 ∧ (∀ id ∈ ids, id ≤ ids.length) ∧
      ∀ j, t.table.contains j → j ≤ ids.length := by
  induction h with
  | new => exact ⟨rfl, by simp, fun j hj => by cases hj⟩
  | @accepted ids t operation name hrun hreturns ih =>
    rw [List.length_cons] at hfew ⊢
    obtain ⟨hnext, hids, htable⟩ := ih (by omega)
    have hfree : ¬ t.table.contains (max t.next 1) := by
      intro hc
      have := htable _ hc
      omega
    have halloc := allocateTransactionId_of_allocates (one_le_next hrun) (.free hfree)
    rw [accepted_next, halloc]
    refine ⟨?_, fun id hid => ?_, fun j hj => ?_⟩
    · rw [hnext, successor, Nat.mod_eq_of_lt (by omega)]
      omega
    · obtain rfl | hid := List.mem_cons.mp hid
      · dsimp only
        omega
      · have := hids id hid
        omega
    · obtain ⟨s, hs⟩ := contains_iff.mp hj
      obtain rfl | hc := contains_accepted hs
      · rw [halloc]
        dsimp only
        omega
      · have := htable j hc
        omega
  | refreshed outcome _ ih =>
    obtain ⟨hnext, hids, htable⟩ := ih hfew
    refine ⟨hnext, hids, fun j hj => htable j ?_⟩
    rw [refreshTransactions, BTreeMap.contains, get_map, Option.isSome_map] at hj
    exact hj

end

/-- What an acceptance does to the table: it enters a pending record under a new id, and
settled records with the smallest ids make room for it. -/
structure Accepts (ids : List Nat) (t : Ledger) (operation name : Str) : Prop where
  answered : (acceptedTransaction t operation name).1 =
    .accepted (allocateTransactionId t).1 operation name
  nonzero : (allocateTransactionId t).1 ≠ 0
  absent : ¬ t.table.contains (allocateTransactionId t).1
  unissued : ids.length < 2 ^ 64 - 1 → (allocateTransactionId t).1 ∉ ids
  entered : (acceptedTransaction t operation name).2.table.get (allocateTransactionId t).1 =
    some ⟨operation, name, .pending⟩
  kept : ∀ j s, t.table.get j = some s →
    (acceptedTransaction t operation name).2.table.get j = some s ∨
      (acceptedTransaction t operation name).2.table.get j = none ∧ s.state ≠ .pending
  few : (acceptedTransaction t operation name).2.table.entries.length ≤ maxTransactionRecords ∨
    ∀ j s, (acceptedTransaction t operation name).2.table.get j = some s → s.state = .pending
  smallest : ∀ i j s, t.table.contains i →
    ¬ (acceptedTransaction t operation name).2.table.contains i →
    (acceptedTransaction t operation name).2.table.get j = some s → s.state ≠ .pending → i < j
  needed : (∀ j s, t.table.get j = some s →
      (acceptedTransaction t operation name).2.table.get j = some s) ∨
    maxTransactionRecords ≤ (acceptedTransaction t operation name).2.table.entries.length

section

variable {ids : List Nat} {t : Ledger} {operation name : Str}

theorem accepts (h : Run ids t) (hreturns : Returns t) : Accepts ids t operation name := by
  have halloc := allocated (one_le_next h) hreturns
  have hfree := not_contains_of_allocates halloc
  have hne {j : Nat} (hj : t.table.contains j) : j ≠ (allocateTransactionId t).1 := by
    rintro rfl
    exact hfree hj
  have hpruned : Pruned (t.table.insert (allocateTransactionId t).1 ⟨operation, name, .pending⟩)
      (acceptedTransaction t operation name).2.table := pruneWithin_pruned (Nat.le_refl _)
  have hold {j : Nat} {s : TransactionRecord} (hj : t.table.get j = some s) :
      (t.table.insert (allocateTransactionId t).1 ⟨operation, name, .pending⟩).get j = some s := by
    rw [get_insert_of_ne _ (hne (contains_iff.mpr ⟨s, hj⟩)), hj]
  have hkept : ∀ j s, t.table.get j = some s →
      (acceptedTransaction t operation name).2.table.get j = some s ∨
        (acceptedTransaction t operation name).2.table.get j = none ∧ s.state ≠ .pending := by
    intro j s hj
    cases hget : (acceptedTransaction t operation name).2.table.get j with
    | none =>
      refine .inr ⟨rfl, fun hpending => ?_⟩
      have hstays := hpruned.pending j s (hold hj) (not_not.mpr hpending)
      rw [hget] at hstays
      cases hstays
    | some s' => rw [← hold hj, hpruned.kept j s' hget]; exact .inl rfl
  refine ⟨rfl, ?_, hfree, fun hfew hmem => ?_, ?_, hkept, ?_, ?_, ?_⟩
  · have := one_le_of_allocates halloc
    omega
  · obtain ⟨hnext, hids, htable⟩ := issued_in_order h hfew
    have hid := hids _ hmem
    have hfirst : ¬ t.table.contains (max t.next 1) := by
      intro hc
      have := htable _ hc
      omega
    rw [allocateTransactionId_of_allocates (one_le_next h) (.free hfirst)] at hid
    dsimp only at hid
    omega
  · exact hpruned.pending _ _ (get_insert_self _ _ _) (not_not.mpr rfl)
  · exact hpruned.few.imp_right fun hall j s hj => not_not.mp (hall j s hj)
  · intro i j s hi hni hj hs
    exact hpruned.smallest i j s (contains_insert.mpr (.inr hi)) hni hj hs
  · obtain hsame | hmany := hpruned.enough
    · exact .inl fun j s hj => by rw [hsame, hold hj]
    · exact .inr hmany

theorem settled_refresh {outcome : Str → Outcome} {table : Table} {j : Nat} {s : TransactionRecord}
    (hj : table.get j = some s) (hs : s.state ≠ .pending) :
    (refreshTransactions outcome table).get j = some s := by
  rw [refreshTransactions, get_map, hj, Option.map_some, refresh, if_pos hs]

end

/-- In every run an acceptance is answered with an id of its own and removes no pending
record, and a record that is settled stays as it is. Only a table of all the ids there are
would keep an acceptance from returning. -/
theorem transactions_run (ids : List Nat) (t : Ledger) (h : Run ids t) :
    (t.table.entries.length < 2 ^ 64 - 1 → Returns t) ∧
      (∀ operation name, Returns t → Accepts ids t operation name) ∧
      ∀ outcome, (refreshTransactions outcome t.table).keys = t.table.keys ∧
        ∀ j s, t.table.get j = some s → s.state ≠ .pending →
          (refreshTransactions outcome t.table).get j = some s :=
  ⟨allocates_of_length (one_le_next h) (next_lt h), fun _ _ hreturns => accepts h hreturns,
    fun _ => ⟨keys_map _, fun _ _ hj hs => settled_refresh hj hs⟩⟩

def failedOnce : Ledger :=
  let t := (acceptedTransaction Ledger.new "start".toList ['a']).2
  { t with table := refreshTransactions (fun _ => ⟨none, none⟩) t.table }

theorem failedOnce_accepts : Accepts [1] failedOnce "stop".toList ['b'] :=
  (transactions_run [1] failedOnce (.refreshed _ (.accepted "start".toList ['a'] .new
    ⟨1, 2, .free (by decide)⟩))).2.1 _ _ ⟨2, 3, .free (by decide +kernel)⟩

end FractalD.Daemon.TransactionTable
