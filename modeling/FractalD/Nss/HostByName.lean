import FractalD.Nss.Query
import Mathlib.Data.Nat.Basic

namespace FractalD.Nss.Layout

/-- A caller's buffer. -/
structure Buffer where
  address : Nat
  buflen : Nat

/-- `fractald_nss_align`: the place of an object of the given alignment and size
behind `offset`, and the offset behind that object. -/
def align (b : Buffer) (offset alignment size : Nat) : Option (Nat × Nat) :=
  let address := b.address + offset
  let aligned := (address + alignment - 1) / alignment * alignment
  let padding := aligned - address
  if padding > b.buflen - offset ∨ size > b.buflen - offset - padding then none
  else some (offset + padding, offset + padding + size)

end FractalD.Nss.Layout

namespace FractalD.Nss.HostByName

open FractalD.Nss.Layout FractalD.Nss.Query FractalD.Platform

inductive NssStatus
  | tryAgain
  | unavail
  | notFound
  | success
  deriving DecidableEq, Repr

/-- A `gaih_addrtuple`. Its successor is given by its index in the array. -/
structure Tuple where
  next : Option Nat
  name : List Byte
  family : Nat
  addr : List Byte
  deriving DecidableEq, Repr

def tupleSize : Nat := 40
def tupleAlignment : Nat := 8

structure Result where
  status : NssStatus
  errnop : Errno
  hErrnop : HErrno
  tuples : List Tuple
  ttlp : Option (BitVec 32)
  touched : List Nat

/-- The local variables while the two queries are merged. -/
structure Merge where
  count : Nat
  minimumTtl : BitVec 32
  found : Nat
  ttl : BitVec 32
  queryError : HErrno
  table : Table

/-- The arguments, the resolver and the initial contents of the stack. -/
structure Call where
  resQuery : Nat → Answer
  name : List Byte
  buffer : Buffer
  wantsTtl : Bool
  found : Nat
  ttl : BitVec 32
  slots : Nat → Slot

def firstQuery (c : Call) : Merge :=
  match query c.resQuery nsTA maxAddresses 0 ⟨c.slots, []⟩ with
  | (table, .error e) => ⟨0, ttlMax, c.found, c.ttl, e, table⟩
  | (table, .ok (found, ttl)) => ⟨found, if found > 0 then ttl else ttlMax, found, ttl, 0, table⟩

/-- The branch that counts the result of the last query. -/
def Merge.addFound (m : Merge) : Merge :=
  { m with
    count := m.count + m.found
    minimumTtl := if m.found > 0 ∧ m.ttl < m.minimumTtl then m.ttl else m.minimumTtl }

def secondQuery (c : Call) (m : Merge) : Merge :=
  if m.count < maxAddresses then
    match query c.resQuery nsTAaaa (maxAddresses - m.count) m.count m.table with
    | (table, .error e) =>
      { m with table := table, queryError := if m.queryError = 0 then e else m.queryError }
    | (table, .ok (found, ttl)) => { m with table := table, found := found, ttl := ttl }.addFound
  else m.addFound

def merge (c : Call) : Merge := secondQuery c (firstQuery c)

def noAddress (m : Merge) : Result :=
  if m.queryError = tryAgain then ⟨.tryAgain, eAgain, tryAgain, [], none, m.table.touched⟩
  else
    ⟨if m.queryError = noRecovery then .unavail else .notFound, eNoEnt,
      if m.queryError = 0 then noData else m.queryError, [], none, m.table.touched⟩

/-- The tuples and the canonical name both fit into the buffer. -/
def fits (c : Call) (count : Nat) : Bool :=
  match align c.buffer 0 tupleAlignment (count * tupleSize) with
  | none => false
  | some (_, offset) => (align c.buffer offset 1 (c.name.length + 1)).isSome

def tuple (c : Call) (m : Merge) (index : Nat) : Tuple where
  next := if index + 1 < m.count then some (index + 1) else none
  name := c.name
  family := (m.table.slots index).family
  addr := memcpy (List.replicate 16 0) (m.table.slots index).bytes
    (if (m.table.slots index).family = afInet then 4 else 16)

def fillTuples (c : Call) (m : Merge) : Result :=
  ⟨.success, 0, netdbSuccess, (List.range m.count).map (tuple c m),
    if c.wantsTtl then some (if m.minimumTtl = ttlMax then 0 else m.minimumTtl) else none,
    m.table.touched ++ List.range m.count⟩

/-- `_nss_fractald_gethostbyname4_r`. -/
def gethostbyname4 (c : Call) : Result :=
  let m := merge c
  if m.count = 0 then noAddress m
  else if fits c m.count then fillTuples c m
  else ⟨.tryAgain, eRange, netdbInternal, [], none, m.table.touched⟩

/-- The tuples on the chain from an index on. -/
def follow (tuples : List Tuple) : Nat → Nat → List Tuple
  | 0, _ => []
  | n + 1, i =>
    match tuples[i]? with
    | none => []
    | some t => t :: (match t.next with
      | none => []
      | some j => follow tuples n j)

def Result.chain (r : Result) : List Tuple := follow r.tuples r.tuples.length 0

/-- The first 32 IPv4 addresses. -/
def inetAnswers (c : Call) : List Record := answers c.resQuery nsTA maxAddresses

/-- The IPv6 addresses that are still wanted then. -/
def inet6Answers (c : Call) : List Record :=
  answers c.resQuery nsTAaaa (maxAddresses - (inetAnswers c).length)

def inetTuple (r : Record) : Nat × List Byte := (afInet, r.rdata ++ List.replicate 12 0)
def inet6Tuple (r : Record) : Nat × List Byte := (afInet6, r.rdata)

/-- The result holds the merged addresses with their least TTL, and no slot
beyond the array was touched. -/
structure MergesAnswers (c : Call) (r : Result) : Prop where
  bounds : ∀ i ∈ r.touched, i < maxAddresses
  chain : r.status = .success → r.chain.map (fun t => (t.name, t.family, t.addr)) =
    ((inetAnswers c).map inetTuple ++ (inet6Answers c).map inet6Tuple).map (fun a => (c.name, a))
  ttl : r.status = .success → ∀ ttl, r.ttlp = some ttl → ∃ least,
    IsLeast {n | ∃ a ∈ inetAnswers c ++ inet6Answers c, a.ttl.toNat = n} least ∧
      ttl.toInt = least

/-- With 32 IPv4 addresses the call takes the first query for the second one
too, which only a buffer that is too small for 64 tuples keeps from being seen.
With fewer the least TTL has to be a number that `int32_t` can hold. -/
def Mergeable (c : Call) : Prop :=
  if (inetAnswers c).length = maxAddresses then fits c (2 * maxAddresses) = false
  else inetAnswers c ++ inet6Answers c ≠ [] →
    fits c (inetAnswers c ++ inet6Answers c).length = true → c.wantsTtl = true →
      ∃ a ∈ inetAnswers c ++ inet6Answers c, a.ttl.toNat < 2 ^ 31

/-- The variables once the given addresses have been merged. -/
structure Merged (inet inet6 : List Record) (m : Merge) : Prop where
  count : m.count = inet.length + inet6.length
  minimumTtl : m.minimumTtl = minimumTtl ttlMax (inet ++ inet6)
  inetSlots : ∀ i (h : i < inet.length), (m.table.slots i).address = (afInet, inet[i].rdata)
  inet6Slots : ∀ i (h : i < inet6.length),
    (m.table.slots (inet.length + i)).address = (afInet6, inet6[i].rdata)
  touched : ∀ i ∈ m.table.touched, i < maxAddresses

theorem touched_writeAll {type base n : Nat} {records : List Record} {t : Table}
    (h : ∀ i ∈ t.touched, i < n) (hn : base + records.length ≤ n) :
    ∀ i ∈ (writeAll type base records t).touched, i < n := by
  intro i hi
  rw [writeAll_touched, List.mem_append, List.mem_range'_1] at hi
  obtain hi | hi := hi
  · exact h i hi
  · omega

theorem firstQuery_merged (c : Call) :
    Merged (inetAnswers c) [] (firstQuery c) ∧
      (inetAnswers c ≠ [] → (firstQuery c).found = (inetAnswers c).length) := by
  have ht : ∀ i ∈ ([] : List Nat), i < maxAddresses := by simp
  unfold firstQuery
  obtain ⟨ttl, hq, hm⟩ | ⟨hn, e, records, hl, hq⟩ :=
    query_cases c.resQuery nsTA maxAddresses 0 ⟨c.slots, []⟩
  · rw [hq]
    change inetAnswers c ≠ [] → ttl = minimumTtl ttlMax (inetAnswers c) at hm
    refine ⟨⟨rfl, ?_, ?_, by simp, ?_⟩, fun _ => rfl⟩
    · by_cases he : inetAnswers c = []
      · simp [inetAnswers] at he
        simp [inetAnswers, he, minimumTtl]
      · have hp : (answers c.resQuery nsTA maxAddresses).length > 0 := List.length_pos_of_ne_nil he
        simp only [if_pos hp, List.append_nil, hm he]
    · intro i hi
      have := writeAll_slots nsTA 0 (inetAnswers c) ⟨c.slots, []⟩ hi
        (fun r hr => isAddress_of_mem_answers hr)
      rw [Nat.zero_add] at this
      exact this
    · refine touched_writeAll ht ?_
      simpa using answers_length_le
  · have hi : inetAnswers c = [] := hn
    rw [hq, hi]
    refine ⟨⟨rfl, rfl, by simp, by simp, ?_⟩, by simp⟩
    exact touched_writeAll ht (by simpa using hl)

theorem secondQuery_merged {c : Call} {m : Merge} (h : Merged (inetAnswers c) [] m)
    (hlt : (inetAnswers c).length < maxAddresses) :
    Merged (inetAnswers c) (inet6Answers c) (secondQuery c m) := by
  have hc : m.count = (inetAnswers c).length := by simpa using h.count
  have hm : m.minimumTtl = minimumTtl ttlMax (inetAnswers c) := by simpa using h.minimumTtl
  unfold secondQuery
  rw [hc, if_pos hlt]
  obtain ⟨ttl, hq, ht⟩ | ⟨hn, e, records, hl, hq⟩ := query_cases c.resQuery nsTAaaa
    (maxAddresses - (inetAnswers c).length) (inetAnswers c).length m.table
  · rw [hq]
    change inet6Answers c ≠ [] → ttl = minimumTtl ttlMax (inet6Answers c) at ht
    refine ⟨by simp [Merge.addFound, inet6Answers], ?_, ?_, ?_, ?_⟩
    · rw [minimumTtl_append, ← hm]
      by_cases he : inet6Answers c = []
      · have hz : (inet6Answers c).length = 0 := by rw [he, List.length_nil]
        rw [he, show minimumTtl ttlMax [] = ttlMax from rfl, lowerTtl_ttlMax]
        exact if_neg (fun hp => absurd hz (Nat.pos_iff_ne_zero.mp hp.1))
      · have hp : 0 < (inet6Answers c).length := List.length_pos_of_ne_nil he
        rw [← ht he]
        exact if_congr (and_iff_right hp) rfl rfl
    · intro i hi
      have hs := writeAll_slots_of_lt nsTAaaa (inetAnswers c).length (inet6Answers c) m.table hi
      exact (congrArg Slot.address hs).trans (h.inetSlots i hi)
    · intro i hi
      exact writeAll_slots nsTAaaa _ (inet6Answers c) m.table hi
        (fun r hr => isAddress_of_mem_answers hr)
    · refine touched_writeAll h.touched ?_
      have : (inet6Answers c).length ≤ maxAddresses - (inetAnswers c).length := answers_length_le
      change (inetAnswers c).length + (inet6Answers c).length ≤ maxAddresses
      omega
  · have hi : inet6Answers c = [] := hn
    rw [hq, hi]
    refine ⟨rfl, by simpa using hm, ?_, by simp, ?_⟩
    · intro i hi
      rw [writeAll_slots_of_lt _ _ _ _ hi]
      exact h.inetSlots i hi
    · exact touched_writeAll h.touched (by omega)

theorem merge_merged {c : Call} (hlt : (inetAnswers c).length < maxAddresses) :
    Merged (inetAnswers c) (inet6Answers c) (merge c) :=
  secondQuery_merged (firstQuery_merged c).1 hlt

theorem merge_full {c : Call} (h : (inetAnswers c).length = maxAddresses) :
    (merge c).count = 2 * maxAddresses ∧ ∀ i ∈ (merge c).table.touched, i < maxAddresses := by
  obtain ⟨hm, hf⟩ := firstQuery_merged c
  have hc : (firstQuery c).count = maxAddresses := by simpa [h] using hm.count
  have hn : inetAnswers c ≠ [] := by
    intro he
    simp [he, maxAddresses] at h
  have he : merge c = (firstQuery c).addFound := by
    rw [merge, secondQuery, hc, if_neg (lt_irrefl _)]
  rw [he]
  refine ⟨?_, hm.touched⟩
  simp [Merge.addFound, hc, hf hn, h, Nat.two_mul]

section

variable (c : Call) (m : Merge)

theorem follow_tuples {n i : Nat} (hn : i + n = m.count) :
    follow ((List.range m.count).map (tuple c m)) n i =
      (List.range' i n).map (tuple c m) := by
  induction n generalizing i with
  | zero => rfl
  | succ n ih =>
    have hi : ((List.range m.count).map (tuple c m))[i]? = some (tuple c m i) := by
      simp [List.getElem?_range (show i < m.count by omega)]
    rw [follow, hi, List.range'_succ, List.map_cons]
    cases n with
    | zero => simp [tuple, show ¬ i + 1 < m.count by omega]
    | succ n =>
      have hl : i + 1 < m.count := by omega
      simp only [tuple, hl, if_pos, ih (show i + 1 + (n + 1) = m.count by omega)]

theorem fillTuples_chain : (fillTuples c m).chain = (List.range m.count).map (tuple c m) := by
  simp only [Result.chain, fillTuples, List.length_map, List.length_range]
  rw [follow_tuples c m (by omega), List.range_eq_range']

theorem tuple_of_address {i family : Nat} {bytes : List Byte}
    (h : (m.table.slots i).address = (family, bytes)) :
    ((tuple c m i).family, (tuple c m i).addr) =
      (family, bytes ++ List.replicate (if family = afInet then 12 else 0) 0) := by
  obtain ⟨rfl, rfl⟩ := Prod.mk.inj h
  simp only [tuple, memcpy, List.drop_replicate]
  split <;> rfl

theorem tuples_merged {c : Call} {m : Merge} {inet inet6 : List Record} (h : Merged inet inet6 m) :
    ((List.range m.count).map (tuple c m)).map (fun t => (t.name, t.family, t.addr)) =
      (inet.map inetTuple ++ inet6.map inet6Tuple).map (fun a => (c.name, a)) := by
  refine List.ext_getElem (by simp [h.count]) ?_
  intro i hi _
  have hlt : i < inet.length + inet6.length := by simpa [h.count] using hi
  simp only [List.getElem_map, List.getElem_range, List.map_append, List.map_map]
  by_cases hl : i < inet.length
  · have ha := tuple_of_address c m (h.inetSlots i hl)
    rw [List.getElem_append_left (by simpa using hl)]
    simpa [inetTuple, tuple, afInet] using ha
  · obtain ⟨j, rfl⟩ : ∃ j, i = inet.length + j := ⟨i - inet.length, by omega⟩
    have ha := tuple_of_address c m (h.inet6Slots j (by omega))
    rw [List.getElem_append_right (by simp)]
    simpa [inet6Tuple, tuple, afInet, afInet6] using ha

end

section

variable {c : Call}

theorem noAddress_status (m : Merge) : (noAddress m).status ≠ .success := by
  unfold noAddress
  split_ifs <;> simp

theorem noAddress_touched (m : Merge) : (noAddress m).touched = m.table.touched := by
  unfold noAddress
  split_ifs <;> rfl

theorem mergesAnswers_of_failure {r : Result} (hs : r.status ≠ .success)
    (ht : ∀ i ∈ r.touched, i < maxAddresses) : MergesAnswers c r :=
  ⟨ht, fun h => absurd h hs, fun h => absurd h hs⟩

theorem mergesAnswers_full (h : (inetAnswers c).length = maxAddresses) :
    MergesAnswers c (gethostbyname4 c) ↔ fits c (2 * maxAddresses) = false := by
  obtain ⟨hc, ht⟩ := merge_full h
  simp only [gethostbyname4, hc]
  rw [if_neg (by decide)]
  by_cases hf : fits c (2 * maxAddresses) = true
  · rw [if_pos hf, hf]
    refine iff_of_false ?_ (by decide)
    intro hm
    refine absurd (hm.bounds maxAddresses ?_) (lt_irrefl _)
    simp [fillTuples, hc, maxAddresses]
  · rw [if_neg hf]
    refine iff_of_true (mergesAnswers_of_failure (by simp) ht) (by simpa using hf)

theorem ttlp_toInt_iff (ttl : BitVec 32) :
    (if ttl = ttlMax then 0 else ttl).toInt = (ttl.toNat : Int) ↔ ttl.toNat < 2 ^ 31 := by
  split
  next h => simp [h, ttlMax]
  next => rw [BitVec.toInt_eq_toNat_cond]; split <;> omega

/-- `int32_t` holds the least TTL as a number exactly when some TTL is small. -/
theorem ttlp_isLeast_iff {records : List Record} (hn : records ≠ []) :
    (∃ least : Nat, IsLeast {n | ∃ a ∈ records, a.ttl.toNat = n} least ∧
      (if minimumTtl ttlMax records = ttlMax then 0 else minimumTtl ttlMax records).toInt = least) ↔
      ∃ a ∈ records, a.ttl.toNat < 2 ^ 31 := by
  have hl := isLeast_minimumTtl records hn
  constructor
  · rintro ⟨least, hleast, ht⟩
    obtain ⟨a, ha, hattl⟩ := hleast.1
    rw [hleast.unique hl, ttlp_toInt_iff] at ht
    exact ⟨a, ha, by rw [hattl, hleast.unique hl]; exact ht⟩
  · rintro ⟨a, ha, hattl⟩
    refine ⟨_, hl, (ttlp_toInt_iff _).mpr ?_⟩
    exact lt_of_le_of_lt (hl.2 ⟨a, ha, rfl⟩) hattl

theorem mergesAnswers_fillTuples {m : Merge} (h : Merged (inetAnswers c) (inet6Answers c) m)
    (hle : m.count ≤ maxAddresses) (hn : inetAnswers c ++ inet6Answers c ≠ []) :
    MergesAnswers c (fillTuples c m) ↔ (c.wantsTtl = true →
      ∃ a ∈ inetAnswers c ++ inet6Answers c, a.ttl.toNat < 2 ^ 31) := by
  rw [← ttlp_isLeast_iff hn]
  constructor
  · intro hm hw
    exact hm.ttl rfl _ (by simp [fillTuples, hw, h.minimumTtl])
  · intro hw
    refine ⟨?_, ?_, ?_⟩
    · intro i hi
      simp only [fillTuples, List.mem_append, List.mem_range] at hi
      obtain hi | hi := hi
      · exact h.touched i hi
      · omega
    · intro _
      rw [fillTuples_chain, tuples_merged h]
    · intro _ ttl ht
      simp only [fillTuples] at ht
      split at ht
      next hwants =>
        obtain rfl : _ = ttl := Option.some.inj ht
        rw [h.minimumTtl]
        exact hw hwants
      next => simp at ht

/-- The merge is right exactly when the first query leaves a free slot, or the
buffer hides the overrun, and the least TTL has a number to report it by. -/
theorem gethostbyname4_merges_iff (c : Call) :
    MergesAnswers c (gethostbyname4 c) ↔ Mergeable c := by
  unfold Mergeable
  by_cases hfull : (inetAnswers c).length = maxAddresses
  · rw [if_pos hfull]
    exact mergesAnswers_full hfull
  · rw [if_neg hfull]
    have hle : (inetAnswers c).length ≤ maxAddresses := answers_length_le
    have h6 : (inet6Answers c).length ≤ maxAddresses - (inetAnswers c).length := answers_length_le
    have hm : Merged (inetAnswers c) (inet6Answers c) (merge c) := merge_merged (by omega)
    have hc : (merge c).count = (inetAnswers c ++ inet6Answers c).length := by
      rw [hm.count, List.length_append]
    simp only [gethostbyname4]
    by_cases hn : inetAnswers c ++ inet6Answers c = []
    · rw [if_pos (by simp [hc, hn])]
      refine iff_of_true (mergesAnswers_of_failure (noAddress_status _) ?_) (fun h => absurd hn h)
      rw [noAddress_touched]
      exact hm.touched
    · rw [if_neg (by simpa [hc] using hn), hc]
      by_cases hf : fits c (inetAnswers c ++ inet6Answers c).length = true
      · rw [if_pos hf, mergesAnswers_fillTuples hm (by rw [hm.count]; omega) hn]
        exact ⟨fun h _ _ => h, fun h => h hn hf⟩
      · rw [if_neg hf]
        exact iff_of_true (mergesAnswers_of_failure (by simp) hm.touched)
          (fun _ h => absurd h hf)

end

/-- A lookup of a host with as many IPv4 addresses as the array has slots. -/
def crowdedCall : Call where
  resQuery type :=
    if type = nsTA then .ok (List.replicate 32 (some ⟨nsTA, [10, 0, 0, 1], 60⟩)) else .error noData
  name := [104]
  buffer := ⟨4096, 4096⟩
  wantsTtl := true
  found := 0
  ttl := 0
  slots := fun _ => ⟨0, []⟩

theorem gethostbyname4_overruns :
    (gethostbyname4 crowdedCall).status = .success ∧
      maxAddresses ∈ (gethostbyname4 crowdedCall).touched ∧
      ¬ MergesAnswers crowdedCall (gethostbyname4 crowdedCall) := by
  have ht : maxAddresses ∈ (gethostbyname4 crowdedCall).touched := by decide
  exact ⟨by decide, ht, fun h => absurd (h.bounds _ ht) (lt_irrefl _)⟩

end FractalD.Nss.HostByName
