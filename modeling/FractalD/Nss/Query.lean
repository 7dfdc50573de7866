import FractalD.Platform.Errno
import Mathlib.Data.BitVec
import Mathlib.Data.List.Basic
import Mathlib.Logic.Function.Basic
import Mathlib.Order.Bounds.Basic

namespace FractalD.Nss.Query

abbrev Byte := BitVec 8

/-- A value of `h_errno`. -/
abbrev HErrno := Int

def netdbInternal : HErrno := -1
def netdbSuccess : HErrno := 0
def tryAgain : HErrno := 2
def noRecovery : HErrno := 3
def noData : HErrno := 4

def nsTA : Nat := 1
def nsTAaaa : Nat := 28
def afInet : Nat := 2
def afInet6 : Nat := 10

def maxAddresses : Nat := 32

def ttlMax : BitVec 32 := 0xffffffff#32

/-- A record of the answer section. -/
structure Record where
  type : Nat
  rdata : List Byte
  ttl : BitVec 32
  deriving DecidableEq, Repr

/-- The answer section of a response, with `none` for a record that does not
parse, or the error of a query without a usable response. -/
abbrev Answer := Except HErrno (List (Option Record))

/-- A slot of the address array. -/
structure Slot where
  family : Nat
  bytes : List Byte
  deriving DecidableEq, Repr

/-- The memory from the first slot of the address array on, and the slots that
were read or written so far. -/
structure Table where
  slots : Nat → Slot
  touched : List Nat

def memcpy (target source : List Byte) (n : Nat) : List Byte := source.take n ++ target.drop n

def addressLength (type : Nat) : Nat := if type = nsTA then 4 else 16

def familyOf (type : Nat) : Nat := if type = nsTA then afInet else afInet6

def Table.write (t : Table) (index type : Nat) (rdata : List Byte) : Table where
  slots := Function.update t.slots index
    ⟨familyOf type, memcpy (t.slots index).bytes rdata (addressLength type)⟩
  touched := t.touched ++ [index]

def lowerTtl (minimum ttl : BitVec 32) : BitVec 32 := if ttl < minimum then ttl else minimum

def closeQuery (found : Nat) (ttl : BitVec 32) : Except HErrno (Nat × BitVec 32) :=
  .ok (found, if found = 0 then 0 else ttl)

/-- The loop over the records. The slots that it fills start at `base`. -/
def scanRecords (type capacity base : Nat) :
    List (Option Record) → Nat → BitVec 32 → Table → Table × Except HErrno (Nat × BitVec 32)
  | [], found, ttl, t => (t, closeQuery found ttl)
  | none :: _, _, _, t => (t, .error noRecovery)
  | some record :: records, found, ttl, t =>
    if record.type ≠ type then scanRecords type capacity base records found ttl t
    else if record.rdata.length ≠ addressLength type then
      scanRecords type capacity base records found ttl t
    else if found ≥ capacity then (t, closeQuery found ttl)
    else scanRecords type capacity base records (found + 1)
      (lowerTtl ttl record.ttl)
      (t.write (base + found) type record.rdata)

/-- `fractald_nss_query`: the number of addresses found and their minimum TTL. -/
def query (resQuery : Nat → Answer) (type capacity base : Nat) (t : Table) :
    Table × Except HErrno (Nat × BitVec 32) :=
  match resQuery type with
  | .error e => (t, .error e)
  | .ok records => scanRecords type capacity base records 0 ttlMax t

/-- The record holds an address of the queried type. -/
def isAddress (type : Nat) (record : Record) : Bool :=
  record.type = type && record.rdata.length = addressLength type

/-- The addresses of a section up to the first record that does not parse. -/
def addressesOf (type : Nat) : List (Option Record) → List Record
  | [] => []
  | none :: _ => []
  | some record :: records =>
    if isAddress type record then record :: addressesOf type records else addressesOf type records

/-- A scan for `capacity` addresses goes through: every record parses, or there
are more addresses than wanted before the first that does not. -/
def Parses (type capacity : Nat) (records : List (Option Record)) : Prop :=
  none ∉ records ∨ capacity < (addressesOf type records).length

instance (type capacity : Nat) (records : List (Option Record)) :
    Decidable (Parses type capacity records) :=
  inferInstanceAs (Decidable (_ ∨ _))

/-- The addresses that a query for at most `capacity` of them answers with; a
query that fails answers with none. -/
def answers (resQuery : Nat → Answer) (type capacity : Nat) : List Record :=
  match resQuery type with
  | .error _ => []
  | .ok records =>
    if Parses type capacity records then (addressesOf type records).take capacity else []

def minimumTtl (ttl : BitVec 32) (records : List Record) : BitVec 32 :=
  (records.map Record.ttl).foldl lowerTtl ttl

def writeAll (type : Nat) : Nat → List Record → Table → Table
  | _, [], t => t
  | base, record :: records, t =>
    writeAll type (base + 1) records (t.write base type record.rdata)

section

variable {type capacity base found : Nat} {record : Record} {records : List (Option Record)}
  {ttl : BitVec 32} {t : Table}

theorem scanRecords_skip (h : isAddress type record = false) :
    scanRecords type capacity base (some record :: records) found ttl t =
      scanRecords type capacity base records found ttl t := by
  by_cases ht : record.type = type
  · have hl : record.rdata.length ≠ addressLength type := by simpa [isAddress, ht] using h
    simp [scanRecords, hl]
  · simp [scanRecords, ht]

theorem scanRecords_full (h : isAddress type record = true) (hf : capacity ≤ found) :
    scanRecords type capacity base (some record :: records) found ttl t =
      (t, closeQuery found ttl) := by
  obtain ⟨ht, hl⟩ : record.type = type ∧ record.rdata.length = addressLength type := by
    simpa [isAddress] using h
  simp [scanRecords, ht, hl, hf]

theorem scanRecords_take (h : isAddress type record = true) (hf : found < capacity) :
    scanRecords type capacity base (some record :: records) found ttl t =
      scanRecords type capacity base records (found + 1)
        (lowerTtl ttl record.ttl)
        (t.write (base + found) type record.rdata) := by
  obtain ⟨ht, hl⟩ : record.type = type ∧ record.rdata.length = addressLength type := by
    simpa [isAddress] using h
  simp [scanRecords, ht, hl, hf]

theorem addressesOf_skip (h : isAddress type record = false) :
    addressesOf type (some record :: records) = addressesOf type records := by
  simp [addressesOf, h]

theorem addressesOf_take (h : isAddress type record = true) :
    addressesOf type (some record :: records) = record :: addressesOf type records := by
  simp [addressesOf, h]

theorem parses_skip (h : isAddress type record = false) :
    Parses type capacity (some record :: records) ↔ Parses type capacity records := by
  simp [Parses, addressesOf_skip h]

theorem parses_take (h : isAddress type record = true) :
    Parses type (capacity + 1) (some record :: records) ↔ Parses type capacity records := by
  simp [Parses, addressesOf_take h]

theorem parses_full (h : isAddress type record = true) :
    Parses type 0 (some record :: records) := by
  simp [Parses, addressesOf_take h]

/-- Whatever comes of the query, the scan fills the next slots with the next
addresses until the capacity is reached or a record does not parse. -/
theorem scanRecords_table (hf : found ≤ capacity) :
    (scanRecords type capacity base records found ttl t).1 =
      writeAll type (base + found) ((addressesOf type records).take (capacity - found)) t := by
  induction records generalizing found ttl t with
  | nil => simp [scanRecords, addressesOf, writeAll]
  | cons entry records ih =>
    cases entry with
    | none => simp [scanRecords, addressesOf, writeAll]
    | some record =>
      cases ha : isAddress type record with
      | false => rw [scanRecords_skip ha, addressesOf_skip ha, ih hf]
      | true =>
        rw [addressesOf_take ha]
        obtain hlt | rfl := Nat.lt_or_eq_of_le hf
        · obtain ⟨n, hn⟩ : ∃ n, capacity - found = n + 1 := ⟨capacity - found - 1, by omega⟩
          have hn' : capacity - (found + 1) = n := by omega
          rw [scanRecords_take ha hlt, ih hlt, hn, hn', List.take_succ_cons, writeAll,
            Nat.add_assoc]
        · rw [scanRecords_full ha le_rfl, Nat.sub_self, List.take_zero, writeAll]

/-- The answer of a scan that has found `found` addresses before. -/
theorem scanRecords_answer (hf : found ≤ capacity) :
    (scanRecords type capacity base records found ttl t).2 =
      if Parses type (capacity - found) records then
        let taken := (addressesOf type records).take (capacity - found)
        closeQuery (found + taken.length) (minimumTtl ttl taken)
      else .error noRecovery := by
  induction records generalizing found ttl t with
  | nil => simp [scanRecords, addressesOf, Parses, minimumTtl]
  | cons entry records ih =>
    cases entry with
    | none => simp [scanRecords, addressesOf, Parses]
    | some record =>
      cases ha : isAddress type record with
      | false =>
        simp only [scanRecords_skip ha, ih hf, addressesOf_skip ha, parses_skip ha]
      | true =>
        obtain hlt | rfl := Nat.lt_or_eq_of_le hf
        · obtain ⟨n, hn⟩ : ∃ n, capacity - found = n + 1 := ⟨capacity - found - 1, by omega⟩
          have hn' : capacity - (found + 1) = n := by omega
          simp only [scanRecords_take ha hlt, ih hlt, hn, hn', addressesOf_take ha, parses_take ha,
            List.take_succ_cons, List.length_cons, minimumTtl, List.map_cons,
            List.foldl_cons]
          rw [Nat.succ_add_eq_add_succ]
        · rw [scanRecords_full ha le_rfl, Nat.sub_self, if_pos (parses_full ha)]
          rfl

end

section

variable {resQuery : Nat → Answer} {type capacity base : Nat} {t : Table}

theorem isAddress_of_mem_addressesOf {records : List (Option Record)} {record : Record}
    (h : record ∈ addressesOf type records) : isAddress type record = true := by
  induction records with
  | nil => simp [addressesOf] at h
  | cons entry records ih =>
    cases entry with
    | none => simp [addressesOf] at h
    | some r =>
      simp only [addressesOf] at h
      split at h
      next hr =>
        obtain rfl | h := List.mem_cons.mp h
        · exact hr
        · exact ih h
      next => exact ih h

theorem isAddress_of_mem_answers {record : Record} (h : record ∈ answers resQuery type capacity) :
    isAddress type record = true := by
  unfold answers at h
  split at h
  · simp at h
  · split at h
    · exact isAddress_of_mem_addressesOf (List.mem_of_mem_take h)
    · simp at h

theorem answers_length_le : (answers resQuery type capacity).length ≤ capacity := by
  unfold answers
  split
  · simp
  · split
    · exact List.length_take_le _ _
    · simp

/-- A query either succeeds with the number of its answers, their least TTL and
the answers in the slots, or fails without an answer. It fills slots of its own
part of the array only. -/
theorem query_cases (resQuery : Nat → Answer) (type capacity base : Nat) (t : Table) :
    (∃ ttl, query resQuery type capacity base t =
        (writeAll type base (answers resQuery type capacity) t,
          .ok ((answers resQuery type capacity).length, ttl)) ∧
        (answers resQuery type capacity ≠ [] →
          ttl = minimumTtl ttlMax (answers resQuery type capacity))) ∨
      (answers resQuery type capacity = [] ∧ ∃ e records, records.length ≤ capacity ∧
        query resQuery type capacity base t = (writeAll type base records t, .error e)) := by
  unfold query answers
  cases resQuery type with
  | error e => exact .inr ⟨rfl, e, [], by simp, rfl⟩
  | ok records =>
    have ht : (scanRecords type capacity base records 0 ttlMax t).1 = _ :=
      scanRecords_table (Nat.zero_le capacity)
    have ha : (scanRecords type capacity base records 0 ttlMax t).2 = _ :=
      scanRecords_answer (Nat.zero_le capacity)
    simp only [Nat.add_zero, Nat.sub_zero, Nat.zero_add] at ht ha
    by_cases hp : Parses type capacity records
    · simp only [if_pos hp] at ha ⊢
      refine .inl ⟨_, Prod.ext ht ha, fun hne => ?_⟩
      rw [if_neg (by simpa using hne)]
    · simp only [if_neg hp] at ha ⊢
      exact .inr ⟨trivial, noRecovery, _, List.length_take_le _ _, Prod.ext ht ha⟩

end

section

variable (type base : Nat) (records : List Record) (t : Table)

theorem writeAll_touched :
    (writeAll type base records t).touched = t.touched ++ List.range' base records.length := by
  induction records generalizing base t with
  | nil => simp [writeAll]
  | cons record records ih => simp [writeAll, ih, Table.write, List.range'_succ]

theorem writeAll_slots_of_lt {i : Nat} (h : i < base) :
    (writeAll type base records t).slots i = t.slots i := by
  induction records generalizing base t with
  | nil => rfl
  | cons record records ih =>
    rw [writeAll, ih (base + 1) _ (by omega)]
    exact Function.update_of_ne (by omega) _ _

def Slot.address (s : Slot) : Nat × List Byte :=
  (s.family, s.bytes.take (if s.family = afInet then 4 else 16))

theorem write_address {record : Record} (h : isAddress type record = true) :
    ((t.write base type record.rdata).slots base).address = (familyOf type, record.rdata) := by
  obtain ⟨-, hl⟩ : record.type = type ∧ record.rdata.length = addressLength type := by
    simpa [isAddress] using h
  have hf : (if familyOf type = afInet then 4 else 16) = addressLength type := by
    unfold familyOf addressLength
    split <;> rfl
  simp [Table.write, Slot.address, memcpy, hf, hl]

theorem writeAll_slots {j : Nat} (hj : j < records.length)
    (h : ∀ record ∈ records, isAddress type record = true) :
    ((writeAll type base records t).slots (base + j)).address =
      (familyOf type, records[j].rdata) := by
  induction records generalizing base t j with
  | nil => simp at hj
  | cons record records ih =>
    cases j with
    | zero =>
      rw [writeAll, writeAll_slots_of_lt _ _ _ _ (by omega)]
      exact write_address type base t (h record (by simp))
    | succ j =>
      have hj' : j < records.length := by simpa using hj
      have hi : base + (j + 1) = base + 1 + j := by omega
      rw [writeAll, hi, List.getElem_cons_succ]
      exact ih (base + 1) _ hj' (fun r hr => h r (by simp [hr]))

end

section

variable (records : List Record)

instance : Std.Associative lowerTtl where
  assoc a b c := by
    unfold lowerTtl
    split_ifs <;> bv_omega

theorem lowerTtl_ttlMax (minimum : BitVec 32) : lowerTtl minimum ttlMax = minimum := by
  unfold lowerTtl ttlMax
  split
  · bv_omega
  · rfl

theorem minimumTtl_append (others : List Record) :
    minimumTtl ttlMax (records ++ others) =
      lowerTtl (minimumTtl ttlMax records) (minimumTtl ttlMax others) := by
  have ha : lowerTtl (minimumTtl ttlMax records) (minimumTtl ttlMax others) =
      minimumTtl (lowerTtl (minimumTtl ttlMax records) ttlMax) others := List.foldl_assoc.symm
  rw [ha, lowerTtl_ttlMax]
  simp only [minimumTtl, List.map_append, List.foldl_append]

theorem minimumTtl_le (ttl : BitVec 32) :
    minimumTtl ttl records ≤ ttl ∧ ∀ r ∈ records, minimumTtl ttl records ≤ r.ttl := by
  induction records generalizing ttl with
  | nil => simp [minimumTtl]
  | cons record records ih =>
    have hl : lowerTtl ttl record.ttl ≤ ttl ∧ lowerTtl ttl record.ttl ≤ record.ttl := by
      unfold lowerTtl
      split <;> constructor <;> bv_omega
    obtain ⟨hm, hr⟩ := ih (lowerTtl ttl record.ttl)
    have he : minimumTtl ttl (record :: records) = minimumTtl (lowerTtl ttl record.ttl) records := rfl
    rw [he]
    refine ⟨BitVec.le_trans hm hl.1, fun r hr' => ?_⟩
    obtain rfl | hr' := List.mem_cons.mp hr'
    · exact BitVec.le_trans hm hl.2
    · exact hr r hr'

theorem minimumTtl_mem (ttl : BitVec 32) :
    minimumTtl ttl records = ttl ∨ ∃ r ∈ records, minimumTtl ttl records = r.ttl := by
  induction records generalizing ttl with
  | nil => exact .inl rfl
  | cons record records ih =>
    have he : minimumTtl ttl (record :: records) = minimumTtl (lowerTtl ttl record.ttl) records := rfl
    rw [he]
    obtain h | ⟨r, hr, h⟩ := ih (lowerTtl ttl record.ttl)
    · rw [h, lowerTtl]
      split
      · exact .inr ⟨record, by simp, rfl⟩
      · exact .inl rfl
    · exact .inr ⟨r, by simp [hr], h⟩

theorem isLeast_minimumTtl (h : records ≠ []) :
    IsLeast {n | ∃ a ∈ records, a.ttl.toNat = n} (minimumTtl ttlMax records).toNat := by
  obtain ⟨-, hle⟩ := minimumTtl_le records ttlMax
  constructor
  · obtain hm | ⟨r, hr, hm⟩ := minimumTtl_mem records ttlMax
    · obtain ⟨r, hr⟩ := List.exists_mem_of_ne_nil records h
      refine ⟨r, hr, ?_⟩
      have := hle r hr
      rw [hm] at this ⊢
      unfold ttlMax at this ⊢
      bv_omega
    · exact ⟨r, hr, by rw [hm]⟩
  · rintro n ⟨r, hr, rfl⟩
    exact hle r hr

end

end FractalD.Nss.Query
