import FractalD.Machine.CString
import FractalD.Machine.Descriptors
import FractalD.Machine.Effect
import FractalD.Machine.OrderedMap
import FractalD.Platform.Errno
import Mathlib.Data.Char
import Mathlib.Data.List.GetD
import Mathlib.Data.List.Lex

namespace FractalD.Platform.Activation

open FractalD.Machine.CString FractalD.Machine.Descriptors FractalD.Machine.Effect
open FractalD.Machine.OrderedMap

variable {φ : Type}

/-- An array of descriptors, passed as a pointer and a length. -/
structure IntArray where
  entries : Option (Nat → Int)
  count : Nat

structure Process (φ : Type) where
  table : Table φ
  environment : BTreeMap Str Str

/-- The answers of the C library. -/
structure Libc where
  calloc : Nat → Bool
  getpid : Nat
  setenv : Str → Str → Except Errno Unit

/-- A function that answers 0, or -1 with an error number. -/
abbrev Op (φ α : Type) := EStateM Errno (Process φ) α

def intMax : Nat := 2 ^ 31 - 1

def errnoOf : Fault → Errno
  | .badDescriptor => eBadF
  | .tooMany => eMFile
  | .invalid => eInval

def dupCloseOnExec (fd : Int) (least : Nat) : Op φ Nat := fun p =>
  match p.table.dupCloseOnExec fd least with
  | .ok (n, t) => .ok n { p with table := t }
  | .error e => .error (errnoOf e) p

def onTable (f : Table φ → Except Fault (Table φ)) : Op φ Unit := fun p =>
  match f p.table with
  | .ok t => .ok () { p with table := t }
  | .error e => .error (errnoOf e) p

def closeAll (copies : List Nat) : Op φ Unit :=
  modify fun p => { p with table := p.table.closeAll copies }

/-- Where an operation fails, the copies are closed. -/
def orClose {α : Type} (copies : List Nat) (x : Op φ α) : Op φ α :=
  tryCatch x fun e => do
    closeAll copies
    throw e

/-- Copies of the first descriptors, out of the way of the targets. -/
def copySources (entry : Nat → Int) : Nat → Op φ (List Nat)
  | 0 => pure []
  | n + 1 => do
    let copies ← copySources entry n
    let copy ← orClose copies (dupCloseOnExec (entry n) 10)
    pure (copies ++ [copy])

def placeCopy (copies : List Nat) (index : Nat) : Op φ Unit := do
  let target := 3 + index
  onTable (·.dup2 (copies.getD index 0) target)
  onTable (·.keepOnExec target)

def placeCopies (copies : List Nat) : Nat → Op φ Unit
  | 0 => pure ()
  | n + 1 => do
    placeCopies copies n
    orClose copies (placeCopy copies n)

def setenv (libc : Libc) (name value : Str) : Op φ Unit := fun p =>
  match libc.setenv name value with
  | .ok () => .ok () { p with environment := p.environment.insert name value }
  | .error e => .error e p

def prepareActivationFds (libc : Libc) (sources : IntArray) : Op φ Unit := do
  let count := sources.count
  if sources.entries.isNone ∧ count ≠ 0 then throw eInval
  if count > intMax then throw e2Big
  if count ≠ 0 ∧ libc.calloc count = false then throw eNoMem
  let copies ← copySources (sources.entries.getD fun _ => 0) count
  placeCopies copies count
  closeAll copies
  setenv libc "LISTEN_FDS".toList (printUnsigned count)
  setenv libc "LISTEN_PID".toList (printUnsigned libc.getpid)

section

variable {α : Type} {p p' : Process φ}

theorem orClose_ok {copies : List Nat} {x : Op φ α} {a : α} :
    orClose copies x p = .ok a p' ↔ x p = .ok a p' := by
  change EStateM.tryCatch x _ p = _ ↔ _
  rw [EStateM.tryCatch]
  cases x p with
  | ok b q => rfl
  | error e q => exact iff_of_false (fun h => nomatch h) fun h => nomatch h

theorem dupCloseOnExec_ok {fd : Int} {least n : Nat}
    (h : dupCloseOnExec fd least p = .ok n p') : ∃ d, p.table.lookup fd = some d ∧
      p.table.free least = some n ∧ p'.table = p.table.put n (some ⟨d.file, true⟩) := by
  rw [dupCloseOnExec] at h
  cases hr : p.table.dupCloseOnExec fd least with
  | error e =>
    rw [hr] at h
    cases h
  | ok r =>
    rw [hr] at h
    cases h
    exact Machine.Descriptors.dupCloseOnExec_ok hr

theorem onTable_ok {f : Table φ → Except Fault (Table φ)} (h : onTable f p = .ok () p') :
    f p.table = .ok p'.table := by
  rw [onTable] at h
  cases hr : f p.table with
  | error e =>
    rw [hr] at h
    cases h
  | ok t =>
    rw [hr] at h
    cases h
    rfl

/-- The copies are numbers that were free, in turn the lowest of them from ten on. -/
structure Copied (entry : Nat → Int) (t : Table φ) (copies : List Nat) (t' : Table φ) : Prop where
  sorted : copies.Pairwise (· < ·)
  fresh : ∀ c ∈ copies, 10 ≤ c ∧ t.slot c = none
  dense : ∀ c ∈ copies, ∀ m, 10 ≤ m → m < c → t.slot m ≠ none ∨ m ∈ copies
  others : ∀ m, m ∉ copies → t'.slot m = t.slot m
  taken : ∀ c ∈ copies, t'.slot c ≠ none
  copied : ∀ i (hi : i < copies.length) d, t.lookup (entry i) = some d →
    t'.slot copies[i] = some ⟨d.file, true⟩

theorem lookup_copied {entry : Nat → Int} {t t' : Table φ} {copies : List Nat}
    (h : Copied entry t copies t') {fd : Int} {d : Descriptor φ} (hd : t.lookup fd = some d) :
    t'.lookup fd = some d := by
  rw [Table.lookup] at hd ⊢
  split at hd
  next hfd =>
    rw [if_pos hfd, h.others fd.toNat, hd]
    intro hmem
    have hfresh := (h.fresh _ hmem).2
    rw [hd] at hfresh
    cases hfresh
  next => cases hd

theorem copied_append {entry : Nat → Int} {t t' : Table φ} {copies : List Nat} {c : Nat}
    {d : Descriptor φ} (h : Copied entry t copies t') (hfree : t'.free 10 = some c)
    (hd : t'.lookup (entry copies.length) = some d) :
    Copied entry t (copies ++ [c]) (t'.put c (some ⟨d.file, true⟩)) := by
  obtain ⟨hhigh, hnone, hbelow⟩ := free_some hfree
  have hnew : c ∉ copies := fun hmem => h.taken c hmem hnone
  have hfresh : t.slot c = none := by rw [← h.others c hnew, hnone]
  refine ⟨?_, ?_, ?_, fun m hm => ?_, ?_, fun i hi d' hd' => ?_⟩
  · refine List.pairwise_append.mpr ⟨h.sorted, by simp, fun b hb c' hc' => ?_⟩
    obtain rfl := List.mem_singleton.mp hc'
    by_contra hlt
    have hne : c' ≠ b := fun he => hnew (he ▸ hb)
    obtain hopen | hmem := h.dense b hb c' hhigh (by omega)
    · exact hopen hfresh
    · exact hnew hmem
  · exact List.forall_mem_append.mpr ⟨h.fresh, by simpa using ⟨hhigh, hfresh⟩⟩
  · refine List.forall_mem_append.mpr ⟨fun b hb m hm hmb => ?_, ?_⟩
    · exact (h.dense b hb m hm hmb).imp_right (List.mem_append_left _)
    · refine List.forall_mem_singleton.mpr fun m hm hmc => ?_
      by_cases hmem : m ∈ copies
      · exact .inr (List.mem_append_left _ hmem)
      · exact .inl (h.others m hmem ▸ hbelow m hm hmc)
  · obtain ⟨hm, hmc⟩ : m ∉ copies ∧ m ≠ c := by simpa using hm
    rw [slot_put, if_neg hmc, h.others m hm]
  · refine List.forall_mem_append.mpr ⟨fun b hb => ?_, by simp⟩
    rw [slot_put]
    split
    · exact Option.some_ne_none _
    · exact h.taken b hb
  · rw [slot_put]
    by_cases hlast : i < copies.length
    · have hne : copies[i] ≠ c := fun he => hnew (he ▸ List.getElem_mem hlast)
      rw [List.getElem_append_left hlast, if_neg hne]
      exact h.copied i hlast d' hd'
    · obtain rfl : i = copies.length := by simp at hi; omega
      rw [List.getElem_concat_length rfl, if_pos rfl]
      cases (lookup_copied h hd').symm.trans hd
      rfl

theorem copySources_ok {entry : Nat → Int} {n : Nat} {copies : List Nat}
    (h : copySources entry n p = .ok copies p') :
    copies.length = n ∧ Copied entry p.table copies p'.table := by
  induction n generalizing copies p' with
  | zero =>
    obtain ⟨rfl, rfl⟩ := pure_ok.mp h
    exact ⟨rfl, by simp, by simp, by simp, by simp, by simp, by simp⟩
  | succ n ih =>
    obtain ⟨before, q, hbefore, h⟩ := bind_ok.mp h
    obtain ⟨c, q', hc, h⟩ := bind_ok.mp h
    obtain ⟨rfl, rfl⟩ := pure_ok.mp h
    obtain ⟨rfl, hcopied⟩ := ih hbefore
    obtain ⟨d, hd, hfree, htable⟩ := dupCloseOnExec_ok (orClose_ok.mp hc)
    refine ⟨by simp, ?_⟩
    rw [htable]
    exact copied_append hcopied hfree hd

theorem placeCopy_ok {copies : List Nat} {n : Nat} (h : placeCopy copies n p = .ok () p')
    (hne : copies.getD n 0 ≠ 3 + n) : ∃ d, p.table.slot (copies.getD n 0) = some d ∧
      ∀ m, p'.table.slot m = if m = 3 + n then some ⟨d.file, false⟩ else p.table.slot m := by
  obtain ⟨_, q, hdup, h⟩ := bind_ok.mp h
  obtain ⟨d, hd, htable⟩ := dup2_ok (onTable_ok hdup) hne
  obtain ⟨d', hd', htable'⟩ := keepOnExec_ok (onTable_ok h)
  refine ⟨d, hd, fun m => ?_⟩
  rw [htable, slot_put, if_pos rfl] at hd'
  cases hd'
  rw [htable', slot_put, htable, slot_put]
  split <;> rfl

theorem placeCopies_ok {copies : List Nat} {n : Nat} (h : placeCopies copies n p = .ok () p')
    (habove : ∀ i < n, 3 + n ≤ copies.getD i 0) :
    (∀ i < n, ∃ d, p.table.slot (copies.getD i 0) = some d ∧
      p'.table.slot (3 + i) = some ⟨d.file, false⟩) ∧
    ∀ m, 3 + n ≤ m → p'.table.slot m = p.table.slot m := by
  induction n generalizing p' with
  | zero =>
    obtain ⟨-, rfl⟩ := pure_ok.mp h
    exact ⟨fun i hi => absurd hi (Nat.not_lt_zero i), fun m _ => rfl⟩
  | succ n ih =>
    obtain ⟨_, q, hbefore, h⟩ := bind_ok.mp h
    obtain ⟨hplaced, hkept⟩ := ih hbefore fun i hi => by
      have := habove i (by omega)
      omega
    have hlast := habove n (by omega)
    obtain ⟨d, hd, hslot⟩ := placeCopy_ok (orClose_ok.mp h) (by omega)
    constructor
    · intro i hi
      by_cases hin : i = n
      · subst hin
        refine ⟨d, ?_, by rw [hslot, if_pos rfl]⟩
        rwa [hkept _ (by omega)] at hd
      · obtain ⟨d', hd', hslot'⟩ := hplaced i (by omega)
        exact ⟨d', hd', by rw [hslot, if_neg (by omega), hslot']⟩
    · intro m hm
      rw [hslot, if_neg (by omega), hkept m (by omega)]

theorem setenv_ok {libc : Libc} {name value : Str} (h : setenv libc name value p = .ok () p') :
    p'.table = p.table := by
  rw [setenv] at h
  cases hr : libc.setenv name value with
  | error e =>
    rw [hr] at h
    cases h
  | ok u =>
    rw [hr] at h
    cases h
    rfl

/-- What is done when nothing fails: copies are made, placed and closed. -/
theorem prepareActivationFds_ok {libc : Libc} {sources : IntArray}
    (h : prepareActivationFds libc sources p = .ok () p') :
    ∃ copies q q', copySources (sources.entries.getD fun _ => 0) sources.count p = .ok copies q ∧
      placeCopies copies sources.count q = .ok () q' ∧ p'.table = q'.table.closeAll copies := by
  rw [prepareActivationFds] at h
  dsimp only at h
  split at h
  · cases h
  split at h
  · cases h
  split at h
  · cases h
  obtain ⟨copies, q, hcopies, h⟩ := bind_ok.mp h
  obtain ⟨_, q', hplace, h⟩ := bind_ok.mp h
  obtain ⟨_, r, hclose, h⟩ := bind_ok.mp h
  obtain ⟨_, r', hfds, hpid⟩ := bind_ok.mp h
  refine ⟨copies, q, q', hcopies, hplace, ?_⟩
  rw [setenv_ok hpid, setenv_ok hfds]
  cases hclose
  rfl

/-- The descriptors that a service is to find from 3 on are those that were given. -/
def HandedOn (sources : IntArray) (before after : Table φ) : Prop :=
  ∀ i < sources.count, ∃ d, before.lookup (sources.entries.getD (fun _ => 0) i) = some d ∧
    after.slot (3 + i) = some ⟨d.file, false⟩

/-- The descriptors are handed on exactly if they were open before, and so were all
numbers from ten on that are also targets. -/
theorem handedOn_iff {libc : Libc} {sources : IntArray}
    (h : prepareActivationFds libc sources p = .ok () p') :
    HandedOn sources p.table p'.table ↔
      (∀ i < sources.count, p.table.lookup (sources.entries.getD (fun _ => 0) i) ≠ none) ∧
      ∀ n, 10 ≤ n → n < 3 + sources.count → p.table.slot n ≠ none := by
  obtain ⟨copies, q, q', hcopies, hplace, htable⟩ := prepareActivationFds_ok h
  obtain ⟨hlength, hcopied⟩ := copySources_ok hcopies
  constructor
  · intro hhanded
    constructor
    · intro i hi hnone
      obtain ⟨d, hd, -⟩ := hhanded i hi
      rw [hnone] at hd
      cases hd
    · intro n hten hn hnone
      -- The first copy has at most this number, and a target with it is closed in the end.
      obtain ⟨c, rest, rfl⟩ : ∃ c rest, copies = c :: rest := by
        cases copies with
        | nil => simp at hlength; omega
        | cons c rest => exact ⟨c, rest, rfl⟩
      have hten' := (hcopied.fresh c List.mem_cons_self).1
      have hle : c ≤ n := by
        by_contra hlt
        obtain hopen | hmem := hcopied.dense c List.mem_cons_self n hten (by omega)
        · exact hopen hnone
        · obtain rfl | hmem := List.mem_cons.mp hmem
          · exact hlt (Nat.le_refl _)
          · have hafter := (List.pairwise_cons.mp hcopied.sorted).1 n hmem
            omega
      obtain ⟨d, -, hslot⟩ := hhanded (c - 3) (by omega)
      rw [Nat.add_sub_cancel' (by omega), htable, slot_closeAll, if_pos List.mem_cons_self] at hslot
      cases hslot
  · rintro ⟨hopen, htargets⟩ i hi
    have habove : ∀ c ∈ copies, 3 + sources.count ≤ c := by
      intro c hc
      obtain ⟨hten, hfresh⟩ := hcopied.fresh c hc
      by_contra hlt
      exact htargets c hten (by omega) hfresh
    have hget : ∀ i (hi : i < sources.count), copies.getD i 0 = copies[i] := fun i hi =>
      List.getD_eq_getElem _ _ (hlength ▸ hi)
    obtain ⟨hplaced, -⟩ := placeCopies_ok hplace fun i hi => by
      rw [hget i hi]
      exact habove _ (List.getElem_mem _)
    obtain ⟨d, hd⟩ := Option.ne_none_iff_exists'.mp (hopen i hi)
    obtain ⟨d', hd', hslot⟩ := hplaced i hi
    rw [hget i hi, hcopied.copied i (hlength ▸ hi) d hd] at hd'
    cases hd'
    refine ⟨d, hd, ?_⟩
    have hnot : 3 + i ∉ copies := fun hmem => by
      have := habove _ hmem
      omega
    rw [htable, slot_closeAll, if_neg hnot, hslot]

end

/-- The standard descriptors and as many sockets as are given. -/
def sockets (count : Nat) : Process Nat where
  table := ⟨fun n => if n < 3 + count then some ⟨n, false⟩ else none, 1024⟩
  environment := empty

/-- A C library that refuses nothing. -/
def plainLibc : Libc := ⟨fun _ => true, 1, fun _ _ => .ok ()⟩

def given (sources : List Int) : IntArray := ⟨some (sources.getD · 0), sources.length⟩

theorem handedOn_iff_two :
    HandedOn (given [4, 3]) (sockets 2).table
        (final (prepareActivationFds plainLibc (given [4, 3])) (sockets 2)).table ↔
      (∀ i < 2, (sockets 2).table.lookup ([4, 3].getD i 0) ≠ none) ∧
      ∀ n, 10 ≤ n → n < 3 + 2 → (sockets 2).table.slot n ≠ none :=
  handedOn_iff (ok_final (by rfl))

/-- Of eight sockets the last one is closed again. -/
theorem eighth_not_handedOn :
    succeeds (prepareActivationFds plainLibc (given [3, 4, 5, 6, 7, 8, 9, 3])) (sockets 7) ∧
    (final (prepareActivationFds plainLibc (given [3, 4, 5, 6, 7, 8, 9, 3]))
      (sockets 7)).table.slot 10 = none ∧
    ¬ HandedOn (given [3, 4, 5, 6, 7, 8, 9, 3]) (sockets 7).table
      (final (prepareActivationFds plainLibc (given [3, 4, 5, 6, 7, 8, 9, 3])) (sockets 7)).table := by
  have hnone : (final (prepareActivationFds plainLibc (given [3, 4, 5, 6, 7, 8, 9, 3]))
      (sockets 7)).table.slot 10 = none := by decide +kernel
  refine ⟨by decide +kernel, hnone, fun h => ?_⟩
  obtain ⟨d, -, hslot⟩ := h 7 (by decide)
  rw [hnone] at hslot
  cases hslot

end FractalD.Platform.Activation
