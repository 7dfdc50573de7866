import Mathlib.Data.List.Basic
import Mathlib.Algebra.Group.Nat.Defs
import Mathlib.Algebra.GroupWithZero.Nat

namespace FractalD.Machine.Dns

abbrev Packet := List UInt8

/-- The number at a place of a packet, the first byte highest. -/
def u16 (p : Packet) (i : Nat) : Nat := (p.getD i 0).toNat * 2 ^ 8 + (p.getD (i + 1) 0).toNat

def u32 (p : Packet) (i : Nat) : Nat := u16 p i * 2 ^ 16 + u16 p (i + 2)

section

variable {m : Type → Type} [Monad m] (byte : Nat → m UInt8) (index : Nat)

/-- `u16::from_be_bytes` of two bytes. -/
def u16From : m Nat := do
  let high ← byte index
  let low ← byte (index + 1)
  pure (high.toNat * 2 ^ 8 + low.toNat)

def u32From : m Nat := do
  let high ← u16From byte index
  let low ← u16From byte (index + 2)
  pure (high * 2 ^ 16 + low)

end

/-- The bytes between two places, if both are in the packet. -/
def slice (packet : Packet) (start stop : Nat) : Option Packet :=
  if start ≤ stop ∧ stop ≤ packet.length then some ((packet.drop start).take (stop - start)) else none

variable {p : Packet}

/-- A name from one place of a packet to another. A pointer to the rest of a name ends it. -/
inductive NameAt (p : Packet) : Nat → Nat → Prop
  | root {o : Nat} (h : p[o]? = some 0) : NameAt p o (o + 1)
  | pointer {o : Nat} {b c : UInt8} (hb : p[o]? = some b) (hp : b &&& 0xc0 = 0xc0)
      (hc : p[o + 1]? = some c) : NameAt p o (o + 2)
  | label {o e : Nat} {b : UInt8} (hb : p[o]? = some b) (hl : b &&& 0xc0 = 0) (hne : b ≠ 0)
      (hend : o + 1 + b.toNat ≤ p.length) (rest : NameAt p (o + 1 + b.toNat) e) : NameAt p o e

/-- A number of questions from one place to another. -/
inductive QuestionsAt (p : Packet) : Nat → Nat → Nat → Prop
  | nil (o : Nat) : QuestionsAt p 0 o o
  | cons {n o e f : Nat} (name : NameAt p o e) (inside : e + 4 ≤ p.length)
      (rest : QuestionsAt p n (e + 4) f) : QuestionsAt p (n + 1) o f

/-- A record from one place to another, whose name ends between them. -/
structure RecordAt (p : Packet) (o e f : Nat) : Prop where
  name : NameAt p o e
  finish : f = e + 10 + u16 p (e + 8)
  inside : f ≤ p.length

/-- Records from one place to another, with the ends of their names. -/
inductive RecordsAt (p : Packet) : Nat → List Nat → Nat → Prop
  | nil (o : Nat) : RecordsAt p o [] o
  | cons {o e f g : Nat} {es : List Nat} (record : RecordAt p o e f) (rest : RecordsAt p f es g) :
      RecordsAt p o (e :: es) g

/-- The times to live of the records of a message, of all its sections. -/
def Lifetimes (p : Packet) (ttls : List Nat) : Prop :=
  ∃ o es f, QuestionsAt p (u16 p 4) 12 o ∧ RecordsAt p o es f ∧
    es.length = u16 p 6 + u16 p 8 + u16 p 10 ∧ ttls = es.map fun e => u32 p (e + 4)

theorem slice_some {packet data : Packet} {start stop : Nat} (h : slice packet start stop = some data) :
    start ≤ stop ∧ stop ≤ packet.length ∧ data.length = stop - start := by
  rw [slice, Option.ite_none_right_eq_some] at h
  obtain ⟨⟨hle, hinside⟩, hdata⟩ := h
  cases hdata
  refine ⟨hle, hinside, ?_⟩
  rw [List.length_take, List.length_drop]
  omega

theorem NameAt.inside {o e : Nat} (h : NameAt p o e) : o < e ∧ e ≤ p.length := by
  induction h with
  | root h =>
    have hlt := (List.getElem?_eq_some_iff.mp h).1
    omega
  | pointer hb hp hc =>
    have hlt := (List.getElem?_eq_some_iff.mp hc).1
    omega
  | label hb hl hne hend rest ih => omega

theorem NameAt.unique {o e e' : Nat} (h : NameAt p o e) (h' : NameAt p o e') : e = e' := by
  induction h with
  | root h =>
    cases h' with
    | root => rfl
    | pointer hb hp =>
      obtain rfl := Option.some.inj (h.symm.trans hb)
      exact absurd hp (by decide)
    | label hb hl hne =>
      obtain rfl := Option.some.inj (h.symm.trans hb)
      exact absurd rfl hne
  | pointer hb hp hc =>
    cases h' with
    | root h =>
      obtain rfl := Option.some.inj (h.symm.trans hb)
      exact absurd hp (by decide)
    | pointer => rfl
    | label hb' hl =>
      obtain rfl := Option.some.inj (hb.symm.trans hb')
      exact absurd (hp.symm.trans hl) (by decide)
  | label hb hl hne hend rest ih =>
    cases h' with
    | root h =>
      obtain rfl := Option.some.inj (h.symm.trans hb)
      exact absurd rfl hne
    | pointer hb' hp =>
      obtain rfl := Option.some.inj (hb.symm.trans hb')
      exact absurd (hp.symm.trans hl) (by decide)
    | label hb' hl' hne' hend' rest' =>
      obtain rfl := Option.some.inj (hb.symm.trans hb')
      exact ih rest'

theorem QuestionsAt.unique {n o f f' : Nat} (h : QuestionsAt p n o f) (h' : QuestionsAt p n o f') :
    f = f' := by
  induction h with
  | nil =>
    cases h'
    rfl
  | cons name inside rest ih =>
    cases h' with
    | cons name' _ rest' =>
      obtain rfl := name.unique name'
      exact ih rest'

theorem QuestionsAt.inside {n o f : Nat} (h : QuestionsAt p n o f) (ho : o ≤ p.length) :
    f ≤ p.length := by
  induction h with
  | nil => exact ho
  | cons name inside rest ih => exact ih inside

theorem RecordAt.unique {o e e' f f' : Nat} (h : RecordAt p o e f) (h' : RecordAt p o e' f') :
    e = e' ∧ f = f' := by
  obtain rfl := h.name.unique h'.name
  exact ⟨rfl, h.finish.trans h'.finish.symm⟩

theorem RecordsAt.unique {o f f' : Nat} {es es' : List Nat} (h : RecordsAt p o es f)
    (h' : RecordsAt p o es' f') (hlength : es.length = es'.length) : es = es' ∧ f = f' := by
  induction h generalizing es' with
  | nil =>
    obtain rfl := List.length_eq_zero_iff.mp hlength.symm
    cases h'
    exact ⟨rfl, rfl⟩
  | cons record rest ih =>
    cases h' with
    | nil => simp at hlength
    | cons record' rest' =>
      obtain ⟨rfl, rfl⟩ := record.unique record'
      obtain ⟨rfl, rfl⟩ := ih rest' (by simpa using hlength)
      exact ⟨rfl, rfl⟩

theorem RecordsAt.append {o f g : Nat} {es ds : List Nat} (h : RecordsAt p o es f)
    (h' : RecordsAt p f ds g) : RecordsAt p o (es ++ ds) g := by
  induction h with
  | nil => exact h'
  | cons record rest ih => exact .cons record (ih h')

end FractalD.Machine.Dns
