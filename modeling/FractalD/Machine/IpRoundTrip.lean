import FractalD.Machine.IpText
import Mathlib.Algebra.Order.Group.Nat

namespace FractalD.Machine.IpText

open FractalD.Machine.CString FractalD.Machine.Text FractalD.Machine.Wire

section

variable {radix n bits : Nat} {s rest : Str}

/-- A text does not go on with a digit. -/
def Ends (radix : Nat) (s : Str) : Prop := ∀ c ∈ s.head?, toDigit radix c = none

instance : Decidable (Ends radix s) := inferInstanceAs (Decidable (∀ c ∈ s.head?, _))

theorem toDigit_digitChar :
    ∀ radix ≤ 16, ∀ d < radix, toDigit radix (Nat.digitChar d) = some d := by decide +kernel

theorem takeDigits_of_ends (h : Ends radix rest) : takeDigits radix rest = ([], rest) := by
  cases rest with
  | nil => rfl
  | cons c rest => rw [takeDigits, h c rfl]

theorem takeDigits_append (hs : ∀ c ∈ s, (toDigit radix c).isSome) (h : Ends radix rest) :
    takeDigits radix (s ++ rest) = (s.filterMap (toDigit radix), rest) := by
  induction s with
  | nil => exact takeDigits_of_ends h
  | cons c s ih =>
    obtain ⟨d, hd⟩ := Option.isSome_iff_exists.mp (hs c List.mem_cons_self)
    have hrest := ih fun c hc => hs c (List.mem_cons_of_mem _ hc)
    rw [List.cons_append, takeDigits, hd]
    dsimp only
    rw [hrest, List.filterMap_cons_some hd]

theorem digits_toDigits (hb : 1 < radix) (hr : radix ≤ 16) (n : Nat) :
    (∀ c ∈ Nat.toDigits radix n, (toDigit radix c).isSome) ∧
      digitsValue radix ((Nat.toDigits radix n).filterMap (toDigit radix)) = n := by
  induction n using Nat.strong_induction_on with
  | _ n ih =>
    rw [Nat.toDigits_eq_if hb]
    split
    next hlt =>
      have hd := toDigit_digitChar radix hr n hlt
      constructor
      · simp [hd]
      · rw [List.filterMap_cons_some hd]
        simp [digitsValue]
    next hge =>
      obtain ⟨hall, hvalue⟩ := ih (n / radix) (Nat.div_lt_self (by omega) hb)
      have hd := toDigit_digitChar radix hr (n % radix) (Nat.mod_lt n (by omega))
      constructor
      · intro c hc
        obtain hc | hc := List.mem_append.mp hc
        · exact hall c hc
        · rw [List.mem_singleton.mp hc, hd]
          rfl
      · rw [List.filterMap_append, List.filterMap_cons_some hd, digitsValue, List.foldl_append]
        change digitsValue radix _ * radix + n % radix = n
        rw [hvalue, Nat.mul_comm]
        exact Nat.div_add_mod n radix

theorem head_toDigits (hb : 1 < radix) (hn : 0 < n) : (Nat.toDigits radix n).head? ≠ some '0' := by
  induction n using Nat.strong_induction_on with
  | _ n ih =>
    rw [Nat.toDigits_eq_if hb]
    split
    next => simpa using hn.ne'
    next hge =>
      rw [List.head?_append_of_ne_nil _ Nat.toDigits_ne_nil]
      exact ih (n / radix) (Nat.div_lt_self hn hb) (Nat.div_pos (Nat.not_lt.mp hge) (by omega))

theorem readNumber_toDigits {maxDigits : Option Nat} {allowZeroPrefix : Bool} (hb : 1 < radix)
    (hr : radix ≤ 16) (hn : n < 2 ^ bits) (hmax : ∀ m ∈ maxDigits, 0 < m ∧ n < radix ^ m)
    (h : Ends radix rest) :
    readNumber radix maxDigits allowZeroPrefix bits (Nat.toDigits radix n ++ rest) = some (n, rest) := by
  obtain ⟨hall, hvalue⟩ := digits_toDigits hb hr n
  have hlength : ((Nat.toDigits radix n).filterMap (toDigit radix)).length =
      (Nat.toDigits radix n).length := List.filterMap_length_eq_length.mpr hall
  have hpos : 0 < (Nat.toDigits radix n).length := Nat.length_toDigits_pos
  rw [readNumber, takeDigits_append hall h]
  dsimp only
  rw [hvalue, hlength, if_neg, if_neg, if_pos hn]
  · rintro ⟨-, hzero, hmany⟩
    rw [List.head?_append_of_ne_nil _ Nat.toDigits_ne_nil] at hzero
    have hn0 : n = 0 := by
      by_contra hne
      exact head_toDigits hb (Nat.pos_of_ne_zero hne) hzero
    rw [hn0, Nat.toDigits_zero] at hmany
    exact absurd hmany (by decide)
  · rintro (hlong | hnil)
    · cases maxDigits with
      | none => exact Bool.false_ne_true hlong
      | some m =>
        obtain ⟨hm, hlt⟩ := hmax m rfl
        have hle := (Nat.length_toDigits_le_iff hb hm).mpr hlt
        simp only [Option.any_some, decide_eq_true_eq] at hlong
        omega
    · rw [hnil] at hlength
      exact absurd hlength.symm hpos.ne'

theorem readNumber_of_ends {maxDigits : Option Nat} {allowZeroPrefix : Bool} (h : Ends radix s) :
    readNumber radix maxDigits allowZeroPrefix bits s = none := by
  rw [readNumber, takeDigits_of_ends h]
  exact if_pos (.inr rfl)

theorem readNumber_some {maxDigits : Option Nat} {allowZeroPrefix : Bool} {value : Nat}
    (h : readNumber radix maxDigits allowZeroPrefix bits s = some (value, rest)) :
    rest = (takeDigits radix s).2 := by
  rw [readNumber] at h
  dsimp only at h
  split_ifs at h
  exact (congrArg Prod.snd (Option.some.inj h)).symm

end

section

variable {rest s : Str}

theorem readOctet_printUnsigned (b : UInt8) (h : Ends 10 rest) :
    readOctet 0 (printUnsigned b.toNat ++ rest) = some (b, rest) := by
  have hlt := b.toNat_lt
  have hn : readNumber 10 (some 3) false 8 (Nat.toDigits 10 b.toNat ++ rest) = some (b.toNat, rest) :=
    readNumber_toDigits (by decide) (by decide) hlt (by rintro m ⟨⟩; omega) h
  rw [readOctet, readSeparator, if_neg (by decide), printUnsigned, hn, Option.map_some]
  exact congrArg (fun b => some (b, rest)) UInt8.ofNat_toNat

theorem readOctet_separated {index : Nat} (hi : 0 < index) (s : Str) :
    readOctet index ('.' :: s) = readOctet 0 s := by
  rw [readOctet, readSeparator, if_pos hi, readGivenChar, if_pos rfl]
  rfl

theorem printIpv4_octets (ip : Ipv4Addr) :
    printIpv4 ip.octets = printUnsigned ip.a.toNat ++ '.' :: (printUnsigned ip.b.toNat ++ '.' ::
      (printUnsigned ip.c.toNat ++ '.' :: printUnsigned ip.d.toNat)) := by
  simp [printIpv4, Ipv4Addr.octets, join, List.intercalate_cons_cons]

theorem readIpv4_printIpv4 (ip : Ipv4Addr) (h : Ends 10 rest) :
    readIpv4 (printIpv4 ip.octets ++ rest) = some (ip, rest) := by
  have hdot (s : Str) : Ends 10 ('.' :: s) := by simp [Ends, toDigit]
  rw [printIpv4_octets, List.append_assoc, List.cons_append, List.append_assoc, List.cons_append,
    List.append_assoc, List.cons_append, readIpv4, readOctet_printUnsigned ip.a (hdot _), Option.bind_eq_bind, Option.bind_some]
  dsimp only
  rw [readOctet_separated (by decide), readOctet_printUnsigned ip.b (hdot _), Option.bind_some]
  dsimp only
  rw [readOctet_separated (by decide), readOctet_printUnsigned ip.c (hdot _), Option.bind_some]
  dsimp only
  rw [readOctet_separated (by decide), readOctet_printUnsigned ip.d h, Option.bind_some]

theorem readIpv4_none (h : (takeDigits 10 s).2.head? ≠ some '.') : readIpv4 s = none := by
  rw [readIpv4]
  cases ha : readOctet 0 s with
  | none => rfl
  | some read =>
    rw [readOctet, readSeparator, if_neg (by decide), Option.map_eq_some_iff] at ha
    obtain ⟨number, hnumber, rfl⟩ := ha
    rw [← readNumber_some hnumber] at h
    rw [Option.bind_eq_bind, Option.bind_some]
    dsimp only
    have hb : readOctet 1 number.2 = none := by
      rw [readOctet, readSeparator, if_pos (by decide)]
      cases hrest : number.2 with
      | nil => rfl
      | cons c rest =>
        rw [hrest] at h
        rw [readGivenChar, if_neg (by simpa using h)]
        rfl
    rw [hb]
    rfl

end

section

variable {groups : List UInt16} {g : UInt16} {left : Nat} {rest s t : Str}

/-- What follows the text of some groups. -/
inductive Follows : Str → Prop
  | mark {c : Char} (h : c = ']' ∨ c = '%') (s : Str) : Follows (c :: s)
  | colons (s : Str) : Follows (':' :: ':' :: s)

/-- No group goes on with the text. -/
def Stops (s : Str) : Prop := Ends 16 s ∧ Ends 10 s ∧ s.head? ≠ some '.'

theorem stops_colon (s : Str) : Stops (':' :: s) := by
  refine ⟨?_, ?_, by simp⟩ <;> simp [Ends, toDigit]

theorem Follows.stops (h : Follows rest) : Stops rest := by
  cases h with
  | mark hc s =>
    obtain rfl | rfl := hc
    · refine ⟨?_, ?_, by simp⟩ <;> simp [Ends, toDigit]
    · refine ⟨?_, ?_, by simp⟩ <;> simp [Ends, toDigit]
  | colons s => exact stops_colon _

theorem readGroup_printHex (h : Ends 16 rest) :
    readGroup (printHex g.toNat ++ rest) = some (g, rest) := by
  have hlt := g.toNat_lt
  have hn : readNumber 16 (some 4) true 16 (Nat.toDigits 16 g.toNat ++ rest) = some (g.toNat, rest) :=
    readNumber_toDigits (by decide) (by decide) hlt (by rintro m ⟨⟩; omega) h
  rw [readGroup, printHex, hn, Option.map_some]
  exact congrArg (fun g => some (g, rest)) UInt16.ofNat_toNat

theorem ne_dot_of_mem_printHex {n : Nat} {c : Char} (h : c ∈ printHex n) : c ≠ '.' := by
  rintro rfl
  have := (digits_toDigits (by decide) (by decide) n).1 _ h
  revert this
  decide

theorem head_takeDigits (hs : ∀ c ∈ s, c ≠ '.') (h : Ends 10 rest) (hdot : rest.head? ≠ some '.') :
    (takeDigits 10 (s ++ rest)).2.head? ≠ some '.' := by
  induction s with
  | nil => rwa [List.nil_append, takeDigits_of_ends h]
  | cons c s ih =>
    rw [List.cons_append, takeDigits]
    cases toDigit 10 c with
    | none => simpa using hs c List.mem_cons_self
    | some d => exact ih fun c hc => hs c (List.mem_cons_of_mem _ hc)

def colonBefore (groups : List UInt16) (s : Str) : Str := if groups = [] then s else ':' :: s

theorem readSeparator_colonBefore {α : Type} (inner : Reader α) :
    readSeparator ':' groups.length inner (colonBefore groups s) = inner s := by
  rw [readSeparator, colonBefore]
  by_cases hg : groups = []
  · rw [if_pos hg, if_neg (by simp [hg])]
  · rw [if_neg hg, if_pos (List.length_pos_iff.mpr hg), readGivenChar, if_pos rfl]
    rfl

theorem readGroups_group (left : Nat) (groups : List UInt16) (g : UInt16) (h : Stops t) :
    readGroups (left + 1) groups (colonBefore groups (printHex g.toNat ++ t)) =
      readGroups left (groups ++ [g]) t := by
  have hipv4 : readIpv4 (printHex g.toNat ++ t) = none :=
    readIpv4_none (head_takeDigits (fun _ => ne_dot_of_mem_printHex) h.2.1 h.2.2)
  rw [readGroups, readSeparator_colonBefore, readSeparator_colonBefore, hipv4, ite_self,
    readGroup_printHex h.1]

theorem readGroups_follows (h : Follows rest) :
    readGroups left groups rest = ((groups, false), rest) := by
  have hnone {α : Type} {inner : Reader α} (hinner : ∀ s, Stops s → inner s = none) :
      readSeparator ':' groups.length inner rest = none := by
    rw [readSeparator]
    split
    next =>
      cases h with
      | mark hc s => rw [readGivenChar, if_neg (by rintro rfl; simp at hc)]; rfl
      | colons s =>
        rw [readGivenChar, if_pos rfl]
        exact hinner _ (stops_colon s)
    next => exact hinner _ h.stops
  cases left with
  | zero => rfl
  | succ left =>
    rw [readGroups, hnone fun s hs => readIpv4_none (by rw [takeDigits_of_ends hs.2.1]; exact hs.2.2),
      hnone fun s hs => by rw [readGroup, readNumber_of_ends hs.1, Option.map_none], ite_self]

theorem readGroups_printed {segments : List UInt16} (hne : groups ≠ [])
    (hleft : segments.length ≤ left) (h : Follows rest) :
    readGroups left groups (segments.flatMap (fun g => ':' :: printHex g.toNat) ++ rest) =
      ((groups ++ segments, false), rest) := by
  induction segments generalizing left groups with
  | nil => rw [List.flatMap_nil, List.nil_append, List.append_nil, readGroups_follows h]
  | cons g segments ih =>
    obtain ⟨left, rfl⟩ : ∃ n, left = n + 1 := ⟨left - 1, by rw [List.length_cons] at hleft; omega⟩
    have hstops : Stops (segments.flatMap (fun g => ':' :: printHex g.toNat) ++ rest) := by
      cases segments with
      | nil => exact h.stops
      | cons g segments => exact stops_colon _
    have hgroup := readGroups_group left groups g hstops
    rw [colonBefore, if_neg hne] at hgroup
    rw [List.flatMap_cons, List.append_assoc, List.cons_append, hgroup,
      ih (by simp) (Nat.le_of_succ_le_succ hleft), List.append_assoc]
    rfl

theorem printSegments_cons (g : Nat) (segments : List Nat) :
    printSegments (g :: segments) = printHex g ++ segments.flatMap fun g => ':' :: printHex g := by
  induction segments generalizing g with
  | nil => simp [printSegments, join]
  | cons f segments ih =>
    rw [printSegments, List.map_cons, List.map_cons, join, List.intercalate_cons_cons,
      List.flatMap_cons, List.append_assoc]
    exact congrArg (printHex g ++ ':' :: ·) (ih f)

theorem readGroups_printSegments {segments : List UInt16} (hleft : segments.length ≤ left)
    (h : Follows rest) :
    readGroups left [] (printSegments (segments.map UInt16.toNat) ++ rest) =
      ((segments, false), rest) := by
  cases segments with
  | nil => exact readGroups_follows h
  | cons g segments =>
    obtain ⟨left, rfl⟩ : ∃ n, left = n + 1 := ⟨left - 1, by rw [List.length_cons] at hleft; omega⟩
    have hstops : Stops (segments.flatMap (fun g => ':' :: printHex g.toNat) ++ rest) := by
      cases segments with
      | nil => exact h.stops
      | cons g segments => exact stops_colon _
    have hgroup := readGroups_group left [] g hstops
    rw [List.map_cons, printSegments_cons, List.flatMap_map, List.append_assoc]
    rw [colonBefore, if_pos rfl] at hgroup
    rw [hgroup]
    exact readGroups_printed (by simp) (Nat.le_of_succ_le_succ hleft) h

end

section

variable {segments done todo : List Nat} {run : Nat × Nat}

def ZerosIn (l : List Nat) (run : Nat × Nat) : Prop :=
  run.1 + run.2 ≤ l.length ∧ ∀ i, run.1 ≤ i → i < run.1 + run.2 → l[i]? = some 0

theorem ZerosIn.append (h : ZerosIn done run) (l : List Nat) : ZerosIn (done ++ l) run := by
  obtain ⟨hle, hall⟩ := h
  refine ⟨by rw [List.length_append]; omega, fun i hlow hhigh => ?_⟩
  rw [List.getElem?_append_left (by omega)]
  exact hall i hlow hhigh

theorem zeroRun_zerosIn (segments : List Nat) : ZerosIn segments (zeroRun segments) := by
  -- the run that is read ends where the segments read so far end
  suffices hfold : ∀ (todo done : List Nat) (longest current : Nat × Nat), ZerosIn done longest →
      ZerosIn done current → (current.2 ≠ 0 → current.1 + current.2 = done.length) →
      ZerosIn (done ++ todo) ((todo.zipIdx done.length).foldl
        (fun runs entry =>
          if entry.1 = 0 then
            let current := (if runs.2.2 = 0 then entry.2 else runs.2.1, runs.2.2 + 1)
            (if current.2 > runs.1.2 then current else runs.1, current)
          else (runs.1, (0, 0))) (longest, current)).1 by
    have hempty : ZerosIn [] (0, 0) := ⟨Nat.le_refl _, fun i _ hi => absurd hi (Nat.not_lt_zero i)⟩
    exact hfold segments [] (0, 0) (0, 0) hempty hempty fun h => absurd rfl h
  intro todo
  induction todo with
  | nil =>
    intro done longest current hlongest _ _
    rwa [List.append_nil]
  | cons segment todo ih =>
    intro done longest current hlongest hcurrent hend
    have hlength : done.length + 1 = (done ++ [segment]).length := by simp
    rw [List.zipIdx_cons, List.foldl_cons, List.append_cons, hlength]
    dsimp only
    split
    next hzero =>
      obtain ⟨hle, hall⟩ := hcurrent
      have hnext : ZerosIn (done ++ [segment])
          (if current.2 = 0 then done.length else current.1, current.2 + 1) := by
        refine ⟨by rw [List.length_append, List.length_singleton]; dsimp only; split <;> omega,
          fun i hlow hhigh => ?_⟩
        dsimp only at hlow hhigh
        obtain hi | rfl | hi := Nat.lt_trichotomy i done.length
        · rw [List.getElem?_append_left hi]
          exact hall i (by split at hlow <;> omega) (by split at hlow <;> omega)
        · rw [List.getElem?_concat_length, hzero]
        · split at hhigh <;> omega
      refine ih _ _ _ ?_ hnext fun _ => ?_
      · split
        next => exact hnext
        next => exact hlongest.append _
      · rw [List.length_append, List.length_singleton]
        dsimp only
        split <;> omega
    next =>
      exact ih _ _ _ (hlongest.append _) ⟨Nat.zero_le _, fun i _ hi => absurd hi (Nat.not_lt_zero i)⟩
        fun h => absurd rfl h

end

section

variable {ip : Ipv6Addr} {rest : Str}

theorem ofGroups_segments (ip : Ipv6Addr) : Ipv6Addr.ofGroups ip.segments = ip := by
  obtain ⟨segments, height⟩ := ip
  rw [Ipv6Addr.ofGroups, Ipv6Addr.mk.injEq]
  rw [← height, List.take_left]

/-- The groups before and after a run of zeros tell the address. -/
theorem segments_of_zeros {segments : List UInt16} {start length : Nat}
    (h : ZerosIn (segments.map UInt16.toNat) (start, length)) :
    segments.take start ++ List.replicate length 0 ++ segments.drop (start + length) = segments := by
  obtain ⟨hle, hall⟩ := h
  rw [List.length_map] at hle
  have hzeros : (segments.drop start).take length = List.replicate length 0 := by
    apply List.ext_getElem?
    intro i
    rw [List.getElem?_take, List.getElem?_drop, List.getElem?_replicate]
    split
    next hi =>
      have hi := hall (start + i) (by dsimp only; omega) (by dsimp only; omega)
      rw [List.getElem?_map, Option.map_eq_some_iff] at hi
      obtain ⟨g, hg, hzero⟩ := hi
      rw [hg, UInt16.toNat_inj.mp (hzero.trans UInt16.toNat_zero.symm)]
    next => rfl
  rw [← hzeros, ← List.drop_drop, List.append_assoc, List.take_append_drop, List.take_append_drop]

theorem groups_octets (ab cd : UInt16) :
    Ipv4Addr.groups ⟨(ab >>> 8).toUInt8, ab.toUInt8, (cd >>> 8).toUInt8, cd.toUInt8⟩ = [ab, cd] := by
  have hjoin (g : UInt16) : UInt16.ofNat ((g >>> 8).toUInt8.toNat * 256 + g.toUInt8.toNat) = g := by
    have hlt := g.toNat_lt
    apply UInt16.toNat_inj.mp
    simp [Nat.shiftRight_eq_div_pow]
    omega
  rw [Ipv4Addr.groups, hjoin, hjoin]

theorem toIpv4Mapped_some {mapped : Ipv4Addr} (h : ip.toIpv4Mapped = some mapped) :
    ip.segments = List.replicate 5 0 ++ 0xffff :: mapped.groups := by
  rw [Ipv6Addr.toIpv4Mapped] at h
  split at h
  next ab cd hsegments =>
    rw [← Option.some.inj h, groups_octets]
    exact hsegments
  next => exact absurd h (Option.some_ne_none _).symm

theorem readIpv6_colons {s t : Str} {head tail : List UInt16} {ipv4 : Bool}
    (hhead : readGroups 8 [] s = ((head, false), ':' :: ':' :: t)) (hlength : head.length ≠ 8)
    (htail : readGroups (8 - (head.length + 1)) [] t = ((tail, ipv4), rest))
    (hip : head ++ List.replicate (8 - tail.length - head.length) 0 ++ tail = ip.segments) :
    readIpv6 s = some (ip, rest) := by
  rw [readIpv6, hhead]
  dsimp only
  rw [if_neg hlength, if_neg Bool.false_ne_true, readGivenChar, if_pos rfl, Option.bind_eq_bind,
    Option.bind_some]
  dsimp only
  rw [readGivenChar, if_pos rfl, Option.bind_some]
  dsimp only
  rw [htail]
  dsimp only
  rw [hip, ofGroups_segments]

theorem readIpv6_print (h : Follows rest) : readIpv6 (ip.print ++ rest) = some (ip, rest) := by
  have height := ip.eight
  rw [Ipv6Addr.print]
  cases hmapped : ip.toIpv4Mapped with
  | some mapped =>
    have hgroup := readGroups_group 6 [] 0xffff
      (stops_colon (printIpv4 mapped.octets ++ rest))
    have hipv4 : readGroups 6 [0xffff] (':' :: (printIpv4 mapped.octets ++ rest)) =
        ((0xffff :: mapped.groups, true), rest) := by
      rw [readGroups, if_pos (by decide), readSeparator, if_pos (by decide), readGivenChar, if_pos rfl]
      rw [Option.bind_eq_bind, Option.bind_some]
      dsimp only
      rw [readIpv4_printIpv4 mapped h.stops.2.1]
      rfl
    exact readIpv6_colons (readGroups_follows (.colons _)) (by decide) (hgroup.trans hipv4)
      (toIpv4Mapped_some hmapped).symm
  | none =>
    have hzeros := zeroRun_zerosIn (ip.segments.map UInt16.toNat)
    have hle := hzeros.1
    rw [List.length_map, height] at hle
    dsimp only
    split
    next hlong =>
      rw [← List.map_take, ← List.map_drop, List.append_assoc, List.append_assoc]
      refine readIpv6_colons (readGroups_printSegments ?_ (.colons _)) ?_
        (readGroups_printSegments ?_ h) ?_
      · rw [List.length_take]
        omega
      · rw [List.length_take]
        omega
      · rw [List.length_take, List.length_drop]
        omega
      · have hlength (start length : Nat) (h : start + length ≤ 8) :
            8 - (8 - (start + length)) - min start 8 = length := by omega
        rw [List.length_take, List.length_drop, height, hlength _ _ hle]
        exact segments_of_zeros hzeros
    next =>
      rw [readIpv6, readGroups_printSegments (Nat.le_of_eq height) h]
      dsimp only
      rw [if_pos height, ofGroups_segments]

end

section

variable {rest : Str}

theorem readPort_printUnsigned (port : UInt16) :
    readPort (':' :: printUnsigned port.toNat) = some (port, []) := by
  have hn : readNumber 10 none true 16 (Nat.toDigits 10 port.toNat ++ []) = some (port.toNat, []) :=
    readNumber_toDigits (by decide) (by decide) port.toNat_lt (by simp) (by simp [Ends])
  rw [List.append_nil] at hn
  rw [readPort, readGivenChar, if_pos rfl]
  simp only [Option.bind_eq_bind, Option.bind_some, printUnsigned, hn]
  exact congrArg (fun port => some (port, [])) UInt16.ofNat_toNat

theorem follows_printScope (scopeId : UInt32) (s : Str) : Follows (printScope scopeId ++ ']' :: s) := by
  rw [printScope]
  split
  · exact .mark (.inl rfl) _
  · exact .mark (.inr rfl) _

theorem readScopeId_printScope (scopeId : UInt32) (s : Str) :
    (readScopeId (printScope scopeId ++ ']' :: s)).getD (0, printScope scopeId ++ ']' :: s) =
      (scopeId, ']' :: s) := by
  rw [printScope]
  split
  next hzero => rw [hzero]; rfl
  next =>
    have hn : readNumber 10 none true 32 (Nat.toDigits 10 scopeId.toNat ++ ']' :: s) =
        some (scopeId.toNat, ']' :: s) :=
      readNumber_toDigits (by decide) (by decide) scopeId.toNat_lt (by simp) (by simp [Ends, toDigit])
    rw [List.cons_append, readScopeId, readGivenChar, if_pos rfl]
    simp only [Option.bind_eq_bind, Option.bind_some, printUnsigned, hn, Option.getD_some]
    exact congrArg (fun scopeId => (scopeId, ']' :: s)) UInt32.ofNat_toNat

def SocketAddr.written : SocketAddr → SocketAddr
  | .v4 ip port => .v4 ip port
  | .v6 ip port _ scopeId => .v6 ip port 0 scopeId

/-- An address is read back from its text, without its flow information. -/
theorem parse_print (address : SocketAddr) : SocketAddr.parse address.print = some address.written := by
  cases address with
  | v4 ip port =>
    have hv4 : readSocketAddrV4 (SocketAddr.print (.v4 ip port)) = some (.v4 ip port, []) := by
      rw [readSocketAddrV4, SocketAddr.print, readIpv4_printIpv4 ip (stops_colon _).2.1]
      simp only [Option.bind_eq_bind, Option.bind_some, readPort_printUnsigned]
    rw [SocketAddr.parse, hv4]
    rfl
  | v6 ip port flowinfo scopeId =>
    have hprint : SocketAddr.print (.v6 ip port flowinfo scopeId) =
        '[' :: (ip.print ++ (printScope scopeId ++ ']' :: ':' :: printUnsigned port.toNat)) := by
      simp [SocketAddr.print]
    have hv4 (s : Str) : readSocketAddrV4 ('[' :: s) = none := by
      rw [readSocketAddrV4, readIpv4_none (by simp [takeDigits, toDigit])]
      rfl
    have hv6 : readSocketAddrV6 ('[' :: (ip.print ++ (printScope scopeId ++ ']' :: ':' ::
        printUnsigned port.toNat))) = some (.v6 ip port 0 scopeId, []) := by
      rw [readSocketAddrV6, readGivenChar, if_pos rfl]
      simp only [Option.bind_eq_bind, Option.bind_some, readIpv6_print (follows_printScope _ _),
        readScopeId_printScope, readGivenChar, if_pos, readPort_printUnsigned]
    rw [SocketAddr.parse, hprint, hv4, Option.none_or, hv6]
    rfl

end

section

variable {c : Char} {radix : Nat}

theorem isWhitespace_of_toDigit (h : (toDigit radix c).isSome) : isWhitespace c = false := by
  have hrange : 48 ≤ c.toNat ∧ c.toNat ≤ 122 := by
    by_contra hout
    have hdigit : c.isDigit = false := by
      simp [Char.isDigit, UInt32.le_iff_toNat_le, ← Char.toNat_val] at *
      omega
    have hlower : c.isLower = false := by
      simp [isLower_eq, UInt32.le_iff_toNat_le, ← Char.toNat_val] at *
      omega
    have hupper : c.isUpper = false := by
      simp [isUpper_eq, UInt32.le_iff_toNat_le, ← Char.toNat_val] at *
      omega
    rw [toDigit, hdigit, hlower, hupper] at h
    simp at h
  simp only [isWhitespace, isSpace, Bool.or_eq_false_iff, beq_eq_false_iff_ne, decide_eq_false_iff_not,
    Bool.and_eq_false_iff, List.mem_cons, List.not_mem_nil, or_false]
  omega

theorem solid_toDigits (hb : 1 < radix) (hr : radix ≤ 16) (n : Nat) : Solid (Nat.toDigits radix n) :=
  fun c hc => isWhitespace_of_toDigit ((digits_toDigits hb hr n).1 c hc)

theorem solid_cons {s : Str} (hc : isWhitespace c = false) (h : Solid s) : Solid (c :: s) :=
  List.forall_mem_cons.mpr ⟨hc, h⟩

theorem solid_printIpv4 (ip : Ipv4Addr) : Solid (printIpv4 ip.octets) := by
  have hoctet (b : UInt8) : Solid (printUnsigned b.toNat) := solid_printUnsigned _
  rw [printIpv4_octets]
  exact (hoctet _).append (solid_cons rfl ((hoctet _).append (solid_cons rfl ((hoctet _).append
    (solid_cons rfl (hoctet _))))))

theorem solid_printSegments (segments : List Nat) : Solid (printSegments segments) := by
  have hhex (g : Nat) : Solid (printHex g) := solid_toDigits (by decide) (by decide) g
  cases segments with
  | nil => exact fun _ h => absurd h List.not_mem_nil
  | cons g segments =>
    rw [printSegments_cons]
    refine (hhex g).append fun c hc => ?_
    obtain ⟨f, -, hf⟩ := List.mem_flatMap.mp hc
    exact solid_cons rfl (hhex f) c hf

theorem solid_printIpv6 (ip : Ipv6Addr) : Solid ip.print := by
  rw [Ipv6Addr.print]
  split
  next mapped _ => exact Solid.append (by decide) (solid_printIpv4 mapped)
  next =>
    dsimp only
    split
    · exact ((solid_printSegments _).append (by decide)).append (solid_printSegments _)
    · exact solid_printSegments _

theorem solid_printAddress (address : SocketAddr) : Solid address.print := by
  cases address with
  | v4 ip port => exact (solid_printIpv4 ip).append (solid_cons rfl (solid_printUnsigned _))
  | v6 ip port flowinfo scopeId =>
    have hscope : Solid (printScope scopeId) := by
      rw [printScope]
      split
      · exact fun _ h => absurd h List.not_mem_nil
      · exact solid_cons rfl (solid_printUnsigned _)
    exact solid_cons rfl ((((solid_printIpv6 ip).append hscope).append (by decide)).append
      (solid_printUnsigned _))

end

end FractalD.Machine.IpText
