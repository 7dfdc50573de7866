import FractalD.Escape.Names

namespace FractalD.Escape.Strictness

open FractalD.Daemon.Discovery FractalD.Escape.Names FractalD.Machine.CString
open FractalD.Machine.Result FractalD.Machine.Text FractalD.Machine.Utf8

/-- The number of a hexadecimal digit. -/
def hexValue (c : Char) : Option Nat :=
  if c.toNat < 128 then hexDigit (UInt8.ofNat c.toNat) else none

/-- The bytes that a text stands for, where a backslash, an `x` and two digits stand for one. -/
inductive Decodes : Str → List UInt8 → Prop
  | nil : Decodes [] []
  | plain {c : Char} {s : Str} {bytes : List UInt8} (hc : c ≠ '\\') (h : Decodes s bytes) :
      Decodes (c :: s) (String.utf8EncodeChar c ++ bytes)
  | escaped {a b : Char} {high low : Nat} {s : Str} {bytes : List UInt8}
      (ha : hexValue a = some high) (hb : hexValue b = some low) (h : Decodes s bytes) :
      Decodes ('\\' :: 'x' :: a :: b :: s) (UInt8.ofNat (high * 16 + low) :: bytes)

/-- The same, where a plus sign may stand for the first of the digits. -/
inductive Reads : Str → List UInt8 → Prop
  | nil : Reads [] []
  | plain {c : Char} {s : Str} {bytes : List UInt8} (hc : c ≠ '\\') (h : Reads s bytes) :
      Reads (c :: s) (String.utf8EncodeChar c ++ bytes)
  | escaped {a b : Char} {high low : Nat} {s : Str} {bytes : List UInt8}
      (ha : hexValue a = some high) (hb : hexValue b = some low) (h : Reads s bytes) :
      Reads ('\\' :: 'x' :: a :: b :: s) (UInt8.ofNat (high * 16 + low) :: bytes)
  | signed {b : Char} {low : Nat} {s : Str} {bytes : List UInt8} (hb : hexValue b = some low)
      (h : Reads s bytes) : Reads ('\\' :: 'x' :: '+' :: b :: s) (UInt8.ofNat low :: bytes)

/-- The third byte of a text is none that begins a character. -/
inductive Torn : Str → Prop
  | first {c : Char} {s : Str} (hc : 2 < c.utf8Size) : Torn (c :: s)
  | second {c d : Char} {s : Str} (hc : c.utf8Size = 1) (hd : 1 < d.utf8Size) : Torn (c :: d :: s)

/-- A character is cut that comes where the digits of an escape are due. -/
def Cut (s : Str) : Prop := ∃ before after bytes,
  s = before ++ '\\' :: 'x' :: after ∧ Reads before bytes ∧ Torn after

section

variable {s after before : Str} {bytes rest : List UInt8} {a b c : Char} {index n : Nat}

theorem asBytes_cons (c : Char) (s : Str) : asBytes (c :: s) = String.utf8EncodeChar c ++ asBytes s :=
  List.flatMap_cons

theorem utf8_size_one (h : c.utf8Size = 1) : c.toNat < 128 := by
  by_contra hnot
  have := one_lt_length_utf8 (not_lt.mp hnot)
  rw [String.length_utf8EncodeChar] at this
  omega

theorem hexValue_ascii (h : hexValue c = some n) : c.toNat < 128 := by
  rw [hexValue] at h
  split at h
  next hc => exact hc
  next => cases h

theorem hexValue_byte (h : c.toNat < 128) : hexValue c = hexDigit (UInt8.ofNat c.toNat) := if_pos h

theorem fromStrRadix16_chars (ha : a.toNat < 128) (hb : b.toNat < 128) :
    fromStrRadix16 [UInt8.ofNat a.toNat, UInt8.ofNat b.toNat] = .ok n ↔
      (∃ high low, hexValue a = some high ∧ hexValue b = some low ∧ n = high * 16 + low) ∨
        a = '+' ∧ hexValue b = some n := by
  have hplus : UInt8.ofNat a.toNat = 0x2b ↔ a = '+' := by
    constructor
    · intro h
      have hnat := congrArg UInt8.toNat h
      rw [UInt8.toNat_ofNat', Nat.mod_eq_of_lt (by omega)] at hnat
      rw [← Char.ofNat_toNat a, hnat]
      rfl
    · rintro rfl
      rfl
  rw [fromStrRadix16_two, hexValue_byte ha, hexValue_byte hb]
  split
  next h =>
    have hdigit : hexDigit (UInt8.ofNat a.toNat) = none := by
      rw [h]
      rfl
    rw [readDigits_one, hdigit]
    cases hexDigit (UInt8.ofNat b.toNat) with
    | none => simp
    | some low => simp [hplus.mp h]
  next h =>
    have hne : a ≠ '+' := fun ha => h (hplus.mpr ha)
    rw [readDigits_two]
    cases hexDigit (UInt8.ofNat a.toNat) with
    | none => simp [hne]
    | some high =>
      cases hexDigit (UInt8.ofNat b.toNat) with
      | none => simp [hne]
      | some low => simp [hne, eq_comm]

theorem unescapeBytes_start {start : List UInt8} (h : (0x5c : UInt8) ∉ start) : ∃ later,
    unescapeBytes index (start ++ rest) = (start ++ ·) <$> unescapeBytes later rest := by
  induction start generalizing index with
  | nil => exact ⟨index, by simp⟩
  | cons b start ih =>
    obtain ⟨hb, hstart⟩ := not_or.mp (mt List.mem_cons.mpr h)
    obtain ⟨later, hlater⟩ := @ih (index + 1) hstart
    refine ⟨later, ?_⟩
    rw [List.cons_append, unescapeBytes_plain (Ne.symm hb), hlater, Functor.map_map]
    rfl

theorem backslash_not_mem (h : c ≠ '\\') : (0x5c : UInt8) ∉ String.utf8EncodeChar c := by
  intro hmem
  have hnat := toNat_of_mem_utf8 (by decide) hmem
  refine h ?_
  rw [← Char.ofNat_toNat c, hnat]
  rfl

theorem tail_ascii (hc : c.toNat < 128) : isTail (UInt8.ofNat c.toNat) = false := by
  obtain ⟨first, more, hbytes, hfirst, -⟩ := utf8_shape c
  rw [utf8_ascii hc] at hbytes
  cases hbytes
  exact hfirst

theorem unescapeBytes_chars (ha : a.toNat < 128) (hb : b.toNat < 128) :
    unescapeBytes index (asBytes ('\\' :: 'x' :: a :: b :: s)) =
      match fromStrRadix16 [UInt8.ofNat a.toNat, UInt8.ofNat b.toNat] with
      | .error error => .error (.message (invalidEscape index ++ ": ".toList ++ error))
      | .ok value => (UInt8.ofNat value :: ·) <$> unescapeBytes (index + 4) (asBytes s) := by
  have hbytes : asBytes ('\\' :: 'x' :: a :: b :: s) =
      0x5c :: 0x78 :: UInt8.ofNat a.toNat :: UInt8.ofNat b.toNat :: asBytes s := by
    rw [asBytes_cons, asBytes_cons, asBytes_cons, asBytes_cons, utf8_ascii ha, utf8_ascii hb]
    rfl
  rw [hbytes]
  exact unescapeBytes_pair (tail_ascii ha) (head_asBytes s)

theorem unescapeBytes_number (ha : a.toNat < 128) (hb : b.toNat < 128)
    (hn : fromStrRadix16 [UInt8.ofNat a.toNat, UInt8.ofNat b.toNat] = .ok n) :
    unescapeBytes index (asBytes ('\\' :: 'x' :: a :: b :: s)) =
      (UInt8.ofNat n :: ·) <$> unescapeBytes (index + 4) (asBytes s) := by
  rw [unescapeBytes_chars ha hb, hn]

theorem unescapeBytes_reads (h : Reads before bytes) : ∃ later,
    unescapeBytes index (asBytes (before ++ after)) =
      (bytes ++ ·) <$> unescapeBytes later (asBytes after) := by
  induction h generalizing index with
  | nil => exact ⟨index, by simp⟩
  | @plain c s bytes hc _ ih =>
    obtain ⟨mid, hmid⟩ := @unescapeBytes_start (asBytes (s ++ after)) index _
      (backslash_not_mem hc)
    obtain ⟨later, hlater⟩ := @ih mid
    refine ⟨later, ?_⟩
    rw [List.cons_append, asBytes_cons, hmid, hlater, Functor.map_map]
    simp only [List.append_assoc]
  | escaped ha hb _ ih =>
    obtain ⟨later, hlater⟩ := @ih (index + 4)
    have ha' := hexValue_ascii ha
    have hb' := hexValue_ascii hb
    refine ⟨later, ?_⟩
    simp only [List.cons_append]
    rw [unescapeBytes_number ha' hb' ((fromStrRadix16_chars ha' hb').mpr
      (.inl ⟨_, _, ha, hb, rfl⟩)), hlater, Functor.map_map]
  | signed hb _ ih =>
    obtain ⟨later, hlater⟩ := @ih (index + 4)
    have hb' := hexValue_ascii hb
    refine ⟨later, ?_⟩
    simp only [List.cons_append]
    rw [unescapeBytes_number (by decide) hb' ((fromStrRadix16_chars (by decide) hb').mpr
      (.inr ⟨rfl, hb⟩)), hlater, Functor.map_map]

theorem not_boundary {b : UInt8} {k : Nat} (h : bytes[k]? = some b) (hb : isTail b = true) :
    isCharBoundary bytes k = false := by
  have hk := (List.getElem?_eq_some_iff.mp h).1
  rw [isCharBoundary, h, Option.any_some, hb, decide_eq_false (by omega)]
  rfl

/-- The slice of the digits of an escape panics where it cuts a character. -/
theorem unescapeBytes_torn (h : Torn after) :
    unescapeBytes index (asBytes ('\\' :: 'x' :: after)) = .error .panic := by
  have hthird : ∃ first second third more, asBytes after = first :: second :: third :: more ∧
      isTail third = true := by
    cases h with
    | @first c s hc =>
      obtain ⟨first, more, hbytes, -, htail⟩ := utf8_shape c
      rw [← String.length_utf8EncodeChar, hbytes] at hc
      match more, hc, htail with
      | second :: third :: more, _, htail =>
        refine ⟨first, second, third, more ++ asBytes s, ?_, htail third (by simp)⟩
        rw [asBytes_cons, hbytes]
        rfl
    | @second c d s hc hd =>
      obtain ⟨first, more, hbytes, -, htail⟩ := utf8_shape d
      rw [← String.length_utf8EncodeChar, hbytes] at hd
      match more, hd, htail with
      | third :: more, _, htail =>
        refine ⟨UInt8.ofNat c.toNat, first, third, more ++ asBytes s, ?_, htail third (by simp)⟩
        rw [asBytes_cons, asBytes_cons, utf8_ascii (utf8_size_one hc), hbytes]
        rfl
  obtain ⟨first, second, third, more, hafter, htail⟩ := hthird
  have hbytes : asBytes ('\\' :: 'x' :: after) =
      0x5c :: 0x78 :: first :: second :: third :: more := by
    rw [asBytes_cons, asBytes_cons, hafter]
    rfl
  have hcut : isCharBoundary (0x78 :: first :: second :: third :: more) 3 = false :=
    not_boundary rfl htail
  rw [hbytes, unescapeBytes, if_pos rfl, if_neg (by simp), hcut, Bool.and_false]
  rfl

theorem reads_append {bytes' : List UInt8} (h : Reads before bytes) (h' : Reads s bytes') :
    Reads (before ++ s) (bytes ++ bytes') := by
  induction h with
  | nil => exact h'
  | plain hc _ ih =>
    rw [List.append_assoc]
    exact .plain hc ih
  | escaped ha hb _ ih => exact .escaped ha hb ih
  | signed hb _ ih => exact .signed hb ih

/-- What is read can be read, and what panics has a character cut. -/
structure Sound (s : Str) (r : Except Failure (List UInt8)) : Prop where
  reads : ∀ bytes, r = .ok bytes → Reads s bytes
  cut : r = .error .panic → Cut s

theorem sound_message (s : Str) (text : Str) : Sound s (.error (.message text)) := ⟨nofun, nofun⟩

theorem sound_append {r : Except Failure (List UInt8)} (h : Reads before bytes) (hr : Sound s r) :
    Sound (before ++ s) ((bytes ++ ·) <$> r) := by
  cases r with
  | ok found =>
    refine ⟨fun bytes' hbytes => ?_, nofun⟩
    cases hbytes
    exact reads_append h (hr.reads found rfl)
  | error e =>
    refine ⟨nofun, fun he => ?_⟩
    cases he
    obtain ⟨before', after, bytes', rfl, hbefore, htorn⟩ := hr.cut rfl
    exact ⟨before ++ before', after, _, (List.append_assoc ..).symm, reads_append h hbefore, htorn⟩

theorem unescapeBytes_invalid (h : rest.head? ≠ some 0x78 ∨ rest.length ≤ 2) :
    unescapeBytes index (0x5c :: rest) = .error (.message (invalidEscape index)) := by
  rw [unescapeBytes, if_pos rfl, if_pos h]

theorem sound_chars (ha : a.toNat < 128) (hb : b.toNat < 128)
    (h : Sound s (unescapeBytes (index + 4) (asBytes s))) :
    Sound ('\\' :: 'x' :: a :: b :: s) (unescapeBytes index (asBytes ('\\' :: 'x' :: a :: b :: s))) := by
  cases hn : fromStrRadix16 [UInt8.ofNat a.toNat, UInt8.ofNat b.toNat] with
  | error e =>
    rw [unescapeBytes_chars ha hb, hn]
    exact sound_message _ _
  | ok n =>
    rw [unescapeBytes_number ha hb hn]
    have hreads : Reads ['\\', 'x', a, b] [UInt8.ofNat n] := by
      obtain ⟨high, low, hhigh, hlow, rfl⟩ | ⟨rfl, hlow⟩ := (fromStrRadix16_chars ha hb).mp hn
      · exact .escaped hhigh hlow .nil
      · exact .signed hlow .nil
    exact sound_append hreads h

theorem utf8_size_two (h : c.utf8Size = 2) : ∃ first second,
    String.utf8EncodeChar c = [first, second] ∧ isTail first = false ∧
      ∃ e, fromStrRadix16 [first, second] = .error e := by
  obtain ⟨first, more, hbytes, hfirst, -⟩ := utf8_shape c
  have hlength := congrArg List.length hbytes
  rw [String.length_utf8EncodeChar, h, List.length_cons] at hlength
  obtain ⟨second, rfl⟩ := List.length_eq_one_iff.mp (Nat.succ.inj hlength.symm)
  have hlarge : ¬ first.toNat < 128 := by
    intro hsmall
    have hnat := toNat_of_mem_utf8 (c := c) hsmall (by simp [hbytes])
    have hone := utf8_ascii (hnat ▸ hsmall)
    rw [hbytes] at hone
    cases hone
  have hdigit : hexDigit first = none := by
    rw [hexDigit]
    split_ifs <;> first | omega | rfl
  have hplus : first ≠ 0x2b := by
    rintro rfl
    exact hlarge (by decide)
  refine ⟨first, second, hbytes, hfirst, "invalid digit found in string".toList, ?_⟩
  rw [fromStrRadix16_two, if_neg hplus, readDigits_two, hdigit]

/-- A character that is no `x` after a backslash. -/
theorem sound_unmarked (hc : c ≠ 'x') :
    Sound ('\\' :: c :: s) (unescapeBytes index (asBytes ('\\' :: c :: s))) := by
  have hhead : (asBytes (c :: s)).head? ≠ some 0x78 := by
    intro hhead
    obtain ⟨first, more, hbytes, -, -⟩ := utf8_shape c
    rw [asBytes_cons, hbytes] at hhead
    cases hhead
    have hnat := toNat_of_mem_utf8 (c := c) (b := 0x78) (by decide) (by simp [hbytes])
    refine hc ?_
    rw [← Char.ofNat_toNat c, hnat]
    rfl
  have hrun := @unescapeBytes_invalid _ index (.inl hhead)
  change unescapeBytes index (asBytes ('\\' :: c :: s)) = _ at hrun
  rw [hrun]
  exact sound_message _ _

/-- The end of a text where the digits of an escape are due. -/
theorem sound_short (h : (asBytes s).length ≤ 1) :
    Sound ('\\' :: 'x' :: s) (unescapeBytes index (asBytes ('\\' :: 'x' :: s))) := by
  have hlength : (asBytes ('x' :: s)).length ≤ 2 := by
    rw [asBytes_cons, List.length_append, String.length_utf8EncodeChar]
    exact Nat.add_le_add_left h 1
  have hrun := @unescapeBytes_invalid _ index (.inr hlength)
  change unescapeBytes index (asBytes ('\\' :: 'x' :: s)) = _ at hrun
  rw [hrun]
  exact sound_message _ _

theorem sound_torn (h : Torn after) :
    Sound ('\\' :: 'x' :: after) (unescapeBytes index (asBytes ('\\' :: 'x' :: after))) := by
  rw [unescapeBytes_torn h]
  exact ⟨nofun, fun _ => ⟨[], after, [], rfl, .nil, h⟩⟩

theorem sound_unescapeBytes (s : Str) (index : Nat) :
    Sound s (unescapeBytes index (asBytes s)) := by
  induction hn : s.length using Nat.strong_induction_on generalizing s index with
  | _ n ih =>
  subst hn
  cases s with
  | nil =>
    rw [asBytes, List.flatMap_nil, unescapeBytes]
    refine ⟨fun bytes hbytes => ?_, fun hbytes => by cases hbytes⟩
    cases hbytes
    exact .nil
  | cons c s =>
    by_cases hc : c = '\\'
    · subst hc
      cases s with
      | nil => exact @unescapeBytes_invalid [] index (.inl (by simp)) ▸ sound_message _ _
      | cons c s =>
        by_cases hx : c = 'x'
        · subst hx
          cases s with
          | nil => exact sound_short (by decide)
          | cons a s =>
            obtain hone | htwo | hmore : a.utf8Size = 1 ∨ a.utf8Size = 2 ∨ 2 < a.utf8Size := by
              have := a.utf8Size_pos
              omega
            · cases s with
              | nil =>
                refine sound_short ?_
                rw [asBytes, List.flatMap_singleton, String.length_utf8EncodeChar, hone]
              | cons b s =>
                obtain hone' | hmore' : b.utf8Size = 1 ∨ 1 < b.utf8Size := by
                  have := b.utf8Size_pos
                  omega
                · exact sound_chars (utf8_size_one hone) (utf8_size_one hone')
                    (ih _ (by simp only [List.length_cons]; omega) s _ rfl)
                · exact sound_torn (.second hone hmore')
            · obtain ⟨first, second, hbytes, hfirst, e, he⟩ := utf8_size_two htwo
              have hrun := @unescapeBytes_pair _ second index _ hfirst (head_asBytes s)
              rw [he] at hrun
              have htext : asBytes ('\\' :: 'x' :: a :: s) =
                  0x5c :: 0x78 :: first :: second :: asBytes s := by
                rw [asBytes_cons, asBytes_cons, asBytes_cons, hbytes]
                rfl
              rw [htext, hrun]
              exact sound_message _ _
            · exact sound_torn (.first hmore)
        · exact sound_unmarked hx
    · obtain ⟨later, hlater⟩ := @unescapeBytes_start (asBytes s) index _
        (backslash_not_mem hc)
      rw [asBytes_cons, hlater, ← List.append_nil (String.utf8EncodeChar c)]
      exact @sound_append _ [c] _ _ (.plain hc .nil) (ih _ (by simp) s later rfl)

theorem unescapeBytes_ok : unescapeBytes 0 (asBytes s) = .ok bytes ↔ Reads s bytes := by
  refine ⟨(sound_unescapeBytes s 0).reads bytes, fun h => ?_⟩
  obtain ⟨later, hlater⟩ := @unescapeBytes_reads [] _ _ 0 h
  rw [List.append_nil] at hlater
  rw [hlater, asBytes, List.flatMap_nil, unescapeBytes]
  exact congrArg Except.ok (List.append_nil bytes)

theorem unescapeBytes_panic : unescapeBytes 0 (asBytes s) = .error .panic ↔ Cut s := by
  refine ⟨(sound_unescapeBytes s 0).cut, fun h => ?_⟩
  obtain ⟨before, after, bytes, rfl, hbefore, htorn⟩ := h
  obtain ⟨later, hlater⟩ := @unescapeBytes_reads ('\\' :: 'x' :: after) _ _ 0 hbefore
  rw [hlater, unescapeBytes_torn htorn]
  rfl

variable (describe : List UInt8 → Str) {t : Str}

theorem unescape_ok : unescape describe s = .ok t ↔ Reads s (asBytes t) := by
  rw [unescape, bind_eq_ok]
  constructor
  · rintro ⟨bytes, hbytes, h⟩
    cases htext : fromUtf8 bytes with
    | none =>
      rw [htext] at h
      cases h
    | some text =>
      rw [htext] at h
      cases h
      rw [← fromUtf8_eq_some.mp htext]
      exact unescapeBytes_ok.mp hbytes
  · intro h
    refine ⟨_, unescapeBytes_ok.mpr h, ?_⟩
    rw [fromUtf8_asBytes]
    rfl

theorem unescape_panic : unescape describe s = .error .panic ↔ Cut s := by
  rw [← unescapeBytes_panic, unescape]
  cases unescapeBytes 0 (asBytes s) with
  | error e =>
    constructor
    · intro h
      cases h
      rfl
    · intro h
      cases h
      rfl
  | ok bytes =>
    refine iff_of_false (fun h => ?_) (fun h => by cases h)
    dsimp only [bind, Except.bind] at h
    cases htext : fromUtf8 bytes with
    | none =>
      rw [htext] at h
      cases h
    | some text =>
      rw [htext] at h
      cases h

theorem reads_of_decodes (h : Decodes s bytes) : Reads s bytes := by
  induction h with
  | nil => exact .nil
  | plain hc _ ih => exact .plain hc ih
  | escaped ha hb _ ih => exact .escaped ha hb ih

def signedMarker : Str := ['\\', 'x', '+']

theorem decodes_of_reads (h : Reads s bytes) (hsigned : ¬ signedMarker <:+: s) :
    Decodes s bytes := by
  induction h with
  | nil => exact .nil
  | plain hc _ ih => exact .plain hc (ih fun h => hsigned (List.infix_cons h))
  | @escaped a b high low s bytes ha hb _ ih =>
    refine .escaped ha hb (ih fun h => hsigned ?_)
    exact List.IsInfix.trans h ⟨['\\', 'x', a, b], [], by simp⟩
  | @signed b low s bytes hb _ ih => exact absurd ⟨[], b :: s, rfl⟩ hsigned

theorem not_signed_of_decodes (h : Decodes s bytes) : ¬ signedMarker <:+: s := by
  have hnot : ∀ {c : Char} {s : Str}, c ≠ '\\' → ¬ signedMarker <:+: s →
      ¬ signedMarker <:+: c :: s := by
    intro c s hc hs h
    obtain hprefix | hinfix := List.infix_cons_iff.mp h
    · exact hc (List.cons_prefix_cons.mp hprefix).1.symm
    · exact hs hinfix
  induction h with
  | nil => exact fun h => absurd h.length_le (by decide)
  | plain hc _ ih => exact hnot hc ih
  | @escaped a b high low s bytes ha hb _ ih =>
    have hslash : ∀ {c : Char} {n : Nat}, hexValue c = some n → c ≠ '\\' := by
      rintro c n hn rfl
      cases hn
    intro h
    obtain hprefix | hinfix := List.infix_cons_iff.mp h
    · have hplus := (List.cons_prefix_cons.mp
        (List.cons_prefix_cons.mp (List.cons_prefix_cons.mp hprefix).2).2).1
      rw [← hplus] at ha
      cases ha
    · exact hnot (by decide) (hnot (hslash ha) (hnot (hslash hb) ih)) hinfix

/-- Each backslash of a text begins an escape of two digits, and what it stands for is UTF-8. -/
def WellEscaped (s : Str) : Prop := ∃ t, Decodes s (asBytes t)

/-- A text is read without a panic, and exactly if it is well-escaped. -/
def Strict (s : Str) : Prop :=
  unescape describe s ≠ .error .panic ∧ ((∃ t, unescape describe s = .ok t) ↔ WellEscaped s)

/-- Reading a text is strict exactly if no character is cut, and no sign is read for a digit. -/
theorem strict_iff (s : Str) : Strict describe s ↔
    ¬ Cut s ∧ ¬ (signedMarker <:+: s ∧ ∃ t, Reads s (asBytes t)) := by
  simp only [Strict, Ne, unescape_panic, unescape_ok]
  refine and_congr_right fun _ => ?_
  constructor
  · rintro h ⟨hsigned, hreads⟩
    obtain ⟨t, ht⟩ := h.mp hreads
    exact not_signed_of_decodes ht hsigned
  · intro h
    constructor
    · rintro ⟨t, ht⟩
      exact ⟨t, decodes_of_reads ht fun hsigned => h ⟨hsigned, t, ht⟩⟩
    · rintro ⟨t, ht⟩
      exact ⟨t, reads_of_decodes ht⟩

end

/-- An escape with a sign is read, and one with half a character panics. -/
theorem sign_and_cut :
    ¬ Strict (fun _ => []) "\\x+5".toList ∧ ¬ Strict (fun _ => []) "\\xaé".toList := by
  refine ⟨fun h => ?_, fun h => ?_⟩
  · have hreads : Reads "\\x+5".toList (asBytes ['\x05']) := .signed rfl .nil
    obtain ⟨t, ht⟩ := h.2.mp ⟨_, (unescape_ok _).mpr hreads⟩
    exact not_signed_of_decodes ht ⟨[], ['5'], rfl⟩
  · exact h.1 ((unescape_panic _).mpr ⟨[], ['a', 'é'], [], rfl, .nil, .second rfl (by decide)⟩)

end FractalD.Escape.Strictness
