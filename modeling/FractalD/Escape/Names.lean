import FractalD.Daemon.DevicePaths

namespace FractalD.Escape.Names

open FractalD.Daemon.DevicePaths FractalD.Daemon.Discovery FractalD.Machine.CString
open FractalD.Machine.Paths FractalD.Machine.Text
open FractalD.Machine.Utf8 FractalD.Storage.Fstab FractalD.Storage.ServiceNames

/-- What ends a function early. A slice that cuts a character is a panic. -/
inductive Failure
  | message (text : Str)
  | panic
  deriving DecidableEq, Repr

def escape (value : Str) : Str := (asBytes value).flatMap escapeByte

def pathEscape (value : Str) : Str :=
  let output := join ['-'] ((pathParts value).map escape)
  if output = [] then "-".toList else output

/-- `str::is_char_boundary` of a text with such bytes. -/
def isCharBoundary (bytes : List UInt8) (index : Nat) : Bool :=
  index = bytes.length || bytes[index]?.any fun b => !isTail b

def readDigit (value : Nat) (b : UInt8) : Except Str Nat :=
  match hexDigit b with
  | none => .error "invalid digit found in string".toList
  | some digit =>
    if value * 16 + digit ≥ 2 ^ 8 then .error "number too large to fit in target type".toList
    else .ok (value * 16 + digit)

/-- The digits of `u8::from_str_radix` with radix 16. -/
def readDigits (digits : List UInt8) : Except Str Nat := digits.foldlM readDigit 0

/-- `u8::from_str_radix` with radix 16. A plus sign may come before the digits. -/
def fromStrRadix16 (text : List UInt8) : Except Str Nat :=
  match text with
  | [] => .error "cannot parse integer from empty string".toList
  | [0x2b] => .error "invalid digit found in string".toList
  | 0x2b :: digits => readDigits digits
  | digits => readDigits digits

def invalidEscape (index : Nat) : Str := "invalid escape at byte ".toList ++ printUnsigned index

/-- The bytes that escaped bytes stand for, where `index` is the place of the first. -/
def unescapeBytes (index : Nat) (bytes : List UInt8) : Except Failure (List UInt8) :=
  match bytes with
  | [] => .ok []
  | byte :: rest =>
    if byte = 0x5c then
      if rest.head? ≠ some 0x78 ∨ rest.length ≤ 2 then .error (.message (invalidEscape index))
      -- the slice of the two digits
      else if !(isCharBoundary rest 1 && isCharBoundary rest 3) then .error .panic
      else
        match fromStrRadix16 ((rest.drop 1).take 2) with
        | .error error => .error (.message (invalidEscape index ++ ": ".toList ++ error))
        | .ok value => (UInt8.ofNat value :: ·) <$> unescapeBytes (index + 4) (rest.drop 3)
    else (byte :: ·) <$> unescapeBytes (index + 1) rest
termination_by bytes.length
decreasing_by
  · rw [List.length_drop, List.length_cons]
    exact Nat.lt_succ_of_le (Nat.sub_le _ _)
  · exact Nat.lt_succ_self _

/-- `String::from_utf8`. -/
def fromUtf8 (bytes : List UInt8) : Option Str :=
  (ByteArray.mk bytes.toArray).utf8Decode?.map Array.toList

section

variable (describe : List UInt8 → Str)

/-- An error describes bytes that are not UTF-8. -/
def unescape (value : Str) : Except Failure Str := do
  let output ← unescapeBytes 0 (asBytes value)
  match fromUtf8 output with
  | some text => pure text
  | none => throw (.message ("escaped value is not UTF-8: ".toList ++ describe output))

def pathUnescape (value : Str) : Except Failure Str := do
  if value = "-".toList then pure "/".toList
  else
    let parts ← (value.splitOn '-').mapM (unescape describe)
    pure ('/' :: join ['/'] parts)

end

section

variable {bytes rest : List UInt8} {b : UInt8} {s : Str} {index : Nat}

theorem fromUtf8_asBytes (s : Str) : fromUtf8 (asBytes s) = some s := by
  rw [fromUtf8, asBytes, toList_utf8Decode, Option.map_some, List.toList_toArray]

theorem fromUtf8_eq_some : fromUtf8 bytes = some s ↔ bytes = asBytes s := by
  constructor
  · intro h
    obtain ⟨chars, hchars, rfl⟩ := Option.map_eq_some_iff.mp h
    exact utf8_of_utf8Decode hchars
  · rintro rfl
    exact fromUtf8_asBytes s

theorem unescapeBytes_plain (hb : b ≠ 0x5c) : unescapeBytes index (b :: rest) =
    (b :: ·) <$> unescapeBytes (index + 1) rest := by
  rw [unescapeBytes, if_neg hb]

theorem hexDigit_lt {n : Nat} (h : hexDigit b = some n) : n < 16 := by
  rw [hexDigit] at h
  split_ifs at h <;> · cases h; omega

theorem readDigit_eq {n : Nat} (hn : n < 16) : readDigit n b =
    match hexDigit b with
    | some digit => .ok (n * 16 + digit)
    | none => .error "invalid digit found in string".toList := by
  rw [readDigit]
  cases hb : hexDigit b with
  | none => rfl
  | some digit =>
    have hdigit := hexDigit_lt hb
    exact if_neg (by omega)

theorem readDigits_one : readDigits [b] =
    match hexDigit b with
    | some n => .ok n
    | none => .error "invalid digit found in string".toList := by
  rw [readDigits, List.foldlM_cons, readDigit_eq (by decide)]
  cases hexDigit b with
  | none => rfl
  | some n => exact congrArg Except.ok (by omega)

theorem readDigits_two {a : UInt8} : readDigits [a, b] =
    match hexDigit a, hexDigit b with
    | some high, some low => .ok (high * 16 + low)
    | _, _ => .error "invalid digit found in string".toList := by
  rw [readDigits, List.foldlM_cons, readDigit_eq (by decide)]
  cases ha : hexDigit a with
  | none => rfl
  | some high =>
    have hrest : (Except.ok (0 * 16 + high) >>= fun n => [b].foldlM readDigit n) =
        (readDigit high b >>= pure) := by
      rw [Nat.zero_mul, Nat.zero_add]
      rfl
    refine hrest.trans ?_
    rw [readDigit_eq (hexDigit_lt ha)]
    cases hexDigit b with
    | none => rfl
    | some low => rfl

theorem fromStrRadix16_two {a : UInt8} :
    fromStrRadix16 [a, b] = if a = 0x2b then readDigits [b] else readDigits [a, b] := by
  by_cases ha : a = 0x2b
  · subst ha
    rfl
  · rw [if_neg ha]
    unfold fromStrRadix16
    split
    next h => cases h
    next h => cases h
    next h =>
      cases h
      exact absurd rfl ha
    next => rfl

theorem isCharBoundary_append {start : List UInt8} (h : ∀ b ∈ rest.head?, isTail b = false) :
    isCharBoundary (start ++ rest) start.length = true := by
  rw [isCharBoundary, List.getElem?_append_right le_rfl, Nat.sub_self, ← List.head?_eq_getElem?]
  cases hhead : rest.head? with
  | none =>
    rw [List.head?_eq_none_iff.mp hhead, List.append_nil, decide_eq_true rfl, Bool.true_or]
  | some b =>
    rw [hhead] at h
    rw [Option.any_some, h b rfl, Bool.not_false, Bool.or_true]

/-- The slice of the two digits of an escape cuts no character. -/
theorem unescapeBytes_pair {a : UInt8} (ha : isTail a = false)
    (h : ∀ b ∈ rest.head?, isTail b = false) :
    unescapeBytes index (0x5c :: 0x78 :: a :: b :: rest) =
      match fromStrRadix16 [a, b] with
      | .error error => .error (.message (invalidEscape index ++ ": ".toList ++ error))
      | .ok value => (UInt8.ofNat value :: ·) <$> unescapeBytes (index + 4) rest := by
  have hfirst : isCharBoundary (0x78 :: a :: b :: rest) 1 = true :=
    @isCharBoundary_append (a :: b :: rest) [0x78] fun x hx => by
      cases hx
      exact ha
  have hlast : isCharBoundary (0x78 :: a :: b :: rest) 3 = true :=
    @isCharBoundary_append _ [0x78, a, b] h
  rw [unescapeBytes, if_pos rfl, if_neg (by simp), hfirst, hlast]
  rfl

theorem unescapeBytes_escapeByte (h : ∀ b ∈ rest.head?, isTail b = false) : ∃ later,
    unescapeBytes index (asBytes (escapeByte b) ++ rest) =
      (b :: ·) <$> unescapeBytes later rest := by
  have hlt := b.toNat_lt
  cases hp : isPlain b with
  | true =>
    have hplain := plain_bytes b.toNat hlt
    rw [UInt8.ofNat_toNat] at hplain
    obtain ⟨hslash, -, hbytes⟩ := hplain hp
    refine ⟨index + 1, ?_⟩
    rw [escapeByte, if_pos hp, asBytes, List.flatMap_singleton, hbytes, List.singleton_append,
      unescapeBytes_plain hslash]
  | false =>
    have hhigh : b.toNat / 16 < 16 := by omega
    have hlow : b.toNat % 16 < 16 := by omega
    have hslash : String.utf8EncodeChar '\\' = [0x5c] := by decide
    have hx : String.utf8EncodeChar 'x' = [0x78] := by decide
    have hbytes : asBytes (escapeByte b) =
        [0x5c, 0x78, digitByte (b.toNat / 16), digitByte (b.toNat % 16)] := by
      rw [escapeByte, hp]
      simp only [Bool.false_eq_true, if_false, asBytes, List.flatMap_cons, List.flatMap_nil, hslash,
        hx, utf8_digitChar _ hhigh, utf8_digitChar _ hlow, List.append_nil, List.nil_append,
        List.cons_append]
    have hdigit : ∀ n < 16, digitByte n ≠ 0x2b ∧ isTail (digitByte n) = false := by decide
    have hnumber : fromStrRadix16 [digitByte (b.toNat / 16), digitByte (b.toNat % 16)] =
        .ok b.toNat := by
      rw [fromStrRadix16_two, if_neg (hdigit _ hhigh).1, readDigits_two,
        hexDigit_digitByte _ hhigh, hexDigit_digitByte _ hlow]
      exact congrArg Except.ok (Nat.div_add_mod' b.toNat 16)
    refine ⟨index + 4, ?_⟩
    rw [hbytes]
    change unescapeBytes index (0x5c :: 0x78 :: _ :: _ :: rest) = _
    rw [unescapeBytes_pair (hdigit _ hhigh).2 h, hnumber]
    dsimp only
    rw [UInt8.ofNat_toNat]

theorem head_asBytes (s : Str) : ∀ b ∈ (asBytes s).head?, isTail b = false := by
  intro b hb
  cases s with
  | nil => cases hb
  | cons c s =>
    obtain ⟨first, more, hc, hfirst, -⟩ := utf8_shape c
    rw [asBytes, List.flatMap_cons, hc] at hb
    cases hb
    exact hfirst

theorem asBytes_append (s t : Str) : asBytes (s ++ t) = asBytes s ++ asBytes t := List.flatMap_append

theorem unescapeBytes_escaped (bytes : List UInt8) (index : Nat) :
    unescapeBytes index (asBytes (bytes.flatMap escapeByte)) = .ok bytes := by
  induction bytes generalizing index with
  | nil => rw [List.flatMap_nil, asBytes, List.flatMap_nil, unescapeBytes]
  | cons b bytes ih =>
    obtain ⟨later, hlater⟩ := @unescapeBytes_escapeByte _ b index
      (head_asBytes (bytes.flatMap escapeByte))
    rw [List.flatMap_cons, asBytes_append, hlater, ih]
    rfl

variable (describe : List UInt8 → Str)

theorem unescape_escaped (s : Str) : unescape describe (escape s) = .ok s := by
  rw [unescape, escape, unescapeBytes_escaped]
  change (match fromUtf8 (asBytes s) with | some text => _ | none => _) = _
  rw [fromUtf8_asBytes]
  rfl

theorem mapM_escaped (parts : List Str) :
    (parts.map escape).mapM (unescape describe) = .ok parts := by
  induction parts with
  | nil => rfl
  | cons part parts ih =>
    rw [List.map_cons, List.mapM_cons, unescape_escaped, ih]
    rfl

/-- What is escaped is read back, and a path is read back without repeated slashes. -/
theorem escape_roundtrip : (∀ s, unescape describe (escape s) = .ok s) ∧
    ∀ path, pathUnescape describe (pathEscape path) = .ok ('/' :: join ['/'] (pathParts path)) := by
  refine ⟨unescape_escaped describe, fun path => ?_⟩
  have hescaped : ∀ part ∈ (pathParts path).map escape, part ≠ [] ∧ '-' ∉ part := by
    intro escaped hmem
    obtain ⟨part, hpart, rfl⟩ := List.mem_map.mp hmem
    exact escapeComponent_dashless (of_decide_eq_true (List.mem_filter.mp hpart).2)
  rw [pathEscape]
  by_cases hnil : pathParts path = []
  · rw [hnil]
    rfl
  have hne : (pathParts path).map escape ≠ [] := fun h => hnil (List.map_eq_nil_iff.mp h)
  have hsplit : (join ['-'] ((pathParts path).map escape)).splitOn '-' = (pathParts path).map escape :=
    List.splitOn_intercalate '-' (fun part hpart => (hescaped part hpart).2) hne
  have hempty : ∀ text : Str, [] ∈ text.splitOn '-' →
      join ['-'] ((pathParts path).map escape) ≠ text := by
    rintro text hmem rfl
    rw [hsplit] at hmem
    exact (hescaped [] hmem).1 rfl
  rw [if_neg (hempty [] (by decide)), pathUnescape, if_neg (hempty "-".toList (by decide)), hsplit,
    mapM_escaped]
  rfl

end

end FractalD.Escape.Names
