import FractalD.Machine.Result
import FractalD.Machine.Scan
import FractalD.Machine.Utf8
import FractalD.Machine.Wire
import FractalD.Storage.Fstab
import Mathlib.Data.List.Forall2

namespace FractalD.Storage.Tables

open FractalD.Machine FractalD.Machine.CString FractalD.Machine.Result FractalD.Machine.Text
open FractalD.Machine.Utf8 FractalD.Machine.Wire FractalD.Storage.Fstab

/-- The two octal digits of a byte and the one before them, after a backslash. -/
def octal (b : UInt8) : List UInt8 :=
  [0x5c, 0x30 + b / 64, 0x30 + b / 8 % 8, 0x30 + b % 8]

/-- A field as it is written: any byte may be an escape, and a space, a number sign and a
backslash have to be. -/
inductive Written : List UInt8 → List UInt8 → Prop
  | nil : Written [] []
  | literal {b : UInt8} {bytes text : List UInt8} : b ∉ [0x20, 0x23, 0x5c] → Written bytes text →
      Written (b :: bytes) (b :: text)
  | escaped {b : UInt8} {bytes text : List UInt8} : Written bytes text →
      Written (b :: bytes) (octal b ++ text)

def IsBlank (b : UInt8) : Prop := b = 0x20 ∨ b = 0x09

/-- Written fields on a line, with blanks between any two. -/
inductive WrittenLine : List Str → List UInt8 → Prop
  | nil : WrittenLine [] []
  | blank {b : UInt8} {fields : List Str} {text : List UInt8} : IsBlank b → WrittenLine fields text →
      WrittenLine fields (b :: text)
  | last {field : Str} {text : List UInt8} : Written (field.flatMap String.utf8EncodeChar) text →
      WrittenLine [field] text
  | field {field : Str} {fields : List Str} {b : UInt8} {text rest : List UInt8} :
      Written (field.flatMap String.utf8EncodeChar) text → IsBlank b → WrittenLine fields rest →
      WrittenLine (field :: fields) (text ++ b :: rest)

/-- Octal escapes are bytes; above `\377` there are none. -/
def decodeExactly : List UInt8 → List UInt8
  | a :: b :: c :: d :: bytes =>
    if a = 0x5c ∧ isOctal b ∧ isOctal c ∧ isOctal d ∧ b ≤ 0x33 then
      ((b - 0x30) * 64 + (c - 0x30) * 8 + (d - 0x30)) :: decodeExactly bytes
    else a :: decodeExactly (b :: c :: d :: bytes)
  | a :: bytes => a :: decodeExactly bytes
  | [] => []

/-- No escape begins with a digit above 3. -/
def Fits : List UInt8 → Prop
  | a :: b :: c :: d :: bytes =>
    if a = 0x5c ∧ isOctal b ∧ isOctal c ∧ isOctal d then b ≤ 0x33 ∧ Fits bytes
    else Fits (b :: c :: d :: bytes)
  | _ :: bytes => Fits bytes
  | [] => True

section

variable {a b x : UInt8} {bytes text rest l m : List UInt8} {s t : Str}

theorem decodeBytes_cons (ha : a ≠ 0x5c) : decodeBytes (a :: l) = a :: decodeBytes l := by
  match l with
  | [] | [_] | [_, _] => rfl
  | _ :: _ :: _ :: _ => rw [decodeBytes, if_neg fun h => ha h.1]

theorem decodeBytes_literal (h : ∀ b c d tail, l = b :: c :: d :: tail →
    ¬ (a = 0x5c ∧ isOctal b ∧ isOctal c ∧ isOctal d)) : decodeBytes (a :: l) = a :: decodeBytes l := by
  match l with
  | [] | [_] | [_, _] => rfl
  | b :: c :: d :: tail => rw [decodeBytes, if_neg (h b c d tail rfl)]

theorem decodeBytes_append (hx : isOctal x = false) :
    decodeBytes (l ++ x :: m) = decodeBytes l ++ decodeBytes (x :: m) := by
  induction l using decodeBytes.induct with
  | case1 a b c d bytes h ih =>
    rw [decodeBytes, if_pos h, List.cons_append, List.cons_append, List.cons_append,
      List.cons_append, decodeBytes, if_pos h, ih]
    rfl
  | case2 a b c d bytes h ih =>
    rw [decodeBytes, if_neg h, List.cons_append, List.cons_append, List.cons_append,
      List.cons_append, decodeBytes, if_neg h, ← List.cons_append, ← List.cons_append,
      ← List.cons_append, ih]
    rfl
  | case3 a bytes hshort ih =>
    -- the digits of an escape would take in the byte
    have hno : ∀ b c d tail, bytes ++ x :: m = b :: c :: d :: tail →
        ¬ (a = 0x5c ∧ isOctal b ∧ isOctal c ∧ isOctal d) := by
      rintro b c d tail hl ⟨-, hb, hc, hd⟩
      match bytes, hshort with
      | [], _ => simp_all
      | [_], _ => simp_all
      | [_, _], _ => simp_all
      | b :: c :: d :: tail, hshort => exact hshort b c d tail rfl
    have hnil : ∀ b c d tail, bytes = b :: c :: d :: tail →
        ¬ (a = 0x5c ∧ isOctal b ∧ isOctal c ∧ isOctal d) :=
      fun b c d tail hl => absurd hl (hshort b c d tail)
    rw [List.cons_append, decodeBytes_literal hno, decodeBytes_literal hnil, ih]
    rfl
  | case4 => rfl

theorem octal_digits : ∀ n < 256, let b := UInt8.ofNat n
    isOctal (0x30 + b / 64) ∧ isOctal (0x30 + b / 8 % 8) ∧ isOctal (0x30 + b % 8) ∧
      (0x30 + b / 64 - 0x30) * 64 + (0x30 + b / 8 % 8 - 0x30) * 8 + (0x30 + b % 8 - 0x30) = b := by
  decide +kernel

theorem decodeBytes_octal : decodeBytes (octal b ++ l) = b :: decodeBytes l := by
  have h := octal_digits b.toNat b.toNat_lt
  rw [UInt8.ofNat_toNat] at h
  obtain ⟨h₁, h₂, h₃, hvalue⟩ := h
  rw [octal, List.cons_append, List.cons_append, List.cons_append, List.cons_append, decodeBytes,
    if_pos ⟨rfl, h₁, h₂, h₃⟩, hvalue]
  rfl

theorem decodeBytes_written (h : Written bytes text) : decodeBytes text = bytes := by
  induction h with
  | nil => rfl
  | literal hb _ ih =>
    rw [decodeBytes_cons (by rintro rfl; simp at hb), ih]
  | escaped _ ih => rw [decodeBytes_octal, ih]

theorem mem_written (h : Written bytes text) (hx : x ∈ text) :
    (x ∈ bytes ∧ x ∉ [0x20, 0x23, 0x5c]) ∨ x = 0x5c ∨ isOctal x = true := by
  induction h with
  | nil => cases hx
  | literal hb _ ih =>
    obtain rfl | hx := List.mem_cons.mp hx
    · exact .inl ⟨List.mem_cons_self, hb⟩
    · exact (ih hx).imp_left (And.imp_left (List.mem_cons_of_mem _))
  | @escaped b _ _ _ ih =>
    obtain hx | hx := List.mem_append.mp hx
    · have hdigits := octal_digits b.toNat b.toNat_lt
      rw [UInt8.ofNat_toNat] at hdigits
      obtain ⟨h₁, h₂, h₃, -⟩ := hdigits
      simp only [octal, List.mem_cons, List.not_mem_nil, or_false] at hx
      obtain rfl | rfl | rfl | rfl := hx
      · exact .inr (.inl rfl)
      · exact .inr (.inr h₁)
      · exact .inr (.inr h₂)
      · exact .inr (.inr h₃)
    · exact (ih hx).imp_left (And.imp_left (List.mem_cons_of_mem _))

theorem written_nil (h : Written bytes []) : bytes = [] := by
  cases h
  rfl

theorem written_literal (hl : l.all fun b => b ∉ [0x20, 0x23, 0x5c]) (h : Written bytes text) :
    Written (l ++ bytes) (l ++ text) := by
  induction l with
  | nil => exact h
  | cons b l ih =>
    rw [List.all_cons, Bool.and_eq_true, decide_eq_true_eq] at hl
    exact .literal hl.1 (ih hl.2)

/-- What a written field does not hold. -/
def unwritten : Str := ['\n', '\r', '\t', ' ', '#']

theorem unwritten_bytes : ∀ c ∈ unwritten, c.toNat < 128 ∧
    (isControl c = true ∨ UInt8.ofNat c.toNat ∈ [0x20, 0x23, 0x5c]) ∧
    UInt8.ofNat c.toNat ≠ 0x5c ∧ isOctal (UInt8.ofNat c.toNat) = false :=
  Scan.forall_of_all (by decide)

theorem not_mem_written {f : Str}
    (h : Written (f.flatMap String.utf8EncodeChar) (t.flatMap String.utf8EncodeChar))
    (hf : f.any isControl = false) {c : Char} (hc : c ∈ unwritten) : c ∉ t := by
  intro hmem
  obtain ⟨hlt, hkind, hslash, hoctal⟩ := unwritten_bytes c hc
  have hnat : (UInt8.ofNat c.toNat).toNat = c.toNat := by
    rw [UInt8.toNat_ofNat', Nat.mod_eq_of_lt (by omega)]
  have hbyte : UInt8.ofNat c.toNat ∈ t.flatMap String.utf8EncodeChar :=
    List.mem_flatMap.mpr ⟨c, hmem, by rw [utf8_ascii hlt]; exact List.mem_singleton_self _⟩
  obtain ⟨hin, hout⟩ | he | ho := mem_written h hbyte
  · obtain ⟨d, hd, hdb⟩ := List.mem_flatMap.mp hin
    have heq : d = c := Char.toNat_inj.mp ((toNat_of_mem_utf8 (hnat.symm ▸ hlt) hdb).trans hnat)
    obtain hcontrol | hspecial := hkind
    · exact List.any_eq_false.mp hf c (heq ▸ hd) hcontrol
    · exact hout hspecial
  · exact hslash he
  · rw [hoctal] at ho
    cases ho

theorem splitWhitespace_append {c : Char} (hc : isWhitespace c = true) :
    splitWhitespace (s ++ c :: t) = splitWhitespace s ++ splitWhitespace t := by
  rw [splitWhitespace, List.splitOnP_append_cons s t hc, List.filter_append]
  rfl

theorem exists_texts {fields : List Str} (h : WrittenLine fields text)
    (hs : s.flatMap String.utf8EncodeChar = text) :
    ∃ texts : List Str, List.Forall₂ (fun f t =>
        Written (f.flatMap String.utf8EncodeChar) (t.flatMap String.utf8EncodeChar)) fields texts ∧
      splitWhitespace s = texts.flatMap splitWhitespace ∧
      (∀ c ∈ s, c = ' ' ∨ c = '\t' ∨ ∃ t ∈ texts, c ∈ t) ∧ ∀ t ∈ texts, ∀ c ∈ t, c ∈ s := by
  have hblank {b : UInt8} (hb : IsBlank b) : b.toNat < 128 ∧
      (Char.ofNat b.toNat = ' ' ∨ Char.ofNat b.toNat = '\t') := by
    obtain rfl | rfl := hb <;> decide
  induction h generalizing s with
  | nil =>
    obtain rfl : s = [] := utf8_inj hs
    exact ⟨[], .nil, rfl, by simp, by simp⟩
  | blank hb _ ih =>
    obtain ⟨hlt, hc⟩ := hblank hb
    obtain ⟨s₁, s₂, rfl, hs₁, hs₂⟩ := utf8_split hlt (show _ = [] ++ _ from hs)
    obtain rfl : s₁ = [] := utf8_inj hs₁
    obtain ⟨texts, hwritten, hsplit, hchars, hmem⟩ := ih hs₂
    refine ⟨texts, hwritten, ?_, ?_, ?_⟩
    · rw [splitWhitespace_append (by obtain hc | hc := hc <;> rw [hc] <;> rfl), hsplit]
      rfl
    · intro c hin
      obtain rfl | hin := List.mem_cons.mp hin
      · exact hc.imp_right .inl
      · exact hchars c hin
    · exact fun t ht c hct => List.mem_cons_of_mem _ (hmem t ht c hct)
  | last hw =>
    refine ⟨[s], .cons (hs ▸ hw) .nil, ?_, ?_, ?_⟩
    · rw [List.flatMap_singleton]
    · exact fun c hc => .inr (.inr ⟨s, List.mem_singleton_self s, hc⟩)
    · intro t ht c hc
      rw [List.mem_singleton.mp ht] at hc
      exact hc
  | field hw hb _ ih =>
    obtain ⟨hlt, hc⟩ := hblank hb
    obtain ⟨s₁, s₂, rfl, hs₁, hs₂⟩ := utf8_split hlt hs
    obtain ⟨texts, hwritten, hsplit, hchars, hmem⟩ := ih hs₂
    refine ⟨s₁ :: texts, .cons (hs₁ ▸ hw) hwritten, ?_, ?_, ?_⟩
    · rw [splitWhitespace_append (by obtain hc | hc := hc <;> rw [hc] <;> rfl), hsplit]
      rfl
    · intro c hin
      obtain hin | hin := List.mem_append.mp hin
      · exact .inr (.inr ⟨s₁, List.mem_cons_self, hin⟩)
      · obtain rfl | hin := List.mem_cons.mp hin
        · exact hc.imp_right .inl
        · obtain hc | hc | ⟨t, ht, hct⟩ := hchars c hin
          · exact .inl hc
          · exact .inr (.inl hc)
          · exact .inr (.inr ⟨t, List.mem_cons_of_mem _ ht, hct⟩)
    · intro t ht c hct
      obtain rfl | ht := List.mem_cons.mp ht
      · exact List.mem_append_left _ hct
      · exact List.mem_append_right _ (List.mem_cons_of_mem _ (hmem t ht c hct))

theorem textLines_single (hne : s ≠ []) (hn : '\n' ∉ s) : textLines s = [s] := by
  have hsplit : s.splitOn '\n' = [s] := by
    rw [List.splitOn_eq_splitOnP]
    exact List.splitOnP_eq_singleton fun c hc => by simpa using ne_of_mem_of_not_mem hc hn
  simp [textLines, hsplit, hne]

theorem stripFrom_self {escaped : Bool} (h : '#' ∉ s) : stripFrom escaped s = s := by
  induction s generalizing escaped with
  | nil => rfl
  | cons c s ih =>
    obtain ⟨hc, hs⟩ := not_or.mp (mt List.mem_cons.mpr h)
    rw [stripFrom, if_neg fun hand => hc hand.1.symm, ih hs]

theorem splitWhitespace_trim (s : Str) : splitWhitespace (trim s) = splitWhitespace s := by
  have hstart (s : Str) : splitWhitespace (s.dropWhile isWhitespace) = splitWhitespace s := by
    induction s with
    | nil => rfl
    | cons c s ih =>
      by_cases hc : isWhitespace c = true
      · rw [List.dropWhile_cons_of_pos hc, ih]
        exact (splitWhitespace_append (s := []) hc).symm
      · rw [List.dropWhile_cons_of_neg hc]
  have hend (s : Str) : splitWhitespace (trimEnd isWhitespace s) = splitWhitespace s := by
    induction s using List.reverseRecOn with
    | nil => rfl
    | append_singleton s c ih =>
      by_cases hc : isWhitespace c = true
      · rw [trimEnd_concat hc, ih, splitWhitespace_ended hc]
      · rw [trimEnd_self fun d hd => by simp at hd; rw [← hd]; simpa using hc]
  rw [trim, hend, hstart]

/-- How many bytes a text stands for. -/
def weight (t : Str) : Nat := (decodeBytes (t.flatMap String.utf8EncodeChar)).length

theorem decodeBytes_plain (h : ∀ x ∈ l, x ≠ 0x5c) : decodeBytes (l ++ m) = l ++ decodeBytes m := by
  induction l with
  | nil => rfl
  | cons x l ih =>
    obtain ⟨hx, hl⟩ := List.forall_mem_cons.mp h
    rw [List.cons_append, decodeBytes_cons hx, ih hl]
    rfl

theorem whitespace_small : ∀ n < 256, (n < 128 → isWhitespace (Char.ofNat n) = true) →
    UInt8.ofNat n ≠ 0x5c ∧ isOctal (UInt8.ofNat n) = false := by decide +kernel

theorem whitespace_bytes {c : Char} (hc : isWhitespace c = true)
    (hx : x ∈ String.utf8EncodeChar c) : x ≠ 0x5c ∧ isOctal x = false := by
  have h := whitespace_small x.toNat x.toNat_lt fun hlt => by
    rw [← toNat_of_mem_utf8 hlt hx, Char.ofNat_toNat]
    exact hc
  rwa [UInt8.ofNat_toNat] at h

theorem weight_append {c : Char} (hc : isWhitespace c = true) :
    weight s + 1 + weight t ≤ weight (s ++ c :: t) := by
  have hbytes (x : UInt8) (hx : x ∈ String.utf8EncodeChar c) := whitespace_bytes hc hx
  have hpos : 0 < (String.utf8EncodeChar c).length := by
    rw [String.length_utf8EncodeChar]
    exact c.utf8Size_pos
  unfold weight
  rw [List.flatMap_append, List.flatMap_cons]
  cases henc : String.utf8EncodeChar c with
  | nil =>
    rw [henc] at hpos
    cases hpos
  | cons x xs =>
    rw [henc] at hbytes
    rw [List.cons_append, decodeBytes_append (hbytes x List.mem_cons_self).2, ← List.cons_append,
      decodeBytes_plain fun y hy => (hbytes y hy).1]
    simp only [List.length_append, List.length_cons]
    omega

/-- The words of a text stand for less than the text, by what stands between them. -/
theorem weight_words (t : Str) :
    ((splitWhitespace t).map weight).sum + t.countP isWhitespace ≤ weight t := by
  induction hn : t.length using Nat.strong_induction_on generalizing t with
  | h n ih =>
    by_cases hblank : ∃ c ∈ t, isWhitespace c = true
    · obtain ⟨c, hmem, hc⟩ := hblank
      obtain ⟨t₁, t₂, rfl⟩ := List.append_of_mem hmem
      rw [List.length_append, List.length_cons] at hn
      have h₁ := ih t₁.length (by omega) t₁ rfl
      have h₂ := ih t₂.length (by omega) t₂ rfl
      have hsum := weight_append (s := t₁) (t := t₂) hc
      rw [splitWhitespace_append hc, List.map_append, List.sum_append, List.countP_append,
        List.countP_cons_of_pos hc]
      omega
    · have hsolid : Solid t := fun c hc => by
        simpa using fun hw => hblank ⟨c, hc, hw⟩
      have hcount : t.countP isWhitespace = 0 :=
        List.countP_eq_zero.mpr fun c hc => by simp [hsolid c hc]
      rw [hcount]
      by_cases hnil : t = []
      · rw [hnil]
        rfl
      · rw [splitWhitespace_single hsolid hnil]
        simp

theorem forall₂_right {α β : Type} {r : α → β → Prop} {l : List α} {m : List β}
    (h : List.Forall₂ r l m) {b : β} (hb : b ∈ m) : ∃ a ∈ l, r a b := by
  induction h with
  | nil => cases hb
  | cons hr _ ih =>
    obtain rfl | hb := List.mem_cons.mp hb
    · exact ⟨_, List.mem_cons_self, hr⟩
    · obtain ⟨a, ha, hab⟩ := ih hb
      exact ⟨a, List.mem_cons_of_mem _ ha, hab⟩

theorem total_weight {fields texts : List Str} (h : List.Forall₂ (fun f t =>
      decodeBytes (t.flatMap String.utf8EncodeChar) = f.flatMap String.utf8EncodeChar) fields texts) :
    (texts.map weight).sum = (fields.map fun f => (f.flatMap String.utf8EncodeChar).length).sum := by
  induction h with
  | nil => rfl
  | cons hr _ ih => rw [List.map_cons, List.sum_cons, List.map_cons, List.sum_cons, ih, weight, hr]

theorem decodeBytes_nil (h : decodeBytes l = []) : l = [] := by
  unfold decodeBytes at h
  split at h
  · split at h <;> cases h
  · cases h
  · rfl

theorem weight_texts (texts : List Str) :
    ((texts.flatMap splitWhitespace).map weight).sum + (texts.map (·.countP isWhitespace)).sum ≤
      (texts.map weight).sum := by
  induction texts with
  | nil => rfl
  | cons t texts ih =>
    have ht := weight_words t
    simp only [List.flatMap_cons, List.map_append, List.sum_append, List.map_cons, List.sum_cons]
    omega

theorem decodeField_ok {f : Str} {n : Nat} :
    decodeField t n = .ok f ↔
      decodeBytes (t.flatMap String.utf8EncodeChar) = f.flatMap String.utf8EncodeChar := by
  unfold decodeField fromUtf8
  constructor
  · intro h
    cases hd : (ByteArray.mk (decodeBytes (t.flatMap String.utf8EncodeChar)).toArray).utf8Decode? with
    | none =>
      rw [hd] at h
      cases h
    | some chars =>
      rw [hd] at h
      obtain rfl : chars.toList = f := Except.ok.inj h
      exact utf8_of_utf8Decode hd
  · intro h
    rw [h, toList_utf8Decode]
    rfl

theorem decodeFields_ok {n : Nat} {raw fields : List Str} :
    decodeFields n raw = .ok fields ↔ List.Forall₂ (fun t f =>
      decodeBytes (t.flatMap String.utf8EncodeChar) = f.flatMap String.utf8EncodeChar ∧
        f.any isControl = false) raw fields := by
  unfold decodeFields
  induction raw generalizing fields with
  | nil =>
    rw [List.mapM_nil, pure_eq_ok]
    constructor
    · rintro rfl
      exact .nil
    · intro h
      cases h
      rfl
  | cons t raw ih =>
    rw [mapM_cons_eq_ok]
    simp only [ih]
    constructor
    · rintro ⟨f, hf, fs, hfs, rfl⟩
      obtain ⟨decoded, hdecoded, hf⟩ := bind_eq_ok.mp hf
      obtain ⟨hcontrol, hf⟩ := check_eq_ok.mp hf
      obtain rfl := pure_eq_ok.mp hf
      exact .cons ⟨decodeField_ok.mp hdecoded, Bool.eq_false_of_not_eq_true hcontrol⟩ hfs
    · intro h
      cases h with
      | @cons _ f _ fs hf hfs =>
        refine ⟨f, bind_eq_ok.mpr ⟨f, decodeField_ok.mpr hf.1, check_eq_ok.mpr ⟨?_, rfl⟩⟩, fs, hfs, rfl⟩
        rw [hf.2]
        exact Bool.false_ne_true

end

/-- What a table asks of the fields of a line. -/
structure Meets (crypttab : Bool) (fields : List Str) : Prop where
  enough : (if crypttab then 2 else 4) ≤ fields.length
  few : fields.length ≤ 6
  checked : crypttab = false → checkFields 1 fields = .ok ()

section

variable {crypttab : Bool} {fields : List Str} {line : Str}

theorem parseLine_ok (hmeets : Meets crypttab fields) (hplain : '#' ∉ line) :
    parseLine crypttab (line, 0) = .ok (some ⟨fields, 1⟩) ↔
      decodeFields 1 (splitWhitespace line) = .ok fields := by
  unfold parseLine
  dsimp only
  rw [stripComment, stripFrom_self hplain, splitWhitespace_trim]
  by_cases hempty : trim line = []
  · have hwords : splitWhitespace line = [] := by rw [← splitWhitespace_trim, hempty]; rfl
    have henough : 2 ≤ fields.length := le_trans (by split <;> omega) hmeets.enough
    rw [if_pos hempty, hwords, decodeFields_ok]
    constructor
    · intro h
      cases Except.ok.inj h
    · intro h
      cases h
      cases henough
  · rw [if_neg hempty, check_eq_ok, bind_eq_ok]
    constructor
    · rintro ⟨-, fields', hdecode, h⟩
      have hsame : fields' = fields := by
        split at h
        · cases Except.ok.inj h
          rfl
        · obtain ⟨-, -, h⟩ := bind_eq_ok.mp h
          cases Except.ok.inj h
          rfl
      exact hsame ▸ hdecode
    · intro h
      have hlength := (decodeFields_ok.mp h).length_eq
      have henough := hmeets.enough
      have hfew := hmeets.few
      refine ⟨by omega, fields, h, ?_⟩
      cases hc : crypttab with
      | true => rfl
      | false => exact bind_eq_ok.mpr ⟨(), hmeets.checked hc, rfl⟩

theorem parseTable_line (hne : line ≠ []) (hn : '\n' ∉ line) {entry : TableEntry} :
    parseTable line crypttab = .ok [entry] ↔ parseLine crypttab (line, 0) = .ok (some entry) := by
  rw [parseTable, textLines_single hne hn, List.zipIdx_singleton]
  cases h : parseLine crypttab (line, 0) with
  | error e => simp [h, bind, Except.bind, List.mapM_cons]
  | ok found =>
    cases found with
    | none => simp [h, bind, Except.bind, pure, Except.pure]
    | some e => simp [h, bind, Except.bind, pure, Except.pure]

/-- Written fields are read back exactly when none is empty and none has a blank of another
script written as it is. -/
theorem parseTable_ok (hfields : ∀ f ∈ fields, f.any isControl = false)
    (hmeets : Meets crypttab fields)
    (hline : WrittenLine fields (line.flatMap String.utf8EncodeChar)) :
    parseTable line crypttab = .ok [⟨fields, 1⟩] ↔
      (∀ f ∈ fields, f ≠ []) ∧ ∀ c ∈ line, isWhitespace c = true → c = ' ' ∨ c = '\t' := by
  obtain ⟨texts, hwritten, hsplit, hchars, hmem⟩ := exists_texts hline rfl
  have hpairs := hwritten.imp fun _ _ hw => decodeBytes_written hw
  have hfree {c : Char} (hc : c ∈ unwritten) {t : Str} (ht : t ∈ texts) : c ∉ t := by
    obtain ⟨f, hf, hw⟩ := forall₂_right hwritten ht
    exact not_mem_written hw (hfields f hf) hc
  have hplain {c : Char} (hc : c ∈ unwritten) (hs : c ≠ ' ') (htab : c ≠ '\t') : c ∉ line := by
    intro hin
    obtain rfl | rfl | ⟨t, ht, hct⟩ := hchars c hin
    · exact hs rfl
    · exact htab rfl
    · exact hfree hc ht hct
  have hne : line ≠ [] := by
    rintro rfl
    have henough : 2 ≤ fields.length := le_trans (by split <;> omega) hmeets.enough
    have hempty : WrittenLine fields [] := hline
    generalize hnil : ([] : List UInt8) = text at hempty
    cases hempty with
    | nil => cases henough
    | blank => cases hnil
    | last => exact absurd henough (by simp)
    | field => simp at hnil
  rw [parseTable_line hne (hplain (by decide) (by decide) (by decide)),
    parseLine_ok hmeets (hplain (by decide) (by decide) (by decide)), decodeFields_ok, hsplit]
  have htotal : (texts.map weight).sum =
      (fields.map fun f => (f.flatMap String.utf8EncodeChar).length).sum := total_weight hpairs
  constructor
  · intro h
    have hraw := total_weight (h.imp fun _ _ ht => ht.1).flip
    rw [← htotal] at hraw
    refine ⟨fun f hf => ?_, fun c hc hblank => ?_⟩
    · obtain ⟨t, ht, hdecode, -⟩ := forall₂_right h hf
      rintro rfl
      obtain ⟨text, -, htext⟩ := List.mem_flatMap.mp ht
      exact (solid_of_mem_splitWhitespace htext).2 (utf8_inj (decodeBytes_nil hdecode))
    · obtain hc | hc | ⟨t, ht, hct⟩ := hchars c hc
      · exact .inl hc
      · exact .inr hc
      · have hsum := weight_texts texts
        have hzero : (texts.map (·.countP isWhitespace)).sum = 0 := by omega
        have ht0 : t.countP isWhitespace = 0 :=
          List.sum_eq_zero_iff_forall_eq_nat.mp hzero _ (List.mem_map_of_mem ht)
        exact absurd hblank (by simpa using List.countP_eq_zero.mp ht0 c hct)
  · rintro ⟨hfull, hblanks⟩
    have hwords : texts.flatMap splitWhitespace = texts := by
      have hsingle : ∀ t ∈ texts, splitWhitespace t = [t] := by
        intro t ht
        obtain ⟨f, hf, hw⟩ := forall₂_right hwritten ht
        apply splitWhitespace_single
        · intro c hct
          by_contra hblank
          obtain rfl | rfl := hblanks c (hmem t ht c hct) (by simpa using hblank)
          · exact hfree (by decide) ht hct
          · exact hfree (by decide) ht hct
        · rintro rfl
          exact hfull f hf (utf8_inj (written_nil hw))
      rw [List.flatMap_congr hsingle, List.flatMap_singleton']
    have hboth := (List.forall₂_and_left fields texts).mpr ⟨hfields, hpairs⟩
    rw [hwords]
    exact (hboth.imp fun f t hft => And.intro hft.2 hft.1).flip

end

theorem decodeExactly_cons {a : UInt8} {l : List UInt8} (ha : a ≠ 0x5c) :
    decodeExactly (a :: l) = a :: decodeExactly l := by
  match l with
  | [] | [_] | [_, _] => rfl
  | _ :: _ :: _ :: _ => rw [decodeExactly, if_neg fun h => ha h.1]

theorem fits_short {a : UInt8} {l : List UInt8} (h : ∀ b c d tail, l = b :: c :: d :: tail → False) :
    decodeBytes (a :: l) = a :: decodeBytes l ∧ decodeExactly (a :: l) = a :: decodeExactly l ∧
      (Fits (a :: l) ↔ Fits l) := by
  match l with
  | [] | [_] | [_, _] => exact ⟨rfl, rfl, Iff.rfl⟩
  | b :: c :: d :: tail => exact (h b c d tail rfl).elim

/-- An escape that is none stays longer than the byte that it is read as. -/
theorem decodeBytes_exact (bytes : List UInt8) :
    (decodeBytes bytes).length ≤ (decodeExactly bytes).length ∧
      (decodeBytes bytes = decodeExactly bytes ↔ Fits bytes) := by
  induction bytes using decodeBytes.induct with
  | case1 a b c d bytes h ih =>
    obtain ⟨hle, hiff⟩ := ih
    obtain ⟨rfl, hb, hc, hd⟩ := h
    rw [decodeBytes, if_pos ⟨rfl, hb, hc, hd⟩, Fits, if_pos ⟨rfl, hb, hc, hd⟩, decodeExactly]
    by_cases hsmall : b ≤ 0x33
    · rw [if_pos ⟨rfl, hb, hc, hd, hsmall⟩]
      refine ⟨Nat.succ_le_succ hle, ?_⟩
      rw [List.cons.injEq, and_iff_right rfl, and_iff_right hsmall, hiff]
    · have hdigit {x : UInt8} (hx : isOctal x = true) : x ≠ 0x5c := by
        rintro rfl
        cases hx
      rw [if_neg fun h => hsmall h.2.2.2.2, decodeExactly_cons (hdigit hb),
        decodeExactly_cons (hdigit hc), decodeExactly_cons (hdigit hd)]
      refine ⟨by simp only [List.length_cons]; omega, iff_of_false (fun he => ?_) fun h => hsmall h.1⟩
      have hlength := congrArg List.length he
      simp only [List.length_cons] at hlength
      omega
  | case2 a b c d bytes h ih =>
    obtain ⟨hle, hiff⟩ := ih
    rw [decodeBytes, if_neg h, Fits, if_neg h, decodeExactly,
      if_neg fun he => h ⟨he.1, he.2.1, he.2.2.1, he.2.2.2.1⟩]
    refine ⟨Nat.succ_le_succ hle, ?_⟩
    rw [List.cons.injEq, and_iff_right rfl, hiff]
  | case3 a bytes hshort ih =>
    obtain ⟨hdecode, hexact, hfits⟩ := fits_short (a := a) hshort
    rw [hdecode, hexact, hfits, List.cons.injEq, and_iff_right rfl]
    exact ⟨Nat.succ_le_succ ih.1, ih.2⟩
  | case4 => exact ⟨Nat.le_refl _, iff_of_true rfl trivial⟩

/-- Written fields are read back exactly when none is empty and none has a blank of another
script written as it is, and escapes are read as their values exactly when none begins with
a digit above 3. -/
theorem parseTable_written_iff (crypttab : Bool) (fields : List Str) (line : Str)
    (hfields : ∀ f ∈ fields, f.any isControl = false) (hmeets : Meets crypttab fields)
    (hline : WrittenLine fields (line.flatMap String.utf8EncodeChar)) :
    (parseTable line crypttab = .ok [⟨fields, 1⟩] ↔
      (∀ f ∈ fields, f ≠ []) ∧ ∀ c ∈ line, isWhitespace c = true → c = ' ' ∨ c = '\t') ∧
    ∀ bytes : List UInt8, decodeBytes bytes = decodeExactly bytes ↔ Fits bytes :=
  ⟨parseTable_ok hfields hmeets hline, fun bytes => (decodeBytes_exact bytes).2⟩

/-- A target with a space in it, and its line. -/
def poolFields : List Str :=
  ["/dev/sda".toList, "/srv/data pool".toList, "ext4".toList, "rw".toList]

def poolLine : Str := "/dev/sda\t/srv/data\\040pool ext4 rw".toList

theorem poolLine_written : WrittenLine poolFields (poolLine.flatMap String.utf8EncodeChar) := by
  have hbytes : poolLine.flatMap String.utf8EncodeChar =
      "/dev/sda".toList.flatMap String.utf8EncodeChar ++ 0x09 ::
        ("/srv/data".toList.flatMap String.utf8EncodeChar ++
            (octal 0x20 ++ "pool".toList.flatMap String.utf8EncodeChar) ++ 0x20 ::
          ("ext4".toList.flatMap String.utf8EncodeChar ++ 0x20 ::
            "rw".toList.flatMap String.utf8EncodeChar)) := by decide
  have hword {word : String}
      (h : (word.toList.flatMap String.utf8EncodeChar).all fun b => b ∉ [0x20, 0x23, 0x5c]) :
      Written (word.toList.flatMap String.utf8EncodeChar)
        (word.toList.flatMap String.utf8EncodeChar) := by
    have hw := written_literal h .nil
    rwa [List.append_nil] at hw
  have hpool : Written ("/srv/data pool".toList.flatMap String.utf8EncodeChar)
      ("/srv/data".toList.flatMap String.utf8EncodeChar ++
        (octal 0x20 ++ "pool".toList.flatMap String.utf8EncodeChar)) := by
    have hfield : "/srv/data pool".toList.flatMap String.utf8EncodeChar =
        "/srv/data".toList.flatMap String.utf8EncodeChar ++
          0x20 :: "pool".toList.flatMap String.utf8EncodeChar := by decide
    rw [hfield]
    exact written_literal (by decide) (.escaped (hword (by decide)))
  rw [hbytes]
  exact .field (hword (by decide)) (.inr rfl) (.field hpool (.inl rfl)
    (.field (hword (by decide)) (.inl rfl) (.last (hword (by decide)))))

theorem parseTable_pool : parseTable poolLine false = .ok [⟨poolFields, 1⟩] :=
  (parseTable_written_iff false poolFields poolLine (Scan.forall_of_all (by decide))
    ⟨by decide, by decide, fun _ => by decide⟩ poolLine_written).1.mpr
    ⟨Scan.forall_of_all (by decide), Scan.forall_of_all (by decide)⟩

/-- `\501` is read as a letter. -/
theorem decodeField_wraps :
    decodeField "\\501".toList 1 = .ok "A".toList ∧
      ¬ ∀ bytes, decodeBytes bytes = decodeExactly bytes := by
  refine ⟨by decide, fun h => ?_⟩
  exact absurd (h [0x5c, 0x35, 0x30, 0x31]) (by decide)

end FractalD.Storage.Tables
