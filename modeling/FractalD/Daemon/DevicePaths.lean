import FractalD.Daemon.Discovery
import FractalD.Machine.Scan
import FractalD.Storage.ServiceNames

namespace FractalD.Daemon.DevicePaths

open FractalD.Daemon.Discovery FractalD.Machine FractalD.Machine.CString
open FractalD.Machine.Delimited
open FractalD.Machine.Paths FractalD.Machine.Text FractalD.Machine.Utf8 FractalD.Machine.Wire
open FractalD.Storage.Fstab FractalD.Storage.ServiceNames FractalD.Storage.Services

/-- A path without repeated slashes, or one at its end. -/
def tidy (path : Str) : Str := '/' :: join ['/'] (pathParts path)

section

variable {s : Str} {b : UInt8} {rest : List UInt8}

theorem decodeDevice_cons (hb : b ≠ 0x5c) :
    decodeDevice (b :: rest) = plainByte b :: decodeDevice rest := by
  match rest with
  | [] | [_] | [_, _] => rfl
  | _ :: _ :: _ :: _ => rw [decodeDevice, if_neg fun h => hb h.1]

def digitByte (n : Nat) : UInt8 := UInt8.ofNat (Nat.digitChar n).toNat

theorem hexDigit_digitByte : ∀ n < 16, hexDigit (digitByte n) = some n := by decide

theorem utf8_digitChar : ∀ n < 16, String.utf8EncodeChar (Nat.digitChar n) = [digitByte n] := by
  decide

theorem plain_bytes : ∀ n < 256, isPlain (UInt8.ofNat n) →
    UInt8.ofNat n ≠ 0x5c ∧ UInt8.ofNat n ≠ 0x2d ∧
      String.utf8EncodeChar (Char.ofNat n) = [UInt8.ofNat n] := by decide +kernel

theorem decode_escapeByte :
    decodeDevice ((escapeByte b).flatMap String.utf8EncodeChar ++ rest) =
      Char.ofNat b.toNat :: decodeDevice rest := by
  have hlt := b.toNat_lt
  unfold escapeByte
  cases hp : isPlain b with
  | true =>
    have hplain := plain_bytes b.toNat hlt
    rw [UInt8.ofNat_toNat] at hplain
    obtain ⟨hslash, hdash, hbytes⟩ := hplain hp
    simp only [if_true, List.flatMap_cons, List.flatMap_nil, List.append_nil, hbytes,
      List.singleton_append]
    rw [decodeDevice_cons hslash, plainByte, if_neg hdash]
  | false =>
    have hhigh := hexDigit_digitByte (b.toNat / 16) (by omega)
    have hlow := hexDigit_digitByte (b.toNat % 16) (by omega)
    have hslash : String.utf8EncodeChar '\\' = [0x5c] := by decide
    have hx : String.utf8EncodeChar 'x' = [0x78] := by decide
    simp only [Bool.false_eq_true, if_false, List.flatMap_cons, List.flatMap_nil, List.append_nil,
      hslash, hx, utf8_digitChar _ (show b.toNat / 16 < 16 by omega),
      utf8_digitChar _ (show b.toNat % 16 < 16 by omega), List.nil_append, List.cons_append]
    rw [decodeDevice, if_pos ⟨rfl, rfl, by rw [hhigh]; rfl, by rw [hlow]; rfl⟩, hhigh, hlow,
      Option.getD_some, Option.getD_some, Nat.div_add_mod]

theorem decode_escapeComponent (s : Str) (rest : List UInt8) :
    decodeDevice ((escapeComponent s).flatMap String.utf8EncodeChar ++ rest) =
      byteChars s ++ decodeDevice rest := by
  unfold escapeComponent byteChars asBytes
  induction s.flatMap String.utf8EncodeChar with
  | nil => rfl
  | cons b bytes ih =>
    rw [List.flatMap_cons, List.flatMap_append, List.append_assoc, decode_escapeByte, ih]
    rfl

theorem decode_join (parts : List Str) :
    decodeDevice ((join ['-'] (parts.map escapeComponent)).flatMap String.utf8EncodeChar) =
      join ['/'] (parts.map byteChars) := by
  induction parts with
  | nil => rfl
  | cons part parts ih =>
    cases parts with
    | nil =>
      have h := decode_escapeComponent part []
      rw [List.append_nil, decodeDevice, List.append_nil] at h
      simp only [List.map_cons, List.map_nil, join_singleton]
      exact h
    | cons next parts =>
      have hdash : String.utf8EncodeChar '-' = [0x2d] := by decide
      rw [List.map_cons, List.map_cons (f := byteChars), join_cons (by simp), join_cons (by simp),
        List.flatMap_append, List.flatMap_cons, hdash, decode_escapeComponent,
        List.singleton_append, decodeDevice_cons (by decide), ih]
      rfl

theorem byteChars_eq_iff : byteChars s = s ↔ ∀ c ∈ s, c.toNat < 128 := by
  rw [← length_utf8_iff.2]
  constructor
  · intro h
    rw [← List.length_map fun b : UInt8 => Char.ofNat b.toNat]
    exact congrArg List.length h
  · intro h
    have hascii := length_utf8_iff.2.mp h
    unfold byteChars asBytes
    clear h
    induction s with
    | nil => rfl
    | cons c s ih =>
      obtain ⟨hc, hs⟩ := List.forall_mem_cons.mp hascii
      rw [List.flatMap_cons, utf8_ascii hc, List.singleton_append, List.map_cons, ih hs,
        UInt8.toNat_ofNat', Nat.mod_eq_of_lt (by omega), Char.ofNat_toNat]

theorem slash_not_mem_byteChars (h : '/' ∉ s) : '/' ∉ byteChars s := by
  intro hmem
  obtain ⟨b, hb, hc⟩ := List.mem_map.mp hmem
  obtain ⟨c, hcs, hbc⟩ := List.mem_flatMap.mp hb
  have hnat : b.toNat = 47 := by rw [← toNat_ofNat b.toNat b.toNat_lt, hc]; rfl
  have hslash : c = '/' := Char.toNat_inj.mp ((toNat_of_mem_utf8 (by omega) hbc).trans hnat)
  exact h (hslash ▸ hcs)

theorem mem_pathParts_of_mem {c : Char} (hslash : c ≠ '/') (h : c ∈ s) :
    ∃ part ∈ pathParts s, c ∈ part := by
  have hjoin : join ['/'] (s.splitOn '/') = s := List.intercalate_splitOn '/'
  rw [← hjoin, mem_join hslash] at h
  obtain ⟨part, hpart, hc⟩ := h
  exact ⟨part, List.mem_filter.mpr ⟨hpart, by simpa using List.ne_nil_of_mem hc⟩, hc⟩

theorem mem_of_mem_pathParts {part : Str} {c : Char} (hpart : part ∈ pathParts s) (hc : c ∈ part) :
    c ∈ s := by
  have hjoin : join ['/'] (s.splitOn '/') = s := List.intercalate_splitOn '/'
  have hsplit := (List.mem_filter.mp hpart).1
  have hslash : c ≠ '/' := by
    rintro rfl
    exact not_mem_splitOn hsplit hc
  rw [← hjoin, mem_join hslash]
  exact ⟨part, hsplit, hc⟩

theorem ascii_parts_iff :
    (∀ part ∈ pathParts s, ∀ c ∈ part, c.toNat < 128) ↔ ∀ c ∈ s, c.toNat < 128 := by
  constructor
  · intro h c hc
    by_cases hslash : c = '/'
    · rw [hslash]
      decide
    · obtain ⟨part, hpart, hcp⟩ := mem_pathParts_of_mem hslash hc
      exact h part hpart c hcp
  · intro h part hpart c hc
    exact h c (mem_of_mem_pathParts hpart hc)

theorem pathParts_dev : pathParts ("/dev/".toList ++ s) = "dev".toList :: pathParts s := by
  have hsplit : "/dev/".toList ++ s = "/dev".toList ++ '/' :: s := rfl
  rw [pathParts, hsplit, List.splitOn_append_cons_self, List.filter_append]
  rfl

theorem nativeDevicePath_deviceServiceName (hne : pathParts s ≠ []) :
    (deviceServiceName ("/dev/".toList ++ s)).bind nativeDevicePath =
      some ("/dev/".toList ++ join ['/'] ((pathParts s).map byteChars)) := by
  have hdev : escapeComponent "dev".toList = "dev".toList := by decide
  have hname : deviceServiceName ("/dev/".toList ++ s) =
      some ("device-dev-".toList ++ join ['-'] ((pathParts s).map escapeComponent)) := by
    unfold deviceServiceName
    rw [if_pos (by simp), pathParts_dev, List.map_cons, hdev, join_cons (by simpa using hne)]
    rfl
  rw [hname, Option.bind_some, nativeDevicePath, removePrefix_append]
  exact congrArg (fun path => some ("/dev/".toList ++ path)) (decode_join (pathParts s))

end

/-- The device that a service of its name waits for is the one that the table names exactly
when the name is all ASCII. -/
theorem nativeDevicePath_iff (source : Str) (hdev : "/dev/".toList <+: source)
    (hmore : 2 ≤ (pathParts source).length) :
    (deviceServiceName source).bind nativeDevicePath = some (tidy source) ↔
      ∀ c ∈ source, c.toNat < 128 := by
  obtain ⟨s, rfl⟩ := hdev
  rw [pathParts_dev, List.length_cons] at hmore
  have hne : pathParts s ≠ [] := List.ne_nil_of_length_pos (by omega)
  have htidy : tidy ("/dev/".toList ++ s) = "/dev/".toList ++ join ['/'] (pathParts s) := by
    rw [tidy, pathParts_dev, join_cons hne]
    rfl
  have hfree {l : List Str} (hl : ∀ part ∈ l, '/' ∉ part) (hnil : l ≠ []) :
      (join ['/'] l).splitOn '/' = l := List.splitOn_intercalate '/' hl hnil
  have hparts : ∀ part ∈ pathParts s, '/' ∉ part :=
    fun part hpart => not_mem_splitOn (List.mem_filter.mp hpart).1
  have hchars : ∀ part ∈ (pathParts s).map byteChars, '/' ∉ part := by
    intro part hpart
    obtain ⟨p, hp, rfl⟩ := List.mem_map.mp hpart
    exact slash_not_mem_byteChars (hparts p hp)
  have hprefix : ∀ c ∈ "/dev/".toList, c.toNat < 128 := Scan.forall_of_all (by decide)
  have hjoin : join ['/'] ((pathParts s).map byteChars) = join ['/'] (pathParts s) ↔
      (pathParts s).map byteChars = pathParts s := by
    constructor
    · intro h
      rw [← hfree hchars (by simpa using hne), h, hfree hparts hne]
    · intro h
      rw [h]
  rw [nativeDevicePath_deviceServiceName hne, htidy, Option.some_inj, List.append_cancel_left_eq,
    hjoin, List.forall_mem_append, and_iff_right hprefix, ← ascii_parts_iff]
  constructor
  · intro h part hpart
    have hsame : (pathParts s).map byteChars = (pathParts s).map id := by rw [h, List.map_id]
    exact byteChars_eq_iff.mp (List.map_inj_left.mp hsame part hpart)
  · intro h
    rw [List.map_congr_left fun part hpart => byteChars_eq_iff.mpr (h part hpart), List.map_id']

/-- A disk by its label, with a dash and a backslash in its name. -/
theorem nativeDevicePath_label :
    (deviceServiceName "/dev/disk//by-label/a\\b".toList).bind nativeDevicePath =
      some (tidy "/dev/disk//by-label/a\\b".toList) :=
  (nativeDevicePath_iff "/dev/disk//by-label/a\\b".toList (by decide) (by decide)).mpr
    (Scan.forall_of_all (by decide))

/-- A letter beyond ASCII is taken apart into its two bytes. -/
theorem nativeDevicePath_accent :
    (deviceServiceName "/dev/é".toList).bind nativeDevicePath = some "/dev/Ã©".toList ∧
      (deviceServiceName "/dev/é".toList).bind nativeDevicePath ≠ some (tidy "/dev/é".toList) := by
  constructor <;> decide

end FractalD.Daemon.DevicePaths
