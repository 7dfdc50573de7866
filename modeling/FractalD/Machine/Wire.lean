import FractalD.Machine.Text

namespace FractalD.Machine.Wire

open FractalD.Machine.CString FractalD.Machine.Text

/-- A number is read back from its digits, unless it is too large. -/
theorem parseU64_print (n : Nat) :
    parseU64 (printUnsigned n) = if n ≤ ulongMax then some n else none := by
  have hdigit : ∀ c ∈ Nat.toDigits 10 n, c.isDigit := fun c hc =>
    Nat.isDigit_of_mem_toDigits (by decide) (by decide) hc
  have hvalue : decimalValue (Nat.toDigits 10 n) = n := Nat.ofDigitChars_ten_toDigits
  have hhead : (Nat.toDigits 10 n).head? ≠ some '+' := by
    intro hp
    have hplus := hdigit '+' (List.mem_of_mem_head? hp)
    revert hplus
    decide
  simp only [parseU64, printUnsigned, hhead, if_false, hvalue]
  refine if_congr ⟨fun h => h.2.2, fun h => ?_⟩ rfl rfl
  exact ⟨Nat.toDigits_ne_nil, List.all_eq_true.mpr hdigit, h⟩

theorem parseU64_printUnsigned {n : Nat} (h : n ≤ ulongMax) : parseU64 (printUnsigned n) = some n := by
  rw [parseU64_print, if_pos h]

theorem parseUnsigned_print {n id : Nat} :
    parseUnsigned 32 (printUnsigned n) = some id ↔ n = id ∧ n < 2 ^ 32 := by
  have hmax : n < 2 ^ 32 → n ≤ ulongMax := fun h => Nat.le_trans (Nat.le_of_lt h) (by decide)
  rw [parseUnsigned, parseU64_print]
  split
  next =>
    rw [Option.filter_some, Option.ite_none_right_eq_some, Option.some_inj, decide_eq_true_iff,
      and_comm]
  next hlarge => exact iff_of_false (by simp) fun h => hlarge (hmax h.2)

theorem parseUnsigned_lt {s : Str} {bits n : Nat} (h : parseUnsigned bits s = some n) : n < 2 ^ bits :=
  of_decide_eq_true (Option.filter_eq_some_iff.mp h).2

/-- A number is written with digits, and perhaps a sign. -/
theorem parseUnsigned_chars {s : Str} {bits n : Nat} (h : parseUnsigned bits s = some n) :
    ∀ c ∈ s, c.isDigit ∨ c = '+' := by
  obtain ⟨h, -⟩ := Option.filter_eq_some_iff.mp h
  rw [parseU64] at h
  have hdigits : (if s.head? = some '+' then s.tail else s).all Char.isDigit := by
    by_contra hnot
    rw [if_neg fun hand => hnot hand.2.1] at h
    cases h
  intro c hc
  have hall := List.all_eq_true.mp hdigits
  by_cases hplus : s.head? = some '+'
  · rw [if_pos hplus] at hall
    obtain ⟨rest, rfl⟩ := List.head?_eq_some_iff.mp hplus
    obtain rfl | hc := List.mem_cons.mp hc
    · exact .inr rfl
    · exact .inl (hall c hc)
  · rw [if_neg hplus] at hall
    exact .inl (hall c hc)

theorem printUnsigned_ne_nil (n : Nat) : printUnsigned n ≠ [] := Nat.toDigits_ne_nil

theorem isDigit_of_mem_printUnsigned {n : Nat} {c : Char} (h : c ∈ printUnsigned n) : c.isDigit :=
  Nat.isDigit_of_mem_toDigits (by decide) (by decide) h

theorem isWhitespace_of_isDigit {c : Char} (h : c.isDigit) : isWhitespace c = false := by
  simp only [Char.isDigit, Bool.and_eq_true, decide_eq_true_eq] at h
  have hlow : 48 ≤ c.toNat := UInt32.le_iff_toNat_le.mp h.1
  have hhigh : c.toNat ≤ 57 := UInt32.le_iff_toNat_le.mp h.2
  simp only [isWhitespace, isSpace, Bool.or_eq_false_iff, beq_eq_false_iff_ne, decide_eq_false_iff_not,
    Bool.and_eq_false_iff, List.mem_cons, List.not_mem_nil, or_false]
  omega

theorem keyChar_solid {c : Char} (h : (c.isAlphanum || c = '_' || c = '-') = true) :
    isWhitespace c = false := by
  have hrange : 45 ≤ c.toNat ∧ c.toNat ≤ 122 := by
    simp only [Bool.or_eq_true, decide_eq_true_eq] at h
    obtain (h | rfl) | rfl := h
    · rw [Char.isAlphanum, isAlpha_eq, isUpper_eq, isLower_eq, Char.isDigit] at h
      simp only [Bool.or_eq_true, Bool.and_eq_true, decide_eq_true_eq, ge_iff_le,
        UInt32.le_iff_toNat_le] at h
      change 45 ≤ c.val.toNat ∧ c.val.toNat ≤ 122
      have hA : 'A'.val.toNat = 65 := rfl
      have hZ : 'Z'.val.toNat = 90 := rfl
      have ha : 'a'.val.toNat = 97 := rfl
      have hz : 'z'.val.toNat = 122 := rfl
      have h0 : '0'.val.toNat = 48 := rfl
      have h9 : '9'.val.toNat = 57 := rfl
      omega
    · decide
    · decide
  unfold isWhitespace isSpace
  simp
  omega

/-- A text in which nothing splits words. -/
def Solid (s : Str) : Prop := ∀ c ∈ s, isWhitespace c = false

instance : DecidablePred Solid := fun s => List.decidableBAll _ s

theorem Solid.append {s t : Str} (hs : Solid s) (ht : Solid t) : Solid (s ++ t) := by
  intro c hc
  exact (List.mem_append.mp hc).elim (hs c) (ht c)

theorem solid_printUnsigned (n : Nat) : Solid (printUnsigned n) := by
  intro c hc
  exact isWhitespace_of_isDigit (isDigit_of_mem_printUnsigned hc)

theorem splitWhitespace_cons {word : Str} (h : Solid word) (hne : word ≠ []) {c : Char}
    (hc : isWhitespace c = true) (s : Str) :
    splitWhitespace (word ++ c :: s) = word :: splitWhitespace s := by
  rw [splitWhitespace, List.splitOnP_append_cons_of_forall_mem h c hc, List.filter_cons,
    if_pos (by simpa using hne)]
  rfl

theorem splitWhitespace_single {word : Str} (h : Solid word) (hne : word ≠ []) :
    splitWhitespace word = [word] := by
  rw [splitWhitespace, List.splitOnP_eq_singleton h, List.filter_cons, if_pos (by simpa using hne)]
  rfl

theorem splitWhitespace_ended {c : Char} (hc : isWhitespace c = true) (s : Str) :
    splitWhitespace (s ++ [c]) = splitWhitespace s := by
  rw [splitWhitespace, List.splitOnP_append_cons s [] hc, List.splitOnP_nil, List.filter_append]
  exact List.append_nil _

theorem mem_of_mem_splitOnP {p : Char → Bool} {s part : Str} (h : part ∈ s.splitOnP p) :
    ∀ c ∈ part, c ∈ s ∧ p c = false := by
  induction s generalizing part with
  | nil =>
    obtain rfl : part = [] := by simpa using h
    simp
  | cons a s ih =>
    rw [List.splitOnP_cons_eq_if_modifyHead] at h
    have hrest {t : Str} (ht : t ∈ s.splitOnP p) : ∀ c ∈ t, c ∈ a :: s ∧ p c = false :=
      fun c hc => ⟨List.mem_cons_of_mem _ (ih ht c hc).1, (ih ht c hc).2⟩
    split at h
    next =>
      obtain rfl | h := List.mem_cons.mp h
      · simp
      · exact hrest h
    next ha =>
      cases hs : s.splitOnP p with
      | nil => exact absurd hs (List.splitOnP_ne_nil _ _)
      | cons first parts =>
        rw [hs, List.modifyHead_cons] at h
        obtain rfl | h := List.mem_cons.mp h
        · intro c hc
          obtain rfl | hc := List.mem_cons.mp hc
          · exact ⟨List.mem_cons_self, by simpa using ha⟩
          · exact hrest (hs ▸ List.mem_cons_self) c hc
        · exact hrest (hs ▸ List.mem_cons_of_mem _ h)

theorem solid_of_mem_splitWhitespace {s word : Str} (h : word ∈ splitWhitespace s) :
    Solid word ∧ word ≠ [] := by
  obtain ⟨hmem, hne⟩ := List.mem_filter.mp h
  exact ⟨fun c hc => (mem_of_mem_splitOnP hmem c hc).2, by simpa using hne⟩

theorem join_cons_cons (word next : Str) (words : List Str) :
    join [' '] (word :: next :: words) = word ++ ' ' :: join [' '] (next :: words) := by
  rw [join, List.intercalate_cons_cons, List.append_assoc]
  rfl

theorem join_singleton {c : Char} (word : Str) : join [c] [word] = word := List.intercalate_singleton

/-- Words with a space between any two are read back. -/
theorem splitWhitespace_join {words : List Str} (h : ∀ word ∈ words, Solid word ∧ word ≠ []) :
    splitWhitespace (join [' '] words) = words := by
  induction words with
  | nil => rfl
  | cons word words ih =>
    obtain ⟨⟨hsolid, hne⟩, hwords⟩ := List.forall_mem_cons.mp h
    cases words with
    | nil =>
      rw [join_singleton]
      exact splitWhitespace_single hsolid hne
    | cons next words =>
      rw [join_cons_cons, splitWhitespace_cons hsolid hne rfl, ih hwords]

theorem trimEnd_concat {p : Char → Bool} {c : Char} (h : p c = true) (s : Str) :
    trimEnd p (s ++ [c]) = trimEnd p s := by
  simp only [trimEnd, List.reverse_append, List.reverse_singleton, List.singleton_append,
    List.dropWhile_cons_of_pos h]

theorem trimEnd_self {p : Char → Bool} {s : Str} (h : ∀ c ∈ s.getLast?, p c = false) :
    trimEnd p s = s := by
  obtain rfl | ⟨t, c, rfl⟩ := List.eq_nil_or_concat s
  · rfl
  · have hc : p c = false := h c (by simp)
    simp [trimEnd, hc]

theorem trimEnd_append (p : Char → Bool) (s : Str) :
    ∃ w, s = trimEnd p s ++ w ∧ (∀ c ∈ w, p c) ∧ ∀ c ∈ (trimEnd p s).getLast?, p c = false := by
  refine ⟨(s.reverse.takeWhile p).reverse, ?_, fun c hc => ?_, fun c hc => ?_⟩
  · rw [trimEnd, ← List.reverse_append, List.takeWhile_append_dropWhile, List.reverse_reverse]
  · exact List.all_eq_true.mp List.all_takeWhile c (List.mem_reverse.mp hc)
  · have hhead := List.head?_dropWhile_not p s.reverse
    rw [trimEnd, List.getLast?_reverse] at hc
    rw [hc] at hhead
    simpa using hhead

theorem trimEnd_append_self {p : Char → Bool} {s w : Str} (hs : ∀ c ∈ s.getLast?, p c = false)
    (hw : ∀ c ∈ w, p c) : trimEnd p (s ++ w) = s := by
  have hself := trimEnd_self hs
  rw [trimEnd] at hself
  rw [trimEnd, List.reverse_append,
    List.dropWhile_append_of_pos fun c hc => hw c (List.mem_reverse.mp hc), hself]

theorem trim_self {text : Str} (hfirst : ∀ c ∈ text.head?, isWhitespace c = false)
    (hlast : ∀ c ∈ text.getLast?, isWhitespace c = false) : trim text = text := by
  cases text with
  | nil => rfl
  | cons a text =>
    have ha : isWhitespace a = false := hfirst a rfl
    rw [trim, List.dropWhile_cons_of_neg (by simp [ha])]
    exact trimEnd_self hlast

/-- A line that begins and ends with words is found again. -/
theorem trim_ended {s : Str} (hfirst : ∀ c ∈ s.head?, isWhitespace c = false)
    (hlast : ∀ c ∈ s.getLast?, isWhitespace c = false) : trim (s ++ ['\n']) = s := by
  cases s with
  | nil => rfl
  | cons a s =>
    have ha : isWhitespace a = false := hfirst a rfl
    rw [trim, List.cons_append, List.dropWhile_cons_of_neg (by simp [ha]), ← List.cons_append,
      trimEnd_concat rfl]
    exact trimEnd_self hlast

theorem head_join {word : Str} {words : List Str} (hne : word ≠ []) :
    (join [' '] (word :: words)).head? = word.head? := by
  cases words with
  | nil => rw [join_singleton]
  | cons next words => rw [join_cons_cons, List.head?_append_of_ne_nil _ hne]

theorem getLast_join {words : List Str} (h : ∀ word ∈ words, Solid word ∧ word ≠ []) :
    ∀ c ∈ (join [' '] words).getLast?, isWhitespace c = false := by
  induction words with
  | nil => simp [join]
  | cons word words ih =>
    obtain ⟨⟨hsolid, -⟩, hwords⟩ := List.forall_mem_cons.mp h
    cases words with
    | nil =>
      rw [join_singleton]
      exact fun c hc => hsolid c (List.mem_of_getLast? hc)
    | cons next words =>
      have hne : join [' '] (next :: words) ≠ [] := by
        intro hnil
        have hhead := @head_join next words (hwords next List.mem_cons_self).2
        rw [hnil] at hhead
        exact (hwords next List.mem_cons_self).2 (List.head?_eq_none_iff.mp hhead.symm)
      rw [join_cons_cons, List.append_cons, List.getLast?_append_of_ne_nil _ hne]
      exact ih hwords

theorem trim_join {words : List Str} (h : ∀ word ∈ words, Solid word ∧ word ≠ []) :
    trim (join [' '] words ++ ['\n']) = join [' '] words := by
  apply trim_ended _ (getLast_join h)
  cases words with
  | nil => simp [join]
  | cons word words =>
    obtain ⟨hsolid, hne⟩ := h word List.mem_cons_self
    rw [head_join hne]
    exact fun c hc => hsolid c (List.mem_of_head? hc)

theorem removePrefix_some {start s t : Str} : removePrefix start s = some t ↔ s = start ++ t := by
  unfold removePrefix
  by_cases h : start.isPrefixOf s
  · obtain ⟨u, rfl⟩ := List.isPrefixOf_iff_prefix.mp h
    simp
  · simp only [h, Bool.false_eq_true, if_false, reduceCtorEq, false_iff]
    rintro rfl
    exact h (List.isPrefixOf_iff_prefix.mpr (List.prefix_append start t))

theorem removePrefix_append (start s : Str) : removePrefix start (start ++ s) = some s := by
  simp [removePrefix]

theorem not_mem_splitOn {c : Char} {s part : Str} (h : part ∈ s.splitOn c) : c ∉ part := by
  rw [List.splitOn_eq_splitOnP] at h
  intro hc
  simpa using (mem_of_mem_splitOnP h c hc).2

theorem mem_of_mem_splitOn {c x : Char} {s part : Str} (h : part ∈ s.splitOn c) (hx : x ∈ part) :
    x ∈ s := by
  rw [List.splitOn_eq_splitOnP] at h
  exact (mem_of_mem_splitOnP h x hx).1

theorem newline_not_mem {s line : Str} (h : line ∈ textLines s) : '\n' ∉ line := by
  rw [textLines, List.mem_append, List.mem_map] at h
  obtain ⟨part, hpart, rfl⟩ | h := h
  · have hfree := not_mem_splitOn (List.dropLast_subset _ hpart)
    split
    · exact fun hmem => hfree (List.dropLast_subset _ hmem)
    · exact hfree
  · have hpart := Option.mem_toList.mp (List.mem_of_mem_filter h)
    exact not_mem_splitOn (List.mem_of_getLast? hpart)

def OneLine (line : Str) : Prop := '\n' ∉ line ∧ line.getLast? ≠ some '\r'

/-- A line of a text, without the carriage return that may end it. -/
def unreturned (line : Str) : Str := if line.getLast? = some '\r' then line.dropLast else line

/-- A line with or without the carriage return that ends it. -/
theorem unreturned_cases (line : Str) : unreturned line = line ∨ line = unreturned line ++ ['\r'] := by
  rw [unreturned]
  split
  next h =>
    obtain ⟨start, rfl⟩ := List.getLast?_eq_some_iff.mp h
    exact .inr (by rw [List.dropLast_concat])
  next => exact .inl rfl

theorem unreturned_eq_iff {line : Str} : unreturned line = line ↔ line.getLast? ≠ some '\r' := by
  rw [unreturned]
  split
  next hlast =>
    refine iff_of_false (fun heq => ?_) (not_not_intro hlast)
    have hne : line ≠ [] := by
      rintro rfl
      cases hlast
    have := congrArg List.length heq
    rw [List.length_dropLast] at this
    have := List.length_pos_of_ne_nil hne
    omega
  next hlast => exact iff_of_true rfl hlast

theorem splitOn_ended {lines : List Str} (h : ∀ line ∈ lines, '\n' ∉ line) :
    (lines.flatMap (· ++ ['\n'])).splitOn '\n' = lines ++ [[]] := by
  induction lines with
  | nil => rfl
  | cons line lines ih =>
    obtain ⟨hline, hlines⟩ := List.forall_mem_cons.mp h
    rw [List.flatMap_cons, List.append_assoc, List.singleton_append,
      List.splitOn_append_cons_self_of_not_mem hline, ih hlines]
    rfl

theorem textLines_unreturned {lines : List Str} (h : ∀ line ∈ lines, '\n' ∉ line) :
    textLines (lines.flatMap (· ++ ['\n'])) = lines.map unreturned := by
  simp only [textLines, splitOn_ended h, List.dropLast_concat, List.getLast?_concat]
  simp [unreturned]

theorem textLines_ended_iff {lines : List Str} :
    textLines (lines.flatMap (· ++ ['\n'])) = lines ↔ ∀ line ∈ lines, OneLine line := by
  have hsame : lines.map unreturned = lines ↔ ∀ line ∈ lines, line.getLast? ≠ some '\r' := by
    have hmap := List.map_inj_left (l := lines) (f := unreturned) (g := id)
    rw [List.map_id] at hmap
    rw [hmap]
    exact forall₂_congr fun line _ => unreturned_eq_iff
  constructor
  · intro h
    have hfree : ∀ line ∈ lines, '\n' ∉ line := fun line hline =>
      newline_not_mem (s := lines.flatMap (· ++ ['\n'])) (by rwa [h])
    rw [textLines_unreturned hfree] at h
    exact fun line hline => ⟨hfree line hline, hsame.mp h line hline⟩
  · intro h
    rw [textLines_unreturned fun line hline => (h line hline).1]
    exact hsame.mpr fun line hline => (h line hline).2

theorem textLines_ends (s : Str) : textLines (s ++ ['\n']) = (s.splitOn '\n').map unreturned := by
  have hsplit : (s ++ ['\n']).splitOn '\n' = s.splitOn '\n' ++ [[]] :=
    List.splitOn_append_cons_self s []
  simp only [textLines, hsplit, List.dropLast_concat, List.getLast?_concat]
  simp [unreturned]

theorem textLines_append {a : Str} (h : a.getLast? = some '\n') (b : Str) :
    textLines (a ++ b) = textLines a ++ textLines b := by
  obtain ⟨s, rfl⟩ := List.getLast?_eq_some_iff.mp h
  have hsplit : (s ++ ['\n'] ++ b).splitOn '\n' = s.splitOn '\n' ++ b.splitOn '\n' := by
    rw [List.append_assoc]
    exact List.splitOn_append_cons_self s b
  have hne : b.splitOn '\n' ≠ [] := List.splitOn_ne_nil _ _
  rw [textLines_ends]
  simp only [textLines, hsplit, List.dropLast_append_of_ne_nil hne, List.map_append,
    List.getLast?_append_of_ne_nil _ hne]
  exact List.append_assoc ..

end FractalD.Machine.Wire
