import FractalD.Supervisor.Wildcards
import FractalD.Sysctl.Globs
import FractalD.Tmpfiles.Wildcards

namespace FractalD.Sysctl.Agreement

open FractalD.Machine.CString FractalD.Machine.Globbing FractalD.Machine.Utf8
open FractalD.Tmpfiles.Globs FractalD.Tmpfiles.Wildcards

/-- The texts that a pattern stands for, where a question mark is for one character. -/
def CharLanguage (pattern text : Str) : Prop := Matches '*' '?' pattern text

def ByteLanguage (pattern text : Str) : Prop := Matches star question (bytes pattern) (bytes text)

/-- All matchers tell whether a text is one that the pattern stands for. -/
structure Agree (pattern text : Str) : Prop where
  supervisor : Supervisor.Wildcards.wildcardMatch pattern text = true ↔ CharLanguage pattern text
  tmpfiles : wildcardMatch pattern text = true ↔ CharLanguage pattern text
  sysctl : Globs.globMatches pattern text = true ↔ CharLanguage pattern text

section

variable {p v : List UInt8} {pattern text : Str} {c : Char} {b : UInt8}

theorem matches_of_glob (h : Glob p v) : Matches star question p v := by
  induction h with
  | nil => exact .nil
  | star s _ ih => exact .star s ih
  | one hstar hone _ ih => exact .one hstar hone ih

theorem glob_of_matches (h : Matches star question p v) : Glob p v := by
  induction h with
  | nil => exact .nil
  | star s _ ih => exact .star s ih
  | one hstar hone _ ih => exact .one hstar hone ih

theorem matchers_agree_iff :
    Agree pattern text ↔ (ByteLanguage pattern text ↔ CharLanguage pattern text) := by
  have htmpfiles : wildcardMatch pattern text = true ↔ ByteLanguage pattern text :=
    wildcardMatch_iff.trans ⟨matches_of_glob, glob_of_matches⟩
  constructor
  · exact fun h => Globs.globMatches_iff.symm.trans h.sysctl
  · intro h
    exact ⟨Supervisor.Wildcards.wildcardMatch_iff, htmpfiles.trans h,
      Globs.globMatches_iff.trans h⟩

theorem bytes_cons (c : Char) (s : Str) : bytes (c :: s) = String.utf8EncodeChar c ++ bytes s :=
  List.flatMap_cons

theorem bytes_append (s t : Str) : bytes (s ++ t) = bytes s ++ bytes t := List.flatMap_append

theorem utf8_literal (hstar : c ≠ '*') (hquestion : c ≠ '?') :
    ∀ b ∈ String.utf8EncodeChar c, b ≠ star ∧ b ≠ question := by
  have hnot : ∀ d : Char, d.toNat < 128 → c ≠ d →
      UInt8.ofNat d.toNat ∉ String.utf8EncodeChar c := by
    intro d hd hne hmem
    have hsmall : (UInt8.ofNat d.toNat).toNat = d.toNat := by
      rw [UInt8.toNat_ofNat', Nat.mod_eq_of_lt (by omega)]
    have hnat := toNat_of_mem_utf8 (by rwa [hsmall]) hmem
    rw [hsmall] at hnat
    exact hne (Char.toNat_inj.mp hnat)
  intro b hb
  constructor
  · rintro rfl
    exact hnot '*' (by decide) hstar hb
  · rintro rfl
    exact hnot '?' (by decide) hquestion hb

theorem matches_literal {l : List UInt8} (h : ∀ b ∈ l, b ≠ star ∧ b ≠ question) :
    Matches star question (l ++ p) v ↔ ∃ w, v = l ++ w ∧ Matches star question p w := by
  induction l generalizing v with
  | nil => simp
  | cons b l ih =>
    obtain ⟨⟨hstar, hquestion⟩, hl⟩ := List.forall_mem_cons.mp h
    rw [List.cons_append, matches_one hstar]
    simp only [ih hl, hquestion, false_or]
    constructor
    · rintro ⟨_, _, rfl, rfl, w, rfl, hw⟩
      exact ⟨w, rfl, hw⟩
    · rintro ⟨w, rfl, hw⟩
      exact ⟨b, l ++ w, rfl, rfl, w, rfl, hw⟩

theorem matches_literal_char (hstar : c ≠ '*') (hquestion : c ≠ '?') :
    Matches '*' '?' (c :: pattern) text ↔
      ∃ rest, text = c :: rest ∧ Matches '*' '?' pattern rest := by
  rw [matches_one hstar]
  simp only [hquestion, false_or]
  constructor
  · rintro ⟨_, rest, rfl, rfl, h⟩
    exact ⟨rest, rfl, h⟩
  · rintro ⟨rest, rfl, h⟩
    exact ⟨c, rest, rfl, rfl, h⟩

theorem bytes_eq_append {w : List UInt8} : bytes text = String.utf8EncodeChar c ++ w ↔
    ∃ rest, text = c :: rest ∧ bytes rest = w := by
  constructor
  · intro h
    cases text with
    | nil =>
      obtain ⟨first, more, hc, -⟩ := utf8_shape c
      rw [hc] at h
      cases h
    | cons d rest =>
      rw [bytes_cons] at h
      obtain ⟨rfl, hrest⟩ := utf8_append_inj h
      exact ⟨rest, rfl, hrest⟩
  · rintro ⟨rest, rfl, rfl⟩
    exact bytes_cons c rest

theorem literal_iff {q : Str} (hstar : c ≠ '*') (hquestion : c ≠ '?')
    (h : ∀ rest, text = c :: rest → (ByteLanguage q rest ↔ CharLanguage q rest)) :
    ByteLanguage (c :: q) text ↔ CharLanguage (c :: q) text := by
  rw [ByteLanguage, bytes_cons, matches_literal (utf8_literal hstar hquestion), CharLanguage,
    matches_literal_char hstar hquestion]
  constructor
  · rintro ⟨w, hw, hmatches⟩
    obtain ⟨rest, rfl, rfl⟩ := bytes_eq_append.mp hw
    exact ⟨rest, rfl, (h rest rfl).mp hmatches⟩
  · rintro ⟨rest, rfl, hmatches⟩
    exact ⟨bytes rest, bytes_cons c rest, (h rest rfl).mpr hmatches⟩

theorem bytes_ascii (h : ∀ c ∈ text, c.toNat < 128) :
    bytes text = text.map fun c => UInt8.ofNat c.toNat := by
  induction text with
  | nil => rfl
  | cons c text ih =>
    obtain ⟨hc, htext⟩ := List.forall_mem_cons.mp h
    rw [bytes_cons, utf8_ascii hc, ih htext]
    rfl

theorem empty_agree (text : Str) : ByteLanguage [] text ↔ CharLanguage [] text := by
  rw [CharLanguage, matches_nil]
  change Matches star question [] _ ↔ _
  rw [matches_nil]
  constructor
  · intro h
    cases text with
    | nil => rfl
    | cons c text =>
      obtain ⟨first, more, hc, -⟩ := utf8_shape c
      rw [bytes_cons, hc] at h
      cases h
  · rintro rfl
    rfl

theorem ascii_agree (h : ∀ c ∈ text, c.toNat < 128) :
    ByteLanguage pattern text ↔ CharLanguage pattern text := by
  induction pattern generalizing text with
  | nil => exact empty_agree text
  | cons c pattern ih =>
    by_cases hstar : c = '*'
    · subst hstar
      rw [ByteLanguage, bytes_cons, CharLanguage, matches_star]
      change Matches star question (star :: bytes pattern) _ ↔ _
      rw [matches_star]
      constructor
      · rintro ⟨u, v, hbytes, hmatches⟩
        rw [bytes_ascii h] at hbytes
        obtain ⟨s, t, rfl, -, ht⟩ := List.map_eq_append_iff.mp hbytes
        have htext := (List.forall_mem_append.mp h).2
        rw [← ht, ← bytes_ascii htext] at hmatches
        exact ⟨s, t, rfl, (ih htext).mp hmatches⟩
      · rintro ⟨s, t, rfl, hmatches⟩
        exact ⟨bytes s, bytes t, bytes_append s t,
          (ih (List.forall_mem_append.mp h).2).mpr hmatches⟩
    by_cases hquestion : c = '?'
    · subst hquestion
      rw [ByteLanguage, bytes_cons, CharLanguage, matches_one (by decide)]
      change Matches star question (question :: bytes pattern) _ ↔ _
      rw [matches_one (by decide), bytes_ascii h]
      simp only [true_or, true_and]
      constructor
      · rintro ⟨x, w, hbytes, hmatches⟩
        obtain ⟨d, rest, rfl, -, hw⟩ := List.map_eq_cons_iff.mp hbytes
        have hrest := (List.forall_mem_cons.mp h).2
        rw [← hw, ← bytes_ascii hrest] at hmatches
        exact ⟨d, rest, rfl, (ih hrest).mp hmatches⟩
      · rintro ⟨d, rest, rfl, hmatches⟩
        have hrest := (List.forall_mem_cons.mp h).2
        refine ⟨_, _, rfl, ?_⟩
        rw [← bytes_ascii hrest]
        exact (ih hrest).mpr hmatches
    · refine literal_iff hstar hquestion fun rest htext => ih ?_
      rw [htext] at h
      exact (List.forall_mem_cons.mp h).2

theorem ascii_of_agree (h : ∀ pattern, ByteLanguage pattern text ↔ CharLanguage pattern text) :
    ∀ c ∈ text, c.toNat < 128 := by
  have hquestions := h (List.replicate text.length '?')
  have hbytes : bytes (List.replicate text.length '?') = List.replicate text.length question := by
    rw [bytes, List.flatMap_replicate]
    exact List.flatten_replicate_singleton
  rw [ByteLanguage, hbytes, matches_questions (by decide), CharLanguage,
    matches_questions (by decide)] at hquestions
  exact length_utf8_iff.2.mp (hquestions.mpr rfl)

end

end FractalD.Sysctl.Agreement
