import FractalD.Sysctl.Agreement

namespace FractalD.Sysctl.Narrowness

open FractalD.Machine.CString FractalD.Machine.Globbing FractalD.Machine.Utf8
open FractalD.Sysctl.Agreement FractalD.Tmpfiles.Globs

section

variable {v : List UInt8} {pattern text : Str} {c : Char} {b : UInt8}

/-- Each run of wildcards in the rest of a pattern has no question mark, or one and a star; the run
before it has those that are given. -/
def narrowFrom (hasStar hasQuestion : Bool) : Str → Bool
  | [] => !hasQuestion || hasStar
  | '*' :: pattern => narrowFrom true hasQuestion pattern
  | '?' :: pattern => !hasQuestion && narrowFrom hasStar true pattern
  | _ :: pattern => (!hasQuestion || hasStar) && narrowFrom false false pattern

/-- No question mark of a pattern has to be for one character only. -/
def Narrow (pattern : Str) : Prop := narrowFrom false false pattern = true

theorem le_length_bytes (one : Bool) (s : Str) :
    one.toNat ≤ (bytes s).length ↔ one.toNat ≤ s.length := by
  cases one with
  | false => simp
  | true =>
    cases s with
    | nil => rfl
    | cons c s =>
      obtain ⟨first, more, hc, -⟩ := utf8_shape c
      rw [bytes_cons, hc]
      simp

theorem floating_literal {q : Str} {one : Bool} (hstar : c ≠ '*') (hquestion : c ≠ '?')
    (h : ∀ rest, ByteLanguage q rest ↔ CharLanguage q rest) :
    Floating star question one.toNat (bytes (c :: q)) (bytes text) ↔
      Floating '*' '?' one.toNat (c :: q) text := by
  rw [bytes_cons]
  simp only [Floating, matches_literal (utf8_literal hstar hquestion),
    matches_literal_char hstar hquestion]
  constructor
  · rintro ⟨u, _, hbytes, hn, w, rfl, hmatches⟩
    obtain ⟨first, more, hc, hfirst, -⟩ := utf8_shape c
    obtain ⟨s, t, rfl, rfl, ht⟩ := utf8_split_head hbytes fun b hb => by
      rw [hc] at hb
      cases hb
      exact hfirst
    obtain ⟨rest, rfl, rfl⟩ := bytes_eq_append.mp ht
    exact ⟨s, c :: rest, rfl, (le_length_bytes one s).mp hn, rest, rfl, (h rest).mp hmatches⟩
  · rintro ⟨s, _, rfl, hn, rest, rfl, hmatches⟩
    refine ⟨bytes s, bytes (c :: rest), bytes_append _ _, (le_length_bytes one s).mpr hn,
      bytes rest, bytes_cons c rest, (h rest).mpr hmatches⟩

theorem narrowFrom_literal {hasStar hasQuestion : Bool} (hstar : c ≠ '*') (hquestion : c ≠ '?') :
    narrowFrom hasStar hasQuestion (c :: pattern) =
      ((!hasQuestion || hasStar) && narrowFrom false false pattern) := by
  rw [narrowFrom]
  · exact hstar
  · exact hquestion

theorem narrowFrom_agree (pattern : Str) :
    (narrowFrom false false pattern = true →
      ∀ text, ByteLanguage pattern text ↔ CharLanguage pattern text) ∧
    (narrowFrom false true pattern = true →
      ∀ text, ByteLanguage ('?' :: pattern) text ↔ CharLanguage ('?' :: pattern) text) ∧
    ∀ one, narrowFrom true one pattern = true → ∀ text,
      Floating star question one.toNat (bytes pattern) (bytes text) ↔
        Floating '*' '?' one.toNat pattern text := by
  induction pattern with
  | nil =>
    refine ⟨fun _ => empty_agree, nofun, fun one _ text => ?_⟩
    change Floating star question one.toNat [] _ ↔ _
    rw [floating_nil, floating_nil, le_length_bytes]
  | cons c pattern ih =>
    obtain ⟨ihplain, ihquestion, ihstar⟩ := ih
    by_cases hstar : c = '*'
    · subst hstar
      refine ⟨fun h text => ?_, fun h text => ?_, fun one h text => ?_⟩
      · exact floating_zero.symm.trans ((ihstar false h text).trans floating_zero)
      · exact (question_star (by decide)).trans
          ((ihstar true h text).trans (question_star (by decide)).symm)
      · exact floating_star.trans ((ihstar one h text).trans floating_star.symm)
    by_cases hquestion : c = '?'
    · subst hquestion
      refine ⟨ihquestion, nofun, fun one h text => ?_⟩
      cases one with
      | true => cases h
      | false =>
        exact (floating_question (by decide)).trans
          ((ihstar true h text).trans (floating_question (by decide)).symm)
    · have hrest {hasStar hasQuestion : Bool}
          (h : narrowFrom hasStar hasQuestion (c :: pattern) = true) :
          (!hasQuestion || hasStar) = true ∧ narrowFrom false false pattern = true := by
        rwa [narrowFrom_literal hstar hquestion, Bool.and_eq_true] at h
      refine ⟨fun h text => ?_, fun h => ?_, fun one h text => ?_⟩
      · exact literal_iff hstar hquestion fun rest _ => ihplain (hrest h).2 rest
      · cases (hrest h).1
      · exact floating_literal hstar hquestion (ihplain (hrest h).2)

theorem pattern_induction {P : Str → Prop} (nil : P []) (star : ∀ p, P p → P ('*' :: p))
    (question : ∀ p, P p → P ('?' :: p))
    (literal : ∀ c p, c ≠ '*' → c ≠ '?' → P p → P (c :: p)) (p : Str) : P p := by
  induction p with
  | nil => exact nil
  | cons c p ih =>
    by_cases hstar : c = '*'
    · rw [hstar]
      exact star p ih
    by_cases hquestion : c = '?'
    · rw [hquestion]
      exact question p ih
    · exact literal c p hstar hquestion ih

/-- A text that a pattern stands for, as short as one can be. -/
def plain : Str → Str
  | [] => []
  | '*' :: pattern => plain pattern
  | '?' :: pattern => 'x' :: plain pattern
  | c :: pattern => c :: plain pattern

theorem plain_literal (hstar : c ≠ '*') (hquestion : c ≠ '?') (p : Str) :
    plain (c :: p) = c :: plain p := by
  rw [plain]
  · exact hstar
  · exact hquestion

theorem plain_append (p q : Str) : plain (p ++ q) = plain p ++ plain q := by
  induction p using pattern_induction with
  | nil => rfl
  | star p ih => exact ih
  | question p ih => exact congrArg ('x' :: ·) ih
  | literal c p hstar hquestion ih =>
    rw [List.cons_append, plain_literal hstar hquestion, plain_literal hstar hquestion, ih]
    rfl

theorem plain_language (p : Str) : CharLanguage p (plain p) := by
  induction p using pattern_induction with
  | nil => exact .nil
  | star p ih => exact .star [] ih
  | question p ih => exact .one (by decide) (.inl rfl) ih
  | literal c p hstar hquestion ih =>
    rw [plain_literal hstar hquestion]
    exact .one hstar (.inr rfl) ih

theorem plain_byteLanguage (p : Str) : ByteLanguage p (plain p) := by
  induction p using pattern_induction with
  | nil => exact .nil
  | star p ih => exact .star [] ih
  | question p ih => exact .one (by decide) (.inl rfl) ih
  | literal c p hstar hquestion ih =>
    rw [plain_literal hstar hquestion, ByteLanguage, bytes_cons, bytes_cons,
      matches_literal (utf8_literal hstar hquestion)]
    exact ⟨_, rfl, ih⟩

theorem plain_le {p t : Str} (h : CharLanguage p t) : (plain p).length ≤ t.length := by
  induction p using pattern_induction generalizing t with
  | nil => exact Nat.zero_le _
  | star p ih =>
    obtain ⟨u, v, rfl, hv⟩ := matches_star.mp h
    rw [List.length_append]
    exact Nat.le_add_left_of_le (ih hv)
  | question p ih =>
    obtain ⟨x, v, rfl, -, hv⟩ := (matches_one (by decide)).mp h
    exact Nat.succ_le_succ (ih hv)
  | literal c p hstar hquestion ih =>
    obtain ⟨x, v, rfl, -, hv⟩ := (matches_one hstar).mp h
    rw [plain_literal hstar hquestion]
    exact Nat.succ_le_succ (ih hv)

theorem plain_bytes_le {p : Str} (h : Matches star question (bytes p) v) :
    (bytes (plain p)).length ≤ v.length := by
  induction p using pattern_induction generalizing v with
  | nil => exact Nat.zero_le _
  | star p ih =>
    obtain ⟨u, w, rfl, hw⟩ := matches_star.mp h
    rw [List.length_append]
    exact Nat.le_add_left_of_le (ih hw)
  | question p ih =>
    obtain ⟨x, w, rfl, -, hw⟩ := (matches_one (by decide)).mp h
    exact Nat.succ_le_succ (ih hw)
  | literal c p hstar hquestion ih =>
    rw [bytes_cons, matches_literal (utf8_literal hstar hquestion)] at h
    obtain ⟨w, rfl, hw⟩ := h
    rw [plain_literal hstar hquestion, bytes_cons, List.length_append, List.length_append]
    exact Nat.add_le_add_left (ih hw) _

def IsLiteral (c : Char) : Prop := c ≠ '*' ∧ c ≠ '?'

/-- A pattern with a question mark that has to be for one character only: one of two that no
literal is between, or one between literals. -/
inductive Wide : Str → Prop
  | twice (a r b : Str) (hr : ∀ c ∈ r, c = '*' ∨ c = '?') (hq : 2 ≤ r.count '?') :
    Wide (a ++ r ++ b)
  | alone (a b : Str) (ha : ∀ c ∈ a.getLast?, IsLiteral c) (hb : ∀ c ∈ b.head?, IsLiteral c) :
    Wide (a ++ ['?'] ++ b)

theorem run_alone {r : Str} (hr : ∀ c ∈ r, c = '*' ∨ c = '?') (hstar : '*' ∉ r)
    (hq : r.count '?' = 1) : r = ['?'] := by
  have hall : ∀ c ∈ r, c = '?' := by
    intro c hc
    refine (hr c hc).resolve_left ?_
    rintro rfl
    exact hstar hc
  have hreplicate := List.eq_replicate_of_mem hall
  rw [hreplicate, List.count_replicate_self] at hq
  rw [hreplicate, hq]
  rfl

/-- The run of wildcards before the rest of a pattern is `r`. -/
theorem wide_of_not_narrow {p a r : Str} {hasStar hasQuestion : Bool}
    (ha : ∀ c ∈ a.getLast?, IsLiteral c) (hr : ∀ c ∈ r, c = '*' ∨ c = '?')
    (hstar : '*' ∈ r → hasStar = true) (hq : r.count '?' = hasQuestion.toNat)
    (h : narrowFrom hasStar hasQuestion p = false) : Wide (a ++ r ++ p) := by
  induction p using pattern_induction generalizing a r hasStar hasQuestion with
  | nil =>
    simp only [narrowFrom, Bool.or_eq_false_iff, Bool.not_eq_false'] at h
    obtain ⟨rfl, rfl⟩ := h
    rw [run_alone hr (fun hs => absurd (hstar hs) (by decide)) hq]
    exact .alone a [] ha (by simp)
  | star p ih =>
    have := @ih a (r ++ ['*']) true hasQuestion ha
      (by simpa [or_imp, forall_and] using hr) (fun _ => rfl) (by simpa using hq) h
    simpa using this
  | question p ih =>
    rw [narrowFrom, Bool.and_eq_false_iff] at h
    cases hasQuestion with
    | true =>
      have := Wide.twice a (r ++ ['?']) p (by simpa [or_imp, forall_and] using hr)
        (by simp [List.count_append, hq])
      simpa using this
    | false =>
      have := @ih a (r ++ ['?']) hasStar true ha
        (by simpa [or_imp, forall_and] using hr) (by simpa using hstar)
        (by simp [List.count_append, hq]) (h.resolve_left (by simp))
      simpa using this
  | literal c p hs hquestion ih =>
    rw [narrowFrom_literal hs hquestion, Bool.and_eq_false_iff, Bool.or_eq_false_iff,
      Bool.not_eq_false'] at h
    obtain ⟨rfl, rfl⟩ | h := h
    · rw [run_alone hr (fun hs => absurd (hstar hs) (by decide)) hq]
      exact .alone a (c :: p) ha (by simpa using ⟨hs, hquestion⟩)
    · have := @ih (a ++ r ++ [c]) [] false false
        (by simpa using ⟨hs, hquestion⟩) (by simp) (by simp) rfl h
      simpa using this

theorem matches_run {r : Str} (hr : ∀ c ∈ r, c = '*' ∨ c = '?') (hv : v.length = r.count '?') :
    Matches star question (bytes r) v := by
  induction r generalizing v with
  | nil =>
    rw [List.length_eq_zero_iff.mp hv]
    exact .nil
  | cons c r ih =>
    obtain ⟨hc, hrest⟩ := List.forall_mem_cons.mp hr
    obtain rfl | rfl := hc
    · exact .star [] (ih hrest (by simpa using hv))
    · rw [List.count_cons_self] at hv
      obtain ⟨x, w, rfl⟩ := List.exists_cons_of_length_eq_add_one hv
      exact .one (by decide) (.inl rfl) (ih hrest (Nat.succ.inj hv))

theorem length_plain_run {r : Str} (hr : ∀ c ∈ r, c = '*' ∨ c = '?') :
    (plain r).length = r.count '?' := by
  induction r with
  | nil => rfl
  | cons c r ih =>
    obtain ⟨hc, hrest⟩ := List.forall_mem_cons.mp hr
    obtain rfl | rfl := hc
    · rw [List.count_cons_of_ne (by decide)]
      exact ih hrest
    · rw [List.count_cons_self, ← ih hrest]
      rfl

theorem utf8_last (hlast : b ∈ (String.utf8EncodeChar c).getLast?) : b ≠ 0xc3 := by
  obtain ⟨first, more, hc, hfirst, hmore⟩ := utf8_shape c
  rintro rfl
  rw [hc] at hlast
  cases more with
  | nil =>
    by_cases hascii : c.toNat < 128
    · rw [utf8_ascii hascii] at hc
      cases hlast
      have hnat := congrArg UInt8.toNat (List.cons.inj hc).1
      rw [UInt8.toNat_ofNat'] at hnat
      change c.toNat % 256 = 195 at hnat
      omega
    · have := one_lt_length_utf8 (Nat.not_lt.mp hascii)
      rw [hc] at this
      exact absurd this (Nat.lt_irrefl 1)
  | cons d more =>
    rw [List.getLast?_cons_cons] at hlast
    exact absurd (hmore _ (List.mem_of_getLast? hlast)) (by decide)

/-- One character for two question marks is one byte for each of them. -/
theorem twice_differs {a r p : Str} (hr : ∀ c ∈ r, c = '*' ∨ c = '?') (hq : 2 ≤ r.count '?') :
    ∃ text, ByteLanguage (a ++ r ++ p) text ∧ ¬ CharLanguage (a ++ r ++ p) text := by
  have hx : (bytes (List.replicate (r.count '?' - 2) 'x')).length = r.count '?' - 2 := by
    rw [bytes_ascii (fun c hc => by rw [List.eq_of_mem_replicate hc]; decide), List.length_map,
      List.length_replicate]
  refine ⟨plain a ++ ('é' :: List.replicate (r.count '?' - 2) 'x') ++ plain p, ?_, fun h => ?_⟩
  · rw [ByteLanguage, bytes_append, bytes_append, bytes_append, bytes_append, matches_append]
    refine ⟨_, _, rfl, ?_, plain_byteLanguage p⟩
    rw [matches_append]
    refine ⟨_, _, rfl, plain_byteLanguage a, matches_run hr ?_⟩
    rw [bytes_cons, List.length_append, hx]
    change 2 + _ = _
    omega
  · have hle := plain_le h
    simp only [plain_append, List.length_append, List.length_cons, List.length_replicate,
      length_plain_run hr] at hle
    omega

/-- Between literals one byte of a character that has two leaves the other one over. -/
theorem alone_differs {a p : Str} (ha : ∀ c ∈ a.getLast?, IsLiteral c)
    (hp : ∀ c ∈ p.head?, IsLiteral c) :
    ∃ text, CharLanguage (a ++ ['?'] ++ p) text ∧ ¬ ByteLanguage (a ++ ['?'] ++ p) text := by
  have hone : CharLanguage ['?'] ['é'] := .one (by decide) (.inl rfl) .nil
  refine ⟨plain a ++ ['é'] ++ plain p, ?_, fun h => ?_⟩
  · rw [CharLanguage, matches_append]
    refine ⟨_, _, rfl, ?_, plain_language p⟩
    rw [matches_append]
    exact ⟨_, _, rfl, plain_language a, hone⟩
  rw [ByteLanguage, bytes_append, bytes_append, bytes_append, bytes_append, matches_append] at h
  obtain ⟨w, v, htext, hw, hv⟩ := h
  rw [matches_append] at hw
  obtain ⟨u, m, rfl, hu, hm⟩ := hw
  obtain ⟨x, rfl, -⟩ := (matches_one_only (by decide)).mp hm
  have hule := plain_bytes_le hu
  have hvle := plain_bytes_le hv
  have hlength := congrArg List.length htext
  simp only [List.length_append, List.length_singleton] at hlength
  change _ + 2 + _ = _ at hlength
  have htext' : bytes (plain a) ++ 0xc3 :: 0xa9 :: bytes (plain p) = u ++ x :: v := by
    rw [List.append_assoc, List.append_assoc, List.singleton_append] at htext
    exact htext
  by_cases hlen : u.length = (bytes (plain a)).length
  · -- the second byte is left for a literal
    obtain ⟨-, hrest⟩ := List.append_inj htext' hlen.symm
    obtain ⟨-, rfl⟩ := List.cons.inj hrest
    cases p with
    | nil =>
      have hnil := matches_nil.mp hv
      cases hnil
    | cons c p =>
      obtain ⟨hstar, hquestion⟩ := hp c rfl
      rw [bytes_cons, matches_literal (utf8_literal hstar hquestion)] at hv
      obtain ⟨rest, hrest, -⟩ := hv
      obtain ⟨first, more, hc, hfirst, -⟩ := utf8_shape c
      rw [hc] at hrest
      obtain ⟨rfl, -⟩ := List.cons.inj hrest
      cases hfirst
  · -- the first byte is taken for the end of a literal
    have hu' : u = bytes (plain a) ++ [0xc3] := by
      have hshift : (bytes (plain a) ++ [0xc3]) ++ 0xa9 :: bytes (plain p) = u ++ x :: v := by
        simpa using htext'
      exact (List.append_inj hshift (by simp; omega)).1.symm
    obtain rfl | ⟨a, c, rfl⟩ := List.eq_nil_or_concat a
    · have hnil := matches_nil.mp hu
      rw [hu'] at hnil
      simp at hnil
    · rw [List.concat_eq_append] at ha hu hu'
      obtain ⟨hstar, hquestion⟩ := ha c (by simp)
      rw [bytes_append, bytes_cons, matches_append] at hu
      obtain ⟨before, last, rfl, -, hlast⟩ := hu
      rw [matches_literal (utf8_literal hstar hquestion)] at hlast
      obtain ⟨rest, rfl, hrest⟩ := hlast
      obtain rfl := matches_nil.mp hrest
      obtain ⟨first, more, hc, -⟩ := utf8_shape c
      have hend := congrArg List.getLast? hu'
      rw [List.append_nil, List.getLast?_concat,
        List.getLast?_append_of_ne_nil _ (by rw [hc]; simp)] at hend
      exact utf8_last hend rfl

theorem wide_differs (h : Wide pattern) :
    ∃ text, ¬ (ByteLanguage pattern text ↔ CharLanguage pattern text) := by
  cases h with
  | twice a r p hr hq =>
    obtain ⟨text, hbytes, hchars⟩ := twice_differs (a := a) (p := p) hr hq
    exact ⟨text, fun hiff => hchars (hiff.mp hbytes)⟩
  | alone a p ha hp =>
    obtain ⟨text, hchars, hbytes⟩ := alone_differs ha hp
    exact ⟨text, fun hiff => hbytes (hiff.mpr hchars)⟩

theorem narrow_iff :
    (∀ text, ByteLanguage pattern text ↔ CharLanguage pattern text) ↔ Narrow pattern := by
  refine ⟨fun h => ?_, fun h => (narrowFrom_agree pattern).1 h⟩
  by_contra hnot
  obtain ⟨text, htext⟩ := wide_differs (wide_of_not_narrow (a := []) (r := []) (by simp) (by simp)
    (by simp) rfl (Bool.eq_false_iff.mpr hnot))
  exact htext (h text)

/-- The matchers agree on a text for all patterns exactly if it is ASCII, and with a pattern on all
texts exactly if it is narrow. -/
theorem agree_iff_ascii (pattern text : Str) :
    ((∀ pattern, Agree pattern text) ↔ ∀ c ∈ text, c.toNat < 128) ∧
      ((∀ text, Agree pattern text) ↔ Narrow pattern) := by
  simp only [matchers_agree_iff]
  exact ⟨⟨ascii_of_agree, fun h pattern => ascii_agree h⟩, narrow_iff⟩

end

/-- A star stands for a letter with an accent everywhere. -/
theorem star_agrees : Agree "*.conf".toList "é.conf".toList :=
  (agree_iff_ascii _ []).2.mpr (by unfold Narrow; decide) _

/-- A question mark stands for a letter with an accent in one place only. -/
theorem accent_differs : Supervisor.Wildcards.wildcardMatch "?".toList "é".toList = true ∧
    Tmpfiles.Globs.wildcardMatch "?".toList "é".toList = false ∧
    Sysctl.Globs.globMatches "?".toList "é".toList = false ∧ ¬ Agree "?".toList "é".toList := by
  have hone : CharLanguage "?".toList "é".toList := .one (by decide) (.inl rfl) .nil
  refine ⟨by decide, by decide, by decide, fun h => ?_⟩
  exact absurd (h.sysctl.mpr hone) (by decide)

end FractalD.Sysctl.Narrowness
