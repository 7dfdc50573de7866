import FractalD.Manager.Resolution

namespace FractalD.Manager.Naming

open FractalD.Core.Spec FractalD.Machine.CString FractalD.Machine.OrderedMap
open FractalD.Machine.Text FractalD.Manager.Registry FractalD.Manager.Resolution

def Named (spec : ServiceSpec) (n : Str) : Prop := n = spec.name ∨ n ∈ spec.aliases

/-- A service goes by its name and its aliases without their suffix. -/
def Stemmed (spec : ServiceSpec) (n : Str) : Prop := n = spec.name ∨ ∃ a ∈ spec.aliases, stem a = n

/-- No two services go by the same name. -/
def Separate (goes : ServiceSpec → Str → Prop) (specs : List ServiceSpec) : Prop :=
  specs.Pairwise fun a b => ∀ n, ¬ (goes a n ∧ goes b n)

/-- The tables of a supervisor are those of some services. -/
structure Registers (goes : ServiceSpec → Str → Prop) (specs : List ServiceSpec) (s : Supervisor) :
    Prop where
  services : ∀ n, s.services.contains n ↔ ∃ spec ∈ specs, spec.name = n
  aliases : ∀ n c, s.aliases.get n = some c ↔ ∃ spec ∈ specs, spec.name = c ∧ goes spec n ∧ n ≠ c

/-- What a name is looked up as: itself, its stem, or a service with the suffix. -/
def Refers (goes : ServiceSpec → Str → Prop) (specs : List ServiceSpec) (q c : Str) : Prop :=
  (∃ spec ∈ specs, spec.name = c ∧ goes spec q) ∨ (∀ spec ∈ specs, ¬ goes spec q) ∧
    ((∃ spec ∈ specs, spec.name = c ∧ goes spec (stem q)) ∨
      (∀ spec ∈ specs, ¬ goes spec (stem q)) ∧
        ∃ spec ∈ specs, spec.name = c ∧ c = stem q ++ svcSuffix)

/-- A service is found with and without the suffix of its aliases: by the stem of
an alias, and by an alias with one suffix more. -/
def Found (specs : List ServiceSpec) (spec : ServiceSpec) : Prop :=
  ∀ x, x ++ svcSuffix ∈ spec.aliases →
    (Named spec x ∨ Named spec (stem x) ∨ spec.name = stem x ++ svcSuffix) ∧
    (x ++ svcSuffix = spec.name ∨
      (∃ other ∈ specs, Named other (x ++ svcSuffix ++ svcSuffix)) ∨
      x ++ svcSuffix ++ svcSuffix ++ svcSuffix ∈ spec.aliases)

section

variable {n x : Str}

theorem stem_append (x : Str) : stem (x ++ svcSuffix) = x := by
  rw [stem, removeSuffix_some.mpr rfl, Option.getD_some]

theorem stem_eq : stem n = x ↔ n = x ++ svcSuffix ∨ n = x ∧ ∀ y, n ≠ y ++ svcSuffix := by
  rw [stem]
  cases h : removeSuffix svcSuffix n with
  | none =>
    have hnot : ∀ y, n ≠ y ++ svcSuffix := fun y hy => by
      rw [removeSuffix_some.mpr hy] at h
      cases h
    rw [Option.getD_none]
    constructor
    · exact fun he => .inr ⟨he, hnot⟩
    · rintro (he | ⟨he, -⟩)
      · exact absurd he (hnot x)
      · exact he
  | some y =>
    obtain rfl := removeSuffix_some.mp h
    rw [Option.getD_some]
    constructor
    · rintro rfl
      exact .inl rfl
    · rintro (he | ⟨-, hnot⟩)
      · exact List.append_cancel_right he
      · exact absurd rfl (hnot y)

end

section

variable {goes : ServiceSpec → Str → Prop} {specs : List ServiceSpec} {s : Supervisor}

theorem separate_eq (h : Separate goes specs) {a b : ServiceSpec} {n : Str} (ha : a ∈ specs)
    (hb : b ∈ specs) (han : goes a n) (hbn : goes b n) : a = b := by
  by_contra hne
  have : Std.Symm fun a b : ServiceSpec => ∀ n, ¬ (goes a n ∧ goes b n) :=
    ⟨fun _ _ h n hn => h n hn.symm⟩
  exact List.Pairwise.forall h ha hb hne n ⟨han, hbn⟩

def known (s : Supervisor) (n : Str) : Option Str :=
  if s.services.contains n then some n else s.aliases.get n

theorem known_iff (hself : ∀ spec, goes spec spec.name) (hs : Registers goes specs s)
    (hsep : Separate goes specs) {n c : Str} :
    known s n = some c ↔ ∃ spec ∈ specs, spec.name = c ∧ goes spec n := by
  rw [known]
  split
  next h =>
    obtain ⟨spec, hspec, rfl⟩ := (hs.services n).mp h
    rw [Option.some.injEq]
    constructor
    · rintro rfl
      exact ⟨spec, hspec, rfl, hself spec⟩
    · rintro ⟨other, hother, rfl, hgoes⟩
      rw [separate_eq hsep hother hspec hgoes (hself spec)]
  next h =>
    rw [hs.aliases]
    constructor
    · rintro ⟨spec, hspec, hname, hgoes, -⟩
      exact ⟨spec, hspec, hname, hgoes⟩
    · rintro ⟨spec, hspec, rfl, hgoes⟩
      exact ⟨spec, hspec, rfl, hgoes, fun hn => h ((hs.services n).mpr ⟨spec, hspec, hn.symm⟩)⟩

theorem known_none_iff (hself : ∀ spec, goes spec spec.name) (hs : Registers goes specs s)
    (hsep : Separate goes specs) {n : Str} :
    known s n = none ↔ ∀ spec ∈ specs, ¬ goes spec n := by
  rw [Option.eq_none_iff_forall_ne_some]
  constructor
  · exact fun h spec hspec hgoes =>
      h spec.name ((known_iff hself hs hsep).mpr ⟨spec, hspec, rfl, hgoes⟩)
  · intro h c hc
    obtain ⟨spec, hspec, -, hgoes⟩ := (known_iff hself hs hsep).mp hc
    exact h spec hspec hgoes

theorem find_suffixed (hs : Registers goes specs s) {q c : Str} :
    (s.names.find? fun candidate => removeSuffix svcSuffix candidate = some (stem q)) = some c ↔
      ∃ spec ∈ specs, spec.name = c ∧ c = stem q ++ svcSuffix := by
  have hfound {d : Str} (h : (s.names.find? fun candidate =>
      removeSuffix svcSuffix candidate = some (stem q)) = some d) : d = stem q ++ svcSuffix := by
    have hp := List.find?_some h
    exact removeSuffix_some.mp (of_decide_eq_true hp)
  constructor
  · intro h
    have hc := hfound h
    obtain ⟨spec, hspec, hname⟩ := (hs.services c).mp (mem_keys.mp (List.mem_of_find?_eq_some h))
    exact ⟨spec, hspec, hname, hc⟩
  · rintro ⟨spec, hspec, hname, hc⟩
    have hmem : c ∈ s.names := mem_keys.mpr ((hs.services c).mpr ⟨spec, hspec, hname⟩)
    cases hfind : s.names.find? fun candidate =>
        removeSuffix svcSuffix candidate = some (stem q) with
    | none =>
      exact absurd (decide_eq_true (removeSuffix_some.mpr hc)) (List.find?_eq_none.mp hfind c hmem)
    | some d => rw [hfound hfind, hc]

theorem resolveName_iff (hself : ∀ spec, goes spec spec.name) (hs : Registers goes specs s)
    (hsep : Separate goes specs) {q c : Str} :
    s.resolveName q = some c ↔ Refers goes specs q c := by
  change (known s q).or ((known s (stem q)).or (s.names.find? fun candidate =>
    removeSuffix svcSuffix candidate = some (stem q))) = some c ↔ _
  rw [Option.or_eq_some_iff, Option.or_eq_some_iff, known_iff hself hs hsep,
    known_iff hself hs hsep, known_none_iff hself hs hsep, known_none_iff hself hs hsep,
    find_suffixed hs, Refers]

end

section

variable {specs : List ServiceSpec} {a b : ServiceSpec} {q x c : Str}

theorem named_self (spec : ServiceSpec) : Named spec spec.name := .inl rfl

theorem stemmed_self (spec : ServiceSpec) : Stemmed spec spec.name := .inl rfl

theorem named_of_stemmed (h : Stemmed a q) : Named a q ∨ q ++ svcSuffix ∈ a.aliases := by
  obtain h | ⟨d, hd, h⟩ := h
  · exact .inl (.inl h)
  · obtain rfl | ⟨rfl, -⟩ := stem_eq.mp h
    · exact .inr hd
    · exact .inl (.inr hd)

theorem stemmed_of_suffixed (h : x ++ svcSuffix ∈ a.aliases) : Stemmed a x :=
  .inr ⟨_, h, stem_append x⟩

theorem stemmed_of_named (h : Named a q) (hq : ∀ y, q ≠ y ++ svcSuffix) : Stemmed a q := by
  obtain h | h := h
  · exact .inl h
  · exact .inr ⟨q, h, stem_eq.mpr (.inr ⟨rfl, hq⟩)⟩

section

variable (hnamed : Separate Named specs) (hstemmed : Separate Stemmed specs)
  (hfound : ∀ spec ∈ specs, Found specs spec)

include hnamed hstemmed hfound

theorem same_of_suffixed (ha : a ∈ specs) (hb : b ∈ specs) (hq : Named a q)
    (hsuffixed : q ++ svcSuffix ∈ b.aliases) : a = b := by
  by_contra hne
  induction h : q.length using Nat.strong_induction_on generalizing q a b with
  | _ k ih =>
    have hb' : Stemmed b q := stemmed_of_suffixed hsuffixed
    obtain hs | hs | hs := (hfound b hb q hsuffixed).1
    · exact hne (separate_eq hnamed ha hb hq hs)
    · by_cases hy : ∃ y, q = y ++ svcSuffix
      · obtain ⟨y, rfl⟩ := hy
        rw [stem_append] at hs
        obtain hq | hq := hq
        · exact hne (separate_eq hstemmed ha hb (.inl hq) hb')
        · refine ih y.length ?_ hb ha hs hq (Ne.symm hne) rfl
          rw [← h, List.length_append]
          exact Nat.lt_add_of_pos_right (by decide)
      · rw [stem_eq.mpr (.inr ⟨rfl, not_exists.mp hy⟩)] at hs
        exact hne (separate_eq hnamed ha hb hq hs)
    · by_cases hy : ∃ y, q = y ++ svcSuffix
      · obtain ⟨y, rfl⟩ := hy
        rw [stem_append] at hs
        exact hne (separate_eq hnamed ha hb hq (.inl hs.symm))
      · exact hne (separate_eq hstemmed ha hb (stemmed_of_named hq (not_exists.mp hy)) hb')

theorem same_of_stemmed (ha : a ∈ specs) (hb : b ∈ specs) (hq : Named a q) (hs : Stemmed b q) :
    a = b := by
  obtain h | h := named_of_stemmed hs
  · exact separate_eq hnamed ha hb hq h
  · exact same_of_suffixed hnamed hstemmed hfound ha hb hq h

omit hnamed hstemmed in
theorem stemmed_cases (hb : b ∈ specs) (hs : Stemmed b q) (hq : ∀ spec ∈ specs, ¬ Named spec q) :
    Named b (stem q) ∨ b.name = stem q ++ svcSuffix := by
  have hsuffixed := (named_of_stemmed hs).resolve_left (hq b hb)
  exact (hfound b hb q hsuffixed).1.resolve_left (hq b hb)

omit hnamed hstemmed hfound in
theorem named_suffixed (hq : Named a q) (hs : ¬ Stemmed a q) :
    ∃ y, q = y ++ svcSuffix ∧ q ∈ a.aliases ∧ Stemmed a y := by
  by_cases hy : ∃ y, q = y ++ svcSuffix
  · obtain ⟨y, rfl⟩ := hy
    have hmem := hq.resolve_left fun he => hs (.inl he)
    exact ⟨y, rfl, hmem, stemmed_of_suffixed hmem⟩
  · exact absurd (stemmed_of_named hq (not_exists.mp hy)) hs

omit hnamed hstemmed hfound in
theorem stem_self (h : ¬ ∃ y, q = y ++ svcSuffix) : stem q = q :=
  stem_eq.mpr (.inr ⟨rfl, not_exists.mp h⟩)

omit hnamed hstemmed hfound in
theorem stem_self_of_suffixed (hc : c = stem q ++ svcSuffix) (hq : q ≠ c) : stem q = q := by
  apply stem_self
  rintro ⟨y, rfl⟩
  rw [stem_append] at hc
  exact hq hc.symm

theorem refers_stemmed (h : Refers Named specs q c) : Refers Stemmed specs q c := by
  by_cases hknown : ∃ b ∈ specs, Stemmed b q
  · obtain ⟨b, hb, hs⟩ := hknown
    obtain ⟨a, ha, rfl, hq⟩ | ⟨hq, hrest⟩ := h
    · rw [same_of_stemmed hnamed hstemmed hfound ha hb hq hs]
      exact .inl ⟨b, hb, rfl, hs⟩
    · have hcases := stemmed_cases hfound hb hs hq
      obtain ⟨a, ha, rfl, hx⟩ | ⟨hx, a, ha, rfl, hsuffix⟩ := hrest
      · obtain hb' | hb' := hcases
        · rw [separate_eq hnamed ha hb hx hb']
          exact .inl ⟨b, hb, rfl, hs⟩
        · by_cases hy : ∃ y, q = y ++ svcSuffix
          · obtain ⟨y, rfl⟩ := hy
            rw [stem_append] at hb'
            exact absurd (.inl hb'.symm) (hq b hb)
          · exact absurd (stem_self hy ▸ hx) (hq a ha)
      · have hb' := hcases.resolve_left (hx b hb)
        exact .inl ⟨b, hb, hb'.trans hsuffix.symm, hs⟩
  · have hnone : ∀ b ∈ specs, ¬ Stemmed b q := fun b hb hs => hknown ⟨b, hb, hs⟩
    obtain ⟨a, ha, rfl, hq⟩ | ⟨hq, hrest⟩ := h
    · obtain ⟨y, rfl, -, hy⟩ := named_suffixed hq (hnone a ha)
      exact .inr ⟨hnone, .inl ⟨a, ha, rfl, by rwa [stem_append]⟩⟩
    · obtain ⟨a, ha, rfl, hx⟩ | ⟨hx, a, ha, rfl, hsuffix⟩ := hrest
      · by_cases hstem : ∃ b ∈ specs, Stemmed b (stem q)
        · obtain ⟨b, hb, hs⟩ := hstem
          rw [same_of_stemmed hnamed hstemmed hfound ha hb hx hs]
          exact .inr ⟨hnone, .inl ⟨b, hb, rfl, hs⟩⟩
        · have hsuffixed : ∃ y, q = y ++ svcSuffix := by
            by_contra hy
            exact hq a ha (stem_self hy ▸ hx)
          obtain ⟨y, rfl⟩ := hsuffixed
          rw [stem_append] at hx hstem
          obtain ⟨z, rfl, hz, -⟩ := named_suffixed hx fun hs => hstem ⟨a, ha, hs⟩
          obtain hname | ⟨b, hb, hlonger⟩ | hlonger := (hfound a ha z hz).2
          · exact absurd ⟨a, ha, .inl hname⟩ hstem
          · exact absurd hlonger (hq b hb)
          · exact absurd (stemmed_of_suffixed hlonger) (hnone a ha)
      · have hself := stem_self_of_suffixed hsuffix fun he => hq a ha (.inl he)
        refine .inr ⟨hnone, .inr ⟨fun b hb hs => hnone b hb (hself ▸ hs), a, ha, rfl, hsuffix⟩⟩

theorem refers_named (h : Refers Stemmed specs q c) : Refers Named specs q c := by
  by_cases hknown : ∃ a ∈ specs, Named a q
  · obtain ⟨a, ha, hq⟩ := hknown
    obtain ⟨b, hb, rfl, hs⟩ | ⟨hs, hrest⟩ := h
    · rw [← same_of_stemmed hnamed hstemmed hfound ha hb hq hs]
      exact .inl ⟨a, ha, rfl, hq⟩
    · obtain ⟨y, rfl, -, hy⟩ := named_suffixed hq (hs a ha)
      rw [stem_append] at hrest
      obtain ⟨b, hb, rfl, hx⟩ | ⟨hx, -⟩ := hrest
      · rw [separate_eq hstemmed hb ha hx hy]
        exact .inl ⟨a, ha, rfl, hq⟩
      · exact absurd hy (hx a ha)
  · have hnone : ∀ a ∈ specs, ¬ Named a q := fun a ha hq => hknown ⟨a, ha, hq⟩
    obtain ⟨b, hb, rfl, hs⟩ | ⟨hs, ⟨b, hb, rfl, hx⟩ | ⟨hx, b, hb, rfl, hsuffix⟩⟩ := h
    · by_cases hstem : ∃ a ∈ specs, Named a (stem q)
      · obtain ⟨a, ha, hx⟩ := hstem
        obtain hb' | hb' := stemmed_cases hfound hb hs hnone
        · exact .inr ⟨hnone, .inl ⟨b, hb, rfl, hb'⟩⟩
        · have hself := stem_self_of_suffixed hb' fun he => hnone b hb (.inl he)
          exact absurd (hself ▸ hx) (hnone a ha)
      · have hx : ∀ a ∈ specs, ¬ Named a (stem q) := fun a ha hx => hstem ⟨a, ha, hx⟩
        have hb' := (stemmed_cases hfound hb hs hnone).resolve_left (hx b hb)
        exact .inr ⟨hnone, .inr ⟨hx, b, hb, rfl, hb'⟩⟩
    · have hsuffixed : ∃ y, q = y ++ svcSuffix := by
        by_contra hy
        exact hs b hb (stem_self hy ▸ hx)
      obtain ⟨y, rfl⟩ := hsuffixed
      refine .inr ⟨hnone, .inl ⟨b, hb, rfl, ?_⟩⟩
      rw [stem_append] at hx ⊢
      exact (named_of_stemmed hx).resolve_right fun hmem => hnone b hb (.inr hmem)
    · have hself := stem_self_of_suffixed hsuffix fun he => hnone b hb (.inl he)
      refine .inr ⟨hnone, .inr ⟨fun a ha hq => hnone a ha (hself ▸ hq), b, hb, rfl, hsuffix⟩⟩

end

section

variable (hnamed : Separate Named specs) (hstemmed : Separate Stemmed specs)

include hnamed hstemmed

/-- Names mean the same with and without the suffix of the aliases if and only if
every service is found both ways. -/
theorem refers_iff :
    (∀ q c, Refers Named specs q c ↔ Refers Stemmed specs q c) ↔
      ∀ spec ∈ specs, Found specs spec := by
  constructor
  · intro h a ha x hx
    constructor
    · obtain ⟨b, hb, hname, hq⟩ | ⟨-, ⟨b, hb, hname, hq⟩ | ⟨-, b, hb, hname, hq⟩⟩ :=
        (h x a.name).mpr (.inl ⟨a, ha, rfl, stemmed_of_suffixed hx⟩)
      · obtain rfl := separate_eq hnamed hb ha (named_self b) (.inl hname)
        exact .inl hq
      · obtain rfl := separate_eq hnamed hb ha (named_self b) (.inl hname)
        exact .inr (.inl hq)
      · exact .inr (.inr hq)
    · by_contra hnot
      obtain ⟨hname, hlonger, hlongest⟩ := by simpa only [not_or] using hnot
      have hnone : ∀ b ∈ specs, ¬ Named b (x ++ svcSuffix ++ svcSuffix) :=
        fun b hb hq => hlonger ⟨b, hb, hq⟩
      have hrefers : Refers Named specs (x ++ svcSuffix ++ svcSuffix) a.name :=
        .inr ⟨hnone, .inl ⟨a, ha, rfl, by rw [stem_append]; exact .inr hx⟩⟩
      obtain ⟨b, hb, hb', hs⟩ | ⟨-, ⟨b, hb, hb', hs⟩ | ⟨-, b, hb, -, hs⟩⟩ :=
        (h _ _).mp hrefers
      · obtain rfl := separate_eq hnamed hb ha (named_self b) (.inl hb')
        exact hlongest ((named_of_stemmed hs).resolve_left (hnone b hb))
      · obtain rfl := separate_eq hnamed hb ha (named_self b) (.inl hb')
        rw [stem_append] at hs
        obtain hs | ⟨d, hd, hs⟩ := hs
        · exact hname hs
        · obtain rfl | ⟨rfl, hs⟩ := stem_eq.mp hs
          · exact hnone b hb (.inr hd)
          · exact hs x rfl
      · rw [stem_append] at hs
        exact hnone a ha (.inl hs.symm)
  · exact fun hfound q c =>
      ⟨refers_stemmed hnamed hstemmed hfound, refers_named hnamed hstemmed hfound⟩

end

end

end FractalD.Manager.Naming
