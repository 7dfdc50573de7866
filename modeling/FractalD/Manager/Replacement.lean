import FractalD.Machine.Result
import FractalD.Manager.Registration

namespace FractalD.Manager.Replacement

open FractalD.Core.Record FractalD.Core.Spec FractalD.Machine.CString
open FractalD.Machine.Effect FractalD.Machine.OrderedMap FractalD.Machine.Result
open FractalD.Manager.Naming FractalD.Manager.Registration FractalD.Manager.Registry
open FractalD.Manager.Resolution FractalD.Manager.Survival FractalD.Supervisor.System
open FractalD.Supervisor.Service (ManagedService DynamicIdentity newWithDynamicIdentity)

section

variable {ω : Type} (os : Os ω)

/-- What a service becomes under a new configuration. -/
def keep (s : Supervisor) (name : Str) (replacement : ManagedService) : ManagedService :=
  match s.services.get name with
  | some existing => if existing.spec = replacement.spec then existing else replacement
  | none => replacement

/-- The services may all be replaced by those of a new configuration. -/
def Replaceable (s : Supervisor) (incoming : BTreeMap Str ManagedService) : Prop :=
  ∀ name existing, s.services.get name = some existing →
    checkReplaced incoming name existing = .ok ()

theorem reload_ok {specs : List ServiceSpec} {s : Supervisor} {w : ω} {t : Supervisor × ω} :
    reload os specs (s, w) = .ok () t ↔ ∃ incoming aliases,
      incomingServices os w s specs = .ok incoming ∧ collectAliases incoming = .ok aliases ∧
      Replaceable s incoming ∧
      ({ s with services := incoming.mapKeyed (keep s), aliases := aliases }, w) = t := by
  have hreplaceable : ∀ incoming, Replaceable s incoming ↔
      s.services.entries.forM (fun entry => checkReplaced incoming entry.1 entry.2) =
        .ok () := by
    intro incoming
    rw [forM_ok]
    constructor
    · exact fun h e he => h e.1 e.2 (get_eq_some.mpr he)
    · exact fun h name existing he => h (name, existing) (get_eq_some.mp he)
  simp only [hreplaceable]
  change (do
      let incoming ← orFail (incomingServices os w s specs)
      let aliases ← orFail (collectAliases incoming)
      orFail (s.services.entries.forM fun entry => checkReplaced incoming entry.1 entry.2)
      update ({ · with services := incoming.mapKeyed (keep s), aliases := aliases }) :
        Manage ω Unit) (s, w) = .ok () t ↔ _
  have horFail : ∀ {α : Type} (r : Except Str α) (a : α) (u v : Supervisor × ω),
      orFail r u = .ok a v ↔ r = .ok a ∧ u = v := by
    intro α r a u v
    cases r with
    | ok b => simp [orFail]
    | error e => simp [orFail, fail]
  simp only [bind_ok, horFail]
  constructor
  · rintro ⟨incoming, _, ⟨hi, rfl⟩, aliases, _, ⟨ha, rfl⟩, _, _, ⟨hr, rfl⟩, h⟩
    cases h
    exact ⟨incoming, aliases, hi, ha, hr, rfl⟩
  · rintro ⟨incoming, aliases, hi, ha, hr, rfl⟩
    exact ⟨incoming, _, ⟨hi, rfl⟩, aliases, _, ⟨ha, rfl⟩, (), _, ⟨hr, rfl⟩, rfl⟩

end

section

variable {pairs : List (Str × Str)} {t r : BTreeMap Str Str} {a c : Str}

def enterAlias (aliases : BTreeMap Str Str) (pair : Str × Str) : Except Str (BTreeMap Str Str) :=
  match aliases.get pair.1 with
  | some previous =>
    if previous ≠ pair.2 then
      throw ("service alias ".toList ++ pair.1 ++ " refers to both ".toList ++ previous ++
        " and ".toList ++ pair.2)
    else pure (aliases.insert pair.1 pair.2)
  | none => pure (aliases.insert pair.1 pair.2)

theorem enterAlias_ok : enterAlias t (a, c) = .ok r ↔
    (∀ d, t.get a = some d → d = c) ∧ t.insert a c = r := by
  rw [enterAlias]
  cases h : t.get a with
  | none => simp [pure_eq_ok]
  | some d =>
    by_cases hd : d = c
    · simp [hd, pure_eq_ok]
    · simp [hd, throw_ne_ok]

theorem enterAliases_cons {rest : List (Str × Str)} :
    ((a, c) :: rest).foldlM enterAlias t = .ok r ↔
      (∀ d, t.get a = some d → d = c) ∧ rest.foldlM enterAlias (t.insert a c) = .ok r := by
  rw [List.foldlM_cons]
  change (enterAlias t (a, c)).bind (fun t => rest.foldlM enterAlias t) = .ok r ↔ _
  cases he : enterAlias t (a, c) with
  | error e =>
    simp only [Except.bind, reduceCtorEq, false_iff]
    rintro ⟨hd, -⟩
    cases he.symm.trans (enterAlias_ok.mpr ⟨hd, rfl⟩)
  | ok t' =>
    obtain ⟨hd, rfl⟩ := enterAlias_ok.mp he
    exact (and_iff_right hd).symm

theorem enterAliases_iff : (∃ r, pairs.foldlM enterAlias t = .ok r) ↔
    ∀ a c d, (a, c) ∈ pairs → (a, d) ∈ pairs ∨ t.get a = some d → d = c := by
  induction pairs generalizing t with
  | nil => exact ⟨fun _ a c d hc => absurd hc List.not_mem_nil, fun _ => ⟨t, rfl⟩⟩
  | cons pair rest ih =>
    obtain ⟨a, c⟩ := pair
    simp only [enterAliases_cons, exists_and_left, ih, get_insert, List.mem_cons, Prod.mk.injEq]
    constructor
    · rintro ⟨hold, hrest⟩ a' c' d' (⟨rfl, rfl⟩ | hc) hd
      · obtain (⟨-, rfl⟩ | hd) | hd := hd
        · rfl
        · exact (hrest a' d' c' hd (.inr (if_pos rfl))).symm
        · exact hold d' hd
      · refine hrest a' c' d' hc ?_
        obtain (⟨rfl, rfl⟩ | hd) | hd := hd
        · exact .inr (if_pos rfl)
        · exact .inl hd
        · by_cases ha : a' = a
          · subst ha
            rw [hold d' hd]
            exact .inr (if_pos rfl)
          · exact .inr ((if_neg ha).trans hd)
    · intro h
      refine ⟨fun d hd => h a c d (.inl ⟨rfl, rfl⟩) (.inr hd), fun a' c' d' hc hd => ?_⟩
      obtain hd | hd := hd
      · exact h a' c' d' (.inr hc) (.inl (.inr hd))
      · by_cases ha : a' = a
        · rw [if_pos ha] at hd
          cases hd
          exact h a' c' c (.inr hc) (.inl (.inl ⟨ha, rfl⟩))
        · rw [if_neg ha] at hd
          exact h a' c' d' (.inr hc) (.inr hd)

theorem enterAliases_get (h : pairs.foldlM enterAlias t = .ok r) :
    r.get a = some c ↔ (a, c) ∈ pairs ∨ t.get a = some c := by
  induction pairs generalizing t with
  | nil =>
    cases h
    simp
  | cons pair rest ih =>
    obtain ⟨a', c'⟩ := pair
    obtain ⟨hold, hrest⟩ := enterAliases_cons.mp h
    rw [ih hrest, get_insert, List.mem_cons, Prod.mk.injEq]
    by_cases ha : a = a'
    · subst ha
      rw [if_pos rfl, Option.some.injEq]
      constructor
      · rintro (hm | rfl)
        · exact .inl (.inr hm)
        · exact .inl (.inl ⟨rfl, rfl⟩)
      · rintro ((⟨-, rfl⟩ | hm) | hget)
        · exact .inr rfl
        · exact .inl hm
        · exact .inr (hold c hget).symm
    · simp [ha]

end

section

variable {incoming : BTreeMap Str ManagedService} {aliases : BTreeMap Str Str} {a c : Str}

def aliasPairs (services : BTreeMap Str ManagedService) : List (Str × Str) :=
  services.entries.flatMap fun (canonical, service) =>
    ((ofList service.spec.aliases).keys.filter (· ≠ canonical)).map (·, canonical)

theorem mem_aliasPairs : (a, c) ∈ aliasPairs incoming ↔
    ∃ service, incoming.get c = some service ∧ a ∈ service.spec.aliases ∧ a ≠ c := by
  simp only [aliasPairs, List.mem_flatMap, List.mem_map, List.mem_filter, mem_ofList,
    decide_eq_true_eq, Prod.mk.injEq, get_eq_some]
  constructor
  · rintro ⟨e, he, _, ⟨ha, hne⟩, rfl, rfl⟩
    exact ⟨e.2, he, ha, hne⟩
  · rintro ⟨service, he, ha, hne⟩
    exact ⟨(c, service), he, a, ⟨ha, hne⟩, rfl, rfl⟩

theorem collectAliases_ok : collectAliases incoming = .ok aliases ↔
    (aliasPairs incoming).foldlM enterAlias empty = .ok aliases ∧
      ∀ n, incoming.contains n → ¬ aliases.contains n := by
  rw [collectAliases]
  change ((aliasPairs incoming).foldlM enterAlias empty).bind _ = .ok aliases ↔ _
  cases hp : (aliasPairs incoming).foldlM enterAlias empty with
  | error e => simp [Except.bind]
  | ok collected =>
    rw [Except.bind]
    cases hf : incoming.keys.find? collected.contains with
    | some n =>
      have hn : incoming.contains n := mem_keys.mp (List.mem_of_find?_eq_some hf)
      have hc : collected.contains n := List.find?_some hf
      constructor
      · rintro ⟨⟩
      · rintro ⟨⟨⟩, hnot⟩
        exact absurd hc (hnot n hn)
    | none =>
      have hnot := List.find?_eq_none.mp hf
      constructor
      · rintro ⟨⟩
        exact ⟨rfl, fun n hn => hnot n (mem_keys.mpr hn)⟩
      · rintro ⟨⟨⟩, -⟩
        rfl

end

/-- The services of a configuration, each under its name. -/
structure Enters (done : List ServiceSpec) (incoming : BTreeMap Str ManagedService) : Prop where
  known : ∀ a ∈ done, ∃ m, incoming.get a.name = some m ∧ m.spec.aliases = a.aliases
  listed : ∀ n m, incoming.get n = some m → ∃ a ∈ done, a.name = n ∧ m.spec.aliases = a.aliases

section

variable {ω : Type} (os : Os ω) {w : ω} {specs done : List ServiceSpec} {reserved : List Nat}
  {spec : ServiceSpec} {incoming : BTreeMap Str ManagedService} {aliases : BTreeMap Str Str}
  {r : BTreeMap Str ManagedService × List Nat}

/-- Take a service into a configuration that is loaded for the first time. -/
def enter (p : BTreeMap Str ManagedService × List Nat) (spec : ServiceSpec) :
    Except Str (BTreeMap Str ManagedService × List Nat) := do
  let identity ← newIdentity os w p.2 spec
  let service ← newWithDynamicIdentity spec identity
  if p.1.contains spec.name then throw (definedTwice spec.name)
  pure (p.1.insert spec.name service, p.2 ++ (identity.map (·.uid)).toList)

theorem incomingServices_new : incomingServices os w Supervisor.new specs =
    Prod.fst <$> specs.foldlM (enter os (w := w)) (empty, []) := by
  rw [map_eq_pure_bind]
  unfold incomingServices
  refine congrArg (fun x : Except Str (BTreeMap Str ManagedService × List Nat) =>
    x >>= fun r => pure r.1) ?_
  refine congrArg (fun f => specs.foldlM f _) (funext fun p => funext fun spec => ?_)
  unfold enter newIdentity
  cases spec.dynamicUser with
  | false => rfl
  | true => rfl

theorem enter_ok : enter os (w := w) (incoming, reserved) spec = .ok r ↔
    ∃ identity service, newIdentity os w reserved spec = .ok identity ∧
      newWithDynamicIdentity spec identity = .ok service ∧ ¬ incoming.contains spec.name ∧
      (incoming.insert spec.name service, reserved ++ (identity.map (·.uid)).toList) = r := by
  unfold enter
  simp only [bind_eq_ok]
  constructor
  · rintro ⟨identity, hi, service, hn, h⟩
    by_cases hc : incoming.contains spec.name
    · rw [if_pos hc] at h
      cases h
    · simp only [hc, Bool.false_eq_true, if_false, pure_eq_ok] at h
      exact ⟨identity, service, hi, hn, hc, h⟩
  · rintro ⟨identity, service, hi, hn, hc, h⟩
    exact ⟨identity, hi, service, hn, by simpa [hc, pure_eq_ok] using h⟩

theorem enter_iff (h : Enters done incoming) :
    (∃ r, enter os (w := w) (incoming, reserved) spec = .ok r) ↔ spec.validate = .ok () ∧
      (∃ identity, newIdentity os w reserved spec = .ok identity) ∧
      ∀ a ∈ done, a.name ≠ spec.name := by
  have hfree : ¬ incoming.contains spec.name ↔ ∀ a ∈ done, a.name ≠ spec.name := by
    constructor
    · intro hnot a ha he
      obtain ⟨m, hm, -⟩ := h.known a ha
      exact hnot (contains_iff.mpr ⟨m, he ▸ hm⟩)
    · intro hne hc
      obtain ⟨m, hm⟩ := contains_iff.mp hc
      obtain ⟨a, ha, he, -⟩ := h.listed _ m hm
      exact hne a ha he
  simp only [enter_ok, hfree]
  constructor
  · rintro ⟨r, identity, service, hi, hn, hne, -⟩
    exact ⟨(new_iff os hi).mp ⟨service, hn⟩, ⟨identity, hi⟩, hne⟩
  · rintro ⟨hv, ⟨identity, hi⟩, hne⟩
    obtain ⟨service, hn⟩ := (new_iff os hi).mpr hv
    exact ⟨_, identity, service, hi, hn, hne, rfl⟩

theorem enter_enters (h : Enters done incoming)
    (hr : enter os (w := w) (incoming, reserved) spec = .ok r) :
    ∃ identity, newIdentity os w reserved spec = .ok identity ∧
      r.2 = reserved ++ (identity.map (·.uid)).toList ∧ Enters (done ++ [spec]) r.1 := by
  obtain ⟨identity, service, hi, hn, hc, rfl⟩ := (enter_ok os).mp hr
  have hmade := made_of_new os hi hn
  refine ⟨identity, hi, rfl, fun a ha => ?_, fun n m hm => ?_⟩
  · obtain ha | ha := List.mem_append.mp ha
    · obtain ⟨m, hm, hm'⟩ := h.known a ha
      refine ⟨m, ?_, hm'⟩
      have hne : a.name ≠ spec.name := fun he => hc (contains_iff.mpr ⟨m, he ▸ hm⟩)
      rw [get_insert_of_ne _ hne, hm]
    · obtain rfl := List.mem_singleton.mp ha
      exact ⟨service, get_insert_self _ _ _, hmade.aliases⟩
  · rw [get_insert] at hm
    split at hm
    next he =>
      cases hm
      exact ⟨spec, List.mem_concat_self, he.symm, hmade.aliases⟩
    next =>
      obtain ⟨a, ha, hrest⟩ := h.listed n m hm
      exact ⟨a, List.mem_append_left _ ha, hrest⟩

abbrev Distinct (specs : List ServiceSpec) : Prop := specs.Pairwise fun a b => a.name ≠ b.name

theorem enterAll_iff (h : Enters done incoming) :
    (∃ r, specs.foldlM (enter os (w := w)) (incoming, reserved) = .ok r) ↔
      Admitted os w reserved specs ∧ Distinct specs ∧ ∀ a ∈ done, ∀ b ∈ specs, a.name ≠ b.name := by
  induction specs generalizing done reserved incoming with
  | nil => exact ⟨fun _ => ⟨trivial, .nil, by simp⟩, fun _ => ⟨_, rfl⟩⟩
  | cons spec specs ih =>
    simp only [List.foldlM_cons, bind_eq_ok]
    rw [Distinct, List.pairwise_cons, Admitted]
    constructor
    · rintro ⟨r, ⟨incoming', reserved'⟩, hu, hr⟩
      obtain ⟨hv, -, hfree⟩ := (enter_iff os h).mp ⟨_, hu⟩
      obtain ⟨identity, hi, rfl, henters⟩ := enter_enters os h hu
      obtain ⟨hadmitted, hdistinct, hrest⟩ := (ih henters).mp ⟨r, hr⟩
      refine ⟨⟨hv, identity, hi, hadmitted⟩, ⟨fun b hb => ?_, hdistinct⟩, fun a ha b hb => ?_⟩
      · exact hrest spec List.mem_concat_self b hb
      · obtain rfl | hb := List.mem_cons.mp hb
        · exact hfree a ha
        · exact hrest a (List.mem_append_left _ ha) b hb
    · rintro ⟨⟨hv, identity, hi, hadmitted⟩, ⟨hfirst, hdistinct⟩, hrest⟩
      obtain ⟨⟨incoming', reserved'⟩, hu⟩ := (enter_iff os h).mpr
        ⟨hv, ⟨identity, hi⟩, fun a ha => hrest a ha spec List.mem_cons_self⟩
      obtain ⟨identity', hi', rfl, henters⟩ := enter_enters os h hu
      obtain rfl : identity = identity' := Except.ok.inj (hi.symm.trans hi')
      obtain ⟨r, hr⟩ := (ih henters).mpr ⟨hadmitted, hdistinct, fun a ha b hb => by
        obtain ha | ha := List.mem_append.mp ha
        · exact hrest a ha b (List.mem_cons_of_mem _ hb)
        · obtain rfl := List.mem_singleton.mp ha
          exact hfirst b hb⟩
      exact ⟨r, _, hu, hr⟩

theorem enterAll_enters (h : Enters done incoming)
    (hr : specs.foldlM (enter os (w := w)) (incoming, reserved) = .ok r) :
    Enters (done ++ specs) r.1 := by
  induction specs generalizing done reserved incoming with
  | nil =>
    cases hr
    rwa [List.append_nil]
  | cons spec specs ih =>
    rw [List.foldlM_cons] at hr
    obtain ⟨⟨incoming', reserved'⟩, hu, hr⟩ := bind_eq_ok.mp hr
    obtain ⟨identity, -, -, henters⟩ := enter_enters os h hu
    have hrest := ih henters hr
    rwa [List.append_assoc] at hrest

theorem mem_aliasPairs_enters (h : Enters specs incoming) {a c : Str} :
    (a, c) ∈ aliasPairs incoming ↔ ∃ spec ∈ specs, spec.name = c ∧ Named spec a ∧ a ≠ c := by
  rw [mem_aliasPairs]
  constructor
  · rintro ⟨service, hget, ha, hne⟩
    obtain ⟨spec, hspec, hname, haliases⟩ := h.listed c service hget
    exact ⟨spec, hspec, hname, .inr (haliases ▸ ha), hne⟩
  · rintro ⟨spec, hspec, rfl, ha, hne⟩
    obtain ⟨service, hget, haliases⟩ := h.known spec hspec
    exact ⟨service, hget, haliases ▸ ha.resolve_left hne, hne⟩

theorem contains_enters (h : Enters specs incoming) {n : Str} :
    incoming.contains n ↔ ∃ spec ∈ specs, spec.name = n := by
  rw [contains_iff]
  constructor
  · rintro ⟨m, hm⟩
    obtain ⟨spec, hspec, hname, -⟩ := h.listed n m hm
    exact ⟨spec, hspec, hname⟩
  · rintro ⟨spec, hspec, rfl⟩
    obtain ⟨m, hm, -⟩ := h.known spec hspec
    exact ⟨m, hm⟩

theorem collected_get (h : Enters specs incoming) (ha : collectAliases incoming = .ok aliases)
    {n c : Str} :
    aliases.get n = some c ↔ ∃ spec ∈ specs, spec.name = c ∧ Named spec n ∧ n ≠ c := by
  rw [enterAliases_get (collectAliases_ok.mp ha).1, get_empty, mem_aliasPairs_enters h]
  simp

theorem collectAliases_iff (h : Enters specs incoming) (hd : Distinct specs) :
    (∃ aliases, collectAliases incoming = .ok aliases) ↔ Separate Named specs := by
  constructor
  · rintro ⟨aliases, hok⟩
    obtain ⟨-, hfree⟩ := collectAliases_ok.mp hok
    have hname : ∀ a ∈ specs, ∀ b ∈ specs, ∀ n, Named a n → n ≠ a.name → n ≠ b.name := by
      intro a ha b hb n hn hne he
      refine hfree n ((contains_enters h).mpr ⟨b, hb, he.symm⟩) (contains_iff.mpr ⟨a.name, ?_⟩)
      exact (collected_get h hok).mpr ⟨a, ha, rfl, hn, hne⟩
    refine hd.imp_of_mem fun {a b} ha hb hab n hn => ?_
    by_cases hna : n = a.name
    · exact hname b hb a ha n hn.2 (fun hnb => hab (hna.symm.trans hnb)) hna
    · have hnb := hname a ha b hb n hn.1 hna
      have hget := (collected_get h hok).mpr ⟨a, ha, rfl, hn.1, hna⟩
      rw [(collected_get h hok).mpr ⟨b, hb, rfl, hn.2, hnb⟩] at hget
      exact hab (Option.some.inj hget).symm
  · intro hseparate
    have hone : ∀ n c d, (n, c) ∈ aliasPairs incoming →
        (n, d) ∈ aliasPairs incoming ∨ (empty : BTreeMap Str Str).get n = some d → d = c := by
      intro n c d hc hd
      rw [get_empty] at hd
      obtain ⟨a, ha, rfl, hna, -⟩ := (mem_aliasPairs_enters h).mp hc
      obtain ⟨b, hb, rfl, hnb, -⟩ := (mem_aliasPairs_enters h).mp (hd.resolve_right nofun)
      rw [separate_eq hseparate ha hb hna hnb]
    obtain ⟨aliases, hok⟩ := enterAliases_iff.mpr hone
    refine ⟨aliases, collectAliases_ok.mpr ⟨hok, fun n hn hc => ?_⟩⟩
    obtain ⟨c, hc⟩ := contains_iff.mp hc
    rw [enterAliases_get hok, get_empty, mem_aliasPairs_enters h] at hc
    obtain ⟨a, ha, rfl, hna, hne⟩ := hc.resolve_right nofun
    obtain ⟨b, hb, rfl⟩ := (contains_enters h).mp hn
    exact hne (congrArg _ (separate_eq hseparate ha hb hna (named_self b))).symm

theorem incoming_new : incomingServices os w Supervisor.new specs = .ok incoming ↔
    ∃ reserved, specs.foldlM (enter os (w := w)) (empty, []) = .ok (incoming, reserved) := by
  rw [incomingServices_new]
  cases specs.foldlM (enter os (w := w)) (empty, []) with
  | error e => simp
  | ok r =>
    change Except.ok r.1 = .ok incoming ↔ _
    simp [Prod.ext_iff]

theorem enters_empty : Enters [] empty where
  known := by simp
  listed := by simp

theorem contains_kept (s : Supervisor) (n : Str) :
    (incoming.mapKeyed (keep s)).contains n ↔ incoming.contains n := by
  rw [BTreeMap.contains, get_mapKeyed, Option.isSome_map, BTreeMap.contains]

theorem reload_iff : (∃ t, reload os specs (Supervisor.new, w) = .ok () t) ↔
    Admitted os w [] specs ∧ Separate Named specs := by
  have hall : (∃ r, specs.foldlM (enter os (w := w)) (empty, []) = .ok r) ↔
      Admitted os w [] specs ∧ Distinct specs ∧
        ∀ a ∈ ([] : List ServiceSpec), ∀ b ∈ specs, a.name ≠ b.name :=
    enterAll_iff os enters_empty
  constructor
  · rintro ⟨t, ht⟩
    obtain ⟨incoming, aliases, hi, ha, -⟩ := (reload_ok os).mp ht
    obtain ⟨reserved, hr⟩ := (incoming_new os).mp hi
    obtain ⟨hadmitted, hdistinct, -⟩ := hall.mp ⟨_, hr⟩
    exact ⟨hadmitted, (collectAliases_iff (enterAll_enters os enters_empty hr) hdistinct).mp
      ⟨aliases, ha⟩⟩
  · rintro ⟨hadmitted, hseparate⟩
    have hdistinct : Distinct specs :=
      hseparate.imp fun {a b} h he => h a.name ⟨named_self a, .inl he⟩
    obtain ⟨⟨incoming, reserved⟩, hr⟩ := hall.mpr ⟨hadmitted, hdistinct, by simp⟩
    obtain ⟨aliases, ha⟩ :=
      (collectAliases_iff (enterAll_enters os enters_empty hr) hdistinct).mpr hseparate
    refine ⟨_, (reload_ok os).mpr ⟨incoming, aliases, (incoming_new os).mpr ⟨reserved, hr⟩, ha,
      fun name existing hget => ?_, rfl⟩⟩
    cases hget

theorem reload_registers {t : Supervisor × ω}
    (h : reload os specs (Supervisor.new, w) = .ok () t) : Registers Named specs t.1 := by
  obtain ⟨incoming, aliases, hi, ha, -, rfl⟩ := (reload_ok os).mp h
  obtain ⟨reserved, hr⟩ := (incoming_new os).mp hi
  have henters : Enters specs incoming := enterAll_enters os enters_empty hr
  exact ⟨fun n => (contains_kept _ n).trans (contains_enters henters),
    fun n c => collected_get henters ha⟩

theorem holds_new : Holds [] [] Supervisor.new where
  tables := ⟨by simp [Supervisor.new, BTreeMap.contains], by simp [Supervisor.new]⟩
  reserved := fun _ => Iff.rfl

/-- Boot and reload agree on services if and only if the same of them share a name as
their aliases are written and without the suffix, and each is found both ways. -/
theorem agree_iff (w : ω) (specs : List ServiceSpec) : Agree os w specs ↔
    (Admitted os w [] specs → (Separate Stemmed specs ↔ Separate Named specs) ∧
      (Separate Named specs → ∀ spec ∈ specs, Found specs spec)) := by
  have hadd : (∃ s, addAll os specs (Supervisor.new, w) = .ok () s) ↔
      Admitted os w [] specs ∧ Separate Stemmed specs := by
    rw [addAll_iff os holds_new]
    simp
  have hresolve : Separate Named specs → Separate Stemmed specs → ∀ s t,
      addAll os specs (Supervisor.new, w) = .ok () s →
      reload os specs (Supervisor.new, w) = .ok () t →
      ((∀ name, s.1.resolveName name = t.1.resolveName name) ↔
        ∀ spec ∈ specs, Found specs spec) := by
    intro hnamed hstemmed s t hs ht
    rw [← refers_iff hnamed hstemmed]
    have hrs := addAll_registers os holds_new hs
    refine forall_congr' fun q => ?_
    rw [Option.ext_iff]
    refine forall_congr' fun c => ?_
    rw [resolveName_iff stemmed_self hrs hstemmed,
      resolveName_iff named_self (reload_registers os ht) hnamed]
    exact iff_comm
  rw [Agree, hadd, reload_iff]
  constructor
  · rintro ⟨hsuccess, hnames⟩ hadmitted
    simp only [hadmitted, true_and] at hsuccess
    refine ⟨hsuccess, fun hnamed => ?_⟩
    have hstemmed := hsuccess.mpr hnamed
    obtain ⟨s, hs⟩ := hadd.mpr ⟨hadmitted, hstemmed⟩
    obtain ⟨t, ht⟩ := (reload_iff os).mpr ⟨hadmitted, hnamed⟩
    exact (hresolve hnamed hstemmed s t hs ht).mp (hnames s t hs ht)
  · intro h
    refine ⟨and_congr_right fun hadmitted => (h hadmitted).1, fun s t hs ht => ?_⟩
    obtain ⟨hadmitted, hstemmed⟩ := hadd.mp ⟨s, hs⟩
    obtain ⟨-, hnamed⟩ := (reload_iff os).mp ⟨t, ht⟩
    exact (hresolve hnamed hstemmed s t hs ht).mpr ((h hadmitted).2 hnamed)

end

def suffixedAlias : ServiceSpec := { plainSpec "worker" with aliases := ["job.svc".toList] }

/-- A service is found by the stem of its alias after boot, and not after a reload. -/
theorem suffixedAlias_disagree : ¬ Agree boxOs ⟨0, 0, true, []⟩ [suffixedAlias] := by
  have hadd : ∃ s, addAll boxOs [suffixedAlias] (Supervisor.new, ⟨0, 0, true, []⟩) = .ok () s ∧
      s.1.resolveName "job".toList = some "worker".toList := ⟨_, rfl, by decide +kernel⟩
  have hreload : ∃ t, reload boxOs [suffixedAlias] (Supervisor.new, ⟨0, 0, true, []⟩) = .ok () t ∧
      t.1.resolveName "job".toList = none := ⟨_, rfl, by decide +kernel⟩
  obtain ⟨s, hs, hfound⟩ := hadd
  obtain ⟨t, ht, hnone⟩ := hreload
  rintro ⟨-, hnames⟩
  have hsame := hnames s t hs ht "job".toList
  rw [hfound, hnone] at hsame
  cases hsame

end FractalD.Manager.Replacement
