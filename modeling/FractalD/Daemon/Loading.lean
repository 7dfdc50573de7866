import FractalD.Daemon.Discovery
import FractalD.Daemon.Reload
import FractalD.Manager.Waiting

namespace FractalD.Daemon.Loading

open FractalD.Core.Spec FractalD.Daemon.Reload FractalD.Machine.CString FractalD.Machine.Effect
open FractalD.Machine.OrderedMap FractalD.Manager.Naming FractalD.Manager.Registration
open FractalD.Manager.Registry FractalD.Manager.Resolution FractalD.Manager.Waiting
open FractalD.Supervisor.System

/-- The names that a service refers to, without the suffix of a descriptor. -/
def references (spec : ServiceSpec) : List Str :=
  (dependencyNames spec ++ (triggerTarget spec).toList).map nativeServiceName

/-- Descriptors by name. But for those that refer to nothing there are finitely many. -/
structure Descriptors where
  load : Str → Except Str (Option ServiceSpec)
  described : List Str
  name_eq : ∀ {name spec}, load name = .ok (some spec) → spec.name = nativeServiceName name
  leaf : ∀ {name spec}, load name = .ok (some spec) →
    nativeServiceName name ∈ described ∨ references spec = []

/-- The daemon finds these descriptors, and reading them changes nothing. -/
def Descriptors.sources {ω : Type} (d : Descriptors) (masked : Str → Except Str Bool)
    (src : Sources ω) : Sources ω :=
  { src with
    loadNamedServiceSpec := fun name w => (d.load name, w)
    isMasked := fun name w => (masked name, w) }

/-- What is known stays known, and services keep their settings. -/
structure Extends (s t : Supervisor) : Prop where
  services : ∀ {name m}, s.services.get name = some m → t.services.get name = some m
  aliases : ∀ {a c}, s.aliases.get a = some c → t.aliases.get a = some c

section

variable {s t u : Supervisor} {name : Str}

theorem extends_refl (s : Supervisor) : Extends s s := ⟨id, id⟩

theorem Extends.trans (h : Extends s t) (h' : Extends t u) : Extends s u :=
  ⟨fun hm => h'.services (h.services hm), fun ha => h'.aliases (h.aliases ha)⟩

theorem Extends.contains (h : Extends s t) (hc : s.services.contains name) :
    t.services.contains name := by
  obtain ⟨m, hm⟩ := contains_iff.mp hc
  exact contains_iff.mpr ⟨m, h.services hm⟩

theorem Extends.resolves (h : Extends s t) (hs : (s.resolveName name).isSome) :
    (t.resolveName name).isSome := by
  rw [Option.isSome_iff_ne_none, ne_eq, resolveName_none] at hs ⊢
  intro hunknown
  refine hs ⟨fun n hn => ⟨fun hc => (hunknown.1 n hn).1 (h.contains hc), fun ha => ?_⟩,
    fun hc => hunknown.2 (h.contains hc)⟩
  obtain ⟨c, hc⟩ := contains_iff.mp ha
  exact (hunknown.1 n hn).2 (contains_iff.mpr ⟨c, h.aliases hc⟩)

end

section

variable {ω : Type} (os : Os ω) {w w' : ω} {s t : Supervisor} {spec : ServiceSpec} {name : Str}

/-- What adding a service does. -/
structure Adds (spec : ServiceSpec) (s t : Supervisor) : Prop where
  fresh : s.services.get spec.name = none
  grows : Extends s t
  added : ∃ m, t.services.get spec.name = some m ∧ references m.spec = references spec
  known : ∀ n, Stemmed spec n → t.services.contains n ∨ t.aliases.contains n
  services : ∀ n, n ≠ spec.name → t.services.get n = s.services.get n
  aliases : ∀ n c, t.aliases.get n = some c → s.aliases.get n = some c ∨ Stemmed spec n ∧ c = spec.name

theorem references_identified (spec : ServiceSpec) (identity) :
    references (identified spec identity) = references spec := by
  cases identity <;> rfl

theorem adds_of_add (h : add os spec (s, w) = .ok () (t, w')) : w' = w ∧ Adds spec s t := by
  obtain ⟨identity, m, hi, hm, htaken, hfree, heq⟩ := (add_ok os).mp h
  obtain ⟨rfl, rfl⟩ := Prod.mk.inj heq
  have hnot : s.services.get spec.name = none := by
    cases hg : s.services.get spec.name with
    | none => rfl
    | some m' =>
      exact absurd (Bool.or_eq_true_iff.mpr (.inl (contains_iff.mpr ⟨m', hg⟩))) htaken
  have hrefs : references m.spec = references spec := by
    rw [new_eq os hi] at hm
    split at hm
    · cases hm
      exact references_identified spec identity
    · cases hm
  have haliases (n c : Str) : ((stemAliases spec).foldl (·.insert · spec.name) s.aliases).get n =
      some c ↔ n ∈ stemAliases spec ∧ spec.name = c ∨ n ∉ stemAliases spec ∧ s.aliases.get n = some c :=
    get_foldl_insert
  refine ⟨rfl, hnot, ⟨?_, ?_⟩, ⟨m, get_insert_self _ _ _, hrefs⟩, ?_, ?_, ?_⟩
  · intro n m' hm'
    have hne : n ≠ spec.name := by
      rintro rfl
      rw [hnot] at hm'
      cases hm'
    exact (get_insert_of_ne _ hne _).trans hm'
  · intro n c hc
    refine (haliases n c).mpr (.inr ⟨fun hn => hfree n hn ?_, hc⟩)
    exact Bool.or_eq_true_iff.mpr (.inr (contains_iff.mpr ⟨c, hc⟩))
  · intro n hn
    by_cases hname : n = spec.name
    · exact .inl (contains_iff.mpr ⟨m, hname ▸ get_insert_self _ _ _⟩)
    · exact .inr (contains_iff.mpr ⟨spec.name,
        (haliases n spec.name).mpr (.inl ⟨mem_stemAliases.mpr ⟨hn, hname⟩, rfl⟩)⟩)
  · intro n hn
    exact get_insert_of_ne _ hn _
  · intro n c hc
    obtain ⟨hn, rfl⟩ | ⟨-, hc⟩ := (haliases n c).mp hc
    · exact .inr ⟨(mem_stemAliases.mp hn).1, rfl⟩
    · exact .inl hc

end

section

variable (d : Descriptors) (p : Str → Prop)

/-- A registry that grows by descriptors whose names were not taken. -/
inductive Grown (s : Supervisor) : Supervisor → Prop
  | refl : Grown s s
  | step {t u name spec} : Grown s t → p name → t.resolveName name = none →
      d.load name = .ok (some spec) → Adds spec t u → Grown s u

/-- A name leads to a service, or it has no descriptor, or the service of that is registered. -/
def Supplied (t : Supervisor) (y : Str) : Prop :=
  (t.resolveName y).isSome ∨ d.load y = .ok none ∨
    ∃ spec, d.load y = .ok (some spec) ∧ (t.resolveName spec.name).isSome

/-- What a service refers to is supplied. -/
def Complete (t : Supervisor) (name : Str) : Prop :=
  ∀ m, t.services.get name = some m → ∀ y ∈ references m.spec, Supplied d t y

/-- What a search has done: the services that it added it has seen, and those that it has
seen are complete. -/
structure Spread (s : Supervisor) (loading : BTreeSet Str) (t : Supervisor)
    (loading' : BTreeSet Str) : Prop where
  grown : Grown d p s t
  seen : ∀ x, loading.contains x → loading'.contains x
  complete : ∀ x, loading'.contains x → loading.contains x ∨ Complete d t x
  new : ∀ x m, t.services.get x = some m → s.services.get x = some m ∨
    loading'.contains x ∧ ¬ loading.contains x ∧ s.services.get x = none

def Registered (s : Supervisor) (loading : BTreeSet Str) : Prop :=
  ∀ x, loading.contains x → (s.resolveName x).isSome

end

section

variable {d : Descriptors} {p : Str → Prop} {s t u : Supervisor} {loading loading' loading'' : BTreeSet Str}

theorem Grown.trans (h : Grown d p s t) (h' : Grown d p t u) : Grown d p s u := by
  induction h' with
  | refl => exact h
  | step _ hp hnone hload hadds ih => exact ih.step hp hnone hload hadds

theorem Grown.grows (h : Grown d p s t) : Extends s t := by
  induction h with
  | refl => exact extends_refl s
  | step _ _ _ _ hadds ih => exact ih.trans hadds.grows

theorem Registered.mono (h : Registered s loading) (hst : Extends s t) : Registered t loading :=
  fun x hx => hst.resolves (h x hx)

theorem spread_refl (s : Supervisor) (loading : BTreeSet Str) : Spread d p s loading s loading :=
  ⟨.refl, fun _ => id, fun _ => .inl, fun _ _ => .inl⟩

theorem Supplied.mono {y : Str} (hst : Extends s t) (h : Supplied d s y) : Supplied d t y :=
  h.imp hst.resolves (Or.imp_right fun ⟨spec, hl, hspec⟩ => ⟨spec, hl, hst.resolves hspec⟩)

theorem Complete.mono {x : Str} (hst : Extends s t)
    (hget : ∀ m, t.services.get x = some m → s.services.get x = some m) (h : Complete d s x) :
    Complete d t x :=
  fun m hm y hy => (h m (hget m hm) y hy).mono hst

theorem Spread.trans (h : Spread d p s loading t loading')
    (h' : Spread d p t loading' u loading'') : Spread d p s loading u loading'' := by
  refine ⟨h.grown.trans h'.grown, fun x hx => h'.seen x (h.seen x hx), ?_, ?_⟩
  · intro x hx
    obtain hx | hx := h'.complete x hx
    · refine (h.complete x hx).imp_right (Complete.mono h'.grown.grows fun m hm => ?_)
      exact (h'.new x m hm).resolve_right fun hn => hn.2.1 hx
    · exact .inr hx
  · intro x m hm
    obtain hm | ⟨hx, hnot, hnone⟩ := h'.new x m hm
    · exact (h.new x m hm).imp_right fun hn => ⟨h'.seen x hn.1, hn.2⟩
    · refine .inr ⟨hx, fun hl => hnot (h.seen x hl), ?_⟩
      cases hs : s.services.get x with
      | none => rfl
      | some m' =>
        rw [h.grown.grows.services hs] at hnone
        cases hnone

end

section

variable {ω : Type} {os : Os ω} {src : Sources ω} {d : Descriptors} {masked : Str → Except Str Bool}
variable {p : Str → Prop} {w : ω} {s t : Supervisor} {x : Supervisor × ω} {q name : Str}
  {spec : ServiceSpec} {loading loading' : BTreeSet Str}

/-- What a request is about: a service that is registered, or a descriptor. -/
def About (d : Descriptors) (s : Supervisor) (q name : Str) (spec : ServiceSpec) : Prop :=
  s.resolveName q = some name ∧ s.specification name = some spec ∨
    s.resolveName q = none ∧ d.load q = .ok (some spec) ∧ spec.name = name

theorem requestedSpec_cases (src : Sources ω) (d : Descriptors) (masked : Str → Except Str Bool)
    (w : ω) (s : Supervisor) (q : Str) : (∃ name spec, About d s q name spec ∧
      requestedSpec (d.sources masked src) q (s, w) = .ok (name, spec) (s, w)) ∨
    (∀ name spec, ¬ About d s q name spec) ∧
      ∃ e, requestedSpec (d.sources masked src) q (s, w) = .error (.error e) (s, w) := by
  have hload : (call ((d.sources masked src).loadNamedServiceSpec q) : Manage ω _) (s, w) =
      .ok (d.load q) (s, w) := rfl
  have hself : (supervisor : Manage ω Supervisor) (s, w) = .ok s (s, w) := rfl
  rw [requestedSpec, bind_of_ok hself]
  cases hr : s.resolveName q with
  | some c =>
    cases hs : s.specification c with
    | some spec =>
      refine .inl ⟨c, spec, .inl ⟨hr, hs⟩, ?_⟩
      simp only [hs]
      rfl
    | none =>
      refine .inr ⟨?_, ?_⟩
      · rintro name spec (⟨hname, hspec⟩ | ⟨hnone, -⟩)
        · rw [hr, Option.some.injEq] at hname
          rw [← hname, hs] at hspec
          cases hspec
        · rw [hr] at hnone
          cases hnone
      · simp only [hs]
        exact ⟨_, rfl⟩
  | none =>
    dsimp only
    rw [bind_of_ok hload]
    cases hl : d.load q with
    | error e =>
      refine .inr ⟨?_, ⟨_, rfl⟩⟩
      rintro name spec (⟨hname, -⟩ | ⟨-, hspec, -⟩)
      · rw [hr] at hname
        cases hname
      · rw [hl] at hspec
        cases hspec
    | ok o =>
      cases o with
      | some spec => exact .inl ⟨spec.name, spec, .inr ⟨hr, hl, rfl⟩, rfl⟩
      | none =>
        refine .inr ⟨?_, ⟨_, rfl⟩⟩
        rintro name spec (⟨hname, -⟩ | ⟨-, hspec, -⟩)
        · rw [hr] at hname
          cases hname
        · rw [hl] at hspec
          cases hspec

theorem loadMissing_eq (load : BTreeSet Str → Str → Manage ω (Str × BTreeSet Str)) {a : Str} :
    loadMissing (d.sources masked src) load loading a (s, w) =
      if (s.resolveName (nativeServiceName a)).isSome then .ok loading (s, w)
      else match d.load (nativeServiceName a) with
        | .error e => .error (.error e) (s, w)
        | .ok none => .ok loading (s, w)
        | .ok (some _) => (Prod.snd <$> load loading (nativeServiceName a)) (s, w) := by
  have hload : (call ((d.sources masked src).loadNamedServiceSpec (nativeServiceName a)) :
      Manage ω _) (s, w) = .ok (d.load (nativeServiceName a)) (s, w) := rfl
  have hself : (supervisor : Manage ω Supervisor) (s, w) = .ok s (s, w) := rfl
  unfold loadMissing
  rw [bind_of_ok hself]
  split
  · rfl
  · rw [bind_of_ok hload]
    cases hl : d.load (nativeServiceName a) with
    | error e => rfl
    | ok o => cases o <;> rfl

/-- What a search of one name does. -/
structure Search (d : Descriptors) (p : Str → Prop) (w : ω) (s : Supervisor) (loading : BTreeSet Str)
    (x : Supervisor × ω) (loading' : BTreeSet Str) : Prop where
  still : x.2 = w
  spread : Spread d p s loading x.1 loading'
  registered : Registered x.1 loading'

theorem Search.trans {y : Supervisor × ω} {loading'' : BTreeSet Str}
    (h : Search d p w s loading x loading') (h' : Search d p w x.1 loading' y loading'') :
    Search d p w s loading y loading'' :=
  ⟨h'.still, h.spread.trans h'.spread, h'.registered⟩

theorem search_refl (h : Registered s loading) : Search d p w s loading (s, w) loading :=
  ⟨rfl, spread_refl s loading, h⟩

variable {s₀ : Supervisor}

theorem unresolved_of_extends (hs : Extends s₀ s) (h : ¬ (s.resolveName q).isSome) :
    s₀.resolveName q = none := by
  cases h₀ : s₀.resolveName q with
  | none => rfl
  | some c => exact absurd (hs.resolves (by rw [h₀]; rfl)) h

variable {load : BTreeSet Str → Str → Manage ω (Str × BTreeSet Str)}

/-- The searches of names that are missing do what they should. -/
def Searches (d : Descriptors) (p : Str → Prop) (w : ω) (s₀ : Supervisor)
    (load : BTreeSet Str → Str → Manage ω (Str × BTreeSet Str)) : Prop :=
  ∀ {s loading y}, Extends s₀ s → Registered s loading → s.resolveName y = none → p y →
    Ends (fun r x => Search d p w s loading x r.2 ∧ Supplied d x.1 y) (fun _ x => Grown d p s x.1)
      (load loading y (s, w))

theorem search_loadMissing (hload : Searches d p w s₀ load) {a : Str} (hs : Extends s₀ s)
    (hreg : Registered s loading)
    (ha : s₀.resolveName (nativeServiceName a) = none → p (nativeServiceName a)) :
    Ends (fun l x => Search d p w s loading x l ∧ Supplied d x.1 (nativeServiceName a))
      (fun _ x => Grown d p s x.1) (loadMissing (d.sources masked src) load loading a (s, w)) := by
  rw [loadMissing_eq]
  split
  next hr => exact ⟨search_refl hreg, .inl hr⟩
  next hr =>
    cases hfound : d.load (nativeServiceName a) with
    | error e => exact .refl
    | ok o =>
      cases o with
      | none => exact ⟨search_refl hreg, .inr (.inl hfound)⟩
      | some spec =>
        exact ends_bind (hload hs hreg (Option.not_isSome_iff_eq_none.mp hr)
          (ha (unresolved_of_extends hs hr))) fun _ _ hx => hx

/-- A search of several names, from a search of each. -/
theorem search_foldlM (hload : Searches d p w s₀ load) {l : List Str} (hs : Extends s₀ s)
    (hreg : Registered s loading)
    (hl : ∀ a ∈ l, s₀.resolveName (nativeServiceName a) = none → p (nativeServiceName a)) :
    Ends (fun loading' x => Search d p w s loading x loading' ∧
        ∀ a ∈ l, Supplied d x.1 (nativeServiceName a))
      (fun _ x => Grown d p s x.1)
      (l.foldlM (loadMissing (d.sources masked src) load) loading (s, w)) := by
  induction l generalizing s loading with
  | nil => exact ⟨search_refl hreg, fun a ha => absurd ha List.not_mem_nil⟩
  | cons a l ih =>
    obtain ⟨ha, hrest⟩ := List.forall_mem_cons.mp hl
    rw [List.foldlM_cons]
    refine ends_bind (search_loadMissing hload hs hreg ha) ?_
    rintro loading₁ ⟨s₁, w₁⟩ ⟨hstep, hone⟩
    obtain rfl : w₁ = w := hstep.still
    have hgrown : Grown d p s s₁ := hstep.spread.grown
    refine ends_mono (fun loading' x hx => ?_) (fun _ x hx => hgrown.trans hx)
      (ih (hs.trans hgrown.grows) hstep.registered hrest)
    refine ⟨hstep.trans hx.1, List.forall_mem_cons.mpr ⟨?_, hx.2⟩⟩
    exact hone.mono hx.1.spread.grown.grows

/-- A service has been searched once all that it refers to has been. -/
theorem search_of_references {u : Supervisor} (hnot : ¬ loading.contains name)
    (hgrown : Grown d p s u)
    (hnew : ∀ n m, u.services.get n = some m → s.services.get n = some m ∨
      n = name ∧ s.services.get name = none)
    (hrefs : ∀ m, u.services.get name = some m → references m.spec = references spec)
    (hfold : Search d p w u (loading.add name) x loading')
    (hall : ∀ y ∈ references spec, Supplied d x.1 y) :
    Search d p w s loading x loading' ∧ loading'.contains name := by
  have hself := hfold.spread.seen name (contains_add.mpr (.inl rfl))
  have hname : Complete d x.1 name := by
    intro m hm y hy
    have hu : u.services.get name = some m :=
      (hfold.spread.new name m hm).resolve_right fun hn => hn.2.1 (contains_add.mpr (.inl rfl))
    rw [hrefs m hu] at hy
    exact hall y hy
  refine ⟨⟨hfold.still, ⟨hgrown.trans hfold.spread.grown, ?_, ?_, ?_⟩, hfold.registered⟩, hself⟩
  · exact fun n hn => hfold.spread.seen n (contains_add.mpr (.inr hn))
  · intro n hn
    obtain hn | hn := hfold.spread.complete n hn
    · obtain rfl | hn := contains_add.mp hn
      · exact .inr hname
      · exact .inl hn
    · exact .inr hn
  · intro n m hm
    obtain hm | ⟨hn, hl, hnone⟩ := hfold.spread.new n m hm
    · obtain hm | ⟨rfl, hnone⟩ := hnew n m hm
      · exact .inl hm
      · exact .inr ⟨hself, hnot, hnone⟩
    · refine .inr ⟨hn, fun hc => hl (contains_add.mpr (.inr hc)), ?_⟩
      cases hs : s.services.get n with
      | none => rfl
      | some m' =>
        rw [hgrown.grows.services hs] at hnone
        cases hnone

theorem specification_of_get {m} (h : s.services.get name = some m) :
    s.specification name = some m.spec := by
  have hc := resolveName_of_contains (contains_iff.mpr ⟨m, h⟩)
  simp [Supervisor.specification, Supervisor.find, hc, h]

theorem resolves_of_specification (h : s.specification name = some spec) :
    (s.resolveName name).isSome := by
  unfold Supervisor.specification Supervisor.find at h
  cases hr : s.resolveName name with
  | none =>
    rw [hr] at h
    cases h
  | some c => rfl

/-- A search can come to what the descriptors that it can come to refer to. -/
def Reach (d : Descriptors) (p : Str → Prop) (s₀ : Supervisor) : Prop :=
  ∀ {q spec y}, p q → d.load q = .ok (some spec) → y ∈ references spec →
    s₀.resolveName y = none → p y

theorem describing_ok {α : Type} {describe : Str} {f : Manage ω α} {a : α} {y : Supervisor × ω} :
    describing describe f y = .ok a x ↔ f y = .ok a x := by
  unfold describing
  cases f y with
  | ok b z => rfl
  | error e z => cases e <;> simp

theorem describing_error {α : Type} {describe : Str} {f : Manage ω α} {e : Failure}
    {y : Supervisor × ω} (h : describing describe f y = .error e x) :
    ∃ e', f y = .error e' x ∧ (e = .stackOverflow ↔ e' = .stackOverflow) := by
  unfold describing at h
  cases hf : f y with
  | ok a z =>
    rw [hf] at h
    cases h
  | error e' z =>
    rw [hf] at h
    cases e' with
    | stackOverflow =>
      cases h
      exact ⟨_, rfl, Iff.rfl⟩
    | error t =>
      cases h
      exact ⟨_, rfl, by simp⟩

theorem supplied_of_about (h : About d s q name spec) (hname : (s.resolveName name).isSome) :
    Supplied d s q := by
  obtain ⟨hr, -⟩ | ⟨-, hl, rfl⟩ := h
  · exact .inl (by rw [hr]; rfl)
  · exact .inr (.inr ⟨spec, hl, hname⟩)

/-- The search of a service that is registered by then, if it is to be, goes on with what the
service refers to. -/
theorem search_references (hload : Searches d p w s₀ load) {u : Supervisor} (hs : Extends s₀ s)
    (hnot : ¬ loading.contains name) (hgrown : Grown d p s u)
    (hnew : ∀ n m, u.services.get n = some m → s.services.get n = some m ∨
      n = name ∧ s.services.get name = none)
    (hsame : ∀ m, u.services.get name = some m → references m.spec = references spec)
    (hreg : Registered u loading) (hself : (u.resolveName name).isSome)
    (hrefs : ∀ y ∈ references spec, s₀.resolveName y = none → p y) :
    Ends (fun r x => r.1 = name ∧ Search d p w s loading x r.2 ∧ r.2.contains name)
      (fun _ x => Grown d p s x.1) ((do
        let l ← (dependencyNames spec ++ (triggerTarget spec).toList).foldlM
          (loadMissing (d.sources masked src) load) (loading.add name)
        pure (name, l) : Manage ω (Str × BTreeSet Str)) (u, w)) := by
  have hreg' : Registered u (loading.add name) := by
    intro n hn
    obtain rfl | hn := contains_add.mp hn
    · exact hself
    · exact hreg n hn
  refine ends_bind (ends_mono (fun _ _ => id) (fun _ x hx => hgrown.trans hx)
    (search_foldlM hload (hs.trans hgrown.grows) hreg'
      fun a ha => hrefs _ (List.mem_map_of_mem ha))) ?_
  rintro l x ⟨hfold, hall⟩
  exact ⟨rfl, search_of_references hnot hgrown hnew hsame hfold (List.forall_mem_map.mpr hall)⟩

theorem not_registered_of_unresolved (hl : d.load q = .ok (some spec)) (hr : s.resolveName q = none) :
    s.services.get spec.name = none := by
  have hunknown := (resolveName_none.mp hr).1 (stem q) (by simp)
  have hname : spec.name = stem q := d.name_eq hl
  rw [hname]
  cases hget : s.services.get (stem q) with
  | none => rfl
  | some m => exact absurd (contains_iff.mpr ⟨m, hget⟩) hunknown.1

/-- A search that ends well has seen what it was asked for, and all that it added; one that
fails leaves a registry that has grown. -/
theorem search_inner (hreach : Reach d p s₀) {depth : Nat} (hs : Extends s₀ s)
    (hreg : Registered s loading) (hq : s.resolveName q = none → p q)
    (hrefs : ∀ c spec, s.resolveName q = some c → s.specification c = some spec →
      ∀ y ∈ references spec, s₀.resolveName y = none → p y) :
    Ends (fun r x => (Search d p w s loading x r.2 ∧ r.2.contains r.1) ∧ Supplied d x.1 q ∧
        ∃ spec, About d s q r.1 spec)
      (fun _ x => Grown d p s x.1)
      (ensureServiceLoadedInner os (d.sources masked src) depth loading q (s, w)) := by
  induction depth generalizing s loading q with
  | zero => exact .refl
  | succ depth ih =>
    have hload : Searches d p w s₀ (ensureServiceLoadedInner os (d.sources masked src) depth) := by
      intro s loading y hs hreg hnone hy
      refine ends_mono (fun _ _ hx => ⟨hx.1.1, hx.2.1⟩) (fun _ _ => id)
        (ih hs hreg (fun _ => hy) fun c spec hc => ?_)
      rw [hnone] at hc
      cases hc
    rw [ensureServiceLoadedInner]
    obtain ⟨name, spec, habout, hok⟩ | ⟨-, e, herror⟩ := requestedSpec_cases src d masked w s q
    · rw [bind_of_ok hok]
      dsimp only
      by_cases hl : loading.contains name
      · rw [if_pos hl]
        exact ⟨⟨search_refl hreg, hl⟩, supplied_of_about habout (hreg name hl), spec, habout⟩
      have hself : (supervisor : Manage ω Supervisor) (s, w) = .ok s (s, w) := rfl
      rw [if_neg hl, bind_of_ok hself]
      have hdone : ∀ (r : Str × BTreeSet Str) (x : Supervisor × ω),
          r.1 = name ∧ Search d p w s loading x r.2 ∧ r.2.contains name →
          (Search d p w s loading x r.2 ∧ r.2.contains r.1) ∧ Supplied d x.1 q ∧
            ∃ spec, About d s q r.1 spec := by
        rintro ⟨_, l⟩ x ⟨rfl, hsearch, hseen⟩
        refine ⟨⟨hsearch, hseen⟩, ?_, spec, habout⟩
        obtain ⟨hr, -⟩ | ⟨-, hfound, rfl⟩ := habout
        · exact .inl (hsearch.spread.grown.grows.resolves (by rw [hr]; rfl))
        · exact .inr (.inr ⟨spec, hfound, hsearch.registered _ hseen⟩)
      obtain ⟨hr, hspec⟩ | ⟨hr, hfound, rfl⟩ := habout
      · have hsome := resolves_of_specification hspec
        rw [if_neg (by simpa using Option.isSome_iff_ne_none.mp hsome)]
        refine ends_mono hdone (fun _ _ => id) (search_references hload hs hl .refl
          (fun _ _ => .inl) (fun m hm => ?_) hreg hsome (hrefs _ spec hr hspec))
        rw [Option.some.inj ((specification_of_get hm).symm.trans hspec)]
      have hnone := not_registered_of_unresolved hfound hr
      have hnext : ∀ y ∈ references spec, s₀.resolveName y = none → p y :=
        fun y hy => hreach (hq hr) hfound hy
      by_cases hknown : (s.resolveName spec.name).isSome
      · rw [if_neg (by simpa using Option.isSome_iff_ne_none.mp hknown)]
        refine ends_mono hdone (fun _ _ => id) (search_references hload hs hl .refl
          (fun _ _ => .inl) (fun m hm => ?_) hreg hknown hnext)
        rw [hnone] at hm
        cases hm
      · rw [if_pos (by simpa using hknown)]
        apply ends_bind (p := fun _ y => y.2 = w ∧ Adds spec s y.1)
        · cases hadd : describing ("cannot load service ".toList ++ spec.name ++ ": ".toList)
              (add os spec) (s, w) with
          | ok u y => exact adds_of_add os (describing_ok.mp hadd)
          | error e y =>
            obtain ⟨e', he', -⟩ := describing_error hadd
            rw [← (add_error os he').1]
            exact .refl
        rintro _ ⟨u, _⟩ ⟨rfl, hadds⟩
        obtain ⟨m, hm, hsame⟩ := hadds.added
        refine ends_mono hdone (fun _ _ => id) (search_references hload hs hl
          (Grown.refl.step (hq hr) hr hfound hadds) (fun n m hm => ?_)
          (fun m' hm' => Option.some.inj (hm.symm.trans hm') ▸ hsame) (hreg.mono hadds.grows) ?_ hnext)
        · by_cases hn : n = spec.name
          · exact .inr ⟨hn, hnone⟩
          · rw [hadds.services n hn] at hm
            exact .inl hm
        · rw [resolveName_of_contains (contains_iff.mpr ⟨m, hm⟩)]
          rfl
    · rw [bind_of_error herror]
      exact .refl

/-- The depth that a search may need: each level sees another name. -/
def remaining (d : Descriptors) (loading : BTreeSet Str) : Nat :=
  (d.described.filter fun n => !loading.contains n).length

theorem remaining_mono (h : ∀ n, loading.contains n → loading'.contains n) :
    remaining d loading' ≤ remaining d loading := by
  apply List.Sublist.length_le
  apply List.monotone_filter_right
  intro n hn
  simp only [Bool.not_eq_true'] at hn ⊢
  exact Bool.eq_false_iff.mpr fun hc => Bool.eq_false_iff.mp hn (h n hc)

theorem remaining_add (hmem : name ∈ d.described) (hnot : ¬ loading.contains name) :
    remaining d (loading.add name) < remaining d loading := by
  have hfilter : d.described.filter (fun n => !(loading.add name).contains n) =
      (d.described.filter fun n => !loading.contains n).filter (· ≠ name) := by
    rw [List.filter_filter]
    apply List.filter_congr
    intro n _
    rw [Bool.eq_iff_iff]
    by_cases hn : n = name <;> simp [← Bool.not_eq_true, contains_add, hn]
  have hin : name ∈ d.described.filter fun n => !loading.contains n :=
    List.mem_filter.mpr ⟨hmem, by simpa using hnot⟩
  rw [remaining, remaining, hfilter]
  exact List.length_filter_lt_length_iff_exists.mpr ⟨name, hin, by simp⟩

theorem search_terminates {depth : Nat}
    (hdepth : remaining d loading + (if (s.resolveName q).isSome then 1 else 0) < depth) :
    Ends (fun r _ => ∀ n, loading.contains n → r.2.contains n) (fun e _ => e ≠ .stackOverflow)
      (ensureServiceLoadedInner os (d.sources masked src) depth loading q (s, w)) := by
  induction depth generalizing s w loading q with
  | zero => exact absurd hdepth (Nat.not_lt_zero _)
  | succ depth ih =>
    rw [ensureServiceLoadedInner]
    apply ends_bind (p := fun r y => y = (s, w) ∧ About d s q r.1 r.2)
    · obtain ⟨name, spec, habout, hok⟩ | ⟨-, e, herror⟩ := requestedSpec_cases src d masked w s q
      · rw [hok]
        exact ⟨rfl, habout⟩
      · rw [herror]
        exact fun h => by cases h
    rintro ⟨name, spec⟩ y ⟨rfl, habout⟩
    dsimp only at habout ⊢
    by_cases hl : loading.contains name
    · rw [if_pos hl]
      exact fun _ => id
    rw [if_neg hl]
    -- what is searched next refers to nothing, or is searched with a smaller rest
    have hless : references spec = [] ∨ remaining d (loading.add name) < depth := by
      have hmono : remaining d (loading.add name) ≤ remaining d loading :=
        remaining_mono fun n hn => contains_add.mpr (.inr hn)
      obtain ⟨hr, -⟩ | ⟨hr, hfound, rfl⟩ := habout
      · rw [hr] at hdepth
        exact .inr (by simp at hdepth; omega)
      · obtain hmem | hleaf := d.leaf hfound
        · have hadd := remaining_add (d.name_eq hfound ▸ hmem) hl
          rw [hr] at hdepth
          exact .inr (by simp at hdepth; omega)
        · exact .inl hleaf
    have hrest (z : Supervisor × ω) : Ends (fun r _ => ∀ n, loading.contains n → r.2.contains n)
        (fun e _ => e ≠ .stackOverflow) ((do
          let l ← (dependencyNames spec ++ (triggerTarget spec).toList).foldlM
            (loadMissing (d.sources masked src) (ensureServiceLoadedInner os (d.sources masked src) depth))
            (loading.add name)
          pure (name, l) : Manage ω (Str × BTreeSet Str)) z) := by
      apply ends_bind (p := fun l _ => ∀ n, (loading.add name).contains n → l.contains n)
      · obtain hleaf | hless := hless
        · rw [List.map_eq_nil_iff.mp hleaf]
          exact fun _ => id
        · apply ends_foldlM _ fun _ => id
          intro l a hmono ⟨s', w'⟩
          rw [loadMissing_eq]
          split
          · exact hmono
          next hr =>
            cases d.load (nativeServiceName a) with
            | error e => exact fun h => by cases h
            | ok o =>
              cases o with
              | none => exact hmono
              | some spec' =>
                have hdeeper := remaining_mono (d := d) hmono
                apply ends_bind (ih (by rw [if_neg hr]; omega))
                exact fun r _ hr n hn => hr n (hmono n hn)
      · exact fun l _ hmono n hn => hmono n (contains_add.mpr (.inr hn))
    apply ends_bind (p := fun _ _ => True) (show Ends _ _ (supervisor (s, w)) from trivial)
    intro s' z _
    split
    · apply ends_bind (p := fun _ _ => True) _ fun _ y _ => hrest y
      cases hadd : describing ("cannot load service ".toList ++ name ++ ": ".toList) (add os spec) z with
      | ok u y => trivial
      | error e y =>
        obtain ⟨e', he', hiff⟩ := describing_error hadd
        obtain ⟨-, text, rfl⟩ := add_error os he'
        exact fun he => by cases hiff.mp he
    · exact hrest z

end

end FractalD.Daemon.Loading
