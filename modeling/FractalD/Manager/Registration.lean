import FractalD.Manager.Naming
import FractalD.Machine.Effect

namespace FractalD.Manager.Registration

open FractalD.Core.Record FractalD.Core.Restarts FractalD.Core.Spec FractalD.Machine.CString
open FractalD.Machine.Effect FractalD.Machine.OrderedMap FractalD.Machine.Text
open FractalD.Manager.Naming FractalD.Manager.Registry FractalD.Manager.Resolution
open FractalD.Manager.Survival FractalD.Supervisor.System
open FractalD.Supervisor.Service (ManagedService DynamicIdentity newWithDynamicIdentity
  withIdentity)

section

variable {n : Nat} {spec : ServiceSpec} {identity : DynamicIdentity}

theorem parseUnsigned_printUnsigned (h : n < 2 ^ 32) : parseUnsigned 32 (printUnsigned n) = some n := by
  have hdigit : ∀ c ∈ Nat.toDigits 10 n, c.isDigit := fun c hc =>
    Nat.isDigit_of_mem_toDigits (by decide) (by decide) hc
  have hvalue : decimalValue (Nat.toDigits 10 n) = n := Nat.ofDigitChars_ten_toDigits
  have hhead : (Nat.toDigits 10 n).head? ≠ some '+' := fun hp => by
    have hplus := hdigit '+' (List.mem_of_mem_head? hp)
    revert hplus
    decide
  have hmax : n ≤ ulongMax := by
    rw [ulongMax]
    omega
  simp only [parseUnsigned, parseU64, printUnsigned, hhead, if_false, hvalue]
  rw [if_pos ⟨Nat.toDigits_ne_nil, List.all_eq_true.mpr hdigit, hmax⟩, Option.filter_some,
    if_pos (decide_eq_true h)]

theorem dynamicIdentity_withIdentity (hd : spec.dynamicUser = true) (hu : identity.uid < 2 ^ 32)
    (hg : identity.gid < 2 ^ 32) :
    dynamicIdentityFromSpec (withIdentity spec identity) = some identity := by
  simp only [dynamicIdentityFromSpec, withIdentity, hd, if_true, Option.bind_some,
    parseUnsigned_printUnsigned hu, parseUnsigned_printUnsigned hg]
  rfl

end

section

variable {ω : Type} (os : Os ω) {w : ω} {name : Str} {reserved reserved' : List Nat}
  {identity : DynamicIdentity}

theorem allocate_congr (h : ∀ id, id ∈ reserved ↔ id ∈ reserved') :
    allocateDynamicIdentity os w name reserved = allocateDynamicIdentity os w name reserved' := by
  have hfree : ∀ id, (id ∉ reserved ∧ !os.identityOccupied w id) =
      (id ∉ reserved' ∧ !os.identityOccupied w id) := fun id => by rw [h]
  unfold allocateDynamicIdentity
  simp only [hfree]

theorem allocate_ok (h : allocateDynamicIdentity os w name reserved = .ok identity) :
    identity.uid = identity.gid ∧ identity.uid < 2 ^ 32 := by
  have hmin : dynamicUserMin = 61184 := rfl
  have hmax : dynamicUserMax = 65519 := rfl
  unfold allocateDynamicIdentity at h
  generalize hspan : dynamicUserMax - dynamicUserMin + 1 = span at h
  dsimp only at h
  split at h
  next offset hfind =>
    cases h
    have hlt : (os.nameHash name % span + offset) % span < span := Nat.mod_lt _ (by omega)
    refine ⟨rfl, ?_⟩
    dsimp only
    omega
  next => cases h

end

section

variable {ω : Type} (os : Os ω)

/-- Register services one after the other, as at boot. -/
def addAll (specs : List ServiceSpec) : Manage ω Unit := specs.forM (add os)

def newIdentity (w : ω) (reserved : List Nat) (spec : ServiceSpec) :
    Except Str (Option DynamicIdentity) :=
  if spec.dynamicUser then some <$> allocateDynamicIdentity os w spec.name reserved else pure none

/-- Each service is valid, and there is an identity for each that needs one. -/
def Admitted (w : ω) : List Nat → List ServiceSpec → Prop
  | _, [] => True
  | reserved, spec :: specs => spec.validate = .ok () ∧
      ∃ identity, newIdentity os w reserved spec = .ok identity ∧
        Admitted w (reserved ++ (identity.map (·.uid)).toList) specs

/-- Adding the services one by one and reloading with all of them succeed alike, and
then every name means the same. -/
def Agree (w : ω) (specs : List ServiceSpec) : Prop :=
  ((∃ s, addAll os specs (Supervisor.new, w) = .ok () s) ↔
    ∃ t, reload os specs (Supervisor.new, w) = .ok () t) ∧
  ∀ s t, addAll os specs (Supervisor.new, w) = .ok () s →
    reload os specs (Supervisor.new, w) = .ok () t →
    ∀ name, s.1.resolveName name = t.1.resolveName name

end

/-- The settings of a service that has been given an identity. -/
def identified (spec : ServiceSpec) : Option DynamicIdentity → ServiceSpec
  | none => spec
  | some identity => withIdentity spec identity

/-- A service made from settings. -/
structure Made (spec : ServiceSpec) (identity : Option DynamicIdentity)
    (service : ManagedService) : Prop where
  valid : spec.validate = .ok ()
  name : service.spec.name = spec.name
  aliases : service.spec.aliases = spec.aliases
  identity : dynamicIdentityFromSpec service.spec = identity

section

variable {ω : Type} (os : Os ω) {w : ω} {reserved reserved' : List Nat} {spec : ServiceSpec}
  {identity : Option DynamicIdentity} {service : ManagedService}

theorem newIdentity_congr (h : ∀ id, id ∈ reserved ↔ id ∈ reserved') :
    newIdentity os w reserved spec = newIdentity os w reserved' spec := by
  rw [newIdentity, newIdentity, allocate_congr os h]

theorem record_eq (spec : ServiceSpec) : (match ServiceRecord.new spec with
    | .ok record => pure (ManagedService.ofRecord record)
    | .error _ => throw "invalid service specification".toList : Except Str ManagedService) =
    match spec.validate with
    | .ok _ => .ok (.ofRecord (fresh spec))
    | .error _ => .error "invalid service specification".toList := by
  rw [ServiceRecord.new]
  cases spec.validate with
  | error e => rfl
  | ok u => rfl

theorem new_eq (hi : newIdentity os w reserved spec = .ok identity) :
    newWithDynamicIdentity spec identity =
      match spec.validate with
      | .ok _ => .ok (.ofRecord (fresh (identified spec identity)))
      | .error _ => .error "invalid service specification".toList := by
  rw [newIdentity] at hi
  cases hd : spec.dynamicUser with
  | false =>
    rw [hd] at hi
    cases hi
    simp only [newWithDynamicIdentity, hd]
    exact record_eq spec
  | true =>
    rw [hd, if_pos rfl] at hi
    cases ha : allocateDynamicIdentity os w spec.name reserved with
    | error e =>
      rw [ha] at hi
      cases hi
    | ok id =>
      rw [ha] at hi
      cases hi
      simp only [newWithDynamicIdentity, hd]
      exact record_eq (withIdentity spec id)

theorem newIdentity_same {identity : DynamicIdentity}
    (hi : newIdentity os w reserved spec = .ok (some identity)) : identity.gid = identity.uid := by
  rw [newIdentity] at hi
  split at hi
  · cases ha : allocateDynamicIdentity os w spec.name reserved with
    | error e =>
      rw [ha] at hi
      cases hi
    | ok id =>
      rw [ha] at hi
      cases hi
      exact (allocate_ok os ha).1.symm
  · cases hi

theorem new_iff (hi : newIdentity os w reserved spec = .ok identity) :
    (∃ service, newWithDynamicIdentity spec identity = .ok service) ↔ spec.validate = .ok () := by
  rw [new_eq os hi]
  cases spec.validate with
  | ok u => exact ⟨fun _ => rfl, fun _ => ⟨_, rfl⟩⟩
  | error e =>
    constructor
    · rintro ⟨service, ⟨⟩⟩
    · rintro ⟨⟩

theorem made_of_new (hi : newIdentity os w reserved spec = .ok identity)
    (h : newWithDynamicIdentity spec identity = .ok service) : Made spec identity service := by
  have hv := (new_iff os hi).mp ⟨service, h⟩
  rw [new_eq os hi, hv] at h
  cases h
  rw [newIdentity] at hi
  cases hd : spec.dynamicUser with
  | false =>
    rw [hd] at hi
    cases hi
    have hnot : ¬ (ManagedService.ofRecord (fresh spec)).spec.dynamicUser :=
      Bool.not_eq_true _ ▸ hd
    exact ⟨hv, rfl, rfl, if_neg hnot⟩
  | true =>
    rw [hd, if_pos rfl] at hi
    cases ha : allocateDynamicIdentity os w spec.name reserved with
    | error e =>
      rw [ha] at hi
      cases hi
    | ok id =>
      rw [ha] at hi
      cases hi
      obtain ⟨heq, hlt⟩ := allocate_ok os ha
      exact ⟨hv, rfl, rfl, dynamicIdentity_withIdentity hd hlt (heq ▸ hlt)⟩

end

/-- What `add` makes of the aliases of a service. -/
def stemAliases (spec : ServiceSpec) : List Str :=
  (ofList (spec.aliases.map fun a => (removeSuffix svcSuffix a).getD a)).keys.filter (· ≠ spec.name)

def taken (s : Supervisor) (n : Str) : Bool := s.services.contains n || s.aliases.contains n

section

variable {spec : ServiceSpec} {n : Str}

theorem mem_stemAliases : n ∈ stemAliases spec ↔ Stemmed spec n ∧ n ≠ spec.name := by
  rw [stemAliases, List.mem_filter, mem_ofList, List.mem_map, decide_eq_true_eq, Stemmed]
  constructor
  · exact fun h => ⟨.inr h.1, h.2⟩
  · exact fun h => ⟨h.1.resolve_left h.2, h.2⟩

end

section

variable {ω : Type} (os : Os ω) {w : ω} {s : Supervisor} {t : Supervisor × ω} {spec : ServiceSpec}

omit os in
theorem orFail_some (r : ω → Except Str DynamicIdentity)
    (f : Option DynamicIdentity → Except Str ManagedService) (g : ManagedService → Manage ω Unit)
    (t : Supervisor × ω) :
    (do
      let identity ← do
        let allocated ← look r
        some <$> orFail allocated
      let service ← orFail (f identity)
      g service : Manage ω Unit) t =
    (do
      let service ← orFail ((some <$> r t.2).bind f)
      g service : Manage ω Unit) t := by
  have hvalue : ∀ v : Except Str DynamicIdentity,
      (do
        let identity ← some <$> (orFail v : Manage ω DynamicIdentity)
        let service ← orFail (f identity)
        g service : Manage ω Unit) t =
      (do
        let service ← orFail ((some <$> v).bind f)
        g service : Manage ω Unit) t := fun v => by cases v <;> rfl
  exact hvalue (r t.2)

attribute [local irreducible] allocateDynamicIdentity in
/-- What `add` does, once there is an identity. -/
theorem add_eq : add os spec (s, w) = (do
    let service ← orFail ((newIdentity os w (dynamicUserIds s) spec).bind
      (newWithDynamicIdentity spec))
    if taken s spec.name then fail (definedTwice spec.name)
    if let some a := (stemAliases spec).find? (taken s) then
      fail ("service alias ".toList ++ a ++ " conflicts with an existing service".toList)
    update fun s => { s with
      services := s.services.insert spec.name service
      aliases := (stemAliases spec).foldl (·.insert · spec.name) s.aliases } : Manage ω Unit)
        (s, w) := by
  unfold add newIdentity
  cases spec.dynamicUser with
  | false => rfl
  | true =>
    simp only [if_true]
    exact orFail_some
      (fun w => allocateDynamicIdentity os w spec.name (dynamicUserIds s)) _ _ (s, w)

theorem add_ok : add os spec (s, w) = .ok () t ↔
    ∃ identity service, newIdentity os w (dynamicUserIds s) spec = .ok identity ∧
      newWithDynamicIdentity spec identity = .ok service ∧ ¬ taken s spec.name ∧
      (∀ a ∈ stemAliases spec, ¬ taken s a) ∧
      ({ s with
        services := s.services.insert spec.name service
        aliases := (stemAliases spec).foldl (·.insert · spec.name) s.aliases }, w) = t := by
  rw [add_eq, bind_ok]
  constructor
  · rintro ⟨service, u, hservice, h⟩
    cases hi : newIdentity os w (dynamicUserIds s) spec with
    | error e =>
      rw [hi] at hservice
      cases hservice
    | ok identity =>
      cases hn : newWithDynamicIdentity spec identity with
      | error e =>
        rw [hi, Except.bind, hn] at hservice
        cases hservice
      | ok service' =>
        rw [hi, Except.bind, hn] at hservice
        cases hservice
        by_cases htaken : taken s spec.name
        · simp only [htaken, if_true] at h
          cases h
        · simp only [htaken] at h
          cases hfind : (stemAliases spec).find? (taken s) with
          | some a =>
            rw [hfind] at h
            cases h
          | none =>
            rw [hfind] at h
            cases h
            refine ⟨identity, service, rfl, hn, htaken, ?_, rfl⟩
            simpa using List.find?_eq_none.mp hfind
  · rintro ⟨identity, service, hi, hn, htaken, hfree, rfl⟩
    refine ⟨service, (s, w), ?_, ?_⟩
    · rw [hi, Except.bind, hn]
      rfl
    · have hfind : (stemAliases spec).find? (taken s) = none :=
        List.find?_eq_none.mpr fun a ha => hfree a ha
      simp only [htaken, hfind]
      rfl

end

section

variable {s : Supervisor} {m : ManagedService} {name n c d : Str} {id : Nat} {l : List Str}
  {t : BTreeMap Str Str} {done : List ServiceSpec}

theorem get_foldl_insert :
    (l.foldl (·.insert · c) t).get n = some d ↔ n ∈ l ∧ c = d ∨ n ∉ l ∧ t.get n = some d := by
  induction l generalizing t with
  | nil => simp
  | cons a l ih =>
    rw [List.foldl_cons, ih, get_insert, List.mem_cons]
    by_cases hl : n ∈ l
    · simp [hl]
    · by_cases ha : n = a
      · subst ha
        simp [hl]
      · simp [hl, ha]

theorem mem_dynamicUserIds : id ∈ dynamicUserIds s ↔ ∃ name m, s.services.get name = some m ∧
    ∃ identity ∈ dynamicIdentityFromSpec m.spec, id = identity.uid ∨ id = identity.gid := by
  simp only [dynamicUserIds, dynamicIdentities, BTreeMap.values, List.mem_flatMap,
    List.mem_filterMap, List.mem_map, List.mem_pair, get_eq_some, Option.mem_def]
  constructor
  · rintro ⟨identity, ⟨_, ⟨e, he, rfl⟩, hi⟩, hid⟩
    exact ⟨e.1, e.2, he, identity, hi, hid⟩
  · rintro ⟨name, m, he, identity, hi, hid⟩
    exact ⟨identity, ⟨m, ⟨_, he, rfl⟩, hi⟩, hid⟩

theorem mem_dynamicUserIds_insert (hfresh : s.services.get name = none) :
    id ∈ dynamicUserIds { s with services := s.services.insert name m } ↔
      id ∈ dynamicUserIds s ∨
        ∃ identity ∈ dynamicIdentityFromSpec m.spec, id = identity.uid ∨ id = identity.gid := by
  rw [mem_dynamicUserIds, mem_dynamicUserIds]
  constructor
  · rintro ⟨name', m', hm, hi⟩
    rw [get_insert] at hm
    split at hm
    next =>
      cases hm
      exact .inr hi
    next => exact .inl ⟨name', m', hm, hi⟩
  · rintro (⟨name', m', hm, hi⟩ | hi)
    · refine ⟨name', m', ?_, hi⟩
      rw [get_insert_of_ne _ (fun he => ?_), hm]
      rw [he, hfresh] at hm
      cases hm
    · exact ⟨name, m, get_insert_self _ _ _, hi⟩

theorem taken_iff (h : Registers Stemmed done s) : taken s n ↔ ∃ a ∈ done, Stemmed a n := by
  rw [taken, Bool.or_eq_true, h.services, contains_iff]
  constructor
  · rintro (⟨a, ha, rfl⟩ | ⟨c, hc⟩)
    · exact ⟨a, ha, stemmed_self a⟩
    · obtain ⟨a, ha, -, hn, -⟩ := (h.aliases n c).mp hc
      exact ⟨a, ha, hn⟩
  · rintro ⟨a, ha, hn⟩
    by_cases hname : n = a.name
    · exact .inl ⟨a, ha, hname.symm⟩
    · exact .inr ⟨a.name, (h.aliases n a.name).mpr ⟨a, ha, rfl, hn, hname⟩⟩

end

section

variable {ω : Type} (os : Os ω) {w : ω} {s : Supervisor} {t : Supervisor × ω}
  {spec : ServiceSpec} {specs done : List ServiceSpec} {reserved : List Nat}

/-- The services that are registered and the identities that are taken. -/
structure Holds (done : List ServiceSpec) (reserved : List Nat) (s : Supervisor) : Prop where
  tables : Registers Stemmed done s
  reserved : ∀ id, id ∈ dynamicUserIds s ↔ id ∈ reserved

theorem free_iff (h : Registers Stemmed done s) :
    (¬ taken s spec.name ∧ ∀ a ∈ stemAliases spec, ¬ taken s a) ↔
      ∀ a ∈ done, ∀ n, ¬ (Stemmed a n ∧ Stemmed spec n) := by
  simp only [mem_stemAliases, taken_iff h]
  constructor
  · rintro ⟨hname, haliases⟩ a ha n ⟨han, hn⟩
    by_cases he : n = spec.name
    · exact hname ⟨a, ha, he ▸ han⟩
    · exact haliases n ⟨hn, he⟩ ⟨a, ha, han⟩
  · intro hfree
    refine ⟨?_, ?_⟩
    · rintro ⟨a, ha, hn⟩
      exact hfree a ha _ ⟨hn, stemmed_self spec⟩
    · rintro n ⟨hn, -⟩ ⟨a, ha, han⟩
      exact hfree a ha n ⟨han, hn⟩

theorem add_iff (h : Holds done reserved s) : (∃ t, add os spec (s, w) = .ok () t) ↔
    spec.validate = .ok () ∧ (∃ identity, newIdentity os w reserved spec = .ok identity) ∧
      ∀ a ∈ done, ∀ n, ¬ (Stemmed a n ∧ Stemmed spec n) := by
  simp only [add_ok, newIdentity_congr os h.reserved, ← free_iff h.tables]
  constructor
  · rintro ⟨t, identity, service, hi, hn, hname, hfree, -⟩
    exact ⟨(new_iff os hi).mp ⟨service, hn⟩, ⟨identity, hi⟩, hname, hfree⟩
  · rintro ⟨hv, ⟨identity, hi⟩, hname, hfree⟩
    obtain ⟨service, hn⟩ := (new_iff os hi).mpr hv
    exact ⟨_, identity, service, hi, hn, hname, hfree, rfl⟩

theorem add_holds (h : Holds done reserved s) (hadd : add os spec (s, w) = .ok () t) :
    t.2 = w ∧ ∃ identity, newIdentity os w reserved spec = .ok identity ∧
      Holds (done ++ [spec]) (reserved ++ (identity.map (·.uid)).toList) t.1 := by
  obtain ⟨identity, service, hi, hnew, hname, hfree, rfl⟩ := (add_ok os).mp hadd
  rw [newIdentity_congr os h.reserved] at hi
  have hmade := made_of_new os hi hnew
  refine ⟨rfl, identity, hi, ⟨⟨fun n => ?_, fun n c => ?_⟩, fun id => ?_⟩⟩
  · rw [contains_insert, h.tables.services]
    simp [or_comm, eq_comm]
  · rw [get_foldl_insert, mem_stemAliases, h.tables.aliases]
    have hdisjoint := (free_iff h.tables).mp ⟨hname, hfree⟩
    constructor
    · rintro (⟨⟨hn, hne⟩, rfl⟩ | ⟨-, a, ha, hrest⟩)
      · exact ⟨spec, List.mem_concat_self, rfl, hn, hne⟩
      · exact ⟨a, List.mem_append_left _ ha, hrest⟩
    · rintro ⟨a, ha, rfl, hn, hne⟩
      obtain ha | ha := List.mem_append.mp ha
      · exact .inr ⟨fun hs => hdisjoint a ha n ⟨hn, hs.1⟩, a, ha, rfl, hn, hne⟩
      · obtain rfl := List.mem_singleton.mp ha
        exact .inl ⟨⟨hn, hne⟩, rfl⟩
  · have hfresh : s.services.get spec.name = none := by
      by_contra hsome
      exact hname (Bool.or_eq_true_iff.mpr (.inl (Option.isSome_iff_ne_none.mpr hsome)))
    refine (mem_dynamicUserIds_insert (m := service) hfresh).trans ?_
    rw [h.reserved, hmade.identity]
    rw [List.mem_append]
    refine or_congr_right ?_
    cases identity with
    | none => simp
    | some identity => simp [newIdentity_same os hi]

theorem addAll_iff (h : Holds done reserved s) : (∃ t, addAll os specs (s, w) = .ok () t) ↔
    Admitted os w reserved specs ∧ Separate Stemmed specs ∧
      ∀ a ∈ done, ∀ b ∈ specs, ∀ n, ¬ (Stemmed a n ∧ Stemmed b n) := by
  induction specs generalizing done reserved s with
  | nil => exact ⟨fun _ => ⟨trivial, .nil, by simp⟩, fun _ => ⟨(s, w), rfl⟩⟩
  | cons spec specs ih =>
    rw [Separate, List.pairwise_cons, Admitted]
    constructor
    · rintro ⟨t, hall⟩
      obtain ⟨_, u, hu, ht⟩ := bind_ok.mp hall
      obtain ⟨hv, -, hfree⟩ := (add_iff os h).mp ⟨u, hu⟩
      obtain ⟨hw, identity, hi, hholds⟩ := add_holds os h hu
      obtain ⟨u, w'⟩ := u
      obtain rfl : w' = w := hw
      obtain ⟨hadmitted, hseparate, hrest⟩ := (ih hholds).mp ⟨t, ht⟩
      refine ⟨⟨hv, identity, hi, hadmitted⟩, ⟨fun b hb => ?_, hseparate⟩, fun a ha b hb => ?_⟩
      · exact hrest spec List.mem_concat_self b hb
      · obtain rfl | hb := List.mem_cons.mp hb
        · exact hfree a ha
        · exact hrest a (List.mem_append_left _ ha) b hb
    · rintro ⟨⟨hv, identity, hi, hadmitted⟩, ⟨hfirst, hseparate⟩, hrest⟩
      obtain ⟨u, hu⟩ := (add_iff os h).mpr
        ⟨hv, ⟨identity, hi⟩, fun a ha => hrest a ha spec List.mem_cons_self⟩
      obtain ⟨hw, identity', hi', hholds⟩ := add_holds os h hu
      obtain rfl : identity = identity' := Except.ok.inj (hi.symm.trans hi')
      obtain ⟨u, w'⟩ := u
      obtain rfl : w' = w := hw
      obtain ⟨t, ht⟩ := (ih hholds).mpr ⟨hadmitted, hseparate, fun a ha b hb => by
        obtain ha | ha := List.mem_append.mp ha
        · exact hrest a ha b (List.mem_cons_of_mem _ hb)
        · obtain rfl := List.mem_singleton.mp ha
          exact hfirst b hb⟩
      exact ⟨t, bind_ok.mpr ⟨(), _, hu, ht⟩⟩

theorem addAll_registers (h : Holds done reserved s)
    (hadd : addAll os specs (s, w) = .ok () t) : Registers Stemmed (done ++ specs) t.1 := by
  induction specs generalizing done reserved s with
  | nil =>
    cases hadd
    rw [List.append_nil]
    exact h.tables
  | cons spec specs ih =>
    obtain ⟨_, u, hu, ht⟩ := bind_ok.mp hadd
    obtain ⟨hw, identity, -, hholds⟩ := add_holds os h hu
    obtain ⟨u, w'⟩ := u
    obtain rfl : w' = w := hw
    have hrest := ih hholds ht
    rwa [List.append_assoc] at hrest

end

end FractalD.Manager.Registration
