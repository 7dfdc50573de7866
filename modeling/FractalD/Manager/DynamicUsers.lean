import FractalD.Manager.Waiting

namespace FractalD.Manager.DynamicUsers

open FractalD.Core.Spec FractalD.Machine.CString FractalD.Machine.OrderedMap
open FractalD.Machine.Result FractalD.Manager.Issues FractalD.Manager.Registration
open FractalD.Manager.Registry FractalD.Manager.Replacement FractalD.Manager.Resolution
open FractalD.Manager.Runs FractalD.Manager.Standing FractalD.Manager.Survival
open FractalD.Manager.Waiting FractalD.Supervisor.System
open FractalD.Supervisor.Service (ManagedService DynamicIdentity newWithDynamicIdentity
  withIdentity)
open Relation

/-- The numbers that dynamic users are given. -/
def InRange (id : Nat) : Prop := dynamicUserMin ≤ id ∧ id ≤ dynamicUserMax

section

variable {ω : Type} (os : Os ω) {w : ω} {name : Str} {reserved : List Nat}
  {identity : DynamicIdentity} {e : Str} {id : Nat}

theorem walk_visits {start span x : Nat} (hstart : start < span) (hx : x < span) :
    (start + (x + span - start) % span) % span = x := by
  rw [Nat.add_mod_mod, Nat.add_sub_cancel' (by omega), Nat.add_mod_right, Nat.mod_eq_of_lt hx]

theorem allocate_fresh (h : allocateDynamicIdentity os w name reserved = .ok identity) :
    identity = ⟨identity.uid, identity.uid⟩ ∧ InRange identity.uid ∧ identity.uid ∉ reserved := by
  have hmin : dynamicUserMin = 61184 := rfl
  have hmax : dynamicUserMax = 65519 := rfl
  unfold allocateDynamicIdentity at h
  generalize hspan : dynamicUserMax - dynamicUserMin + 1 = span at h
  dsimp only at h
  split at h
  next offset hfind =>
    cases h
    have hlt : (os.nameHash name % span + offset) % span < span := Nat.mod_lt _ (by omega)
    have hfree := List.find?_some hfind
    rw [decide_eq_true_eq] at hfree
    refine ⟨rfl, ⟨Nat.le_add_right _ _, ?_⟩, hfree.1⟩
    dsimp only
    omega
  next => cases h

theorem allocate_exhausted (h : allocateDynamicIdentity os w name reserved = .error e)
    (hid : InRange id) : id ∈ reserved ∨ os.identityOccupied w id := by
  obtain ⟨hlow, hhigh⟩ := hid
  have hmin : dynamicUserMin = 61184 := rfl
  have hmax : dynamicUserMax = 65519 := rfl
  unfold allocateDynamicIdentity at h
  generalize hspan : dynamicUserMax - dynamicUserMin + 1 = span at h
  dsimp only at h
  split at h
  next => cases h
  next hfind =>
    have hstart : os.nameHash name % span < span := Nat.mod_lt _ (by omega)
    have hvisit := walk_visits hstart (x := id - dynamicUserMin) (by omega)
    have hnot := List.find?_eq_none.mp hfind
      ((id - dynamicUserMin + span - os.nameHash name % span) % span)
      (List.mem_range.mpr (Nat.mod_lt _ (by omega)))
    simp only [hvisit, Nat.add_sub_cancel' hlow, decide_eq_true_eq] at hnot
    by_contra hneither
    obtain ⟨hreserved, hoccupied⟩ := not_or.mp hneither
    exact hnot ⟨hreserved, by simpa using hoccupied⟩

end

/-- The identity of a service among some. -/
def identityIn (specs : BTreeMap Str ServiceSpec) (name : Str) : Option DynamicIdentity :=
  (specs.get name).bind dynamicIdentityFromSpec

/-- Each dynamic user has a number of its own. -/
structure Identified (specs : BTreeMap Str ServiceSpec) : Prop where
  given : ∀ {name spec}, specs.get name = some spec → spec.dynamicUser →
    ∃ id, InRange id ∧ dynamicIdentityFromSpec spec = some ⟨id, id⟩
  distinct : ∀ {name name' i i'}, identityIn specs name = some i → identityIn specs name' = some i' →
    i.uid = i'.uid → name = name'

section

variable {s : Supervisor} {name : Str} {spec : ServiceSpec} {specs : BTreeMap Str ServiceSpec}
  {m : ManagedService} {identity : Option DynamicIdentity} {id : Nat}

theorem identityFor_eq : dynamicIdentityFor s name = identityIn (settings s) name := by
  rw [dynamicIdentityFor, identityIn, settings, get_map, Option.bind_map]
  rfl

theorem identified_empty : Identified empty where
  given h := by cases h
  distinct h := by cases h

theorem identityIn_insert {name' : Str} : identityIn (specs.insert name spec) name' =
    if name' = name then dynamicIdentityFromSpec spec else identityIn specs name' := by
  rw [identityIn, get_insert, identityIn]
  split <;> rfl

theorem reserved_iff : id ∈ dynamicUserIds s ↔
    ∃ name i, identityIn (settings s) name = some i ∧ (id = i.uid ∨ id = i.gid) := by
  rw [mem_dynamicUserIds]
  constructor
  · rintro ⟨name, m, hm, i, hi, hid⟩
    refine ⟨name, i, ?_, hid⟩
    rw [← identityFor_eq, dynamicIdentityFor, hm]
    exact hi
  · rintro ⟨name, i, hi, hid⟩
    rw [← identityFor_eq] at hi
    obtain ⟨m, hm, hi⟩ := Option.bind_eq_some_iff.mp hi
    exact ⟨name, m, hm, i, hi, hid⟩

theorem identified_insert (h : Identified specs)
    (hgiven : spec.dynamicUser → ∃ id, InRange id ∧ dynamicIdentityFromSpec spec = some ⟨id, id⟩)
    (hfree : ∀ i, dynamicIdentityFromSpec spec = some i → ∀ name' i', name' ≠ name →
      identityIn specs name' = some i' → i.uid ≠ i'.uid) : Identified (specs.insert name spec) where
  given {name' spec'} hget := by
    rw [get_insert] at hget
    split at hget
    · cases hget
      exact hgiven
    · exact h.given hget
  distinct {n n' i i'} hi hi' heq := by
    rw [identityIn_insert] at hi hi'
    by_cases hn : n = name
    · by_cases hn' : n' = name
      · rw [hn, hn']
      · rw [if_pos hn] at hi
        rw [if_neg hn'] at hi'
        exact absurd heq (hfree i hi n' i' hn' hi')
    · rw [if_neg hn] at hi
      by_cases hn' : n' = name
      · rw [if_pos hn'] at hi'
        exact absurd heq.symm (hfree i' hi' n i hn hi)
      · rw [if_neg hn'] at hi'
        exact h.distinct hi hi' heq

theorem mem_reserved {name : Str} {i : DynamicIdentity} (h : identityIn (settings s) name = some i) :
    i.uid ∈ dynamicUserIds s :=
  reserved_iff.mpr ⟨name, i, h, .inl rfl⟩

theorem identified_lt (h : Identified specs) {i : DynamicIdentity}
    (hi : identityIn specs name = some i) : i = ⟨i.uid, i.uid⟩ ∧ InRange i.uid := by
  obtain ⟨spec, hget, hi⟩ := Option.bind_eq_some_iff.mp hi
  have hd : spec.dynamicUser = true := by
    by_contra hnot
    rw [dynamicIdentityFromSpec, if_neg hnot] at hi
    cases hi
  obtain ⟨id, hid, heq⟩ := h.given hget hd
  cases heq.symm.trans hi
  exact ⟨rfl, hid⟩

variable {ω : Type} (os : Os ω) {w : ω} {reserved : List Nat}

theorem new_identified (hs : Identified (settings s))
    (hi : identityFor os w s reserved spec = .ok identity)
    (hn : newWithDynamicIdentity spec identity = .ok m) :
    dynamicIdentityFromSpec m.spec = identity ∧
      (m.spec.dynamicUser → ∃ id, InRange id ∧ identity = some ⟨id, id⟩) ∧
      ∀ i, identity = some i → identityIn (settings s) spec.name = some i ∨
        identityIn (settings s) spec.name = none ∧ i.uid ∉ reserved := by
  have hgiven : spec.dynamicUser = true → ∃ id, InRange id ∧ identity = some ⟨id, id⟩ ∧
      (identityIn (settings s) spec.name = some ⟨id, id⟩ ∨
        identityIn (settings s) spec.name = none ∧ id ∉ reserved) := by
    intro hd
    obtain ⟨hnew, hnone⟩ | ⟨i, hfor, rfl⟩ := identityFor_cases os hi
    · rw [newIdentity, if_pos hd] at hnew
      cases ha : allocateDynamicIdentity os w spec.name reserved with
      | error e =>
        rw [ha] at hnew
        cases hnew
      | ok i =>
        rw [ha] at hnew
        cases hnew
        obtain ⟨heq, hrange, hfree⟩ := allocate_fresh os ha
        exact ⟨i.uid, hrange, congrArg some heq, .inr ⟨identityFor_eq.symm.trans hnone, hfree⟩⟩
    · have hin := identityFor_eq.symm.trans hfor
      obtain ⟨heq, hrange⟩ := identified_lt hs hin
      rw [if_pos hd]
      exact ⟨i.uid, hrange, congrArg some heq, .inl (heq ▸ hin)⟩
  obtain ⟨-, ⟨hd, hspec⟩ | ⟨i, hd, rfl, hspec⟩⟩ := new_cases hn
  · have hnone : identity = none := by
      rw [identityFor, hd] at hi
      cases hi
      rfl
    subst hnone
    rw [hspec, dynamicIdentityFromSpec, hd]
    exact ⟨rfl, fun h => (by cases h), fun i h => (by cases h)⟩
  · obtain ⟨id, hrange, heq, horigin⟩ := hgiven hd
    cases heq
    have hlt : id < 2 ^ 32 := by
      have hmax : dynamicUserMax = 65519 := rfl
      have := hrange.2
      omega
    rw [hspec]
    refine ⟨dynamicIdentity_withIdentity hd hlt hlt, fun _ => ⟨id, hrange, rfl⟩, ?_⟩
    rintro _ ⟨⟩
    exact horigin

/-- The services of a new configuration have numbers of their own, and those that had
one keep it. -/
structure Entered (s : Supervisor) (incoming : BTreeMap Str ServiceSpec) (reserved : List Nat) :
    Prop where
  identified : Identified incoming
  old : ∀ id ∈ dynamicUserIds s, id ∈ reserved
  taken : ∀ {name i}, identityIn incoming name = some i → i.uid ∈ reserved
  origin : ∀ {name i}, identityIn incoming name = some i →
    identityIn (settings s) name = some i ∨
      identityIn (settings s) name = none ∧ i.uid ∉ dynamicUserIds s

theorem entered_empty (s : Supervisor) : Entered s empty (dynamicUserIds s) where
  identified := identified_empty
  old _ hid := hid
  taken hin := by cases hin
  origin hin := by cases hin

theorem entered_enter (hs : Identified (settings s)) {incoming : BTreeMap Str ManagedService}
    {r : BTreeMap Str ManagedService × List Nat}
    (h : Entered s (incoming.map (·.spec)) reserved)
    (hr : enterOver os w s (incoming, reserved) spec = .ok r) :
    Entered s (r.1.map (·.spec)) r.2 := by
  obtain ⟨identity, m, hi, hn, -, rfl⟩ := (enterOver_ok os).mp hr
  obtain ⟨hidentity, hgiven, horigin⟩ := new_identified os hs hi hn
  dsimp only
  rw [map_insert]
  refine ⟨identified_insert h.identified ?_ ?_, fun id hid => ?_, fun {n i} hin => ?_,
    fun {n i} hin => ?_⟩
  · rwa [hidentity]
  · intro i hfrom n' i' hne hin' heq
    obtain hold | ⟨-, hfree⟩ := horigin i (hidentity.symm.trans hfrom)
    · obtain hold' | ⟨-, hnot⟩ := h.origin hin'
      · exact hne (hs.distinct hold' hold heq.symm)
      · exact hnot (heq ▸ mem_reserved hold)
    · exact hfree (heq ▸ h.taken hin')
  · exact List.mem_append_left _ (h.old id hid)
  · rw [identityIn_insert] at hin
    split at hin
    · rw [← hidentity, hin]
      exact List.mem_append_right _ (by simp)
    · exact List.mem_append_left _ (h.taken hin)
  · rw [identityIn_insert] at hin
    split at hin
    next heq =>
      subst heq
      obtain hold | ⟨hnone, hfree⟩ := horigin i (hidentity.symm.trans hin)
      · exact .inl hold
      · exact .inr ⟨hnone, fun hmem => hfree (h.old _ hmem)⟩
    next => exact h.origin hin

theorem reload_identified {descriptors : List ServiceSpec} {t : Supervisor × ω}
    (hs : Identified (settings s)) (h : reload os descriptors (s, w) = .ok () t) :
    Identified (settings t.1) ∧ ∀ {name i i'}, identityIn (settings s) name = some i →
      identityIn (settings t.1) name = some i' → i' = i := by
  obtain ⟨incoming, aliases, hi, -, -, rfl⟩ := (reload_ok os).mp h
  rw [incomingServices_eq] at hi
  cases hr : descriptors.foldlM (enterOver os w s) (empty, dynamicUserIds s) with
  | error e =>
    rw [hr] at hi
    cases hi
  | ok r =>
    rw [hr] at hi
    cases hi
    have hentered : Entered s (r.1.map (·.spec)) r.2 :=
      @foldlM_ok _ _ _ _ (fun _ p => Entered s (p.1.map (·.spec)) p.2)
        (fun _ _ _ _ hp => entered_enter os hs hp) descriptors [] _ r (entered_empty s) hr
    rw [settings_reload]
    refine ⟨hentered.identified, fun {name i i'} hi hi' => ?_⟩
    obtain hold | ⟨hnone, -⟩ := hentered.origin hi'
    · exact Option.some.inj (hold.symm.trans hi)
    · cases hnone.symm.trans hi

theorem add_identified {t : Supervisor × ω} (hs : Identified (settings s))
    (h : add os spec (s, w) = .ok () t) :
    Identified (settings t.1) ∧ ∀ {name i i'}, identityIn (settings s) name = some i →
      identityIn (settings t.1) name = some i' → i' = i := by
  obtain ⟨identity, m, hi, hn, htaken, -, rfl⟩ := (add_ok os).mp h
  have hfresh : s.services.get spec.name = none := by
    by_contra hsome
    exact htaken (Bool.or_eq_true_iff.mpr (.inl (Option.isSome_iff_ne_none.mpr hsome)))
  have hnone : identityIn (settings s) spec.name = none := by
    rw [← identityFor_eq, dynamicIdentityFor, hfresh, Option.bind_none]
  have hfor : identityFor os w s (dynamicUserIds s) spec = .ok identity := by
    rw [identityFor, identityFor_eq, hnone]
    exact hi
  obtain ⟨hidentity, hgiven, horigin⟩ := new_identified os hs hfor hn
  change Identified (settings { s with services := _ }) ∧ ∀ {name i i'}, _ →
    identityIn (settings { s with services := _ }) name = some i' → i' = i
  rw [settings_insert]
  refine ⟨identified_insert hs (by rwa [hidentity]) ?_, fun {n i i'} hold hin => ?_⟩
  · intro i hfrom n' i' hne hin' heq
    obtain hold | ⟨-, hfree⟩ := horigin i (hidentity.symm.trans hfrom)
    · cases hnone.symm.trans hold
    · exact hfree (heq ▸ mem_reserved hin')
  · rw [identityIn_insert] at hin
    split at hin
    next heq =>
      subst heq
      cases hnone.symm.trans hold
    next => exact Option.some.inj (hin.symm.trans hold)

theorem leads_identified {s t : Supervisor × ω} {c : Command}
    (ht : Tables (settings s.1) s.1.aliases) (hs : Identified (settings s.1))
    (h : Leads os c s t) :
    Identified (settings t.1) ∧ ∀ {name i i'}, identityIn (settings s.1) name = some i →
      identityIn (settings t.1) name = some i' → i' = i := by
  have hsame (heq : settings t.1 = settings s.1) : Identified (settings t.1) ∧
      ∀ {name i i'}, identityIn (settings s.1) name = some i →
        identityIn (settings t.1) name = some i' → i' = i := by
    rw [heq]
    exact ⟨hs, fun hi hi' => Option.some.inj (hi'.symm.trans hi)⟩
  have hsteady (hc : Steady c) := hsame (steady_settings os ht hc h).1
  cases c with
  | add spec =>
    obtain ⟨depth, h | ⟨e, h⟩⟩ := h
    · exact add_identified os hs h
    · exact hsame (by rw [(add_error os h).1])
  | reload specs =>
    obtain ⟨depth, h | ⟨e, h⟩⟩ := h
    · exact reload_identified os hs h
    · exact hsame (by rw [(reload_error os h).1])
  | _ => exact hsteady trivial

/-- The system around a supervisor changes, or a command is carried out. -/
inductive Happens (os : Os ω) : Supervisor × ω → Supervisor × ω → Prop
  | drift {s : Supervisor} {w : ω} (w' : ω) : Happens os (s, w) (s, w')
  | command {c : Command} {s t : Supervisor × ω} : Leads os c s t → Happens os s t

def Dynamic (name : Str) (s : Supervisor × ω) : Prop :=
  ∃ m, s.1.services.get name = some m ∧ m.spec.dynamicUser = true

/-- A service has a dynamic user in all states from one to another. -/
def StaysDynamic (os : Os ω) (name : Str) : Supervisor × ω → Supervisor × ω → Prop :=
  ReflTransGen fun s t => Happens os s t ∧ Dynamic name s ∧ Dynamic name t

theorem reachable_identified {s : Supervisor × ω} (h : Reachable os s) :
    Tables (settings s.1) s.1.aliases ∧ Identified (settings s.1) := by
  induction h with
  | new w => exact ⟨tables_new, identified_empty⟩
  | drift w' _ ih => exact ih
  | command _ hc ih => exact ⟨step_tables os ih.1 hc, (leads_identified os ih.1 ih.2 hc).1⟩

theorem dynamic_identity {s : Supervisor × ω} (hs : Identified (settings s.1)) {name : Str}
    (h : Dynamic name s) :
    ∃ id, InRange id ∧ dynamicIdentityFor s.1 name = some ⟨id, id⟩ := by
  obtain ⟨m, hm, hd⟩ := h
  obtain ⟨id, hid, hi⟩ := hs.given (by rw [settings, get_map, hm, Option.map_some]) hd
  exact ⟨id, hid, by rw [dynamicIdentityFor, hm, Option.bind_some, hi]⟩

theorem happens_reachable {s t : Supervisor × ω} (hs : Reachable os s) (h : Happens os s t) :
    Reachable os t := by
  cases h with
  | drift w' => exact .drift w' hs
  | command h => exact .command hs h

theorem stays_identity {s t : Supervisor × ω} {name : Str} (hs : Reachable os s)
    (h : StaysDynamic os name s t) :
    Reachable os t ∧ dynamicIdentityFor t.1 name = dynamicIdentityFor s.1 name := by
  induction h with
  | refl => exact ⟨hs, rfl⟩
  | tail _ hstep ih =>
    obtain ⟨hu, hsame⟩ := ih
    obtain ⟨hhappens, hbefore, hafter⟩ := hstep
    have ht := happens_reachable os hu hhappens
    refine ⟨ht, Eq.trans ?_ hsame⟩
    cases hhappens with
    | drift w' => rfl
    | command hc =>
      obtain ⟨htables, hidentified⟩ := reachable_identified os hu
      obtain ⟨-, hstable⟩ := leads_identified os htables hidentified hc
      obtain ⟨id, -, hid⟩ := dynamic_identity hidentified hbefore
      obtain ⟨id', -, hid'⟩ := dynamic_identity (reachable_identified os ht).2 hafter
      rw [hid, hid', hstable (identityFor_eq.symm.trans hid) (identityFor_eq.symm.trans hid')]

/-- Dynamic users have different numbers of the range, which they keep while they are
registered, and there is a number for another one unless all are reserved or occupied. -/
theorem dynamic_users_distinct {s : Supervisor × ω} (h : Reachable os s) :
    (∀ name, Dynamic name s →
      ∃ id, InRange id ∧ dynamicIdentityFor s.1 name = some ⟨id, id⟩) ∧
    (∀ name name' i i', dynamicIdentityFor s.1 name = some i →
      dynamicIdentityFor s.1 name' = some i' → name ≠ name' → i.uid ≠ i'.uid) ∧
    (∀ name t, StaysDynamic os name s t →
      dynamicIdentityFor t.1 name = dynamicIdentityFor s.1 name) ∧
    ∀ w name reserved e, allocateDynamicIdentity os w name reserved = .error e →
      ∀ id, InRange id → id ∈ reserved ∨ os.identityOccupied w id := by
  obtain ⟨-, hs⟩ := reachable_identified os h
  refine ⟨fun name => dynamic_identity hs, fun name name' i i' hi hi' hne heq => ?_,
    fun name t ht => (stays_identity os h ht).2, fun w name reserved e he id hid => ?_⟩
  · rw [identityFor_eq] at hi hi'
    exact hne (hs.distinct hi hi' heq)
  · exact allocate_exhausted os he hid

end

/-- Two services with dynamic users, whose names have the same hash. -/
def twoUsers : Option (Supervisor × Box) :=
  [.add { plainSpec "a" with dynamicUser := true }, .add { plainSpec "b" with dynamicUser := true }]
    |>.foldlM (fun s c => after boxOs 0 c s) (Supervisor.new, ⟨0, 0, true, []⟩)

theorem dynamic_users_distinct_two : ∃ s i i', Reachable boxOs s ∧
    dynamicIdentityFor s.1 "a".toList = some i ∧ dynamicIdentityFor s.1 "b".toList = some i' ∧
    i.uid ≠ i'.uid := by
  have hrun : twoUsers.any (fun s => (dynamicIdentityFor s.1 "a".toList).isSome &&
      (dynamicIdentityFor s.1 "b".toList).isSome) = true := by decide +kernel
  obtain ⟨s, hs, hboth⟩ := (Option.any_eq_true _ _).mp hrun
  obtain ⟨ha, hb⟩ := Bool.and_eq_true_iff.mp hboth
  obtain ⟨i, hi⟩ := Option.isSome_iff_exists.mp ha
  obtain ⟨i', hi'⟩ := Option.isSome_iff_exists.mp hb
  have hreach := reachable_of_foldlM boxOs (.new _) hs
  obtain ⟨-, hdistinct, -⟩ := dynamic_users_distinct boxOs hreach
  exact ⟨s, i, i', hreach, hi, hi', hdistinct _ _ i i' hi hi' (by decide)⟩

end FractalD.Manager.DynamicUsers
