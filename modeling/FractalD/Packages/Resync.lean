import FractalD.Machine.Result
import FractalD.Packages.Sync
import Mathlib.Data.List.TakeWhile

namespace FractalD.Packages.Resync

open FractalD.Control.State FractalD.Core.Spec FractalD.Machine.CString FractalD.Machine.Effect
open FractalD.Machine.OrderedMap FractalD.Machine.Result FractalD.Packages.Sync

abbrev View := Str → Option Marker

def drops (names : List Str) (v : View) : View := fun x => if x ∈ names then none else v x

def grants (names : List Str) (v : View) : View := fun x =>
  if x ∈ names ∧ v x = none then some .file else v x

theorem drops_nil (v : View) : drops [] v = v := by
  funext x
  simp [drops]

theorem drops_cons (name : Str) (names : List Str) (v : View) :
    drops (name :: names) v = drops names (drops [name] v) := by
  funext x
  by_cases h : x = name <;> simp [drops, h]

theorem grants_nil (v : View) : grants [] v = v := by
  funext x
  simp [grants]

theorem grants_cons (name : Str) (names : List Str) (v : View) :
    grants (name :: names) v = grants names (grants [name] v) := by
  funext x
  by_cases h : x = name
  · by_cases hv : v name = none <;> simp [grants, h, hv]
  · simp [grants, h]

theorem drops_grants_drops (d g w : List Str) (v : View) :
    drops w (grants g (drops d (drops w (grants g (drops d v))))) =
      drops w (grants g (drops d v)) := by
  funext x
  by_cases hw : x ∈ w
  · simp [drops, hw]
  · by_cases hd : x ∈ d <;> by_cases hg : x ∈ g <;> by_cases hv : v x = none <;>
      simp [drops, grants, hw, hd, hg, hv]

def removable (m : Markers) (name : Str) : Bool :=
  (validateServiceName name).isOk && lookup m (nativeServiceName name) ≠ some .directory

/-- The service can be given a marker when those of others are gone. -/
def enablable (m : Markers) (gone : List Str) (name : Str) : Bool :=
  let marker := lookup m (nativeServiceName name)
  (validateServiceName name).isOk &&
    (marker ∈ [none, some .file] || marker = some .symlink && nativeServiceName name ∈ gone)

/-- A marker may be made, or is there. -/
def Open (v : View) (x : Str) : Prop := v x = none ∨ v x = some .file

def Markable (x : Str) : Prop := x ∉ [[], ['.'], ['.', '.']]

section

variable {m m' : Markers} {name : Str} {gone : List Str}

theorem isOk_iff {α : Type} {x : Except Str α} : x.isOk ↔ ∃ a, x = .ok a := by
  cases x <;> simp [Except.isOk, Except.toBool]

theorem lookup_of_markable {x : Str} (h : Markable x) : lookup m x = m.get x := if_neg h

theorem lookup_of_not_markable {x : Str} (h : ¬ Markable x) : lookup m x = some .directory :=
  if_pos (not_not.mp h)

theorem removable_iff : removable m name ↔
    (validateServiceName name).isOk ∧ Markable (nativeServiceName name) ∧
      m.get (nativeServiceName name) ≠ some .directory := by
  rw [removable, Bool.and_eq_true, decide_eq_true_eq]
  by_cases h : Markable (nativeServiceName name)
  · simp [lookup_of_markable h, h]
  · simp [lookup_of_not_markable h, h]

theorem enablable_iff : enablable m gone name ↔
    (validateServiceName name).isOk ∧ Markable (nativeServiceName name) ∧
      (Open m.get (nativeServiceName name) ∨
        m.get (nativeServiceName name) = some .symlink ∧ nativeServiceName name ∈ gone) := by
  by_cases h : Markable (nativeServiceName name)
  · simp [enablable, Open, lookup_of_markable h, h]
  · simp [enablable, lookup_of_not_markable h, h]

theorem disable_of_removable (h : removable m name) :
    ∃ m', disable name m = .ok m' ∧ m'.get = drops [nativeServiceName name] m.get := by
  obtain ⟨hname, hmark, hdir⟩ := removable_iff.mp h
  obtain ⟨u, hu⟩ := isOk_iff.mp hname
  simp only [disable, hu, serviceNameCandidates, List.foldlM_cons, List.foldlM_nil, removeMarker,
    lookup_of_markable hmark]
  have herase : (m.erase (nativeServiceName name)).get = drops [nativeServiceName name] m.get := by
    funext x
    simp [get_erase, drops]
  cases hget : m.get (nativeServiceName name) with
  | none =>
    refine ⟨m, rfl, ?_⟩
    funext x
    by_cases hx : x = nativeServiceName name
    · simp [drops, hx, hget]
    · simp [drops, hx]
  | some k =>
    cases k with
    | file => exact ⟨_, rfl, herase⟩
    | symlink => exact ⟨_, rfl, herase⟩
    | directory => exact absurd hget hdir

theorem disable_of_not_removable (h : ¬ removable m name) : ∃ e, disable name m = .error e := by
  rw [removable, Bool.and_eq_true, decide_eq_true_eq, not_and, not_not] at h
  cases hv : validateServiceName name with
  | error e => exact ⟨e, by simp [disable, hv, bind, Except.bind]⟩
  | ok u =>
    have hl := h (isOk_iff.mpr ⟨u, hv⟩)
    simp [disable, hv, serviceNameCandidates, removeMarker, hl, bind, Except.bind]

theorem enable_of_enablable (h : enablable m [] name) :
    ∃ m', enable name m = .ok m' ∧ m'.get = grants [nativeServiceName name] m.get := by
  obtain ⟨hname, hmark, hopen⟩ := enablable_iff.mp h
  obtain ⟨u, hu⟩ := isOk_iff.mp hname
  simp only [enable, hu]
  obtain (hget | hget) | ⟨-, hnot⟩ := hopen
  · refine ⟨m.insert (nativeServiceName name) .file, ?_, ?_⟩
    · simp only [lookup_of_markable hmark, hget]
      rfl
    · funext x
      by_cases hx : x = nativeServiceName name
      · simp [grants, hx, hget]
      · simp [grants, hx, get_insert]
  · refine ⟨m, ?_, ?_⟩
    · simp only [lookup_of_markable hmark, hget]
      rfl
    · funext x
      by_cases hx : x = nativeServiceName name
      · simp [grants, hx, hget]
      · simp [grants, hx]
  · exact absurd hnot List.not_mem_nil

theorem enable_of_not_enablable (h : ¬ enablable m [] name) : ∃ e, enable name m = .error e := by
  cases hv : validateServiceName name with
  | error e => exact ⟨e, by simp [enable, hv, bind, Except.bind]⟩
  | ok u =>
    cases hk : lookup m (nativeServiceName name) with
    | none => simp [enablable, hv, hk, Except.isOk, Except.toBool] at h
    | some k =>
      cases k with
      | file => simp [enablable, hv, hk, Except.isOk, Except.toBool] at h
      | symlink => exact ⟨_, by simp only [enable, hv, hk, bind, Except.bind]; rfl⟩
      | directory => exact ⟨_, by simp only [enable, hv, hk, bind, Except.bind]; rfl⟩

end

def SameDirectories (v v' : View) : Prop := ∀ x, v' x = some .directory ↔ v x = some .directory

section

variable {m m' : Markers} {names gone : List Str}

theorem removable_congr (h : SameDirectories m.get m'.get) (name : Str) :
    removable m' name = removable m name := by
  rw [Bool.eq_iff_iff, removable_iff, removable_iff, ne_eq, ne_eq, h]

theorem sameDirectories_drops {v : View} (hv : SameDirectories m.get v)
    (h : ∀ name ∈ names, removable m name) :
    SameDirectories m.get (drops (names.map nativeServiceName) v) := by
  intro x
  by_cases hx : x ∈ names.map nativeServiceName
  · obtain ⟨name, hname, rfl⟩ := List.mem_map.mp hx
    have hdir := (removable_iff.mp (h name hname)).2.2
    simp [drops, hx, hdir]
  · simp [drops, hx, hv x]

theorem sameDirectories_grants {v : View} (hv : SameDirectories m.get v) (names : List Str) :
    SameDirectories m.get (grants names v) := by
  intro x
  rw [← hv x, grants]
  by_cases hx : x ∈ names ∧ v x = none
  · simp [hx]
  · rw [if_neg hx]

theorem sameDirectories_refl (v : View) : SameDirectories v v := fun _ => Iff.rfl

theorem enablable_congr {name : Str}
    (h : Open m'.get (nativeServiceName name) ↔ Open m.get (nativeServiceName name)) :
    enablable m' [] name = enablable m [] name := by
  rw [Bool.eq_iff_iff, enablable_iff, enablable_iff, h]
  simp

end

section

theorem withEnabled_ok {describe : Str} {f : Markers → Except Str Markers} {s : State}
    {m : Markers} (h : f s.enabled = .ok m) :
    withEnabled describe f s = .ok () { s with enabled := m } := by
  have hget : (get : Run State) s = .ok s s := rfl
  rw [withEnabled, bind_of_ok hget, h]
  rfl

theorem withEnabled_error {describe e : Str} {f : Markers → Except Str Markers} {s : State}
    (h : f s.enabled = .error e) : withEnabled describe f s = .error (describe ++ e) s := by
  have hget : (get : Run State) s = .ok s s := rfl
  rw [withEnabled, bind_of_ok hget, h]
  rfl

variable (describe : Str → Str) (names : List Str) (s : State)

theorem disableEach_ends :
    let t := drops ((names.takeWhile (removable s.enabled)).map nativeServiceName) s.enabled.get
    Ends (fun _ s' => names.all (removable s.enabled) ∧ s'.index = s.index ∧ s'.enabled.get = t)
      (fun _ s' => ¬ names.all (removable s.enabled) ∧ s'.index = s.index ∧ s'.enabled.get = t)
      (names.forM (fun name => withEnabled (describe name) (disable name)) s) := by
  induction names generalizing s with
  | nil => exact ⟨rfl, rfl, (drops_nil _).symm⟩
  | cons name names ih =>
    by_cases hr : removable s.enabled name
    · obtain ⟨m', hm', hget⟩ := disable_of_removable hr
      have hstep : withEnabled (describe name) (disable name) s =
          .ok () { s with enabled := m' } := withEnabled_ok hm'
      have hsame : SameDirectories s.enabled.get m'.get := by
        have hone : ∀ n ∈ [name], removable s.enabled n := by simpa using hr
        rw [hget]
        exact sameDirectories_drops (sameDirectories_refl _) hone
      have hcongr : removable m' = removable s.enabled := by
        funext name
        exact removable_congr hsame name
      have hrest := ih { s with enabled := m' }
      dsimp only at hrest
      rw [hcongr, hget, ← drops_cons] at hrest
      change Ends _ _ ((withEnabled (describe name) (disable name) >>= fun _ =>
        names.forM fun name => withEnabled (describe name) (disable name)) s)
      rw [bind_of_ok hstep]
      simpa [hr] using hrest
    · obtain ⟨e, he⟩ := disable_of_not_removable hr
      have hstep : withEnabled (describe name) (disable name) s = .error (describe name ++ e) s :=
        withEnabled_error he
      change Ends _ _ ((withEnabled (describe name) (disable name) >>= fun _ =>
        names.forM fun name => withEnabled (describe name) (disable name)) s)
      rw [bind_of_error hstep]
      simp [Ends, hr, drops_nil]

theorem enableEach_ends :
    let t := grants ((names.takeWhile (enablable s.enabled [])).map nativeServiceName) s.enabled.get
    Ends (fun _ s' => names.all (enablable s.enabled []) ∧ s'.index = s.index ∧ s'.enabled.get = t)
      (fun _ s' => ¬ names.all (enablable s.enabled []) ∧ s'.index = s.index ∧ s'.enabled.get = t)
      (names.forM (fun name => withEnabled (describe name) (enable name)) s) := by
  induction names generalizing s with
  | nil => exact ⟨rfl, rfl, (grants_nil _).symm⟩
  | cons name names ih =>
    by_cases hr : enablable s.enabled [] name
    · obtain ⟨m', hm', hget⟩ := enable_of_enablable hr
      have hstep : withEnabled (describe name) (enable name) s =
          .ok () { s with enabled := m' } := withEnabled_ok hm'
      have hcongr : enablable m' [] = enablable s.enabled [] := by
        funext name'
        apply enablable_congr
        rw [hget]
        generalize nativeServiceName name' = x
        by_cases hx : x = nativeServiceName name
        · rw [hx]
          by_cases hv : s.enabled.get (nativeServiceName name) = none <;> simp [Open, grants, hv]
        · simp [Open, grants, hx]
      have hrest := ih { s with enabled := m' }
      dsimp only at hrest
      rw [hcongr, hget, ← grants_cons] at hrest
      change Ends _ _ ((withEnabled (describe name) (enable name) >>= fun _ =>
        names.forM fun name => withEnabled (describe name) (enable name)) s)
      rw [bind_of_ok hstep]
      simpa [hr] using hrest
    · obtain ⟨e, he⟩ := enable_of_not_enablable hr
      have hstep : withEnabled (describe name) (enable name) s = .error (describe name ++ e) s :=
        withEnabled_error he
      change Ends _ _ ((withEnabled (describe name) (enable name) >>= fun _ =>
        names.forM fun name => withEnabled (describe name) (enable name)) s)
      rw [bind_of_error hstep]
      simp [Ends, hr, grants_nil]

end

/-- What a run does to the markers: which it drops for services that are gone, which
it makes, which it drops for services that are not chosen, and whether it gets that far. -/
structure Course where
  dropped : List Str
  granted : List Str
  withdrawn : List Str
  complete : Bool

namespace Course

variable (c : Course)

def effect (v : View) : View :=
  drops (c.withdrawn.map nativeServiceName) (grants (c.granted.map nativeServiceName)
    (drops (c.dropped.map nativeServiceName) v))

theorem effect_effect (v : View) : c.effect (c.effect v) = c.effect v := drops_grants_drops _ _ _ v

/-- The marker is gone after the run, whatever was there. -/
def Takes (x : Str) : Prop :=
  x ∈ c.withdrawn.map nativeServiceName ∨
    x ∈ c.dropped.map nativeServiceName ∧ x ∉ c.granted.map nativeServiceName

/-- The marker is there after the run. -/
def Gives (x : Str) : Prop :=
  x ∈ c.granted.map nativeServiceName ∧ x ∉ c.withdrawn.map nativeServiceName

theorem effect_eq_iff {v : View} (hfile : ∀ x, c.Gives x → Open v x) :
    c.effect v = v ↔ ∀ x, (c.Takes x → v x = none) ∧ (c.Gives x → v x ≠ none) := by
  have hpoint (x : Str) : c.effect v x = v x ↔
      (c.Takes x → v x = none) ∧ (c.Gives x → v x ≠ none) := by
    have hopen := hfile x
    rw [Takes, Gives] at *
    by_cases hw : x ∈ c.withdrawn.map nativeServiceName
    · simp [effect, drops, hw, eq_comm]
    · by_cases hd : x ∈ c.dropped.map nativeServiceName <;>
        by_cases hg : x ∈ c.granted.map nativeServiceName
      · obtain hv | hv := hopen ⟨hg, hw⟩ <;> simp [effect, drops, grants, hw, hd, hg, hv]
      · simp [effect, drops, grants, hw, hd, hg, eq_comm]
      · obtain hv | hv := hopen ⟨hg, hw⟩ <;> simp [effect, drops, grants, hw, hd, hg, hv]
      · simp [effect, drops, grants, hw, hd, hg]
  constructor
  · intro h x
    exact (hpoint x).mp (congrFun h x)
  · intro h
    funext x
    exact (hpoint x).mpr (h x)

end Course

def course (profiles : BTreeMap Str (BTreeSet Str)) (active : Str) (previous : BTreeMap Str Str)
    (m : Markers) : Course :=
  let gone := stale previous profiles
  let wanted := chosen profiles active
  let unwanted := inactive previous profiles active
  if !gone.all (removable m) then ⟨gone.takeWhile (removable m), [], [], false⟩
  else if !wanted.all (enablable m (gone.map nativeServiceName)) then
    ⟨gone, wanted.takeWhile (enablable m (gone.map nativeServiceName)), [], false⟩
  else ⟨gone, wanted, unwanted.takeWhile (removable m), unwanted.all (removable m)⟩

section

variable {profiles : BTreeMap Str (BTreeSet Str)} {active : Str} {previous : BTreeMap Str Str}
  {m m' : Markers}

theorem course_dropped {name : Str} (h : name ∈ (course profiles active previous m).dropped) :
    removable m name := by
  simp only [course] at h
  split at h
  · exact List.mem_takeWhile_imp h
  next hg =>
    have hg : (stale previous profiles).all (removable m) := by simpa using hg
    split at h
    · exact List.all_eq_true.mp hg name h
    · exact List.all_eq_true.mp hg name h

theorem course_withdrawn {name : Str} (h : name ∈ (course profiles active previous m).withdrawn) :
    removable m name := by
  simp only [course] at h
  split at h
  · exact absurd h List.not_mem_nil
  · split at h
    · exact absurd h List.not_mem_nil
    · exact List.mem_takeWhile_imp h

/-- A run leaves the directories that stand in its way. -/
theorem removable_effect (hget : m'.get = (course profiles active previous m).effect m.get) :
    removable m' = removable m := by
  funext name
  apply removable_congr
  rw [hget]
  apply sameDirectories_drops _ fun name => course_withdrawn
  apply sameDirectories_grants
  exact sameDirectories_drops (sameDirectories_refl _) fun name => course_dropped

/-- A marker that could be made can be made after a run. -/
theorem enablable_effect {dropped granted withdrawn : List Str} {name : Str}
    (hget : m'.get = drops withdrawn (grants granted (drops dropped m.get)))
    (h : enablable m dropped name) (gone : List Str) : enablable m' gone name := by
  obtain ⟨hname, hmark, hopen⟩ := enablable_iff.mp h
  apply enablable_iff.mpr ⟨hname, hmark, .inl _⟩
  rw [hget]
  revert hopen
  generalize nativeServiceName name = x
  intro hopen
  by_cases hw : x ∈ withdrawn <;> by_cases hd : x ∈ dropped <;> by_cases hg : x ∈ granted <;>
    obtain (hx | hx) | ⟨hx, hx'⟩ := hopen <;> simp_all [Open, drops, grants]

/-- One that could not be made cannot be made after the first two passes. -/
theorem enablable_of_effect {gone granted : List Str} {name : Str}
    (hgone : ∀ name ∈ gone, removable m name)
    (hget : m'.get = grants granted (drops (gone.map nativeServiceName) m.get))
    {gone' : List Str} (hsub : ∀ x ∈ gone', x ∈ gone.map nativeServiceName)
    (h : enablable m' gone' name) : enablable m (gone.map nativeServiceName) name := by
  obtain ⟨hname, hmark, hopen⟩ := enablable_iff.mp h
  apply enablable_iff.mpr ⟨hname, hmark, _⟩
  by_cases hd : nativeServiceName name ∈ gone.map nativeServiceName
  · obtain ⟨p, hp, hpn⟩ := List.mem_map.mp hd
    have hdir := (removable_iff.mp (hgone p hp)).2.2
    rw [hpn] at hdir
    cases hk : m.get (nativeServiceName name) with
    | none => exact .inl (.inl hk)
    | some k =>
      cases k with
      | file => exact .inl (.inr hk)
      | symlink => exact .inr ⟨rfl, hd⟩
      | directory => exact absurd hk hdir
  · have hopen : Open m'.get (nativeServiceName name) :=
      hopen.resolve_right fun hl => hd (hsub _ hl.2)
    rw [hget, Open, grants, drops, if_neg hd] at hopen
    by_cases hg : nativeServiceName name ∈ granted ∧ m.get (nativeServiceName name) = none
    · exact .inl (.inl hg.2)
    · rw [if_neg hg] at hopen
      exact .inl hopen

theorem course_of_gone (hg : (stale previous profiles).all (removable m)) :
    course profiles active previous m =
      if (chosen profiles active).all (enablable m ((stale previous profiles).map nativeServiceName))
      then ⟨stale previous profiles, chosen profiles active,
        (inactive previous profiles active).takeWhile (removable m),
        (inactive previous profiles active).all (removable m)⟩
      else ⟨stale previous profiles, (chosen profiles active).takeWhile
        (enablable m ((stale previous profiles).map nativeServiceName)), [], false⟩ := by
  simp only [course, hg]
  by_cases hw : (chosen profiles active).all
    (enablable m ((stale previous profiles).map nativeServiceName))
  · simp [hw]
  · simp [hw]

theorem course_of_not_gone (hg : ¬ (stale previous profiles).all (removable m)) :
    course profiles active previous m =
      ⟨(stale previous profiles).takeWhile (removable m), [], [], false⟩ := by
  simp [course, hg]

theorem course_again (hget : m'.get = (course profiles active previous m).effect m.get) :
    course profiles active previous m' = course profiles active previous m := by
  have hremovable := removable_effect hget
  by_cases hg : (stale previous profiles).all (removable m)
  · have hg' : (stale previous profiles).all (removable m') := by rwa [hremovable]
    rw [course_of_gone hg] at hget ⊢
    rw [course_of_gone hg']
    by_cases hw : (chosen profiles active).all
        (enablable m ((stale previous profiles).map nativeServiceName))
    · rw [if_pos hw] at hget
      have hw' : (chosen profiles active).all
          (enablable m' ((stale previous profiles).map nativeServiceName)) := by
        apply List.all_eq_true.mpr
        intro name hname
        exact enablable_effect hget (List.all_eq_true.mp hw name hname) _
      rw [if_pos hw, if_pos hw', hremovable]
    · rw [if_neg hw, Course.effect, List.map_nil, drops_nil] at hget
      have hfun : enablable m' ((stale previous profiles).map nativeServiceName) =
          enablable m ((stale previous profiles).map nativeServiceName) := by
        funext name
        rw [Bool.eq_iff_iff]
        constructor
        · exact enablable_of_effect (List.all_eq_true.mp hg) hget fun _ hx => hx
        · intro hname
          rw [← drops_nil (grants _ _)] at hget
          exact enablable_effect hget hname _
      rw [hfun, hremovable]
  · have hg' : ¬ (stale previous profiles).all (removable m') := by rwa [hremovable]
    rw [course_of_not_gone hg, course_of_not_gone hg', hremovable]

/-- The markers after a run that gets to its end. -/
def Marked (profiles : BTreeMap Str (BTreeSet Str)) (active : Str) (previous : BTreeMap Str Str)
    (m : Markers) (x : Str) : Prop :=
  x ∉ (inactive previous profiles active).map nativeServiceName ∧
    (x ∈ (chosen profiles active).map nativeServiceName ∨ m.get x ≠ none)

/-- The course of a run after one that got to its end. -/
def nextCourse (profiles : BTreeMap Str (BTreeSet Str)) (active : Str) (next : BTreeMap Str Str)
    (m : Markers) : Course :=
  let gone := stale next profiles
  let unwanted := inactive next profiles active
  if gone.all (removable m) then
    ⟨gone, chosen profiles active, unwanted.takeWhile (removable m), unwanted.all (removable m)⟩
  else ⟨gone.takeWhile (removable m), [], [], false⟩

theorem complete_iff : (course profiles active previous m).complete ↔
    (stale previous profiles).all (removable m) ∧
      (chosen profiles active).all
        (enablable m ((stale previous profiles).map nativeServiceName)) ∧
      (inactive previous profiles active).all (removable m) := by
  by_cases hg : (stale previous profiles).all (removable m)
  · rw [course_of_gone hg]
    by_cases hw : (chosen profiles active).all
        (enablable m ((stale previous profiles).map nativeServiceName))
    · rw [if_pos hw]
      simp only [hg, hw, true_and]
    · rw [if_neg hw]
      simp only [hw, Bool.false_eq_true, false_and, and_false]
  · rw [course_of_not_gone hg]
    simp only [hg, Bool.false_eq_true, false_and]

theorem effect_of_complete (hc : (course profiles active previous m).complete) :
    (course profiles active previous m).effect m.get =
      drops ((inactive previous profiles active).map nativeServiceName)
        (grants ((chosen profiles active).map nativeServiceName)
          (drops ((stale previous profiles).map nativeServiceName) m.get)) := by
  obtain ⟨hg, hw, hu⟩ := complete_iff.mp hc
  rw [course_of_gone hg, if_pos hw, Course.effect,
    List.takeWhile_eq_self_iff.mpr (List.all_eq_true.mp hu)]

theorem course_next (hc : (course profiles active previous m).complete)
    (hget : m'.get = (course profiles active previous m).effect m.get) (next : BTreeMap Str Str) :
    course profiles active next m' = nextCourse profiles active next m := by
  have hremovable := removable_effect hget
  rw [effect_of_complete hc] at hget
  by_cases hg : (stale next profiles).all (removable m)
  · have hw : (chosen profiles active).all
        (enablable m' ((stale next profiles).map nativeServiceName)) := by
      apply List.all_eq_true.mpr
      intro name hname
      exact enablable_effect hget (List.all_eq_true.mp (complete_iff.mp hc).2.1 name hname) _
    rw [course_of_gone (hremovable ▸ hg), if_pos hw, hremovable, nextCourse, if_pos hg]
  · rw [course_of_not_gone (hremovable ▸ hg), hremovable, nextCourse, if_neg hg]

theorem stale_inactive {name : Str} (h : name ∈ stale previous profiles) :
    name ∈ inactive previous profiles active := by
  obtain ⟨hname, hnot⟩ := List.mem_filter.mp h
  apply List.mem_filter.mpr ⟨hname, _⟩
  rw [decide_eq_true_eq]
  intro hchosen
  obtain ⟨of, hof, -⟩ := contains_filterKeys.mp (mem_keys.mp hchosen)
  simp [contains_iff.mpr ⟨of, hof⟩] at hnot

theorem marked_iff (hc : (course profiles active previous m).complete)
    (hget : m'.get = (course profiles active previous m).effect m.get) (x : Str) :
    m'.get x ≠ none ↔ Marked profiles active previous m x := by
  rw [hget, effect_of_complete hc, Marked]
  by_cases hu : x ∈ (inactive previous profiles active).map nativeServiceName
  · simp [drops, hu]
  · have hg : x ∉ (stale previous profiles).map nativeServiceName := by
      intro hx
      obtain ⟨name, hname, rfl⟩ := List.mem_map.mp hx
      exact hu (List.mem_map_of_mem (stale_inactive hname))
    by_cases hw : x ∈ (chosen profiles active).map nativeServiceName <;>
      by_cases hx : m.get x = none <;> simp [drops, grants, hu, hg, hw, hx]

theorem open_of_gives (hc : (course profiles active previous m).complete)
    (hget : m'.get = (course profiles active previous m).effect m.get) {next : BTreeMap Str Str}
    {x : Str} (h : (nextCourse profiles active next m).Gives x) : Open m'.get x := by
  have hmem : x ∈ (chosen profiles active).map nativeServiceName := by
    have hx := h.1
    rw [nextCourse] at hx
    split at hx
    · exact hx
    · exact absurd hx List.not_mem_nil
  obtain ⟨name, hname, rfl⟩ := List.mem_map.mp hmem
  rw [effect_of_complete hc] at hget
  have henablable := enablable_effect hget
    (List.all_eq_true.mp (complete_iff.mp hc).2.1 name hname) []
  obtain ⟨-, -, hopen⟩ := enablable_iff.mp henablable
  exact hopen.resolve_right fun hl => absurd hl.2 List.not_mem_nil

end

section

variable {parser : ServiceParser} {read : DescriptorPath → Except Str Str} {directory : Str}
  {services : Services} (active : Str)
variable {profiles : BTreeMap Str (BTreeSet Str)} {previous : BTreeMap Str Str} {s : State}

theorem sync_ends (hv : validatePackageServices parser read services = .ok profiles)
    (hp : readIndex (indexPath directory) s.index = .ok previous) :
    let c := course profiles active previous s.enabled
    Ends (fun _ t => c.complete ∧ t.index = some (indexText services) ∧
        t.enabled.get = c.effect s.enabled.get)
      (fun _ t => ¬ c.complete ∧ t.index = s.index ∧ t.enabled.get = c.effect s.enabled.get)
      (syncPackages parser read directory services active s) := by
  intro c
  have hsync : syncPackages parser read directory services active s = (do
      (stale previous profiles).forM disableStale
      (chosen profiles active).forM enableChosen
      (inactive previous profiles active).forM disableInactive
      modify ({ · with index := some (indexText services) }) : Run Unit) s := by
    rw [syncPackages, hv]
    change (do
      let previous ← orFail (readIndex (indexPath directory) s.index)
      (stale previous profiles).forM disableStale
      (chosen profiles active).forM enableChosen
      (inactive previous profiles active).forM disableInactive
      modify ({ · with index := some (indexText services) }) : Run Unit) s = _
    rw [hp]
    rfl
  rw [hsync]
  set gone := stale previous profiles with hgone
  set wanted := chosen profiles active with hwanted
  set unwanted := inactive previous profiles active with hunwanted
  by_cases hg : gone.all (removable s.enabled)
  · apply ends_bind (p := fun _ t => t.index = s.index ∧
      t.enabled.get = drops (gone.map nativeServiceName) s.enabled.get)
    · have hpass := disableEach_ends
        (fun service => "cannot disable removed service ".toList ++ service ++ ": ".toList) gone s
      rw [List.takeWhile_eq_self_iff.mpr (List.all_eq_true.mp hg)] at hpass
      exact ends_mono (fun _ _ h => h.2) (fun _ _ h => absurd hg h.1) hpass
    rintro _ t ⟨htindex, htget⟩
    have hopen : enablable t.enabled [] = enablable s.enabled (gone.map nativeServiceName) := by
      have hgrants : t.enabled.get = grants [] (drops (gone.map nativeServiceName) s.enabled.get) := by
        rw [grants_nil, htget]
      funext name
      rw [Bool.eq_iff_iff]
      constructor
      · exact enablable_of_effect (List.all_eq_true.mp hg) hgrants fun _ h => absurd h List.not_mem_nil
      · intro hname
        rw [← drops_nil (grants _ _)] at hgrants
        exact enablable_effect hgrants hname []
    by_cases hw : wanted.all (enablable s.enabled (gone.map nativeServiceName))
    · apply ends_bind (p := fun _ u => u.index = s.index ∧ u.enabled.get =
        grants (wanted.map nativeServiceName) (drops (gone.map nativeServiceName) s.enabled.get))
      · have hpass := enableEach_ends
          (fun service => "cannot enable ".toList ++ service ++ ": ".toList) wanted t
        rw [hopen, List.takeWhile_eq_self_iff.mpr (List.all_eq_true.mp hw), htget, htindex] at hpass
        exact ends_mono (fun _ _ h => h.2) (fun _ _ h => absurd hw h.1) hpass
      rintro _ u ⟨huindex, huget⟩
      have hsame : SameDirectories s.enabled.get u.enabled.get := by
        rw [huget]
        apply sameDirectories_grants
        exact sameDirectories_drops (sameDirectories_refl _) (List.all_eq_true.mp hg)
      have hremovable : removable u.enabled = removable s.enabled := by
        funext name
        exact removable_congr hsame name
      have hc : c = ⟨gone, wanted, unwanted.takeWhile (removable s.enabled),
          unwanted.all (removable s.enabled)⟩ :=
        (course_of_gone hg).trans (if_pos hw)
      have hpass := disableEach_ends (fun service =>
        "cannot disable inactive package service ".toList ++ service ++ ": ".toList) unwanted u
      rw [hremovable, huget, huindex] at hpass
      rw [hc]
      exact ends_bind hpass fun _ v hv => ⟨hv.1, rfl, hv.2.2⟩
    · have hc : c = ⟨gone, wanted.takeWhile (enablable s.enabled (gone.map nativeServiceName)), [],
          false⟩ := by
        exact (course_of_gone hg).trans (if_neg hw)
      have hpass := enableEach_ends
        (fun service => "cannot enable ".toList ++ service ++ ": ".toList) wanted t
      rw [hopen, htget, htindex] at hpass
      rw [hc]
      apply ends_bind (p := fun _ _ => False)
      · apply ends_mono (fun _ _ h => absurd h.1 hw) _ hpass
        intro _ u hu
        refine ⟨Bool.false_ne_true, hu.2.1, ?_⟩
        rw [hu.2.2, Course.effect, List.map_nil, drops_nil]
      · exact fun _ _ h => h.elim
  · have hc : c = ⟨gone.takeWhile (removable s.enabled), [], [], false⟩ := by
      exact course_of_not_gone hg
    have hpass := disableEach_ends
      (fun service => "cannot disable removed service ".toList ++ service ++ ": ".toList) gone s
    rw [hc]
    apply ends_bind (p := fun _ _ => False)
    · apply ends_mono (fun _ _ h => absurd h.1 hg) _ hpass
      intro _ t ht
      refine ⟨Bool.false_ne_true, ht.2.1, ?_⟩
      rw [ht.2.2, Course.effect, List.map_nil, grants_nil, drops_nil]
    · exact fun _ _ h => h.elim

end

section

variable (parser : ServiceParser) (read : DescriptorPath → Except Str Str) (directory : Str)
  (services : Services) (active : Str)

/-- What a run leaves, also where it fails. -/
def after (s : State) : State := final (syncPackages parser read directory services active) s

/-- Running twice leaves the enabled services and the index as running once. -/
def Settles (s : State) : Prop :=
  after parser read directory services active (after parser read directory services active s) =
    after parser read directory services active s

/-- The markers of services that neither the packages nor the index has stay. -/
def LeavesOthers (s : State) : Prop :=
  ∀ x, (∀ d ∈ declared services, nativeServiceName d.2.fileStem ≠ x) →
    (∀ previous, readIndex (indexPath directory) s.index = .ok previous →
      ∀ name ∈ previous.keys, nativeServiceName name ≠ x) →
    (after parser read directory services active s).enabled.get x = s.enabled.get x

/-- Where a run gets to its end, the next one takes no marker that it leaves, and makes
none that it has taken. -/
def NextKeeps (profiles : BTreeMap Str (BTreeSet Str)) (s : State) : Prop :=
  ∀ previous next, readIndex (indexPath directory) s.index = .ok previous →
    (course profiles active previous s.enabled).complete →
    readIndex (indexPath directory) (some (indexText services)) = .ok next →
    ∀ x, ((nextCourse profiles active next s.enabled).Takes x →
        ¬ Marked profiles active previous s.enabled x) ∧
      ((nextCourse profiles active next s.enabled).Gives x →
        Marked profiles active previous s.enabled x)

variable {parser read directory services}
variable {profiles : BTreeMap Str (BTreeSet Str)} {previous : BTreeMap Str Str} {s : State}

theorem after_of_unreadable {e : Str} (hv : validatePackageServices parser read services = .ok profiles)
    (hp : readIndex (indexPath directory) s.index = .error e) :
    after parser read directory services active s = s := by
  have hsync : syncPackages parser read directory services active s = .error e s := by
    rw [syncPackages, hv]
    change (do
      let previous ← orFail (readIndex (indexPath directory) s.index)
      (stale previous profiles).forM disableStale
      (chosen profiles active).forM enableChosen
      (inactive previous profiles active).forM disableInactive
      modify ({ · with index := some (indexText services) }) : Run Unit) s = _
    rw [hp]
    rfl
  rw [after, final, hsync]

theorem after_of_readable (hv : validatePackageServices parser read services = .ok profiles)
    (hp : readIndex (indexPath directory) s.index = .ok previous) :
    let c := course profiles active previous s.enabled
    (after parser read directory services active s).index =
        (if c.complete then some (indexText services) else s.index) ∧
      (after parser read directory services active s).enabled.get = c.effect s.enabled.get := by
  intro c
  have hend := sync_ends active hv hp
  rw [after, final]
  cases hr : syncPackages parser read directory services active s with
  | ok u t =>
    rw [hr] at hend
    obtain ⟨hc, hindex, hget⟩ := hend
    exact ⟨by rw [hindex, if_pos hc], hget⟩
  | error e t =>
    rw [hr] at hend
    obtain ⟨hc, hindex, hget⟩ := hend
    exact ⟨by rw [hindex, if_neg hc], hget⟩

theorem state_ext {s t : State} (hindex : s.index = t.index) (hget : s.enabled.get = t.enabled.get) :
    s = t := by
  obtain ⟨i, m⟩ := s
  obtain ⟨i', m'⟩ := t
  obtain rfl : i = i' := hindex
  obtain rfl : m = m' := eq_of_get (congrFun hget)
  rfl

/-- A run that fails does nothing more the second time. -/
theorem settles_of_incomplete (hv : validatePackageServices parser read services = .ok profiles)
    (hp : readIndex (indexPath directory) s.index = .ok previous)
    (hc : ¬ (course profiles active previous s.enabled).complete) :
    Settles parser read directory services active s := by
  obtain ⟨hindex, hget⟩ := after_of_readable active hv hp
  rw [if_neg hc] at hindex
  have hagain := course_again hget
  have hp' : readIndex (indexPath directory)
      (after parser read directory services active s).index = .ok previous := by rw [hindex, hp]
  obtain ⟨hindex', hget'⟩ := after_of_readable active hv hp'
  apply state_ext
  · rw [hindex', hagain, if_neg hc]
  · rw [hget', hagain, hget, Course.effect_effect]

theorem settles_iff_nextKeeps (hv : validatePackageServices parser read services = .ok profiles) :
    Settles parser read directory services active s ↔
      NextKeeps directory services active profiles s := by
  cases hp : readIndex (indexPath directory) s.index with
  | error e =>
    have hsame := after_of_unreadable active hv hp
    apply iff_of_true
    · rw [Settles, hsame, hsame]
    · intro previous next hprevious
      cases hp.symm.trans hprevious
  | ok previous =>
    by_cases hc : (course profiles active previous s.enabled).complete
    · obtain ⟨hindex, hget⟩ := after_of_readable active hv hp
      rw [if_pos hc] at hindex
      cases hn : readIndex (indexPath directory) (some (indexText services)) with
      | error e =>
        rw [← hindex] at hn
        apply iff_of_true
        · exact after_of_unreadable active hv hn
        · intro previous' next _ _ hnext
          rw [hindex] at hn
          cases hn.symm.trans hnext
      | ok next =>
        have hn' : readIndex (indexPath directory)
            (after parser read directory services active s).index = .ok next := by rw [hindex, hn]
        obtain ⟨hindex', hget'⟩ := after_of_readable active hv hn'
        rw [course_next hc hget] at hindex' hget'
        have hkeeps := (nextCourse profiles active next s.enabled).effect_eq_iff
          fun _ => open_of_gives hc hget
        rw [← hget'] at hkeeps
        have hsettles : Settles parser read directory services active s ↔
            (after parser read directory services active
                (after parser read directory services active s)).enabled.get =
              (after parser read directory services active s).enabled.get := by
          constructor
          · exact fun h => congrArg (fun t => t.enabled.get) h
          · intro h
            apply state_ext _ h
            rw [hindex', hindex, ite_self]
        rw [hsettles, hkeeps]
        have hmarked (x : Str) : (after parser read directory services active s).enabled.get x = none ↔
            ¬ Marked profiles active previous s.enabled x :=
          not_iff_not.mp ((marked_iff hc hget x).trans not_not.symm)
        constructor
        · intro h previous' next' hprevious _ hnext x
          cases hp.symm.trans hprevious
          cases hn.symm.trans hnext
          exact ⟨fun ht => (hmarked x).mp ((h x).1 ht), fun hg => (marked_iff hc hget x).mp ((h x).2 hg)⟩
        · intro h x
          obtain ⟨htakes, hgives⟩ := h previous next hp hc hn x
          exact ⟨fun ht => (hmarked x).mpr (htakes ht),
            fun hg => (marked_iff hc hget x).mpr (hgives hg)⟩
    · apply iff_of_true (settles_of_incomplete active hv hp hc)
      intro previous' next hprevious hcomplete
      cases hp.symm.trans hprevious
      exact absurd hcomplete hc

theorem course_subset {name : Str} :
    (name ∈ (course profiles active previous s.enabled).dropped → name ∈ previous.keys) ∧
      (name ∈ (course profiles active previous s.enabled).granted → profiles.contains name) ∧
      (name ∈ (course profiles active previous s.enabled).withdrawn → name ∈ previous.keys) := by
  have hchosen : ∀ {name}, name ∈ chosen profiles active → profiles.contains name := by
    intro name h
    obtain ⟨of, hof, -⟩ := contains_filterKeys.mp (mem_keys.mp h)
    exact contains_iff.mpr ⟨of, hof⟩
  by_cases hg : (stale previous profiles).all (removable s.enabled)
  · rw [course_of_gone hg]
    split
    · exact ⟨List.mem_of_mem_filter, hchosen, fun h =>
        List.mem_of_mem_filter ((List.takeWhile_prefix _).subset h)⟩
    · exact ⟨List.mem_of_mem_filter, fun h => hchosen ((List.takeWhile_prefix _).subset h),
        fun h => absurd h List.not_mem_nil⟩
  · rw [course_of_not_gone hg]
    exact ⟨fun h => List.mem_of_mem_filter ((List.takeWhile_prefix _).subset h),
      fun h => absurd h List.not_mem_nil, fun h => absurd h List.not_mem_nil⟩

/-- The names of the services are those of files among the given ones. -/
def NamedBy (files : List (Str × DescriptorPath))
    (known : BTreeMap Str (BTreeSet Str) × BTreeMap Str Str) : Prop :=
  ∀ name, known.1.contains name → ∃ d ∈ files, d.2.fileStem = name

theorem validateOne_named {files : List (Str × DescriptorPath)} {d : Str × DescriptorPath}
    {known known' : BTreeMap Str (BTreeSet Str) × BTreeMap Str Str} (h : NamedBy files known)
    (hd : validateOne parser read known d = .ok known') : NamedBy (files ++ [d]) known' := by
  obtain ⟨package, path⟩ := d
  obtain ⟨spec, hspec, hd⟩ := bind_eq_ok.mp hd
  have hname : spec.name = path.fileStem := by
    cases hparse : parseServiceFile parser read path with
    | error e =>
      rw [hparse] at hspec
      cases hspec
    | ok spec' =>
      rw [hparse] at hspec
      cases hspec
      obtain ⟨source, -, hparse⟩ := bind_eq_ok.mp hparse
      split at hparse
      · cases hparse
      · exact (parser.names hparse).1
  dsimp only at hd
  split at hd
  · cases hd
  · cases hd
    intro name hcontains
    obtain rfl | hcontains := contains_insert.mp hcontains
    · exact ⟨(package, path), by simp, hname.symm⟩
    · obtain ⟨d, hmem, hstem⟩ := h name hcontains
      exact ⟨d, List.mem_append_left _ hmem, hstem⟩

theorem validate_names (hv : validatePackageServices parser read services = .ok profiles)
    {name : Str} (h : profiles.contains name) : ∃ d ∈ declared services, d.2.fileStem = name := by
  rw [validatePackageServices] at hv
  cases hr : (declared services).foldlM (validateOne parser read) (empty, empty) with
  | error e =>
    rw [hr] at hv
    cases hv
  | ok known =>
    rw [hr] at hv
    cases hv
    have hempty : NamedBy [] (empty, empty) := fun _ hname => nomatch hname
    exact foldlM_ok (fun _ _ _ _ => validateOne_named) hempty hr name h

theorem leavesOthers (hv : validatePackageServices parser read services = .ok profiles) (s : State) :
    LeavesOthers parser read directory services active s := by
  intro x hservices hindex
  cases hp : readIndex (indexPath directory) s.index with
  | error e => rw [after_of_unreadable active hv hp]
  | ok previous =>
    have hkeys := hindex previous hp
    have hmarkers {names : List Str} (h : ∀ name ∈ names, nativeServiceName name ≠ x) :
        x ∉ names.map nativeServiceName := by
      intro hx
      obtain ⟨name, hname, he⟩ := List.mem_map.mp hx
      exact h name hname he
    have hchosen : ∀ name, profiles.contains name → nativeServiceName name ≠ x := by
      intro name hname
      obtain ⟨d, hd, rfl⟩ := validate_names hv hname
      exact hservices d hd
    obtain ⟨-, hget⟩ := after_of_readable active hv hp
    rw [hget, Course.effect, drops, if_neg, grants, if_neg, drops, if_neg]
    · exact hmarkers fun name h => hkeys name ((course_subset active).1 h)
    · exact fun h => hmarkers (fun name h => hchosen name ((course_subset active).2.1 h)) h.1
    · exact hmarkers fun name h => hkeys name ((course_subset active).2.2 h)

/-- Among names without a suffix it is enough that the old index has the enabled services of
the packages that are not in the active profile. -/
theorem nextKeeps_of_plain
    (hplain : ∀ name, profiles.contains name → nativeServiceName name = name)
    (hwritten : ∀ next, readIndex (indexPath directory) (some (indexText services)) = .ok next →
      ∀ name ∈ next.keys, profiles.contains name)
    (hprevious : ∀ previous, readIndex (indexPath directory) s.index = .ok previous →
      (∀ name ∈ previous.keys, nativeServiceName name = name) ∧
        ∀ name, profiles.contains name → name ∉ chosen profiles active →
          s.enabled.get name ≠ none → name ∈ previous.keys) :
    NextKeeps directory services active profiles s := by
  intro previous next hp _ hn x
  obtain ⟨hkeys, hnamed⟩ := hprevious previous hp
  have hchosen {name : Str} (h : name ∈ chosen profiles active) : nativeServiceName name = name := by
    obtain ⟨of, hof, -⟩ := contains_filterKeys.mp (mem_keys.mp h)
    exact hplain name (contains_iff.mpr ⟨of, hof⟩)
  have hnone : stale next profiles = [] := by
    rw [stale, List.filter_eq_nil_iff]
    exact fun name hname => by simp [hwritten next hn name hname]
  have hcourse : nextCourse profiles active next s.enabled =
      ⟨[], chosen profiles active, (inactive next profiles active).takeWhile (removable s.enabled),
        (inactive next profiles active).all (removable s.enabled)⟩ := by
    simp [nextCourse, hnone]
  rw [hcourse]
  constructor
  · rintro (htaken | ⟨htaken, -⟩) ⟨hkept, hmarked⟩
    · obtain ⟨name, hname, rfl⟩ := List.mem_map.mp htaken
      obtain ⟨hkey, hout⟩ := List.mem_filter.mp ((List.takeWhile_prefix _).subset hname)
      have hcontains := hwritten next hn name hkey
      rw [hplain name hcontains] at hkept hmarked
      obtain hin | hget := hmarked
      · obtain ⟨name', hname', rfl⟩ := List.mem_map.mp hin
        rw [hchosen hname'] at hout
        exact of_decide_eq_true hout hname'
      · have hold := hnamed name hcontains (of_decide_eq_true hout) hget
        refine hkept (List.mem_map.mpr ⟨name, List.mem_filter.mpr ⟨hold, hout⟩, ?_⟩)
        exact hplain name hcontains
    · exact absurd htaken List.not_mem_nil
  · rintro ⟨hgiven, -⟩
    refine ⟨fun hin => ?_, .inl hgiven⟩
    obtain ⟨name, hname, rfl⟩ := List.mem_map.mp hgiven
    obtain ⟨name', hname', heq⟩ := List.mem_map.mp hin
    obtain ⟨hkey, hout⟩ := List.mem_filter.mp hname'
    rw [hkeys name' hkey, hchosen hname] at heq
    exact of_decide_eq_true hout (heq ▸ hname)

/-- Running twice leaves what running once does, and other services alone, exactly if the
second run neither takes nor makes a marker. -/
theorem sync_settles_iff (hv : validatePackageServices parser read services = .ok profiles)
    (s : State) :
    Settles parser read directory services active s ∧
        LeavesOthers parser read directory services active s ↔
      NextKeeps directory services active profiles s := by
  rw [and_iff_left (leavesOthers active hv s)]
  exact settles_iff_nextKeeps active hv

end

def profileParser : ServiceParser where
  parse source name := do
    validateName name
    pure { name := name, program := "/bin/true".toList, profiles := [source] }
  names h := by
    obtain ⟨u, hu, h⟩ := bind_eq_ok.mp h
    obtain rfl := pure_eq_ok.mp h
    exact ⟨rfl, hu⟩

def serverPackage : Services :=
  empty.insert "web".toList [⟨"/usr/lib/fractald/services".toList, "httpd.svc".toList⟩]

def serverFiles (_ : DescriptorPath) : Except Str Str := .ok "server".toList

def serverProfiles : BTreeMap Str (BTreeSet Str) :=
  empty.insert "httpd".toList (ofList ["server".toList])

theorem serverPackage_valid :
    validatePackageServices profileParser serverFiles serverPackage = .ok serverProfiles := by
  rfl

def enabledServer (index : Option Str) : State := ⟨index, empty.insert "httpd".toList .file⟩

/-- A service that the index names is disabled by the first run. -/
theorem sync_settles_indexed :
    let s := enabledServer (some "httpd\tweb\n".toList)
    Settles profileParser serverFiles [] serverPackage "boot".toList s ∧
      LeavesOthers profileParser serverFiles [] serverPackage "boot".toList s := by
  apply (sync_settles_iff "boot".toList serverPackage_valid _).mpr
  intro previous next hprevious _ hnext x
  have hindex : readIndex (indexPath []) (some "httpd\tweb\n".toList) =
      .ok (empty.insert "httpd".toList "web".toList) := rfl
  have htext : indexText serverPackage = "httpd\tweb\n".toList := by decide
  cases hindex.symm.trans hprevious
  rw [htext] at hnext
  cases hindex.symm.trans hnext
  constructor
  · rintro (htaken | ⟨htaken, -⟩) hmarked
    · exact hmarked.1 htaken
    · exact absurd htaken List.not_mem_nil
  · rintro ⟨hgiven, -⟩
    exact absurd hgiven List.not_mem_nil

/-- A service that the index does not name yet is disabled by the second run. -/
theorem sync_unsettled :
    validatePackageServices profileParser serverFiles serverPackage = .ok serverProfiles ∧
      ¬ Settles profileParser serverFiles [] serverPackage "boot".toList (enabledServer none) := by
  refine ⟨serverPackage_valid, ?_⟩
  intro h
  have henabled := congrArg (fun t => t.enabled.contains "httpd".toList) h
  revert henabled
  decide +kernel

end FractalD.Packages.Resync
