import FractalD.Manager.Acceptance
import FractalD.Manager.Resolution

namespace FractalD.Manager.Idle

open FractalD.Core.Record FractalD.Core.Spec FractalD.Machine.CString FractalD.Machine.Effect
open FractalD.Machine.Logs FractalD.Machine.OrderedMap FractalD.Manager.Issues
open FractalD.Manager.Jobs FractalD.Manager.Registry FractalD.Supervisor
open FractalD.Supervisor.System

section

variable {ω : Type} (os : Os ω) {a : Supervisor} {w : ω} {root v : Str} {selected : BTreeSet Str}

/-- A pass in which no service has moved yet from where it was, and which has still to come to
one of them. -/
structure Unmoved (a : Supervisor) (w : ω) (root v : Str) (selected : BTreeSet Str) (p : Pass)
    (t : (Supervisor × ω) × List Issue) : Prop where
  records : ∀ name, t.1.1.record name = a.record name
  aliases : t.1.1.aliases = a.aliases
  world : t.1.2 = w
  fresh : p.job.attempted.contains v = false
  root : p.job.root = root
  selected : p.job.selected = selected

/-- Nothing happens to a service when a job comes to it. -/
def Rests (a : Supervisor) (root name : Str) : Prop :=
  a.state name = some .active ∨ a.state name = some .stopping ∨
    a.state name = some .skipped ∧ name ≠ root

theorem Unmoved.state {p : Pass} {t : (Supervisor × ω) × List Issue}
    (h : Unmoved a w root v selected p t) (name : Str) : t.1.1.state name = a.state name := by
  rw [Supervisor.state, Supervisor.state, h.records]

theorem get_of_state {s : Supervisor} {name : Str} {σ : ServiceState} (h : s.state name = some σ) :
    ∃ m, s.services.get name = some m ∧ m.record.state = σ := by
  simp only [Supervisor.state, Supervisor.record, Option.map_map, Option.map_eq_some_iff] at h
  exact h

theorem start_idle {m : Service.ManagedService} (now : Instant) (w : ω)
    (h : m.record.state = .active ∨ m.record.state = .stopping) :
    ∃ m', Service.start os now (m, w) = .ok () (m', w) ∧ m'.record = m.record := by
  obtain h | h := h
  · refine ⟨{ m with wantsRunning := true, restartAfterStop := false, restartAt := none }, ?_, rfl⟩
    simp [Service.start, h]
  · refine ⟨{ m with wantsRunning := true, restartAfterStop := true, restartAt := none }, ?_, rfl⟩
    simp [Service.start, h]

theorem beginMember_idle (now : Instant) {p : Pass} {t : (Supervisor × ω) × List Issue}
    (h : Unmoved a w root v selected p t) {name : Str}
    (hstate : a.state name = some .active ∨ a.state name = some .stopping) (hne : name ≠ v) :
    Ends (fun p' t' => Unmoved a w root v selected p' (t', t.2)) (fun _ _ => False)
      (beginMember os now p name t.1) := by
  obtain ⟨m, hm, hup⟩ : ∃ m, t.1.1.services.get name = some m ∧
      (m.record.state = .active ∨ m.record.state = .stopping) := by
    obtain hs | hs := hstate
    · obtain ⟨m, hm, hs⟩ := get_of_state ((h.state name).trans hs)
      exact ⟨m, hm, .inl hs⟩
    · obtain ⟨m, hm, hs⟩ := get_of_state ((h.state name).trans hs)
      exact ⟨m, hm, .inr hs⟩
  obtain ⟨m', hstart, hrecord⟩ := start_idle os now t.1.2 hup
  have hok : attempt (onService name (Service.start os now)) t.1 =
      .ok (.ok ()) ({ t.1.1 with services := t.1.1.services.insert name m' }, t.1.2) := by
    simp only [attempt, onService, hm, hstart]
  have hbegin : beginMember os now p name t.1 = .ok
      { p with
        job := { p.job with
          attempted := p.job.attempted.add name, started := p.job.started.add name },
        progressed := true }
      ({ t.1.1 with services := t.1.1.services.insert name m' }, t.1.2) :=
    bind_ok.mpr ⟨_, _, hok, rfl⟩
  rw [hbegin]
  refine ⟨fun name' => ?_, h.aliases, h.world, ?_, h.root, h.selected⟩
  · rw [← h.records name', Supervisor.record, Supervisor.record, get_insert]
    split
    next he => rw [he, hm, Option.map_some, Option.map_some, hrecord]
    next => rfl
  · rw [← Bool.not_eq_true, contains_add, h.fresh]
    simp [hne.symm]

theorem issuingMember_idle (now : Instant) {p : Pass} {t : (Supervisor × ω) × List Issue}
    (h : Unmoved a w root v selected p t) {name : Str} (hrests : Rests a root name) (hne : name ≠ v) :
    Ends (Unmoved a w root v selected) (fun _ _ => False) (issuingMember os now p name t) := by
  change Ends _ _ (quiet (startMember os now p name) (t.1, t.2 ++ _))
  refine ends_mono (fun p' t' h' => ⟨h'.1.1, h'.1.2, h'.1.3, h'.1.4, h'.1.5, h'.1.6⟩)
    (fun _ _ h' => h'.1)
    (ends_quiet (p := fun p' t' => Unmoved a w root v selected p' (t', t.2))
      (q := fun _ _ => False) ?_)
  rw [startMember_eq]
  split
  next hissues =>
    obtain hs | hs | ⟨hs, hroot⟩ := hrests
    · exact beginMember_idle os now h (.inl hs) hne
    · exact beginMember_idle os now h (.inr hs) hne
    · obtain ⟨m, hm, hskipped⟩ := get_of_state ((h.state name).trans hs)
      refine absurd ⟨?_, ?_⟩ ((issues_iff os).mp hissues).1.2
      · rwa [h.root]
      · simp [serviceIsReadyWithoutStart, hm, hskipped]
  · rw [passBy]
    split
    · refine ⟨h.records, h.aliases, h.world, ?_, h.root, h.selected⟩
      rw [← Bool.not_eq_true, contains_add, h.fresh]
      simp [hne.symm]
    · exact h

theorem members_idle (now : Instant) {names : List Str}
    (hnames : ∀ name ∈ names, Rests a root name ∧ name ≠ v) {p : Pass}
    {t : (Supervisor × ω) × List Issue} (h : Unmoved a w root v selected p t) :
    Ends (Unmoved a w root v selected) (fun _ _ => False)
      (names.foldlM (issuingMember os now) p t) := by
  induction names generalizing p t with
  | nil => exact h
  | cons name names ih =>
    obtain ⟨hname, hnames⟩ := List.forall_mem_cons.mp hnames
    rw [List.foldlM_cons]
    exact ends_bind (issuingMember_idle os now h hname.1 hname.2) fun p' t' h' => ih hnames h'

section

variable {s₀ : Supervisor} {u name : Str} {σ : ServiceState}

def placed (s₀ : Supervisor) (v u : Str) (σ : ServiceState) : Supervisor :=
  { s₀ with
    services := s₀.services.mapKeyed fun name m => { m with
      record := { m.record with
        state := if name = v then .defined else if name = u then σ else .active } } }

theorem settings_placed : settings (placed s₀ v u σ) = settings s₀ := by
  apply eq_of_get
  intro name
  rw [settings, settings, get_map, get_map, placed, get_mapKeyed, Option.map_map]
  rfl

theorem get_of_placed {s : Supervisor} (h : ∀ name, s.record name = (placed s₀ v u σ).record name)
    (hname : s₀.services.contains name) : ∃ m, s.services.get name = some m ∧
      m.record.state = if name = v then .defined else if name = u then σ else .active := by
  obtain ⟨m, hm⟩ := contains_iff.mp hname
  have hrecord := h name
  rw [Supervisor.record, Supervisor.record, placed, get_mapKeyed, hm] at hrecord
  obtain ⟨m', hm', hrecord⟩ := Option.map_eq_some_iff.mp hrecord
  exact ⟨m', hm', by rw [hrecord]⟩

theorem settings_of_placed {s : Supervisor}
    (h : ∀ name, s.record name = (placed s₀ v u σ).record name) : settings s = settings s₀ := by
  refine Eq.trans (eq_of_get ?_) (settings_placed : settings (placed s₀ v u σ) = _)
  intro name
  have hrecord := congrArg (Option.map (·.spec)) (h name)
  rw [Supervisor.record, Supervisor.record, Option.map_map, Option.map_map] at hrecord
  rw [settings, settings, get_map, get_map]
  exact hrecord

theorem placed_rests (hσ : σ = .stopping ∨ σ = .skipped ∧ u ≠ root)
    (hname : s₀.services.contains name) (hne : name ≠ v) :
    Rests (placed s₀ v u σ) root name := by
  obtain ⟨m, hm, hstate⟩ :=
    get_of_placed (s := placed s₀ v u σ) (v := v) (u := u) (σ := σ) (fun _ => rfl) hname
  rw [if_neg hne] at hstate
  have hstate' : (placed s₀ v u σ).state name = some m.record.state := by
    simp [Supervisor.state, Supervisor.record, hm]
  rw [Rests, hstate', hstate]
  by_cases hu : name = u
  · rw [if_pos hu, hu]
    obtain rfl | ⟨rfl, hroot⟩ := hσ
    · exact .inr (.inl rfl)
    · exact .inr (.inr ⟨rfl, hroot⟩)
  · exact .inl (by rw [if_neg hu])

end

section

variable {q : Issue → Prop}

/-- A start of some kind has been asked for. -/
def Noted (q : Issue → Prop) (log : List Issue) : Prop := ∃ i ∈ log, q i

theorem preserves_quiet {α : Type} {i : List Issue → Prop} (x : Manage ω α) :
    Preserves (fun t => i t.2) (quiet x : Issuing ω α) := fun t ht =>
  ends_mono (fun _ _ h => h.2 ▸ ht) (fun _ _ h => h.2 ▸ ht) (ends_quiet (ends_trivial (x t.1)))

theorem issuingMember_noted (now : Instant) (p : Pass) (name : Str) :
    Preserves (fun t => Noted q t.2) (issuingMember os now p name) := by
  intro t ht
  change Ends _ _ (quiet (startMember os now p name) (t.1, t.2 ++ _))
  refine preserves_quiet (i := Noted q) _ (t.1, t.2 ++ _) ?_
  obtain ⟨i, hi, hq⟩ := ht
  exact ⟨i, List.mem_append_left _ hi, hq⟩

theorem issuingMembers_end_noted (now : Instant) {passes : Nat}
    (ih : ∀ p, Preserves (fun t => Noted q t.2) (issuingMembers os now passes p)) {p : Pass}
    {t : (Supervisor × ω) × List Issue}
    (h : Ends (fun _ t => Noted q t.2) (fun _ t => Noted q t.2)
      (p.job.selected.keys.foldlM (issuingMember os now) { p with progressed := false } t)) :
    Ends (fun _ t => Noted q t.2) (fun _ t => Noted q t.2)
      (issuingMembers os now (passes + 1) p t) := by
  refine ends_bind h fun p t ht => preserves_bind (preserves_quiet (i := Noted q) get)
    (fun s => ?_) t ht
  refine preserves_ite (fun _ => ?_) fun _ => preserves_ite (fun _ => ih p) fun _ =>
    preserves_pure _
  exact preserves_bind (preserves_quiet (i := Noted q) _) fun _ => preserves_pure _

theorem issuingMembers_noted (now : Instant) (passes : Nat) (p : Pass) :
    Preserves (fun t => Noted q t.2) (issuingMembers os now passes p) := by
  induction passes generalizing p with
  | zero => exact preserves_pure _
  | succ passes ih =>
    exact fun t ht => issuingMembers_end_noted os now ih
      (preserves_foldlM (issuingMember_noted os now) _ _ t ht)

theorem issuingStartJob_noted {order : List Str} (hv : v ∈ order)
    (hrests : ∀ name ∈ order, name ≠ v → Rests a root name)
    (hissues : ∀ p t, Unmoved a w root v (ofList order) p t →
      issues os t.1.1 t.1.2 v p.job ∧ q ⟨v, p.job, t.1.1⟩) :
    Ends (fun _ t => Noted q t.2) (fun _ t => Noted q t.2)
      (issuingStartJob os 0 ⟨root, ofList order, empty, order, empty, empty, empty, none, .none⟩
        ((a, w), [])) := by
  generalize hjob : (⟨root, ofList order, empty, order, empty, empty, empty, none, .none⟩ : StartJob) =
    job
  change Ends _ _ ((if !jobComplete a job ∧ due 0 job.deadline then _ else _ :
    Issuing ω Progress) ((a, w), []))
  rw [if_neg (by simp [← hjob, due])]
  subst hjob
  change Ends _ _ (issuingMembers os 0 ((ofList order).keys.length + 1) ⟨_, false, []⟩ _)
  obtain ⟨pre, post, hsplit⟩ := List.append_of_mem (mem_ofList.mpr hv)
  have hpre : ∀ name ∈ pre, Rests a root name ∧ name ≠ v := by
    intro name hname
    have hmem : name ∈ (ofList order).keys := hsplit ▸ List.mem_append_left _ hname
    have hne : name ≠ v := by
      rintro rfl
      have hnodup := hsplit ▸ keys_nodup (ofList order)
      exact (List.nodup_append.mp hnodup).2.2 name hname name List.mem_cons_self rfl
    exact ⟨hrests name (mem_ofList.mp hmem) hne, hne⟩
  apply issuingMembers_end_noted os 0 (issuingMembers_noted os 0 _)
  change Ends _ _ ((ofList order).keys.foldlM (issuingMember os 0) _ _)
  rw [hsplit, List.foldlM_append]
  refine ends_bind (ends_mono (fun _ _ h => h) (fun _ _ h => h.elim)
    (members_idle os 0 hpre ⟨fun _ => rfl, rfl, rfl, rfl, rfl, rfl⟩)) fun p t ht => ?_
  obtain ⟨hstart, hq⟩ := hissues p t ht
  rw [List.foldlM_cons]
  refine ends_bind ?_ fun p' t' ht' => preserves_foldlM (issuingMember_noted os 0) post p' t' ht'
  change Ends _ _ (quiet (startMember os 0 p v) (t.1, t.2 ++
    if issues os t.1.1 t.1.2 v p.job then [⟨v, p.job, t.1.1⟩] else []))
  refine preserves_quiet (i := Noted q) _ (t.1, _) ?_
  rw [if_pos hstart]
  exact ⟨_, List.mem_append_right _ List.mem_cons_self, hq⟩

end

end

end FractalD.Manager.Idle
