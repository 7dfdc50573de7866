import FractalD.Supervisor.Demands

namespace FractalD.Supervisor.Polling

open FractalD.Core.Lifecycle FractalD.Core.Outcomes FractalD.Core.Record FractalD.Core.Restarts
open FractalD.Core.Spec FractalD.Machine.CString FractalD.Machine.Effect
open FractalD.Supervisor.Coherence FractalD.Supervisor.Demands FractalD.Supervisor.Execution
open FractalD.Supervisor.Frame FractalD.Supervisor.Launching FractalD.Supervisor.Service
open FractalD.Supervisor.ServicePoll FractalD.Supervisor.Standdown FractalD.Supervisor.StartFailure
open FractalD.Supervisor.System

section

variable {ω : Type} (os : Os ω) {q : Mode} {c : Core} {e : ManagedService × ω → Prop}

theorem launched_of_running (h : Sound q c) (hs : c.record.state = .running) : Launched q c :=
  ⟨h, h.process (by simp [hs])⟩

theorem armWatchdog_launched (now : Instant) :
    Leads (On ω (Launched q)) (armWatchdog now) (fun _ => On ω (Launched q)) e :=
  leads_update fun _ _ hm => Launched.remembers hm rfl

theorem armRuntimeLimit_launched (now : Instant) :
    Leads (On ω (Launched q)) (armRuntimeLimit now) (fun _ => On ω (Launched q)) e :=
  leads_update fun _ _ hm => Launched.remembers hm rfl

theorem spawnStartPost_launched (pid : Nat) :
    Leads (On ω (Launched q)) (spawnStartPost os pid) (fun _ => On ω (Sound q)) (On ω (Sound q)) :=
  leads_pre (fun _ h => h.1) (spawnStartPost_sound os pid)

/-- The commands after a start run once its process is ready. -/
theorem acceptReady_leads (describe : String) (pid : Nat) :
    Leads (On ω fun c => Sound q c ∧ c.record.pid.isSome) (acceptReady describe pid)
      (fun _ => On ω (Launched q)) (On ω (Sound q)) := by
  rintro ⟨m, w⟩ ⟨hs, hp⟩
  refine ends_bind (p := fun _ => On ω (Launched q)) ?_ fun _ _ h => h
  apply ends_transition
  · intro r actions hr
    obtain ⟨hst, -, rfl⟩ := ready_outcome hr
    exact hs.runs hst hp
  · exact hs

theorem acceptNotification_sound (now : Instant) (message : Str) :
    Preserves (On ω (Sound q)) (acceptNotification os now message) := by
  have hwatch : Preserves (On ω (Sound q)) (do
      let s ← service
      if announces message "WATCHDOG=1".toList ∧ s.record.state = .running then armWatchdog now :
        Op ω Unit) := by
    apply preserves_service_bind
    intro m w hm
    split
    next hrun => exact (Launched.remembers (launched_of_running hm hrun.2) rfl).1
    next => exact hm
  have hready (pid : Nat) : Leads (On ω fun c => Sound q c ∧ c.record.pid.isSome) (do
      acceptReady "cannot accept readiness notification for " pid
      update ({ · with notifyReady := true, startDeadline := none })
      armWatchdog now
      armRuntimeLimit now
      spawnStartPost os pid) (fun _ => On ω (Sound q)) (On ω (Sound q)) := by
    apply leads_bind (acceptReady_leads _ pid)
    intro _
    refine leads_update_bind (j := Launched q) (fun _ h => h.remembers rfl) ?_
    apply leads_bind (armWatchdog_launched now)
    intro _
    apply leads_bind (armRuntimeLimit_launched now)
    intro _
    exact spawnStartPost_launched os pid
  apply preserves_service_bind
  intro m w hm
  split
  next =>
    cases hp : m.record.pid with
    | none => exact hwatch (m, w) hm
    | some pid =>
      have hall := leads_bind (hready pid) fun _ => hwatch
      simp only [bind_assoc] at hall
      exact hall (m, w) ⟨hm, by simp [core, hp]⟩
  next => exact hwatch (m, w) hm

theorem observeNotify_sound (now : Instant) : Preserves (On ω (Sound q)) (observeNotify os now) := by
  apply preserves_bind preserves_service
  intro s
  cases s.notifySocket with
  | none => exact preserves_pure ()
  | some socket =>
    apply preserves_bind (preserves_required (fun _ _ h => h) _)
    intro received
    apply preserves_bind (preserves_look _)
    intro allowed
    exact preserves_forM (fun _ => acceptNotification_sound os now _) _

theorem observeDbusProbe_sound (now : Instant) (probe : Nat) :
    Preserves (On ω (Sound q)) (observeDbusProbe os now probe) := by
  have hframe : Insensitive os (On ω (Sound q)) := sound_loose.insensitive
  rintro ⟨m, w⟩ hm
  simp only [observeDbusProbe, service_bind, call_bind]
  cases (os.tryWait (.child probe) w).1 with
  | error err => exact hm
  | ok exit =>
    cases exit with
    | none => exact hm
    | some exit =>
      simp only [update_bind]
      split
      next =>
        cases hp : m.record.pid with
        | none => exact hm
        | some pid =>
          have hready : Leads (On ω fun c => Sound q c ∧ c.record.pid.isSome) (do
              acceptReady "cannot accept D-Bus readiness for " pid
              update ({ · with
                dbusReady := true, dbusProbeIndex := 0, dbusProbeAt := none, startDeadline := none })
              armRuntimeLimit now
              spawnStartPost os pid
              return false) (fun _ => On ω (Sound q)) (On ω (Sound q)) := by
            apply leads_bind (acceptReady_leads _ pid)
            intro _
            refine leads_update_bind (j := Launched q) (fun _ h => h.remembers rfl) ?_
            apply leads_bind (armRuntimeLimit_launched now)
            intro _
            apply leads_bind (spawnStartPost_launched os pid)
            intro _
            exact leads_pure fun _ h => h
          exact hready _ ⟨hm, by simp [core, hp]⟩
      next =>
        split
        · exact hm
        · exact hm

theorem observeDbus_sound (now : Instant) : Preserves (On ω (Sound q)) (observeDbus os now) := by
  have hframe : Insensitive os (On ω (Sound q)) := sound_loose.insensitive
  have hprobe := startDbusProbe_preserves hframe now
  apply preserves_bind preserves_service
  intro s
  apply preserves_ite
  · intro _
    cases s.dbusProbe with
    | none => exact hprobe
    | some probe =>
      exact preserves_bind (observeDbusProbe_sound os now probe) fun again =>
        preserves_ite (fun _ => hprobe) fun _ => preserves_pure ()
  · exact fun _ => preserves_pure ()

theorem oomStop_sound (now : Instant) (path : Str) :
    Leads (On ω fun c => Sound q c ∧ c.record.state = .running) (oomStop os now path)
      (fun _ => On ω (Sound q)) (On ω (Sound q)) := by
  rintro ⟨m, w⟩ ⟨hs, hst⟩
  simp only [oomStop, service_bind]
  cases m.spec.oomPolicy with
  | «continue» => exact hs
  | stop =>
    have hc : Stoppable os q (core m) :=
      ⟨fun _ hf => by simp [failing, hst] at hf, fun ha => by cases hst.symm.trans ha⟩
    simp only [Service.stop, service_bind]
    exact ends_mono (fun _ _ h => Sound.of_halt h) (fun _ _ h => Sound.of_halt h)
      (stopWithSignal_sound os now _ (m, w) ⟨hs, hc⟩)
  | kill =>
    simp only [call_bind]
    cases (os.killCgroup path w).1 with
    | ok u => exact hs
    | error err =>
      exact preserves_optionForM (fun pid => sendSignal_preserves sound_loose.insensitive.deaf pid _)
        _ (m, _) hs

theorem checkOom_sound (now : Instant) : Preserves (On ω (Sound q)) (checkOom os now) := by
  apply preserves_service_bind
  intro m w hm
  cases m.cgroupPath with
  | none => exact hm
  | some path =>
    simp only [look_bind]
    cases os.readCgroupOomEvents w path with
    | none => exact hm
    | some current =>
      simp only [update_bind]
      split
      next hrun => exact oomStop_sound os now path _ ⟨hm, hrun.2⟩
      next => exact hm

theorem checkWatchdog_sound (now : Instant) : Preserves (On ω (Sound q)) (checkWatchdog os now) := by
  apply preserves_service_bind
  intro m w hm
  split
  next hrun =>
    simp only [update_bind]
    exact preserves_optionForM (fun pid => sendSignal_preserves sound_loose.insensitive.deaf pid _) _ _
      (Launched.remembers (launched_of_running hm hrun.1) rfl).1
  next => exact hm

theorem Sound.relaxes (h : Sound q c) : Sound q.relaxed c :=
  h.mono rfl False.elim id False.elim fun _ hn => hn

theorem fails_sound (h : Sound q c) {event : ServiceRecord → Event} (hevent : Failing event)
    {r : ServiceRecord} {actions : List Action}
    (hr : c.record.transition (event c.record) = .ok (r, actions)) :
    Dying q { c with record := r } ∨ actions = [] ∧
      (c.record.state = .starting ∧ c.record.pid = none) ∧ Failed q { c with record := r } := by
  obtain ⟨hs, hcount, hf⟩ := hevent hr
  apply fails_cases (Sound.relaxes h) (transition_moved hr).spec hs hcount hf
  · intro _ hq _
    apply h.wanted hq
    rcases hs with hs | hs <;> simp [Persists, hs]
  · exact fun hq => ⟨(h.halted hq).1, (h.halted hq).2.1⟩

theorem checkRuntimeLimit_sound (now : Instant) :
    Preserves (On ω (Sound q)) (checkRuntimeLimit os now) := by
  have hframe : Insensitive os (On ω (Sound q)) := sound_loose.insensitive
  apply preserves_service_bind
  intro m w hm
  split
  next hrun =>
    have hs : Sound q { core m with runtimeDeadline := none } :=
      { hm with gone := fun hp => (hm.gone hp).untimed }
    simp only [update_bind]
    refine ends_bind (p := fun _ => On ω (Sound q)) ?_ fun actions t ht => ?_
    · apply ends_transition
      · intro r actions hr
        obtain hd | ⟨-, ⟨hst, -⟩, -⟩ := fails_sound hs runtimeTimedOut_failing hr
        · exact hd.1
        · cases hrun.1.symm.trans hst
      · exact hs
    · exact ends_bind (applyActions_preserves hframe.deaf actions t ht) fun _ t ht =>
        armStopDeadline_preserves hframe now t ht
  next => exact hm

/-- A service whose state is a terminal one lets go of what it holds. -/
theorem opening_ends {r : ServiceRecord} (h : Opening q c) (hspec : r.spec = q.spec)
    (hs : ManagedService.isDown r.state) (hp : r.pid = none) : Sound q { c with
      record := r, directories := [], credentialDirectory := none, privateTmpPaths := none } := by
  have hidle : Idle q { c with
    record := r, directories := [], credentialDirectory := none, privateTmpPaths := none } :=
    { h.toIdle with spec := hspec, pid := hp }
  exact hidle.sound hs (fun _ _ => ⟨rfl, rfl⟩) fun hq => absurd hq h.free

theorem handleExecConditionExit_sound (now : Instant) (exit : ExitKind) :
    Leads (On ω fun c => Sound q c ∧ c.execConditionHelper.isSome)
      (handleExecConditionExit os now exit) (fun _ => On ω (Sound q)) (On ω (Sound q)) := by
  rintro ⟨m, w⟩ ⟨hs, hasked⟩
  obtain ⟨hb, htimely⟩ := hs.asked hasked
  have hstarting : m.record.state = .starting := hb.state
  have hundated : Opening q (core { m with execConditionHelper := none, startDeadline := none }) :=
    { hb.toOpening with }
  have hends {r : ServiceRecord} (hspec : r.spec = q.spec) (hs : ManagedService.isDown r.state)
      (hp : r.pid = none) := opening_ends hundated hspec hs hp
  have hfail (generation : Nat) : Leads (On ω (Opening q)) (do
      update ({ · with startDeadline := none })
      markSpawnFailed os generation now) (fun _ => On ω (Sound q)) (On ω (Sound q)) := by
    refine leads_update_bind (j := Opening q) (fun _ h => { h with }) ?_
    exact markSpawnFailed_sound os generation now
  simp only [handleExecConditionExit, update_bind, service_bind]
  split
  next hstopping => cases hstarting.symm.trans hstopping
  cases exit with
  | signaled signal => exact hfail _ _ hb.toOpening
  | coreDumped signal => exact hfail _ _ hb.toOpening
  | exited code =>
    simp only
    split
    next =>
      simp only [update_bind]
      exact spawn_ends os _ now _ ⟨{ hb with }, fun _ => htimely⟩
    split
    next =>
      simp only [update_bind]
      refine ends_bind (p := fun _ s => Sound q { core s.1 with
        directories := [], credentialDirectory := none, privateTmpPaths := none }) ?_ fun _ t ht => ?_
      · apply ends_transition
        · intro r actions hr
          obtain ⟨-, hs, hp⟩ := conditionSkipped_outcome hr
          exact hends ((transition_moved hr).spec.trans hundated.spec)
            (congrArg ManagedService.isDown hs) hp
        · exact hundated.sound fun _ _ hd => by cases hd
      · exact ends_updates (cleanupDirectories_updates os) fun _ => ht
    next => exact hfail _ _ hb.toOpening

theorem handleStartHelperExit_sound (now : Instant) (exit : ExitKind) :
    Leads (On ω fun c => Sound q c ∧ c.startHelper.isSome) (handleStartHelperExit os now exit)
      (fun _ => On ω (Sound q)) (On ω (Sound q)) := by
  rintro ⟨m, w⟩ ⟨hs, hprepared⟩
  have hb := hs.prepared hprepared
  have hstarting : m.record.state = .starting := hb.state
  simp only [handleStartHelperExit, update_bind, service_bind]
  split
  next hstopping => cases hstarting.symm.trans hstopping
  split
  next =>
    simp only [update_bind]
    exact markSpawnFailed_sound os _ now _ { hb.toOpening with }
  exact spawnMain_ends os _ now _ hb

theorem handleStartPostExit_sound (now : Instant) (exit : ExitKind) :
    Preserves (On ω (Sound q)) (handleStartPostExit os now exit) := by
  have hframe : Insensitive os (On ω (Sound q)) := sound_loose.insensitive
  rintro ⟨m, w⟩ hm
  simp only [handleStartPostExit, update_bind, service_bind]
  split
  next hrun =>
    refine ends_bind (p := fun _ => On ω (Sound q)) ?_ fun actions t ht => ?_
    · apply ends_transition
      · intro r actions hr
        obtain hd | ⟨-, ⟨hst, -⟩, -⟩ := fails_sound hm startFailed_failing hr
        · exact hd.1
        · cases hrun.2.symm.trans hst
      · exact hm
    · refine ends_bind (applyActions_preserves hframe.deaf actions t ht) fun _ t ht => ?_
      simp only [update_bind]
      exact armStopDeadline_preserves hframe now _ ht.undated
  next => exact hm

/-- A service that is sound once it has let go of what it holds. -/
structure Loosened (q : Mode) (c : Core) : Prop where
  sound : Sound q { c with
    directories := [], credentialDirectory := none, privateTmpPaths := none }
  prompt : c.record.state = .starting → c.record.pid = none → Prompt q c

theorem Sound.loosened (h : Sound q c) (active post : Option HelperProcess) :
    Loosened q { c with activeStopHelper := active, stopPostHelper := post } where
  sound := { h with
    released := fun _ _ _ => ⟨rfl, rfl⟩
    prompt := fun hs hp now hn hd => ⟨⟨rfl, rfl⟩, (h.prompt hs hp now hn hd).2⟩ }
  prompt := h.prompt

theorem Loosened.helped (h : Loosened q c) (post : Option HelperProcess) :
    Loosened q { c with stopPostHelper := post } where
  sound := { h.sound with released := fun _ _ _ => ⟨rfl, rfl⟩ }
  prompt := h.prompt

theorem Loosened.holds (h : Loosened q c) (hp : c.stopPostHelper.isSome) : Sound q c :=
  { h.sound with
    released := fun _ _ hn => by simp [hn] at hp
    prompt := h.prompt }

end

section

variable {ω : Type} (os : Os ω) {q : Mode} {c : Core} {now : Instant}
variable (hclock : q.clock = some now)

include hclock

theorem maybeStartAfterTeardown_sound :
    Preserves (On ω (Sound q)) (maybeStartAfterTeardown os now) := by
  apply preserves_service_bind
  intro m w hm
  split
  next hagain =>
    have hfree : ¬ q.halted := by
      intro hq
      have hn : m.restartAfterStop = false := (hm.halted hq).2.1
      simp [hn] at hagain
    have htime : q.spec.startTimeout ≠ 0 := hm.unhurried now (by simp [hclock]) hagain.1
    simp only [update_bind]
    refine start_sound os hfree ?_ _ ?_
    · intro t ht
      rw [hclock, Option.mem_some_iff] at ht
      exact ⟨ht.symm, htime⟩
    · exact { hm with
        halted := fun hq => absurd hq hfree
        unhurried := fun _ _ ha => by cases ha }
  next => exact hm

theorem handleStopPostExit_sound (exit : ExitKind) :
    Preserves (On ω (Sound q)) (handleStopPostExit os now exit) := by
  rintro ⟨m, w⟩ hm
  have hl := Sound.loosened hm m.activeStopHelper none
  simp only [handleStopPostExit, update_bind]
  refine ends_bind (ends_updates (cleanupDirectories_updates os) (p := fun _ => On ω (Sound q))
    fun _ => hl.sound) fun _ t ht => ?_
  exact maybeStartAfterTeardown_sound os hclock t ht

theorem finishActiveStop_sound :
    Leads (On ω (Loosened q)) (finishActiveStop os now) (fun _ => On ω (Sound q))
      (On ω (Sound q)) := by
  have hlast := maybeStartAfterTeardown_sound os hclock
  refine leads_update_bind (j := Loosened q) (fun _ h => h) ?_
  apply leads_bind (spawnStopPost_leads os none fun c helper h => h.helped helper)
  intro _
  apply leads_service
  intro m w hm
  split
  next =>
    exact ends_bind (ends_updates (cleanupDirectories_updates os) (p := fun _ => On ω (Sound q))
      fun _ => hm.sound) fun _ t ht => hlast t ht
  next hpost =>
    exact hlast (m, w) (Loosened.holds hm (by simpa [core, Option.isSome_iff_ne_none] using hpost))

theorem handleActiveStopExit_sound (exit : ExitKind) :
    Preserves (On ω (Sound q)) (handleActiveStopExit os now exit) := by
  rintro ⟨m, w⟩ hm
  simp only [handleActiveStopExit, update_bind]
  exact finishActiveStop_sound os hclock _ (Sound.loosened hm none m.stopPostHelper)

theorem checkActiveStopDeadline_sound :
    Preserves (On ω (Sound q)) (checkActiveStopDeadline os now) := by
  apply preserves_service_bind
  intro m w hm
  split
  next =>
    exact ends_bind (ends_updates (killActiveStopHelper_updates os)
      (p := fun _ => On ω (Loosened q)) fun _ => Sound.loosened hm none m.stopPostHelper)
      fun _ t ht => finishActiveStop_sound os hclock t ht
  next => exact hm

end

end FractalD.Supervisor.Polling
