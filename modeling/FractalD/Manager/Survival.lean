import FractalD.Manager.Isolation
import FractalD.Manager.Runs

namespace FractalD.Manager.Survival

open FractalD.Core.Record FractalD.Core.Spec FractalD.Machine.CString FractalD.Machine.Effect
open FractalD.Manager.Isolation FractalD.Manager.Jobs FractalD.Manager.Registry
open FractalD.Manager.Runs FractalD.Supervisor FractalD.Supervisor.System

section

variable {ω : Type} (os : Os ω)

/-- The poll succeeds and does what a round does that goes on after each failure,
and the failures of the round are on record. -/
def Survives (s : Supervisor × ω) : Prop :=
  ∃ depth faults t, poll os depth s = .ok () t ∧
    (isolatedPoll os depth).run s = .ok ((), faults) t ∧ ∀ f ∈ faults, f.Recorded

/-- The round fails for nothing but members that their job can do without. -/
def Unharmed (s : Supervisor × ω) : Prop :=
  ∃ depth faults t, (isolatedPoll os depth).run s = .ok ((), faults) t ∧ ∀ f ∈ faults, f.Harmless

theorem recorded_iff_harmless {f : Fault} (h : f.Dropped) : f.Recorded ↔ f.Harmless := by
  obtain ⟨hstep, r, hr, hacc⟩ := h
  constructor
  · rintro ⟨r', hr', hrec⟩
    obtain rfl : r = r' := Option.some.inj (hr.symm.trans hr')
    refine ⟨hstep, fun r'' hr'' => ?_⟩
    obtain rfl : r = r'' := Option.some.inj (hr.symm.trans hr'')
    exact hacc.mp hrec
  · rintro ⟨-, hpid⟩
    exact ⟨r, hr, hacc.mpr (hpid r hr)⟩

theorem survives_iff (s : Supervisor × ω) : Survives os s ↔ Unharmed os s := by
  constructor
  · rintro ⟨depth, faults, t, hpoll, hround, hrec⟩
    obtain ⟨faults', hround', hdropped⟩ := (follows_isolatedPoll depth).succeeds hpoll
    obtain rfl : faults = faults' := by
      cases hround.symm.trans hround'
      rfl
    exact ⟨depth, faults, t, hround, fun f hf =>
      (recorded_iff_harmless (hdropped f hf)).mp (hrec f hf)⟩
  · rintro ⟨depth, faults, t, hround, hall⟩
    have hpoll := (follows_isolatedPoll depth).allows hround fun f hf => (hall f hf).1
    obtain ⟨faults', hround', hdropped⟩ := (follows_isolatedPoll depth).succeeds hpoll
    obtain rfl : faults = faults' := by
      cases hround.symm.trans hround'
      rfl
    exact ⟨depth, faults, t, hpoll, hround, fun f hf =>
      (recorded_iff_harmless (hdropped f hf)).mpr (hall f hf)⟩

/-- In a run the polls survive what fails exactly if each of them is unharmed. -/
theorem run_survives_iff (run : List (Happening ω)) (s : Supervisor × ω) :
    AtPolls os (Survives os) run s ↔ AtPolls os (Unharmed os) run s :=
  atPolls_congr os (survives_iff os) run s

theorem poll_of_service_error {depth : Nat} {s s' t : Supervisor × ω} {now : Instant} {e : Failure}
    (hnow : call os.now s = .ok now s')
    (h : s.1.names.forM (pollService os now) s' = .error e t) :
    poll os depth s = .error e t :=
  bind_error.mpr (.inr ⟨s.1, s, rfl, bind_error.mpr (.inr ⟨now, s', hnow,
    bind_error.mpr (.inl h)⟩)⟩)

end

/-- A small system: its clock, its last process, whether it can make another one
and the processes that have exited. -/
structure Box where
  clock : Nat
  processes : Nat
  canSpawn : Bool
  gone : List Nat
  deriving DecidableEq, Repr

def boxOs : Os Box where
  debug := id
  directories := ⟨[], [], []⟩
  nameHash _ := 0
  identityOccupied _ _ := false
  reapUntrackedChildren _ w := (.ok (), w)
  now w := (w.clock, w)
  wallClock w := w.clock
  conditionMatches _ _ _ := true
  expandSpecifiers _ _ s := s
  pathIsMountPoint _ _ := false
  pathExists _ _ := false
  prepareCredentials _ w := (.ok none, w)
  prepareDirectories _ w := (.ok [], w)
  preparePrivateTmp _ w := (.ok none, w)
  removeDirectory _ w := ((), w)
  removeTree _ w := ((), w)
  removeFile _ w := ((), w)
  effectiveEnvironment _ _ w := (.ok (), w)
  prepareNotifySocket _ _ w := (.ok [], w)
  prepareCgroup _ w := (.ok none, w)
  openOutput _ _ _ w := (.ok (), w)
  openInput _ w := (.ok (), w)
  prepareIdentity _ w := (.ok (), w)
  spawnMain _ w :=
    if w.canSpawn then
      (.ok ⟨w.processes + 1, Nat.succ_ne_zero _⟩, { w with processes := w.processes + 1 })
    else (.error "Resource temporarily unavailable".toList, w)
  forwardJournal _ _ _ w := (.ok (), w)
  attachToCgroup _ _ w := (.ok (), w)
  cleanupCgroup _ w := ((), w)
  readCgroupOomEvents _ _ := none
  killCgroup _ w := (.ok (), w)
  cgroupContainsPid _ _ _ := false
  processGroupId _ _ := none
  processExists w pid := pid ≤ w.processes && pid ∉ w.gone
  openPidFd _ w := (.unavailable, w)
  forkingProcessCandidate _ _ _ := none
  spawnScript _ w := (.error "Resource temporarily unavailable".toList, w)
  spawnCommand _ w := (.error "Resource temporarily unavailable".toList, w)
  spawnDbusProbe _ w := (.error "Resource temporarily unavailable".toList, w)
  tryWait
    | .pidfd pid, w | .child pid, w =>
      (.ok (if pid ∈ w.gone then some (.exited 1) else none), w)
  kill _ w := ((), w)
  signalProcess _ _ w := (.ok (), w)
  signalProcessGroup _ _ w := (.ok (), w)
  pidfdSendSignal _ _ w := (.ok (), w)
  childKill _ w := (.ok (), w)
  receiveNotifications _ w := (.ok [], w)
  openListeners _ w := (.ok [], w)
  closeListener _ _ w := ((), w)
  acceptConnection _ w := (.ok none, w)
  closeFd _ w := ((), w)
  timerHasMissedSchedule _ _ := false
  timerRandomDelay _ _ _ := 0
  calendarMatch _ _ := none
  recordTimerFire _ w := ((), w)
  observePathWatch _ _ _ := ⟨false, false, 0, none, false⟩

def plainService (name : Str) : ServiceSpec :=
  { name := name, program := "/bin/serve".toList, restart := .always, restartBackoff := 0 }

def started : Option (Supervisor × Box) :=
  [.add (plainService ['a']), .add (plainService ['b']), .start ['a'], .start ['b']].foldlM
    (fun s c => after boxOs 1 c s) (Supervisor.new, ⟨0, 0, true, []⟩)

/-- Both services have exited, and there are no more processes to be had. -/
def exhausted (s : Supervisor × Box) : Supervisor × Box := (s.1, ⟨0, 2, false, [1, 2]⟩)

/-- The services cannot all be polled, and the exit of the second one is not seen. -/
def missesExit (s : Supervisor × Box) : Bool :=
  match s.1.names.forM (pollService boxOs 0) s with
  | .error (.error _) t => t.1.state ['b'] = some .running
  | .error .stackOverflow _ | .ok _ _ => false

theorem poll_of_missesExit {s : Supervisor × Box} (h : missesExit (exhausted s)) (depth : Nat) :
    ∃ e t, poll boxOs depth (exhausted s) = .error (.error e) t ∧
      t.1.state ['b'] = some .running := by
  simp only [missesExit] at h
  split at h
  next e t ht => exact ⟨e, t, poll_of_service_error boxOs rfl ht, of_decide_eq_true h⟩
  next => cases h
  next => cases h

/-- The failed restart of the first service ends the poll before the second one has
been polled, whose exit stays unnoticed. -/
theorem poll_stops_at_service :
    ∃ s, Reachable boxOs s ∧ ¬ Survives boxOs s ∧ ∀ depth, ∃ e t,
      poll boxOs depth s = .error (.error e) t ∧ t.1.state ['b'] = some .running := by
  have hrun : started.any (fun s => missesExit (exhausted s)) = true := by decide +kernel
  obtain ⟨s, hs, hmiss⟩ := (Option.any_eq_true _ _).mp hrun
  have hpoll := poll_of_missesExit hmiss
  refine ⟨exhausted s, .drift _ (reachable_of_foldlM boxOs (.new _) hs), ?_, hpoll⟩
  rintro ⟨depth, faults, t, hok, -⟩
  obtain ⟨e, u, herror, -⟩ := hpoll depth
  cases hok.symm.trans herror

end FractalD.Manager.Survival
