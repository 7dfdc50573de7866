import FractalD.Core.Outcomes
import FractalD.Supervisor.Execution

namespace FractalD.Supervisor.Coherence

open FractalD.Core.Outcomes FractalD.Core.Record FractalD.Core.Restarts FractalD.Core.Spec
open FractalD.Machine.CString FractalD.Machine.Effect FractalD.Supervisor.Execution
open FractalD.Supervisor.Frame FractalD.Supervisor.Service FractalD.Supervisor.StartFailure
open FractalD.Supervisor.System

/-- Nothing is left of a main process. -/
def Gone (c : Core) : Prop :=
  c.child = none ∧ c.pidfd = none ∧ c.processGroup = none ∧ c.forkingPending = false ∧
    c.forkingParentExited = false ∧ c.adoptedPid = none ∧ c.notifySocket = none ∧
    c.watchdogDeadline = none ∧ c.runtimeDeadline = none

def Released (c : Core) : Prop := c.credentialDirectory = none ∧ c.privateTmpPaths = none

/-- No command of a stop is under way that needs them. -/
def AfterStop (c : Core) : Prop := c.activeStopHelper = none → c.stopPostHelper = none → Released c

/-- The record may come to wait for a restart that nobody asks for again. -/
def Persists (r : ServiceRecord) : Prop :=
  r.state ∈ [ServiceState.starting, .running, .backoff] ∨ failing r ∧ retries r

/-- What a run promises: that whoever waits for a restart is given a time, that no
descriptors are handed over, that a stop is final. -/
structure Mode where
  spec : ServiceSpec
  paced : Prop
  empty : Prop
  halted : Prop
  /-- The time of the poll that is under way. -/
  clock : Option Instant
  paced_of_halted : halted → paced

/-- Promises that a stop keeps even while its service is still wanted. -/
def Mode.relaxed (q : Mode) : Mode := { q with paced := False, halted := False, paced_of_halted := id }

/-- What a stop adds to the promises. -/
def Mode.halt (q : Mode) : Mode := { q with halted := q.paced, paced_of_halted := id }

def Mode.polled (q : Mode) (now : Instant) : Mode := { q with clock := some now }

/-- A service whose start is overdue holds nothing. -/
def Prompt (q : Mode) (c : Core) : Prop :=
  ∀ now ∈ q.clock, due now c.startDeadline → Released c ∧ c.execConditionHelper = none

/-- A restart that waits for a stop has time to start. -/
def Unhurried (q : Mode) (c : Core) : Prop :=
  ∀ now ∈ q.clock, c.restartAfterStop → q.spec.startTimeout ≠ 0

/-- The parts of a service agree with each other. -/
structure Sound (q : Mode) (c : Core) : Prop where
  spec : c.record.spec = q.spec
  alive : c.record.pid.isSome → c.record.state ∈ [ServiceState.starting, .running, .stopping]
  process : c.record.state ∈ [ServiceState.running, .stopping] → c.record.pid.isSome
  gone : c.record.pid = none → Gone c
  preparing : c.startHelper.isSome → c.record.state = .starting ∧ c.record.pid = none
  asking : c.execConditionHelper.isSome →
    c.record.state = .starting ∧ c.record.pid = none ∧ c.startHelper = none
  listening : c.listeners ≠ [] → q.spec.serviceType = .socket ∧ c.record.state = .active
  waiting : c.restartAt.isSome → c.record.state = .backoff
  released : Startable c.record.state → AfterStop c
  empty : q.empty → c.activation = ([], [], [])
  wanted : q.paced → Persists c.record → c.wantsRunning
  scheduled : q.paced → c.record.state = .backoff → c.restartAt.isSome
  halted : q.halted → c.wantsRunning = false ∧ c.restartAfterStop = false ∧ c.record.state ≠ .active
  prompt : c.record.state = .starting → c.record.pid = none → Prompt q c
  unhurried : Unhurried q c

/-- A service that has no process and starts nothing. -/
structure Idle (q : Mode) (c : Core) : Prop where
  spec : c.record.spec = q.spec
  pid : c.record.pid = none
  gone : Gone c
  preparing : c.startHelper = none
  asking : c.execConditionHelper = none
  listening : c.listeners = []
  waiting : c.restartAt = none
  empty : q.empty → c.activation = ([], [], [])
  unhurried : Unhurried q c

/-- A service that is to be started. -/
structure Wanted (q : Mode) (c : Core) : Prop extends Idle q c where
  wanted : q.paced → c.wantsRunning
  free : ¬ q.halted

/-- One that has stopped, or never ran. -/
structure Ready (q : Mode) (c : Core) : Prop extends Wanted q c where
  state : Startable c.record.state
  released : AfterStop c

/-- One that has been told to start, and for which nothing has been done yet. -/
structure Opening (q : Mode) (c : Core) : Prop extends Wanted q c where
  state : c.record.state = .starting

structure Begins (q : Mode) (c : Core) : Prop extends Opening q c where
  prompt : Prompt q c

/-- One whose main process has been launched. -/
def Launched (q : Mode) (c : Core) : Prop := Sound q c ∧ c.record.pid.isSome

variable {q : Mode} {c : Core}

theorem startable_iff {state : ServiceState} :
    Startable state ↔ ManagedService.isDown state ∨ state = .backoff := by
  cases state <;> simp [Startable, ManagedService.isDown]

theorem Sound.mono {q' : Mode} (h : Sound q c) (hspec : q'.spec = q.spec)
    (hpaced : q'.paced → q.paced) (hempty : q'.empty → q.empty) (hhalted : q'.halted → q.halted)
    (hclock : ∀ now ∈ q'.clock, now ∈ q.clock) : Sound q' c :=
  { h with
    spec := h.spec.trans hspec.symm
    listening := fun hl => hspec ▸ h.listening hl
    empty := fun hq => h.empty (hempty hq)
    wanted := fun hq => h.wanted (hpaced hq)
    scheduled := fun hq => h.scheduled (hpaced hq)
    halted := fun hq => h.halted (hhalted hq)
    prompt := fun hs hp now hn => h.prompt hs hp now (hclock now hn)
    unhurried := fun now hn => hspec ▸ h.unhurried now (hclock now hn) }

theorem Sound.of_halt (h : Sound q.halt c) : Sound q c :=
  h.mono rfl id id q.paced_of_halted fun _ hn => hn

theorem Gone.untimed (h : Gone c) : Gone { c with runtimeDeadline := none } := by
  obtain ⟨h₁, h₂, h₃, h₄, h₅, h₆, h₇, h₈, -⟩ := h
  exact ⟨h₁, h₂, h₃, h₄, h₅, h₆, h₇, h₈, rfl⟩

theorem Gone.unforked (h : Gone c) :
    Gone { c with forkingPending := false, forkingParentExited := false } := by
  obtain ⟨h₁, h₂, h₃, -, -, h₆, h₇, h₈, h₉⟩ := h
  exact ⟨h₁, h₂, h₃, rfl, rfl, h₆, h₇, h₈, h₉⟩

theorem Idle.sound (h : Idle q c) (hs : ManagedService.isDown c.record.state) (hr : AfterStop c)
    (hh : q.halted → c.wantsRunning = false ∧ c.restartAfterStop = false) : Sound q c where
  spec := h.spec
  alive hp := by simp [h.pid] at hp
  process hp := by cases hst : c.record.state <;> simp [hst, ManagedService.isDown] at hs hp
  gone _ := h.gone
  preparing hp := by simp [h.preparing] at hp
  asking hp := by simp [h.asking] at hp
  listening hl := absurd h.listening hl
  waiting hw := by simp [h.waiting] at hw
  released _ := hr
  empty := h.empty
  wanted _ hp := by
    obtain hp | ⟨hp, -⟩ := hp
    · cases hst : c.record.state <;> simp [hst, ManagedService.isDown] at hs hp
    · cases hst : c.record.state <;> simp [failing, hst, ManagedService.isDown] at hs hp
  scheduled _ hb := by simp [hb, ManagedService.isDown] at hs
  halted hq := ⟨(hh hq).1, (hh hq).2, fun ha => by simp [ha, ManagedService.isDown] at hs⟩
  prompt hst := by simp [hst, ManagedService.isDown] at hs
  unhurried := h.unhurried

theorem Wanted.sound (h : Wanted q c) (hs : c.record.state = .backoff) (hr : AfterStop c)
    (time : Instant) : Sound q { c with restartAt := some time } where
  spec := h.spec
  alive hp := by simp [h.pid] at hp
  process hp := by simp [hs] at hp
  gone _ := h.gone
  preparing hp := by simp [h.preparing] at hp
  asking hp := by simp [h.asking] at hp
  listening hl := absurd h.listening hl
  waiting _ := hs
  released _ := hr
  empty := h.empty
  wanted hq _ := h.wanted hq
  scheduled _ _ := rfl
  halted hq := absurd hq h.free
  prompt hst := by simp [hs] at hst
  unhurried := h.unhurried

theorem Opening.sound (h : Opening q c) (hp : Prompt q c) : Sound q c where
  spec := h.spec
  alive hp := by simp [h.pid] at hp
  process hp := by simp [h.state] at hp
  gone _ := h.gone
  preparing hp := by simp [h.preparing] at hp
  asking hp := by simp [h.asking] at hp
  listening hl := absurd h.listening hl
  waiting hw := by simp [h.waiting] at hw
  released hs := by simp [h.state, Startable] at hs
  empty := h.empty
  wanted hq _ := h.wanted hq
  scheduled _ hb := by simp [h.state] at hb
  halted hq := absurd hq h.free
  prompt _ _ := hp
  unhurried := h.unhurried

theorem Begins.sound (h : Begins q c) : Sound q c := h.toOpening.sound h.prompt

theorem Opening.launched (h : Opening q c) {r : ServiceRecord} (hspec : r.spec = q.spec)
    (hs : r.state = .starting ∨ r.state = .running) (hp : r.pid.isSome) :
    Launched q { c with record := r } := by
  have hne : r.pid ≠ none := Option.isSome_iff_ne_none.mp hp
  refine ⟨?_, hp⟩
  exact {
    spec := hspec
    alive := fun _ => by rcases hs with hs | hs <;> simp [hs]
    process := fun _ => hp
    gone := fun hn => absurd hn hne
    preparing := fun hp => absurd hp (by simp [h.preparing])
    asking := fun hp => absurd hp (by simp [h.asking])
    listening := fun hl => absurd h.listening hl
    waiting := fun hw => absurd hw (by simp [h.waiting])
    released := fun hst => by rcases hs with hs | hs <;> simp [hs, Startable] at hst
    empty := h.empty
    wanted := fun hq _ => h.wanted hq
    scheduled := fun _ hst => by rcases hs with hs | hs <;> simp [hs] at hst
    halted := fun hq => absurd hq h.free
    prompt := fun _ hn => absurd hn hne
    unhurried := h.unhurried }

/-- What a service that is down or waits for its restart is without its clock. -/
theorem Sound.idle (h : Sound q c) (hs : Startable c.record.state) :
    Idle q { c with restartAt := none } := by
  have hp : c.record.pid = none := by
    cases hp : c.record.pid with
    | none => rfl
    | some pid =>
      have ha := h.alive (by simp [hp])
      simp only [Startable, List.mem_cons, List.not_mem_nil, or_false] at hs ha
      rcases ha with ha | ha | ha <;> simp [ha] at hs
  have hn : c.record.state ≠ .starting := by
    intro hst
    simp [hst, Startable] at hs
  refine ⟨h.spec, hp, h.gone hp, ?_, ?_, ?_, rfl, h.empty, h.unhurried⟩
  · by_contra hne
    exact hn (h.preparing (Option.isSome_iff_ne_none.mpr hne)).1
  · by_contra hne
    exact hn (h.asking (Option.isSome_iff_ne_none.mpr hne)).1
  · by_contra hne
    have ha := (h.listening hne).2
    simp [ha, Startable] at hs

/-- The start of a service that is overdue is not due yet. -/
def Timely (q : Mode) (c : Core) : Prop := ∀ now ∈ q.clock, due now c.startDeadline = false

theorem Timely.prompt (h : Timely q c) : Prompt q c := by
  intro now hn hd
  rw [h now hn] at hd
  cases hd

theorem Begins.asks (h : Begins q c) (ht : Timely q c) (helper : HelperProcess) :
    Sound q { c with execConditionHelper := some helper } :=
  { h.sound with
    asking := fun _ => ⟨h.state, h.pid, h.preparing⟩
    prompt := fun _ _ => Timely.prompt ht }

theorem Begins.prepares (h : Begins q c) (helper : HelperProcess) :
    Sound q { c with startHelper := some helper } :=
  { h.sound with
    preparing := fun _ => ⟨h.state, h.pid⟩
    asking := fun ha => absurd ha (by simp [h.asking]) }

theorem Begins.activates (h : Begins q c) {r : ServiceRecord} (hspec : r.spec = q.spec)
    (hs : r.state = .active) (hp : r.pid = none) {listeners : List ManagedListener}
    (hl : listeners ≠ [] → q.spec.serviceType = .socket) :
    Sound q { c with record := r, listeners := listeners, startDeadline := none } where
  spec := hspec
  alive ha := by simp [hp] at ha
  process ha := by simp [hs] at ha
  gone _ := h.gone
  preparing ha := by simp [h.preparing] at ha
  asking ha := by simp [h.asking] at ha
  listening ha := ⟨hl ha, hs⟩
  waiting ha := by simp [h.waiting] at ha
  released ha := by simp [hs, Startable] at ha
  empty := h.empty
  wanted hq _ := h.wanted hq
  scheduled _ ha := by simp [hs] at ha
  halted hq := absurd hq h.free
  prompt ha := by simp [hs] at ha
  unhurried := h.unhurried

theorem Sound.again (h : Sound q c) (hf : ¬ q.halted) {again : Bool}
    (hu : again → ∀ now ∈ q.clock, q.spec.startTimeout ≠ 0) :
    Sound q { c with wantsRunning := true, restartAfterStop := again } :=
  { h with
    wanted := fun _ _ => rfl
    halted := fun hq => absurd hq hf
    unhurried := fun now hn ha => hu ha now hn }

theorem Sound.undated (h : Sound q c) : Sound q { c with startDeadline := none } :=
  { h with prompt := fun _ _ _ _ ha => by cases ha }

theorem Sound.unscheduled (h : Sound q c) (hs : c.record.state ≠ .backoff) :
    Sound q { c with restartAt := none } :=
  { h with
    waiting := nofun
    scheduled := fun _ hb => absurd hb hs }

theorem Sound.ready (h : Sound q c) (hs : Startable c.record.state) (hf : ¬ q.halted) :
    Ready q { c with wantsRunning := true, restartAfterStop := false, restartAt := none } :=
  { h.idle hs with
    unhurried := fun _ _ ha => by cases ha
    wanted := fun _ => rfl
    free := hf
    state := hs
    released := h.released hs }

theorem Launched.remembers {c' : Core} (h : Launched q c) (hc : c' = { c with
    child := c'.child, pidfd := c'.pidfd, processGroup := c'.processGroup,
    forkingPending := c'.forkingPending, forkingParentExited := c'.forkingParentExited,
    adoptedPid := c'.adoptedPid, notifySocket := c'.notifySocket,
    watchdogDeadline := c'.watchdogDeadline, runtimeDeadline := c'.runtimeDeadline,
    startDeadline := c'.startDeadline }) : Launched q c' := by
  rw [hc]
  obtain ⟨hs, hp⟩ := h
  have hne : c.record.pid ≠ none := Option.isSome_iff_ne_none.mp hp
  exact ⟨{ hs with
    gone := fun hn => absurd hn hne
    prompt := fun _ hn => absurd hn hne }, hp⟩

theorem Sound.runs (h : Sound q c) (hs : c.record.state = .starting) (hp : c.record.pid.isSome) :
    Launched q { c with record := { c.record with state := .running } } := by
  have hne : c.record.pid ≠ none := Option.isSome_iff_ne_none.mp hp
  refine ⟨?_, hp⟩
  exact {
    spec := h.spec
    alive := fun _ => by simp
    process := fun _ => hp
    gone := fun hn => absurd hn hne
    preparing := fun ha => absurd (h.preparing ha).2 hne
    asking := fun ha => absurd (h.asking ha).2.1 hne
    listening := fun ha => by cases hs.symm.trans (h.listening ha).2
    waiting := fun ha => by cases hs.symm.trans (h.waiting ha)
    released := fun ha => by simp [Startable] at ha
    empty := h.empty
    wanted := fun hq _ => h.wanted hq (.inl (by simp [hs]))
    scheduled := fun _ ha => by cases ha
    halted := fun hq => ⟨(h.halted hq).1, (h.halted hq).2.1, nofun⟩
    prompt := fun ha => by cases ha
    unhurried := h.unhurried }

/-- A service that has been stopped for good is not started. -/
theorem Sound.free (h : Sound q c) (hs : c.record.state ∈ [ServiceState.starting, .running, .backoff]) :
    ¬ q.halted := by
  intro hq
  have hw := h.wanted (q.paced_of_halted hq) (.inl hs)
  rw [(h.halted hq).1] at hw
  cases hw

theorem Sound.asked (h : Sound q c) (ha : c.execConditionHelper.isSome) :
    Begins q { c with execConditionHelper := none } ∧ Timely q c := by
  obtain ⟨hs, hp, hstart⟩ := h.asking ha
  have htimely : Timely q c := by
    intro now hn
    by_contra hd
    have hnone := (h.prompt hs hp now hn (by simpa using hd)).2
    simp [hnone] at ha
  refine ⟨?_, htimely⟩
  exact {
    spec := h.spec
    pid := hp
    gone := h.gone hp
    preparing := hstart
    asking := rfl
    listening := by
      by_contra hne
      cases hs.symm.trans (h.listening hne).2
    waiting := by
      by_contra hne
      cases hs.symm.trans (h.waiting (Option.isSome_iff_ne_none.mpr hne))
    empty := h.empty
    unhurried := h.unhurried
    wanted := fun hq => h.wanted hq (.inl (by simp [hs]))
    free := h.free (by simp [hs])
    state := hs
    prompt := Timely.prompt htimely }

theorem Sound.prepared (h : Sound q c) (ha : c.startHelper.isSome) :
    Begins q { c with startHelper := none } := by
  obtain ⟨hs, hp⟩ := h.preparing ha
  exact {
    spec := h.spec
    pid := hp
    gone := h.gone hp
    preparing := rfl
    asking := by
      by_contra hne
      have hnone := (h.asking (Option.isSome_iff_ne_none.mpr hne)).2.2
      simp [hnone] at ha
    listening := by
      by_contra hne
      cases hs.symm.trans (h.listening hne).2
    waiting := by
      by_contra hne
      cases hs.symm.trans (h.waiting (Option.isSome_iff_ne_none.mpr hne))
    empty := h.empty
    unhurried := h.unhurried
    wanted := fun hq => h.wanted hq (.inl (by simp [hs]))
    free := h.free (by simp [hs])
    state := hs
    prompt := h.prompt hs hp }

theorem sound_loose : Loose (Sound q) where
  startHelper h := { h with
    preparing := nofun
    asking := fun ha => ⟨(h.asking ha).1, (h.asking ha).2.1, rfl⟩ }
  execConditionHelper h := { h with
    asking := nofun
    prompt := fun hs hp now hn hd => ⟨(h.prompt hs hp now hn hd).1, rfl⟩ }
  listeners h := { h with listening := fun hl => absurd rfl hl }
  activation h := { h with empty := fun _ => rfl }

theorem idle_loose : Loose (Idle q) where
  startHelper h := { h with preparing := rfl }
  execConditionHelper h := { h with asking := rfl }
  listeners h := { h with listening := rfl }
  activation h := { h with empty := fun _ => rfl }

theorem wanted_loose : Loose (Wanted q) where
  startHelper h := { h with toIdle := idle_loose.startHelper h.toIdle }
  execConditionHelper h := { h with toIdle := idle_loose.execConditionHelper h.toIdle }
  listeners h := { h with toIdle := idle_loose.listeners h.toIdle }
  activation h := { h with toIdle := idle_loose.activation h.toIdle }

theorem opening_loose : Loose (Opening q) where
  startHelper h := { h with toWanted := wanted_loose.startHelper h.toWanted }
  execConditionHelper h := { h with toWanted := wanted_loose.execConditionHelper h.toWanted }
  listeners h := { h with toWanted := wanted_loose.listeners h.toWanted }
  activation h := { h with toWanted := wanted_loose.activation h.toWanted }

theorem begins_loose : Loose (Begins q) where
  startHelper h := { h with toOpening := opening_loose.startHelper h.toOpening }
  execConditionHelper h := {
    toOpening := opening_loose.execConditionHelper h.toOpening
    prompt := fun now hn hd => ⟨(h.prompt now hn hd).1, rfl⟩ }
  listeners h := { h with toOpening := opening_loose.listeners h.toOpening }
  activation h := { h with toOpening := opening_loose.activation h.toOpening }

end FractalD.Supervisor.Coherence
