import FractalD.Supervisor.Frame

namespace FractalD.Supervisor.Recording

open FractalD.Machine.CString FractalD.Supervisor.Frame FractalD.Supervisor.System

/-- What a system has been asked for. -/
inductive Note
  | signal (signal : Int)
  | script (label : Str) (launched : Bool)
  deriving DecidableEq, Repr

abbrev Recorded (ω : Type) := ω × List Note

section

variable {ω α : Type}

/-- A call of which there is no note. -/
def unnoted (c : Call ω α) : Call (Recorded ω) α := fun w => ((c w.1).1, (c w.1).2, w.2)

def noted (note : α → Note) (c : Call ω α) : Call (Recorded ω) α :=
  fun w => ((c w.1).1, (c w.1).2, w.2 ++ [note (c w.1).1])

/-- The same system, which notes the signals that it is asked to send and the scripts that it is
asked to run, and goes by these notes in nothing. -/
def recording (os : Os ω) : Os (Recorded ω) where
  debug := os.debug
  directories := os.directories
  nameHash := os.nameHash
  identityOccupied w a := os.identityOccupied w.1 a
  reapUntrackedChildren a := unnoted (os.reapUntrackedChildren a)
  now := unnoted os.now
  wallClock w := os.wallClock w.1
  conditionMatches w a b := os.conditionMatches w.1 a b
  expandSpecifiers w a b := os.expandSpecifiers w.1 a b
  pathIsMountPoint w a := os.pathIsMountPoint w.1 a
  pathExists w a := os.pathExists w.1 a
  prepareCredentials a := unnoted (os.prepareCredentials a)
  prepareDirectories a := unnoted (os.prepareDirectories a)
  preparePrivateTmp a := unnoted (os.preparePrivateTmp a)
  removeDirectory a := unnoted (os.removeDirectory a)
  removeTree a := unnoted (os.removeTree a)
  removeFile a := unnoted (os.removeFile a)
  effectiveEnvironment a b := unnoted (os.effectiveEnvironment a b)
  prepareNotifySocket a b := unnoted (os.prepareNotifySocket a b)
  prepareCgroup a := unnoted (os.prepareCgroup a)
  openOutput a b c := unnoted (os.openOutput a b c)
  openInput a := unnoted (os.openInput a)
  prepareIdentity a := unnoted (os.prepareIdentity a)
  spawnMain a := unnoted (os.spawnMain a)
  forwardJournal a b c := unnoted (os.forwardJournal a b c)
  attachToCgroup a b := unnoted (os.attachToCgroup a b)
  cleanupCgroup a := unnoted (os.cleanupCgroup a)
  readCgroupOomEvents w a := os.readCgroupOomEvents w.1 a
  killCgroup a := unnoted (os.killCgroup a)
  cgroupContainsPid w a b := os.cgroupContainsPid w.1 a b
  processGroupId w a := os.processGroupId w.1 a
  processExists w a := os.processExists w.1 a
  openPidFd a := unnoted (os.openPidFd a)
  forkingProcessCandidate w a b := os.forkingProcessCandidate w.1 a b
  spawnScript a := noted (fun r => .script a.label r.isOk) (os.spawnScript a)
  spawnCommand a := unnoted (os.spawnCommand a)
  spawnDbusProbe a := unnoted (os.spawnDbusProbe a)
  tryWait a := unnoted (os.tryWait a)
  kill a := unnoted (os.kill a)
  signalProcess a b := noted (fun _ => .signal b) (os.signalProcess a b)
  signalProcessGroup a b := noted (fun _ => .signal b) (os.signalProcessGroup a b)
  pidfdSendSignal a b := noted (fun _ => .signal b) (os.pidfdSendSignal a b)
  childKill a := unnoted (os.childKill a)
  receiveNotifications a := unnoted (os.receiveNotifications a)
  openListeners a := unnoted (os.openListeners a)
  closeListener a b := unnoted (os.closeListener a b)
  acceptConnection a := unnoted (os.acceptConnection a)
  closeFd a := unnoted (os.closeFd a)
  timerHasMissedSchedule w a := os.timerHasMissedSchedule w.1 a
  timerRandomDelay w a b := os.timerRandomDelay w.1 a b
  calendarMatch := os.calendarMatch
  recordTimerFire a := unnoted (os.recordTimerFire a)
  observePathWatch w a b := os.observePathWatch w.1 a b

variable {os : Os ω} {w w' : Recorded ω}

theorem drifts_kept (h : Drifts (recording os) w w') : w.2 <+: w'.2 := by
  cases h with
  | signalProcess | signalProcessGroup | pidfdSendSignal | spawnScript =>
    exact List.prefix_append _ _
  | _ => exact List.prefix_refl _

end

end FractalD.Supervisor.Recording
