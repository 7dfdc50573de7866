import FractalD.Daemon.Loop
import FractalD.Machine.EventRuns
import FractalD.Machine.OrderedMap
import FractalD.Machine.Wire

namespace FractalD.Daemon.Journal

open FractalD.Core.Record FractalD.Core.Spec FractalD.Daemon.Loop FractalD.Machine.CString
open FractalD.Machine.Effect FractalD.Machine.EventRuns FractalD.Machine.OrderedMap
open FractalD.Machine.Text FractalD.Machine.Wire

/-- A service as an observer sees it. The manager has accepted its name. -/
structure Observed where
  snapshot : ServiceSnapshot
  usable : unusableName snapshot.name = false

/-- A change of a service with its number and the time in milliseconds. -/
structure Change where
  sequence : Nat
  timeMs : Nat
  observed : Observed

def exitText : ExitReason → Str
  | .exited code => "exit:".toList ++ printSigned code
  | .signaled signal => "signal:".toList ++ printSigned signal
  | .coreDumped signal => "core:".toList ++ printSigned signal

def eventFields (e : Change) : Str :=
  let s := e.observed.snapshot
  "time_ms=".toList ++ printUnsigned e.timeMs ++ " service=".toList ++ s.name ++
    " state=".toList ++ stateName s.state ++ " pid=".toList ++ s.pid.elim ['-'] printUnsigned ++
    " generation=".toList ++ printUnsigned s.generation ++
    " restarts=".toList ++ printUnsigned s.restartCount ++
    " exit=".toList ++ s.lastExit.elim ['-'] exitText

def eventLine (e : Change) : Str :=
  "seq=".toList ++ printUnsigned e.sequence ++ ' ' :: eventFields e

def formatEvent (e : Change) : Str := eventLine e ++ ['\n']

def eventSequence (line : Str) : Option Nat := do
  let field ← (splitWhitespace line).head?
  parseU64 (← removePrefix "seq=".toList field)

/-- How a call on the file system ends. Nothing of a write that fails is in the file. -/
inductive Answer
  | done
  | failed (alreadyExists : Bool) (error : Str)

/-- The log on the disk, the file that is to replace it, how the calls and the readings of
the clock turn out, and the changes that were ever written to the log. -/
structure Disk where
  events : Option Str
  temporary : Str
  answers : Nat → Answer
  lookups : Nat → Answer
  clock : Nat → Nat
  calls : Nat
  written : List Change

structure EventJournal where
  directory : Str
  pid : Nat
  nextSequence : Nat
  eventCount : Nat
  maxEvents : Nat
  last : BTreeMap Str ServiceSnapshot

def EventJournal.path (j : EventJournal) : Str := j.directory ++ "/events.log".toList

structure Log where
  journal : EventJournal
  disk : Disk

abbrev Op (α : Type) := EStateM Str Log α

def u64Max : Nat := 2 ^ 64 - 1

def updateJournal (f : EventJournal → EventJournal) : Op Unit :=
  modify fun l => { l with journal := f l.journal }

def updateDisk (f : Disk → Disk) : Op Unit := modify fun l => { l with disk := f l.disk }

/-- The next call on the file system. -/
def call : Op Answer := fun l =>
  .ok (l.disk.answers l.disk.calls) { l with disk := { l.disk with calls := l.disk.calls + 1 } }

def orThrow (describe : EventJournal → Str) : Op Unit := do
  match ← call with
  | .done => pure ()
  | .failed _ e => throw (describe (← get).journal ++ ": ".toList ++ e)

def cannot (what : String) (j : EventJournal) : Str := "cannot ".toList ++ what.toList ++ ' ' :: j.path

def readEvents (describe : EventJournal → Str) : Op (Option Str) := do
  orThrow describe
  pure (← get).disk.events

def write (text : Str) (d : Disk) : Disk := { d with events := some (d.events.getD [] ++ text) }

def appendSeparator (contents : Str) : Op Unit :=
  if contents ≠ [] ∧ contents.getLast? ≠ some '\n' then do
    orThrow (cannot "append event log separator")
    updateDisk (write ['\n'])
  else pure ()

def append (e : Change) : Op Unit := do
  let contents ← readEvents (cannot "inspect event log")
  orThrow (cannot "open event log")
  updateDisk (write [])
  appendSeparator (contents.getD [])
  orThrow (cannot "append event log")
  updateDisk fun d => { write (formatEvent e) d with written := d.written ++ [e] }
  orThrow (cannot "flush event log")
  updateJournal fun j => { j with eventCount := j.eventCount + 1 }

def temporaryPath (j : EventJournal) (attempt : Nat) : Str :=
  j.directory ++ "/.events.log.tmp.".toList ++ printUnsigned j.pid ++ '.' :: printUnsigned attempt

/-- Create a file of a name that is free, after the given number of attempts. -/
def createTemporary : Nat → Nat → Op Unit
  | 0, _ => throw "cannot allocate a unique event log compaction file".toList
  | attempts + 1, attempt => do
    match ← call with
    | .done => updateDisk fun d => { d with temporary := [] }
    | .failed true _ => createTemporary attempts (attempt + 1)
    | .failed false e =>
      throw ("cannot create event log compaction file ".toList ++
        temporaryPath (← get).journal attempt ++ ": ".toList ++ e)

def writeTemporary (text : Str) : Op Unit := do
  orThrow (cannot "compact event log")
  updateDisk fun d => { d with temporary := d.temporary ++ text }

def writeLine (line : Str) : Op Unit := do
  writeTemporary line
  writeTemporary ['\n']

/-- Write the lines to the new file and put it in the place of the log. -/
def replaceLog (retained : List Str) : Op Unit := do
  retained.forM writeLine
  orThrow (cannot "compact event log")
  orThrow (cannot "compact event log")
  updateDisk fun d => { d with events := some d.temporary }

def tooManyBytes (maxEvents : Nat) (contents : Str) : Op Bool := do
  match ← call with
  | .done => pure (maxEvents * 1024 < utf8Length contents)
  | .failed _ _ => pure false

def compact (lines : List Str) : Op Unit := do
  let retained := lines.drop (lines.length - (← get).journal.maxEvents)
  createTemporary 100 0
  replaceLog retained
  updateJournal fun j => { j with eventCount := retained.length }

def compactContents (contents : Str) : Op Unit := do
  let lines := textLines contents
  updateJournal fun j => { j with eventCount := lines.length }
  let maxEvents := (← get).journal.maxEvents
  let tooMany ← tooManyBytes maxEvents contents
  if maxEvents < lines.length ∨ tooMany = true then compact lines else pure ()

def compactIfNeeded : Op Unit := do
  match ← readEvents (cannot "read event log") with
  | none => updateJournal fun j => { j with eventCount := 0 }
  | some contents => compactContents contents

/-- Record a change of a service. -/
def observeOne (events : List Str) (o : Observed) : Op (List Str) := do
  let j := (← get).journal
  if j.last.get o.snapshot.name = some o.snapshot then pure events
  else do
    updateJournal fun j => { j with nextSequence := min (j.nextSequence + 1) u64Max }
    let d := (← get).disk
    let e : Change := ⟨j.nextSequence, min (d.clock d.calls) u64Max, o⟩
    append e
    updateJournal fun j => { j with last := j.last.insert o.snapshot.name o.snapshot }
    pure (events ++ [formatEvent e])

def observe (snapshots : List Observed) : Op (List Str) := do
  let events ← snapshots.foldlM observeOne []
  compactIfNeeded
  pure events

def linesOf (d : Disk) : List Str := textLines (d.events.getD [])

/-- The recorded events from a number on. Without a log there are none. -/
def eventsSince (l : Log) (since : Nat) : Except Str (List Str) :=
  match l.disk.lookups l.disk.calls with
  | .failed _ e => .error ("cannot read event log ".toList ++ l.journal.path ++ ": ".toList ++ e)
  | .done => .ok ((linesOf l.disk).filter fun line => (eventSequence line).any (since ≤ ·))

def maxEventLogEvents : Nat := 1000000

/-- The bound that the environment asks for. -/
def maxEventsOf (setting : Option Str) : Nat :=
  ((setting.bind parseU64).map fun n => max 1 (min n maxEventLogEvents)).getD 4096

/-- The next number, after a line of the log. -/
def higher (next : Nat) (line : Str) : Nat :=
  match eventSequence line with
  | some sequence => max next (min (sequence + 1) u64Max)
  | none => next

def nextAfter (lines : List Str) : Nat := lines.foldl higher 0

def readLog : Op Unit := do
  orThrow fun j => "cannot create state directory ".toList ++ j.directory
  let contents ← readEvents (cannot "read event log")
  let lines := textLines (contents.getD [])
  updateJournal fun j => { j with nextSequence := nextAfter lines, eventCount := lines.length }
  compactIfNeeded

/-- `EventJournal::open`. -/
def openJournal (directory : Str) (pid : Nat) (setting : Option Str) (d : Disk) :
    EStateM.Result Str Log Unit :=
  readLog ⟨⟨directory, pid, 0, 0, maxEventsOf setting, empty⟩, d⟩

/-- A disk and the journal of the daemon, if one runs. -/
structure Site where
  journal : Option EventJournal
  disk : Disk

inductive Operation
  | observe (snapshots : List Observed)
  | compact
  | reopen (directory : Str) (pid : Nat) (setting : Option Str)

/-- A daemon ends with the first operation that fails. -/
def Site.after {α : Type} : EStateM.Result Str Log α → Site
  | .ok _ l => ⟨some l.journal, l.disk⟩
  | .error _ l => ⟨none, l.disk⟩

def Site.run {α : Type} (s : Site) (op : Op α) : Site :=
  match s.journal with
  | some j => Site.after (op ⟨j, s.disk⟩)
  | none => s

def operate : EventMachine Site Operation Unit := fun s operation =>
  (match operation with
    | .observe snapshots => s.run (observe snapshots)
    | .compact => s.run compactIfNeeded
    | .reopen directory pid setting => Site.after (openJournal directory pid setting s.disk), some [])

/-- A disk without a log. -/
def blank (answers lookups : Nat → Answer) (clock : Nat → Nat) : Disk :=
  ⟨none, [], answers, lookups, clock, 0, []⟩

end FractalD.Daemon.Journal
