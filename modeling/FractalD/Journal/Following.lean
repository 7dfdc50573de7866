import FractalD.Escape.Names
import FractalD.Journal.Files
import FractalD.Machine.EventRuns
import Mathlib.Data.Prod.Lex

namespace FractalD.Journal.Following

open FractalD.Escape.Names FractalD.Journal.Files FractalD.Machine.CString
open FractalD.Machine.EventRuns FractalD.Machine.OrderedMap FractalD.Machine.Text
open FractalD.Machine.Wire FractalD.Resolved.Answers FractalD.Resolved.Lossy

/-- The log of a stream of a service. -/
structure Log where
  unit : Str
  stream : Str
  known : stream ∈ streams

def Log.path (log : Log) : Str := log.unit ++ ('.' :: log.stream ++ ".log".toList)

def Log.backup (log : Log) : Str := log.path ++ ".1".toList

/-- What is asked of `journalctl`, and what decides the size of a log. -/
structure Settings where
  units : List Str
  grep : Option Str
  logMaxBytes : Option Str
  directorySize : Nat

structure PrintedLine where
  unit : Str
  stream : Str
  line : Str
  deriving DecidableEq

structure Follower where
  offsets : BTreeMap Str Nat
  printed : List PrintedLine

def contents (directory : Directory) (path : Str) : List UInt8 :=
  match directory.get path with
  | some (.file bytes) => bytes
  | some .directory | none => []

variable (settings : Settings)

def maxBytes : Nat :=
  max (4 * 1024)
    (min (2 ^ 40) ((settings.logMaxBytes.bind parseU64).getD (16 * 1024 * 1024)))

def wanted (line : Str) : Bool := settings.grep.all fun pattern => pattern <:+: line

def update (directory : Directory) (offset : Nat) (file : JournalFile) : List PrintedLine :=
  ((textLines (fromUtf8Lossy ((contents directory file.path).drop offset))).filter
    (wanted settings)).map fun line => ⟨file.unit, file.stream, line⟩

/-- What has been added to a file is printed. A file that is no text is an error. -/
def followFile (directory : Directory) (s : Follower) (file : JournalFile) : Option Follower :=
  let bytes := contents directory file.path
  if (fromUtf8 bytes).isNone then none
  else
    let offset := (s.offsets.get file.path).getD 0
    if offset < bytes.length then
      some ⟨s.offsets.insert file.path bytes.length,
        s.printed ++ update settings directory offset file⟩
    else some { s with offsets := s.offsets.insert file.path offset }

/-- One round of the loop of `follow`. -/
def followRound (directory : Directory) (s : Follower) : Option Follower :=
  (journalFiles directory settings.units).foldlM (followFile settings directory) s

def entrySize : Entry → Nat
  | .file bytes => bytes.length
  | .directory => settings.directorySize

/-- Whether a log is moved aside when it is opened. -/
def rotates (directory : Directory) (path : Str) : Bool :=
  (directory.get path).any (fun entry => maxBytes settings ≤ entrySize settings entry) &&
    directory.get (path ++ ".1".toList) ≠ some .directory

/-- What is left in the directory by `open_log_file`. -/
def openLogFile (directory : Directory) (path : Str) : Directory :=
  match directory.get path with
  | none => directory.insert path (.file [])
  | some entry =>
    if rotates settings directory path then
      ((directory.erase path).insert (path ++ ".1".toList) entry).insert path (.file [])
    else directory

structure World where
  directory : Directory
  follower : Option Follower
  written : List (Str × List UInt8)

inductive Step
  | append (log : Log) (line : List UInt8)
  | openLog (log : Log)
  | poll

def append (w : World) (path : Str) (line : List UInt8) : World :=
  if w.directory.get path = some .directory then w
  else { w with
    directory := w.directory.insert path (.file (contents w.directory path ++ line))
    written := w.written ++ [(path, line)] }

/-- The writers of the logs and `follow`, one step after the other. -/
def following : EventMachine World Step Unit := fun w e =>
  (match e with
    | .append log line => append w log.path (line ++ [10])
    | .openLog log => { w with directory := openLogFile settings w.directory log.path }
    | .poll => { w with follower := w.follower.bind (followRound settings w.directory) }, some [])

def start (directory : Directory) : World := ⟨directory, some ⟨empty, []⟩, []⟩

/-- What was in a log and its backup at the start and what has been written to it since. -/
def total (directory : Directory) (log : Log) (w : World) : List UInt8 :=
  contents directory log.backup ++ contents directory log.path ++
    (w.written.filter (·.1 = log.path)).flatMap Prod.snd

def PrintedLine.isOf (log : Log) (line : PrintedLine) : Bool :=
  line.unit = log.unit && line.stream = log.stream

def printed (log : Log) (s : Follower) : List Str :=
  (s.printed.filter (PrintedLine.isOf log)).map PrintedLine.line

/-- Of each log that is asked for, every line has been printed once, in order. -/
def Follows (directory : Directory) (w : World) : Prop :=
  ∀ log, selects settings.units log.unit →
    w.follower.map (printed log) =
      some ((textLines (fromUtf8Lossy (total directory log w))).filter (wanted settings))

def offset (w : World) (path : Str) : Nat := ((w.follower.bind (·.offsets.get path))).getD 0

/-- Lines are text, and a log is moved aside while nothing of it has been printed and there is
nothing in its backup. -/
def Harmless (w : World) : Step → Prop
  | .append log line => selects settings.units log.unit → ∃ text, line = asBytes text
  | .openLog log => selects settings.units log.unit → rotates settings w.directory log.path →
      offset w log.path = 0 ∧ contents w.directory log.backup = []
  | .poll => True

def Whole (text : Str) : Prop := text = [] ∨ text.getLast? = some '\n'

/-- The files that are read at the start hold whole lines. -/
def Legible (directory : Directory) : Prop :=
  ∀ file ∈ journalFiles directory settings.units,
    ∃ text, contents directory file.path = asBytes text ∧ Whole text

section

variable {settings} {log log' : Log} {directory : Directory} {file : JournalFile}

def Log.current (log : Log) : JournalFile := ⟨log.path, log.unit, 1, log.stream⟩

def Log.old (log : Log) : JournalFile := ⟨log.backup, log.unit, 0, log.stream⟩

theorem journalFile_path (log : Log) : journalFile log.path = some log.current :=
  journalFile_stream log.known log.unit

theorem journalFile_backup (log : Log) : journalFile log.backup = some log.old := by
  have hpath := journalFile_path log
  have hnone : removeSuffix ".1".toList log.path = none := by
    have hstream : ∀ stream ∈ streams, ¬ ".1".toList <:+ '.' :: stream ++ ".log".toList := by decide
    have hlength : ∀ stream ∈ streams,
        ".1".toList.length ≤ ('.' :: stream ++ ".log".toList).length := by decide
    exact removeSuffix_none.mpr (not_suffix (hstream _ log.known) (hlength _ log.known))
  simp only [journalFile, hnone] at hpath
  simp only [journalFile, Log.backup, removeSuffix_append]
  split at hpath
  next unit hunit =>
    have h := Option.some.inj hpath
    simp only [Log.current, JournalFile.mk.injEq] at h
    simp only [Log.old, Log.backup, h.2.1, h.2.2.2]
  next hunit =>
    obtain ⟨unit, hunit', h⟩ := Option.map_eq_some_iff.mp hpath
    simp only [Log.current, JournalFile.mk.injEq] at h
    simp only [hunit', Option.map_some, Log.old, Log.backup, h.2.1, h.2.2.2]

theorem of_stream {base name : Str} {generation : Nat}
    (h : (match removeSuffix ".stdout.log".toList base with
      | some unit => some (⟨name, unit, generation, "stdout".toList⟩ : JournalFile)
      | none =>
        (removeSuffix ".stderr.log".toList base).map fun unit =>
          ⟨name, unit, generation, "stderr".toList⟩) = some file) :
    ∃ log : Log, base = log.path ∧ file = ⟨name, log.unit, generation, log.stream⟩ := by
  split at h
  next unit hunit =>
    obtain rfl := Option.some.inj h
    exact ⟨⟨unit, "stdout".toList, by decide⟩, removeSuffix_some.mp hunit, rfl⟩
  next =>
    obtain ⟨unit, hunit, rfl⟩ := Option.map_eq_some_iff.mp h
    exact ⟨⟨unit, "stderr".toList, by decide⟩, removeSuffix_some.mp hunit, rfl⟩

theorem of_journalFile {name : Str} (h : journalFile name = some file) :
    ∃ log : Log, file = log.current ∨ file = log.old := by
  cases hbase : removeSuffix ".1".toList name with
  | some base =>
    simp only [journalFile, hbase] at h
    obtain ⟨log, rfl, rfl⟩ := of_stream h
    obtain rfl := removeSuffix_some.mp hbase
    exact ⟨log, Or.inr rfl⟩
  | none =>
    simp only [journalFile, hbase] at h
    obtain ⟨log, rfl, rfl⟩ := of_stream h
    exact ⟨log, Or.inl rfl⟩

theorem path_inj (h : log.path = log'.path) : log.unit = log'.unit ∧ log.stream = log'.stream := by
  have hfile := journalFile_path log
  rw [h, journalFile_path] at hfile
  have h := Option.some.inj hfile
  simp only [Log.current, JournalFile.mk.injEq] at h
  exact ⟨h.2.1.symm, h.2.2.2.symm⟩

theorem log_eq (h : log.path = log'.path) : log = log' := by
  obtain ⟨hunit, hstream⟩ := path_inj h
  obtain ⟨unit, stream, known⟩ := log
  obtain ⟨unit', stream', known'⟩ := log'
  obtain rfl : unit = unit' := hunit
  obtain rfl : stream = stream' := hstream
  rfl

theorem path_ne_backup (log log' : Log) : log.path ≠ log'.backup := by
  intro h
  have hfile := journalFile_path log
  rw [h, journalFile_backup] at hfile
  have h := Option.some.inj hfile
  simp [Log.current, Log.old] at h

theorem backup_inj (h : log.backup = log'.backup) : log = log' := log_eq (List.append_cancel_right h)

def key (file : JournalFile) : Str ×ₗ Nat ×ₗ Str := toLex (file.unit, toLex (file.generation, file.stream))

theorem le_iff_key {left right : JournalFile} : left.le right = true ↔ key left ≤ key right := by
  simp only [JournalFile.le, key, Prod.Lex.le_iff, ofLex_toLex, Bool.or_eq_true, Bool.and_eq_true,
    decide_eq_true_eq]

theorem journalFiles_sorted (directory : Directory) (units : List Str) :
    (journalFiles directory units).Pairwise fun left right => left.le right = true := by
  apply List.pairwise_mergeSort
  · intro a b c hab hbc
    rw [le_iff_key] at hab hbc ⊢
    exact hab.trans hbc
  · intro a b
    rw [Bool.or_eq_true, le_iff_key, le_iff_key]
    exact le_total (key a) (key b)

theorem journalFiles_nodup (directory : Directory) (units : List Str) :
    ((journalFiles directory units).map JournalFile.path).Nodup := by
  rw [journalFiles, ((List.mergeSort_perm _ _).map JournalFile.path).nodup_iff, List.Nodup,
    List.pairwise_map, List.pairwise_filterMap]
  apply directory.sorted.imp
  have hpath (e : Str × Entry) (file : JournalFile)
      (h : (if e.2.isFile = true then
        (journalFile e.1).filter fun file => selects units file.unit else none) = some file) :
      file.path = e.1 := by
    obtain ⟨-, h⟩ := Option.ite_none_right_eq_some.mp h
    exact path_journalFile (Option.filter_eq_some_iff.mp h).1
  intro e e' hlt file hfile file' hfile' heq
  rw [hpath e file hfile, hpath e' file' hfile'] at heq
  exact absurd heq (ne_of_lt hlt)

def isOf (log : Log) (file : JournalFile) : Bool :=
  file.unit = log.unit && file.stream = log.stream

theorem isOf_iff : isOf log file = true ↔ file.unit = log.unit ∧ file.stream = log.stream := by
  simp [isOf]

/-- Whether a file is there to be read. -/
def present (directory : Directory) (file : JournalFile) : Bool :=
  (directory.get file.path).any Entry.isFile

theorem present_iff : present directory file = true ↔
    ∃ bytes, directory.get file.path = some (.file bytes) := by
  rw [present]
  cases directory.get file.path with
  | none => simp
  | some entry => cases entry <;> simp [Entry.isFile]

theorem files_of_log (directory : Directory) {units : List Str}
    (h : selects units log.unit = true) :
    (journalFiles directory units).filter (isOf log) =
      [log.old, log.current].filter (present directory) := by
  have hmem : ∀ file, file ∈ (journalFiles directory units).filter (isOf log) ↔
      file ∈ [log.old, log.current].filter (present directory) := by
    intro file
    rw [List.mem_filter, List.mem_filter, mem_journalFiles, isOf_iff, present_iff]
    constructor
    · rintro ⟨⟨hfile, hname, -⟩, hunit, hstream⟩
      refine ⟨?_, hfile⟩
      obtain ⟨log', rfl | rfl⟩ := of_journalFile hname
      · obtain rfl : log' = log := log_eq (by rw [Log.path, Log.path, ← hunit, ← hstream]; rfl)
        simp
      · obtain rfl : log' = log := log_eq (by rw [Log.path, Log.path, ← hunit, ← hstream]; rfl)
        simp
    · rintro ⟨hmem, hfile⟩
      obtain rfl | hmem := List.mem_cons.mp hmem
      · exact ⟨⟨hfile, journalFile_backup log, h⟩, rfl, rfl⟩
      · obtain rfl := List.mem_singleton.mp hmem
        exact ⟨⟨hfile, journalFile_path log, h⟩, rfl, rfl⟩
  have hle : log.old.le log.current = true := by
    rw [le_iff_key]
    simp [key, Log.old, Log.current, Prod.Lex.toLex_le_toLex]
  have hgt : ¬ log.current.le log.old = true := by
    rw [le_iff_key]
    simp [key, Log.old, Log.current, Prod.Lex.toLex_le_toLex]
  have hnodup : ((journalFiles directory units).filter (isOf log)).Nodup :=
    (List.Nodup.of_map _ (journalFiles_nodup directory units)).filter _
  have hnodup' : ([log.old, log.current].filter (present directory)).Nodup := by
    apply List.Nodup.filter
    simp [Log.old, Log.current]
  have hperm := (List.perm_ext_iff_of_nodup hnodup hnodup').mpr hmem
  refine hperm.eq_of_pairwise ?_ ((journalFiles_sorted directory units).filter _) ?_
  · intro a b ha hb hab hba
    have ha := List.mem_of_mem_filter ((hmem a).mp ha)
    have hb := List.mem_of_mem_filter hb
    simp only [List.mem_cons, List.not_mem_nil, or_false] at ha hb
    obtain rfl | rfl := ha <;> obtain rfl | rfl := hb
    · rfl
    · exact absurd hba hgt
    · exact absurd hab hgt
    · rfl
  · apply List.Pairwise.filter
    simpa using hle

variable {s s' : Follower} {files : List JournalFile}

def Follower.offset (s : Follower) (path : Str) : Nat := (s.offsets.get path).getD 0

theorem update_of_le {n : Nat} (h : (contents directory file.path).length ≤ n) :
    update settings directory n file = [] := by
  rw [update, List.drop_eq_nil_of_le h]
  rfl

theorem contents_of_absent (h : ¬ present directory file = true) :
    contents directory file.path = [] := by
  rw [present_iff] at h
  rw [contents]
  split
  next bytes hget => exact absurd ⟨bytes, hget⟩ h
  next => rfl
  next => rfl

theorem followFile_text (settings : Settings) (s : Follower) {text : Str}
    (h : contents directory file.path = asBytes text) :
    ∃ s', followFile settings directory s file = some s' ∧
      s'.printed = s.printed ++ update settings directory (s.offset file.path) file ∧
      ∀ path, s'.offset path = if path = file.path
        then max (s.offset path) (contents directory path).length else s.offset path := by
  have htext : fromUtf8 (contents directory file.path) = some text := fromUtf8_eq_some.mpr h
  simp only [followFile, htext, Option.isNone_some, Bool.false_eq_true, if_false]
  change ∃ s', (if s.offset file.path < _ then _ else _) = some s' ∧ _
  split
  next hlt =>
    refine ⟨_, rfl, rfl, fun path => ?_⟩
    simp only [Follower.offset, get_insert]
    split
    next heq =>
      subst heq
      rw [Option.getD_some]
      exact (max_eq_right hlt.le).symm
    next => rfl
  next hle =>
    have hle := Nat.le_of_not_lt hle
    refine ⟨_, rfl, by rw [update_of_le hle, List.append_nil], fun path => ?_⟩
    simp only [Follower.offset, get_insert]
    split
    next heq =>
      subst heq
      rw [Option.getD_some]
      exact (max_eq_left hle).symm
    next => rfl

theorem followFiles_texts (settings : Settings) (s : Follower)
    (hnodup : (files.map JournalFile.path).Nodup)
    (h : ∀ file ∈ files, ∃ text, contents directory file.path = asBytes text) :
    ∃ s', files.foldlM (followFile settings directory) s = some s' ∧
      s'.printed = s.printed ++
        files.flatMap (fun file => update settings directory (s.offset file.path) file) ∧
      ∀ path, s'.offset path = if path ∈ files.map JournalFile.path
        then max (s.offset path) (contents directory path).length else s.offset path := by
  induction files generalizing s with
  | nil => exact ⟨s, rfl, by simp, by simp⟩
  | cons file files ih =>
    obtain ⟨hnot, hnodup⟩ := List.nodup_cons.mp hnodup
    obtain ⟨text, htext⟩ := h file List.mem_cons_self
    obtain ⟨t, ht, hprinted, hoffset⟩ := followFile_text settings s htext
    obtain ⟨s', hs', hprinted', hoffset'⟩ :=
      ih t hnodup fun file hf => h file (List.mem_cons_of_mem _ hf)
    have hsame : ∀ other ∈ files, t.offset other.path = s.offset other.path := by
      intro other hother
      have hne : other.path ≠ file.path :=
        fun heq => hnot (heq ▸ List.mem_map_of_mem hother)
      rw [hoffset, if_neg hne]
    refine ⟨s', ?_, ?_, fun path => ?_⟩
    · rw [List.foldlM_cons, ht]
      exact hs'
    · have hrest : files.flatMap (fun file => update settings directory (t.offset file.path) file) =
          files.flatMap fun file => update settings directory (s.offset file.path) file := by
        apply List.flatMap_congr
        intro other hother
        rw [hsame other hother]
      rw [hprinted', hprinted, hrest, List.flatMap_cons, List.append_assoc]
    · rw [hoffset', List.map_cons]
      by_cases hpath : path = file.path
      · subst hpath
        rw [if_neg hnot, hoffset, if_pos rfl, if_pos List.mem_cons_self]
      · rw [hoffset, if_neg hpath]
        simp [hpath]

theorem filter_updates (f : JournalFile → Nat) : (files.flatMap fun file =>
      update settings directory (f file) file).filter (PrintedLine.isOf log) =
    (files.filter (isOf log)).flatMap fun file => update settings directory (f file) file := by
  have hof (file : JournalFile) : ∀ line ∈ update settings directory (f file) file,
      PrintedLine.isOf log line = isOf log file := by
    intro line hline
    obtain ⟨text, -, rfl⟩ := List.mem_map.mp hline
    rfl
  induction files with
  | nil => rfl
  | cons file files ih =>
    rw [List.flatMap_cons, List.filter_append, ih, List.filter_cons]
    cases hfile : isOf log file with
    | true =>
      rw [if_pos rfl, List.flatMap_cons, List.filter_eq_self.mpr]
      intro line hline
      rw [hof file line hline, hfile]
    | false =>
      rw [if_neg Bool.false_ne_true, List.filter_eq_nil_iff.mpr, List.nil_append]
      intro line hline
      rw [hof file line hline, hfile]
      exact Bool.false_ne_true

theorem flatMap_present {f : JournalFile → List PrintedLine}
    (h : ∀ file, ¬ present directory file = true → f file = []) :
    (files.filter (present directory)).flatMap f = files.flatMap f := by
  induction files with
  | nil => rfl
  | cons file files ih =>
    rw [List.filter_cons]
    split_ifs with hpresent
    · rw [List.flatMap_cons, List.flatMap_cons, ih]
    · rw [List.flatMap_cons, h file hpresent, ih, List.nil_append]

/-- The lines that a file has from an offset on. -/
def unread (settings : Settings) (directory : Directory) (n : Nat) (path : Str) : List Str :=
  (textLines (fromUtf8Lossy ((contents directory path).drop n))).filter (wanted settings)

theorem map_update (n : Nat) (file : JournalFile) :
    (update settings directory n file).map PrintedLine.line =
      unread settings directory n file.path := by
  rw [update, List.map_map]
  exact List.map_id _

theorem followRound_log (h : ∀ file ∈ journalFiles directory settings.units,
      ∃ text, contents directory file.path = asBytes text) :
    ∃ s', followRound settings directory s = some s' ∧
      ∀ log : Log, selects settings.units log.unit = true →
        printed log s' = printed log s ++ unread settings directory (s.offset log.backup) log.backup ++
          unread settings directory (s.offset log.path) log.path ∧
        ∀ file, file = log.old ∨ file = log.current →
          s'.offset file.path = max (s.offset file.path) (contents directory file.path).length := by
  obtain ⟨s', hs', hprinted, hoffset⟩ :=
    followFiles_texts settings s (journalFiles_nodup directory settings.units) h
  refine ⟨s', hs', fun log hlog => ⟨?_, fun file hfile => ?_⟩⟩
  · have hfiles := files_of_log directory hlog
    have habsent : ∀ file, ¬ present directory file = true →
        update settings directory (s.offset file.path) file = [] := by
      intro file hfile
      apply update_of_le
      rw [contents_of_absent hfile]
      exact Nat.zero_le _
    rw [printed, hprinted, List.filter_append, filter_updates fun file => s.offset file.path, hfiles,
      flatMap_present habsent, List.map_append, List.flatMap_cons, List.flatMap_singleton,
      List.map_append, map_update, map_update, ← List.append_assoc]
    rfl
  · rw [hoffset]
    split_ifs with hmem
    · rfl
    · have hnot : ¬ present directory file = true := by
        intro hpresent
        apply hmem
        obtain rfl | rfl := hfile
        · exact List.mem_map_of_mem (f := JournalFile.path)
            (mem_journalFiles.mpr ⟨present_iff.mp hpresent, journalFile_backup log, hlog⟩)
        · exact List.mem_map_of_mem (f := JournalFile.path)
            (mem_journalFiles.mpr ⟨present_iff.mp hpresent, journalFile_path log, hlog⟩)
      rw [contents_of_absent hnot, List.length_nil, Nat.max_zero]

theorem textLines_whole {a : Str} (h : Whole a) (b : Str) :
    textLines (a ++ b) = textLines a ++ textLines b := by
  obtain rfl | h := h
  · rfl
  · exact textLines_append h b

theorem whole_append {a b : Str} (ha : Whole a) (hb : Whole b) : Whole (a ++ b) := by
  obtain rfl | hb := hb
  · rwa [List.append_nil]
  · refine Or.inr ?_
    rw [List.getLast?_append, hb]
    rfl

theorem asBytes_append (a b : Str) : asBytes (a ++ b) = asBytes a ++ asBytes b := List.flatMap_append

theorem asBytes_inj {a b : Str} (h : asBytes a = asBytes b) : a = b := by
  have hread := fromUtf8_asBytes a
  rw [h, fromUtf8_asBytes] at hread
  exact (Option.some.inj hread).symm

theorem asBytes_eq_nil {a : Str} (h : asBytes a = []) : a = [] := asBytes_inj (b := []) h

/-- What there is of a log: a text of its backup that has been printed and one that has not, and
such texts of the log itself. -/
structure Keeps (settings : Settings) (start : Directory) (log : Log) (w : World) (s : Follower)
    (old oldLeft new newLeft : Str) : Prop where
  whole : Whole old ∧ Whole oldLeft ∧ Whole new ∧ Whole newLeft
  backup : contents w.directory log.backup = asBytes (old ++ oldLeft)
  path : contents w.directory log.path = asBytes (new ++ newLeft)
  backupOffset : s.offset log.backup = (asBytes old).length
  pathOffset : s.offset log.path = (asBytes new).length
  total : total start log w = asBytes (old ++ oldLeft ++ (new ++ newLeft))
  printed : printed log s = (textLines (old ++ new)).filter (wanted settings)
  ordered : oldLeft = [] ∨ new = []

/-- What holds of all the logs that are asked for. -/
def KeepsAll (settings : Settings) (start : Directory) (w : World) : Prop :=
  ∃ s, w.follower = some s ∧ ∀ log : Log, selects settings.units log.unit = true →
    ∃ old oldLeft new newLeft, Keeps settings start log w s old oldLeft new newLeft

variable {start : Directory} {w : World} {old oldLeft new newLeft : Str}

theorem unread_text {path : Str} {a b : Str} (h : contents directory path = asBytes (a ++ b)) :
    unread settings directory (asBytes a).length path = (textLines b).filter (wanted settings) := by
  rw [unread, h, asBytes_append, List.drop_left, asBytes, lossy_utf8]

theorem textLines_ordered (h : Keeps settings start log w s old oldLeft new newLeft) :
    textLines (old ++ new) ++ textLines oldLeft ++ textLines newLeft =
      textLines (old ++ oldLeft ++ (new ++ newLeft)) := by
  obtain ⟨hold, holdLeft, hnew, -⟩ := h.whole
  obtain hleft | hnone := h.ordered
  · rw [hleft, List.append_nil, textLines_whole hold, textLines_whole hold, textLines_whole hnew]
    simp [textLines]
  · rw [hnone, List.append_nil, List.nil_append, textLines_whole (whole_append hold holdLeft),
      textLines_whole hold]

theorem keepsAll_poll (h : KeepsAll settings start w) :
    ∃ s', w.follower.bind (followRound settings w.directory) = some s' ∧
      ∀ log : Log, selects settings.units log.unit = true → ∃ old new,
        Keeps settings start log { w with follower := some s' } s' old [] new [] := by
  obtain ⟨s, hs, hkeeps⟩ := h
  have htexts : ∀ file ∈ journalFiles w.directory settings.units,
      ∃ text, contents w.directory file.path = asBytes text := by
    intro file hfile
    obtain ⟨-, hname, hselect⟩ := mem_journalFiles.mp hfile
    obtain ⟨log, rfl | rfl⟩ := of_journalFile hname
    · obtain ⟨old, oldLeft, new, newLeft, hlog⟩ := hkeeps log hselect
      exact ⟨_, hlog.path⟩
    · obtain ⟨old, oldLeft, new, newLeft, hlog⟩ := hkeeps log hselect
      exact ⟨_, hlog.backup⟩
  obtain ⟨s', hs', hround⟩ := followRound_log (s := s) htexts
  refine ⟨s', by rw [hs]; exact hs', fun log hselect => ?_⟩
  obtain ⟨old, oldLeft, new, newLeft, hlog⟩ := hkeeps log hselect
  obtain ⟨hprinted, hoffset⟩ := hround log hselect
  obtain ⟨hold, holdLeft, hnew, hnewLeft⟩ := hlog.whole
  refine ⟨old ++ oldLeft, new ++ newLeft, ⟨⟨whole_append hold holdLeft, Or.inl rfl,
    whole_append hnew hnewLeft, Or.inl rfl⟩, ?_, ?_, ?_, ?_, ?_, ?_, Or.inl rfl⟩⟩
  · rw [List.append_nil]
    exact hlog.backup
  · rw [List.append_nil]
    exact hlog.path
  · have hle : (asBytes old).length ≤ (asBytes (old ++ oldLeft)).length := by
      rw [asBytes_append, List.length_append]
      exact Nat.le_add_right _ _
    have hmax := hoffset log.old (Or.inl rfl)
    rw [Log.old] at hmax
    rw [hmax, hlog.backupOffset, hlog.backup, max_eq_right hle]
  · have hle : (asBytes new).length ≤ (asBytes (new ++ newLeft)).length := by
      rw [asBytes_append, List.length_append]
      exact Nat.le_add_right _ _
    have hmax := hoffset log.current (Or.inr rfl)
    rw [Log.current] at hmax
    rw [hmax, hlog.pathOffset, hlog.path, max_eq_right hle]
  · rw [List.append_nil, List.append_nil]
    exact hlog.total
  · rw [hprinted, hlog.printed, hlog.backupOffset, hlog.pathOffset, unread_text hlog.backup,
      unread_text hlog.path, ← List.filter_append, ← List.filter_append, textLines_ordered hlog]

theorem contents_insert (path path' : Str) (bytes : List UInt8) :
    contents (directory.insert path' (.file bytes)) path =
      if path = path' then bytes else contents directory path := by
  rw [contents, get_insert]
  split_ifs <;> rfl

/-- A world in which a log and its backup hold what they held, and to which the same has been
written. -/
theorem keeps_of_same {w' : World} (h : Keeps settings start log w s old oldLeft new newLeft)
    (hbackup : contents w'.directory log.backup = contents w.directory log.backup)
    (hpath : contents w'.directory log.path = contents w.directory log.path)
    (htotal : total start log w' = total start log w) :
    Keeps settings start log w' s old oldLeft new newLeft :=
  { h with
    backup := hbackup.trans h.backup
    path := hpath.trans h.path
    total := htotal.trans h.total }

theorem whole_line (text : Str) : Whole (text ++ ['\n']) := Or.inr List.getLast?_concat

theorem keepsAll_append (h : KeepsAll settings start w) {line : List UInt8}
    (htext : selects settings.units log'.unit = true → ∃ text, line = asBytes text) :
    KeepsAll settings start (append w log'.path (line ++ [10])) := by
  obtain ⟨s, hs, hkeeps⟩ := h
  rw [append]
  split_ifs with hdirectory
  · exact ⟨s, hs, hkeeps⟩
  refine ⟨s, hs, fun log hselect => ?_⟩
  obtain ⟨old, oldLeft, new, newLeft, hlog⟩ := hkeeps log hselect
  by_cases hsame : log = log'
  · subst hsame
    obtain ⟨text, rfl⟩ := htext hselect
    obtain ⟨hold, holdLeft, hnew, hnewLeft⟩ := hlog.whole
    have hline : asBytes text ++ [10] = asBytes (text ++ ['\n']) := by
      rw [asBytes_append]
      rfl
    rw [hline]
    refine ⟨old, oldLeft, new, newLeft ++ (text ++ ['\n']),
      { hlog with
        whole := ⟨hold, holdLeft, hnew, whole_append hnewLeft (whole_line text)⟩
        backup := ?_
        path := ?_
        total := ?_ }⟩
    · rw [contents_insert, if_neg (path_ne_backup log log).symm]
      exact hlog.backup
    · rw [contents_insert, if_pos rfl, hlog.path, ← asBytes_append, List.append_assoc]
    · have htotal := hlog.total
      rw [total] at htotal ⊢
      simp only [List.filter_append, List.flatMap_append]
      rw [← List.append_assoc, htotal]
      simp [asBytes_append]
  · have hpath : log.path ≠ log'.path := fun heq => hsame (log_eq heq)
    refine ⟨old, oldLeft, new, newLeft, keeps_of_same hlog ?_ ?_ ?_⟩
    · rw [contents_insert, if_neg (path_ne_backup log' log).symm]
    · rw [contents_insert, if_neg hpath]
    · simp [total, hpath.symm]

theorem contents_openLogFile (path : Str) :
    contents (openLogFile settings directory log.path) path =
      if rotates settings directory log.path = true then
        if path = log.path then []
        else if path = log.backup then contents directory log.path else contents directory path
      else contents directory path := by
  rw [openLogFile]
  cases hget : directory.get log.path with
  | none =>
    have hstays : ¬ rotates settings directory log.path = true := by simp [rotates, hget]
    simp only [contents_insert, if_neg hstays]
    split_ifs with hpath
    · rw [hpath, contents, hget]
    · rfl
  | some entry =>
    simp only
    split_ifs with hrotates hpath hbackup
    · rw [hpath, contents_insert, if_pos rfl]
    · rw [contents_insert, if_neg hpath, hbackup, contents, Log.backup, get_insert_self, contents,
        hget]
    · have hbackup : path ≠ log.path ++ ".1".toList := hbackup
      rw [contents_insert, if_neg hpath, contents, get_insert_of_ne _ hbackup, get_erase,
        if_neg hpath, contents]
    · rfl

theorem keepsAll_open (h : KeepsAll settings start w)
    (hrotates : selects settings.units log'.unit = true →
      rotates settings w.directory log'.path = true →
        offset w log'.path = 0 ∧ contents w.directory log'.backup = []) :
    KeepsAll settings start
      { w with directory := openLogFile settings w.directory log'.path } := by
  obtain ⟨s, hs, hkeeps⟩ := h
  refine ⟨s, hs, fun log hselect => ?_⟩
  obtain ⟨old, oldLeft, new, newLeft, hlog⟩ := hkeeps log hselect
  by_cases hmoves : rotates settings w.directory log'.path = true
  · by_cases hsame : log = log'
    · subst hsame
      obtain ⟨hoffset, hempty⟩ := hrotates hselect hmoves
      have hnew : new = [] := by
        have hzero : s.offset log.path = 0 := by rw [← hoffset, offset, hs]; rfl
        rw [hlog.pathOffset] at hzero
        exact asBytes_eq_nil (List.length_eq_zero_iff.mp hzero)
      obtain ⟨rfl, rfl⟩ : old = [] ∧ oldLeft = [] := by
        rw [hlog.backup] at hempty
        exact List.append_eq_nil_iff.mp (asBytes_eq_nil hempty)
      subst hnew
      have hpath := hlog.path
      obtain ⟨-, -, -, hnewLeft⟩ := hlog.whole
      refine ⟨[], newLeft, [], [],
        { hlog with
          whole := ⟨Or.inl rfl, hnewLeft, Or.inl rfl, Or.inl rfl⟩
          backup := ?_
          path := ?_
          total := ?_
          ordered := Or.inr rfl }⟩
      · rw [contents_openLogFile, if_pos hmoves, if_neg (path_ne_backup log log).symm, if_pos rfl,
          hpath]
      · rw [contents_openLogFile, if_pos hmoves, if_pos rfl]
        rfl
      · have htotal := hlog.total
        simp only [List.nil_append, List.append_nil] at htotal ⊢
        exact htotal
    · have hpath : log.path ≠ log'.path := fun heq => hsame (log_eq heq)
      have hbackup : log.backup ≠ log'.backup := fun heq => hsame (backup_inj heq)
      refine ⟨old, oldLeft, new, newLeft, keeps_of_same hlog ?_ ?_ rfl⟩
      · rw [contents_openLogFile, if_pos hmoves, if_neg (path_ne_backup log' log).symm,
          if_neg hbackup]
      · rw [contents_openLogFile, if_pos hmoves, if_neg hpath, if_neg (path_ne_backup log log')]
  · refine ⟨old, oldLeft, new, newLeft, keeps_of_same hlog ?_ ?_ rfl⟩
    · rw [contents_openLogFile, if_neg hmoves]
    · rw [contents_openLogFile, if_neg hmoves]

theorem following_poll (w : World) : (following settings w .poll).1 =
    { w with follower := w.follower.bind (followRound settings w.directory) } := rfl

theorem following_openLog (w : World) (log : Log) : (following settings w (.openLog log)).1 =
    { w with directory := openLogFile settings w.directory log.path } := rfl

theorem keepsAll_step (h : KeepsAll settings start w) {e : Step} (he : Harmless settings w e) :
    KeepsAll settings start (following settings w e).1 := by
  cases e with
  | append log line => exact keepsAll_append h he
  | openLog log => exact keepsAll_open h he
  | poll =>
    obtain ⟨s, hs, hkeeps⟩ := keepsAll_poll h
    refine ⟨s, hs, fun log hselect => ?_⟩
    obtain ⟨old, new, hlog⟩ := hkeeps log hselect
    exact ⟨old, [], new, [], { hlog with total := hlog.total }⟩

/-- A round leaves nothing of the logs unprinted. -/
theorem follows_poll (h : KeepsAll settings start w) :
    Follows settings start (following settings w .poll).1 := by
  obtain ⟨s, hs, hkeeps⟩ := keepsAll_poll h
  intro log hselect
  obtain ⟨old, new, hlog⟩ := hkeeps log hselect
  have htotal := hlog.total
  rw [List.append_nil, List.append_nil] at htotal
  rw [total] at htotal
  rw [following_poll, hs, Option.map_some, hlog.printed, total, htotal, asBytes, lossy_utf8]

theorem keepsAll_start (h : Legible settings directory) :
    KeepsAll settings directory (Following.start directory) := by
  refine ⟨_, rfl, fun log hselect => ?_⟩
  have htext (file : JournalFile) (hname : journalFile file.path = some file)
      (hunit : file.unit = log.unit) :
      ∃ text, contents directory file.path = asBytes text ∧ Whole text := by
    by_cases hpresent : present directory file = true
    · apply h
      exact mem_journalFiles.mpr ⟨present_iff.mp hpresent, hname, hunit ▸ hselect⟩
    · exact ⟨[], contents_of_absent hpresent, Or.inl rfl⟩
  obtain ⟨oldLeft, hbackup, hold⟩ := htext log.old (journalFile_backup log) rfl
  obtain ⟨newLeft, hpath, hnew⟩ := htext log.current (journalFile_path log) rfl
  have hbackup' : contents directory log.backup = asBytes oldLeft := hbackup
  have hpath' : contents directory log.path = asBytes newLeft := hpath
  refine ⟨[], oldLeft, [], newLeft, ⟨⟨Or.inl rfl, hold, Or.inl rfl, hnew⟩, hbackup', hpath', rfl, rfl,
    ?_, rfl, Or.inr rfl⟩⟩
  rw [total, hbackup', hpath']
  simp [Following.start, asBytes_append]

/-- Every line is printed once and in order, in each run in which lines are text and logs are moved
aside before anything of them has been printed. -/
theorem follows_lines (settings : Settings) {directory : Directory}
    (hlegible : Legible settings directory) {steps : List Step}
    (h : Along (following settings) (Harmless settings) (Following.start directory) steps) :
    Along (following settings)
      (fun w e => e = .poll → Follows settings directory (following settings w e).1)
      (Following.start directory) steps := by
  have hkeeps := keepsAll_start hlegible
  revert h hkeeps
  generalize Following.start directory = w
  intro h hkeeps
  induction steps generalizing w with
  | nil => trivial
  | cons e steps ih =>
    refine ⟨?_, ih _ h.2 (keepsAll_step hkeeps h.1)⟩
    rintro rfl
    exact follows_poll hkeeps

end

def demoLog : Log := ⟨"sshd".toList, "stdout".toList, by decide⟩

def demoSettings : Settings := ⟨[], none, some "4096".toList, 4096⟩

/-- A line of 4095 characters. -/
def longLine : Str := List.replicate 4095 'a' ++ ['\n']

def demoDirectory : Directory := empty.insert demoLog.path (.file (asBytes longLine))

theorem length_longLine : (asBytes longLine).length = 4096 := by
  have h : ∀ n, (asBytes (List.replicate n 'a')).length = n := by
    intro n
    induction n with
    | zero => rfl
    | succ n ih =>
      rw [List.replicate_succ, asBytes, List.flatMap_cons, List.length_append]
      rw [asBytes] at ih
      rw [ih, Nat.add_comm]
      rfl
  rw [longLine, asBytes_append, List.length_append, h]
  rfl

theorem contents_demo (path : Str) :
    contents demoDirectory path = if path = demoLog.path then asBytes longLine else [] := by
  rw [demoDirectory, contents_insert]
  rfl

theorem legible_demo : Legible demoSettings demoDirectory := by
  intro file hfile
  rw [contents_demo]
  split_ifs
  · exact ⟨longLine, rfl, whole_line _⟩
  · exact ⟨[], rfl, Or.inl rfl⟩

theorem rotates_demo : rotates demoSettings demoDirectory demoLog.path = true := by
  have hget : demoDirectory.get demoLog.path = some (.file (asBytes longLine)) :=
    get_insert_self _ _ _
  have hbackup : demoDirectory.get (demoLog.path ++ ".1".toList) = none := by
    have hne : demoLog.path ++ ".1".toList ≠ demoLog.path := (path_ne_backup demoLog demoLog).symm
    rw [demoDirectory, get_insert_of_ne _ hne]
    rfl
  have hmax : maxBytes demoSettings = 4096 := by decide
  rw [rotates, hget, hbackup, hmax]
  simp [entrySize, length_longLine]

theorem follows_demo : Along (following demoSettings)
    (fun w e => e = .poll →
      Follows demoSettings demoDirectory (following demoSettings w e).1)
    (start demoDirectory) [.openLog demoLog, .poll, .append demoLog (asBytes "up".toList), .poll] := by
  refine follows_lines demoSettings legible_demo
    ⟨fun _ _ => ⟨rfl, ?_⟩, trivial, fun _ => ⟨_, rfl⟩, trivial, trivial⟩
  have h := contents_demo demoLog.backup
  rw [if_neg (path_ne_backup demoLog demoLog).symm] at h
  exact h

theorem wanted_demo (lines : List Str) : lines.filter (wanted demoSettings) = lines :=
  List.filter_eq_self.mpr fun _ _ => rfl

theorem first_round : ∃ s,
    (start demoDirectory).follower.bind
      (followRound demoSettings (start demoDirectory).directory) = some s ∧
    printed demoLog s = textLines longLine ∧ s.offset demoLog.backup = 0 := by
  obtain ⟨s, hs, hkeeps⟩ := keepsAll_poll (keepsAll_start legible_demo)
  obtain ⟨old, new, hlog⟩ := hkeeps demoLog rfl
  have hbackup := (contents_demo demoLog.backup).symm.trans hlog.backup
  have hpath := (contents_demo demoLog.path).symm.trans hlog.path
  rw [if_neg (path_ne_backup demoLog demoLog).symm, List.append_nil] at hbackup
  rw [if_pos rfl, List.append_nil] at hpath
  have hold := asBytes_eq_nil hbackup.symm
  have hnew := asBytes_inj hpath.symm
  subst hold hnew
  refine ⟨s, hs, ?_, hlog.backupOffset⟩
  rw [hlog.printed, wanted_demo, List.nil_append]

def movedDirectory : Directory := openLogFile demoSettings demoDirectory demoLog.path

theorem contents_moved (path : Str) : contents movedDirectory path =
    if path = demoLog.path then []
    else if path = demoLog.backup then asBytes longLine else [] := by
  rw [movedDirectory, contents_openLogFile, if_pos rotates_demo, contents_demo, contents_demo,
    if_pos rfl]
  split_ifs <;> rfl

theorem second_round {s : Follower} (hs : s.offset demoLog.backup = 0) :
    ∃ s', followRound demoSettings movedDirectory s = some s' ∧
      printed demoLog s' = printed demoLog s ++ textLines longLine := by
  have htexts : ∀ file ∈ journalFiles movedDirectory demoSettings.units,
      ∃ text, contents movedDirectory file.path = asBytes text := by
    intro file _
    rw [contents_moved]
    split_ifs
    · exact ⟨[], rfl⟩
    · exact ⟨longLine, rfl⟩
    · exact ⟨[], rfl⟩
  obtain ⟨s', hs', hround⟩ := followRound_log (s := s) htexts
  obtain ⟨hprinted, -⟩ := hround demoLog rfl
  have hbackup : unread demoSettings movedDirectory 0 demoLog.backup = textLines longLine := by
    rw [unread, contents_moved, if_neg (path_ne_backup demoLog demoLog).symm, if_pos rfl,
      List.drop_zero, asBytes, lossy_utf8, wanted_demo]
  have hpath (n : Nat) : unread demoSettings movedDirectory n demoLog.path = [] := by
    rw [unread, contents_moved, if_pos rfl, List.drop_nil]
    rfl
  rw [hs, hbackup, hpath, List.append_nil] at hprinted
  exact ⟨s', hs', hprinted⟩

theorem total_demo {w : World} (hw : w.written = []) :
    total demoDirectory demoLog w = asBytes longLine := by
  rw [total, hw, contents_demo, contents_demo, if_neg (path_ne_backup demoLog demoLog).symm,
    if_pos rfl, List.filter_nil, List.flatMap_nil, List.append_nil, List.nil_append]

/-- A line that has been printed is printed again when it has been moved aside. -/
theorem printed_again : ¬ Along (following demoSettings)
    (fun w e => e = .poll →
      Follows demoSettings demoDirectory (following demoSettings w e).1)
    (start demoDirectory) [.poll, .openLog demoLog, .poll] := by
  rintro ⟨-, -, hlast, -⟩
  obtain ⟨s, hs, hprinted, hoffset⟩ := first_round
  obtain ⟨s', hs', hprinted'⟩ := second_round hoffset
  have hfollows := hlast rfl demoLog rfl
  rw [following_poll, following_openLog, following_poll, hs, total_demo rfl, asBytes, lossy_utf8,
    wanted_demo, Option.bind_some] at hfollows
  have hmoved : openLogFile demoSettings (start demoDirectory).directory demoLog.path =
    movedDirectory := rfl
  simp only [hmoved, hs', Option.map_some, hprinted', hprinted, Option.some.injEq] at hfollows
  have hnone : textLines longLine = [] := List.append_right_eq_self.mp hfollows
  rw [longLine, textLines_ends, List.map_eq_nil_iff] at hnone
  exact List.splitOn_ne_nil _ _ hnone

end FractalD.Journal.Following
