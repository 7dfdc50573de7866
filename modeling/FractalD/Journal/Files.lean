import FractalD.Journal.Entries
import FractalD.Machine.Scan
import FractalD.Packages.Sync
import Mathlib.Data.List.Sort

namespace FractalD.Journal.Files

open FractalD.Journal.Entries FractalD.Machine.CString FractalD.Machine.OrderedMap
open FractalD.Machine.Scan FractalD.Machine.Text FractalD.Packages.Sync

/-- What a name of the journal directory stands for. -/
inductive Entry
  | file (contents : List UInt8)
  | directory
  deriving DecidableEq

abbrev Directory := BTreeMap Str Entry

def safeCharacter (c : Char) : Bool := c.isAlphanum || c ∈ ".@_-".toList

def safeComponent (value fallback : Str) : Str :=
  let value := (value.filter safeCharacter).take 200
  if value = [] then fallback else value

def fileName (unit stream : Str) : Str :=
  safeComponent unit "fractald-journald".toList ++ '.' :: safeComponent stream "stdout".toList ++
    ".log".toList

/-- Write a record, if the file can be opened. -/
def appendRecord (directory : Directory) (unit stream message : Str) : Option Directory :=
  let path := fileName unit stream
  let record := asBytes message ++ [10]
  match directory.get path with
  | none => some (directory.insert path (.file record))
  | some (.file contents) => some (directory.insert path (.file (contents ++ record)))
  | some .directory => none

structure JournalFile where
  path : Str
  unit : Str
  generation : Nat
  stream : Str
  deriving DecidableEq

def journalFile (name : Str) : Option JournalFile :=
  let (base, generation) :=
    match removeSuffix ".1".toList name with
    | some base => (base, 0)
    | none => (name, 1)
  match removeSuffix ".stdout.log".toList base with
  | some unit => some ⟨name, unit, generation, "stdout".toList⟩
  | none =>
    (removeSuffix ".stderr.log".toList base).map fun unit =>
      ⟨name, unit, generation, "stderr".toList⟩

def selects (units : List Str) (unit : Str) : Bool :=
  units = [] || units.any fun value =>
    value = unit || (removeSuffix ".svc".toList value).getD value = unit

/-- By the unit, then the generation and then the stream. -/
def JournalFile.le (left right : JournalFile) : Bool :=
  left.unit < right.unit || left.unit = right.unit &&
    (left.generation < right.generation || left.generation = right.generation &&
      left.stream ≤ right.stream)

def Entry.isFile : Entry → Bool
  | .file _ => true
  | .directory => false

def journalFiles (directory : Directory) (units : List Str) : List JournalFile :=
  let files := directory.entries.filterMap fun (name, entry) =>
    if entry.isFile then (journalFile name).filter fun file => selects units file.unit else none
  files.mergeSort JournalFile.le

def streams : List Str := ["stdout".toList, "stderr".toList]

/-- What is written for a service is read where that service is asked for. -/
def Found (name stream : Str) : Prop :=
  ∀ directory directory' message, appendRecord directory name stream message = some directory' →
    ∃ file ∈ journalFiles directory' [name], file.path = fileName name stream

/-- A name that the writer keeps, or one of which it keeps all but an extension that the reader
drops. -/
def Kept (name : Str) : Prop :=
  (∀ c ∈ name, safeCharacter c) ∧ name.length ≤ 200 ∨
    ∃ base, name = base ++ ".svc".toList ∧ base.length = 200 ∧ ∀ c ∈ base, safeCharacter c

/-- Names of which the longer one is cut off to the shorter one. -/
def Twins (a b : Str) : Prop :=
  a.length = 200 ∧ b = a ++ ".svc".toList ∨ b.length = 200 ∧ a = b ++ ".svc".toList

section

variable {name stream unit s t : Str} {directory directory' : Directory} {units : List Str}
  {file : JournalFile}

theorem not_suffix {u v w : Str} (h : ¬ u <:+ v) (hle : u.length ≤ v.length) : ¬ u <:+ w ++ v :=
  fun hu => h (List.suffix_of_suffix_length_le hu (List.suffix_append w v) hle)

theorem fileName_stream (h : stream ∈ streams) (name : Str) : fileName name stream =
    safeComponent name "fractald-journald".toList ++ ('.' :: stream ++ ".log".toList) := by
  have hsafe : ∀ stream ∈ streams, safeComponent stream "stdout".toList = stream := by decide
  rw [fileName, hsafe stream h, List.append_assoc]

theorem journalFile_stream (h : stream ∈ streams) (unit : Str) :
    journalFile (unit ++ ('.' :: stream ++ ".log".toList)) =
      some ⟨unit ++ ('.' :: stream ++ ".log".toList), unit, 1, stream⟩ := by
  have hcurrent : ∀ stream ∈ streams, ¬ ".1".toList <:+ '.' :: stream ++ ".log".toList := by decide
  have hlength : ∀ stream ∈ streams,
      ".1".toList.length ≤ ('.' :: stream ++ ".log".toList).length := by decide
  have hgeneration := removeSuffix_none.mpr
    (not_suffix (w := unit) (hcurrent stream h) (hlength stream h))
  simp only [journalFile, hgeneration]
  obtain rfl | rfl : stream = "stdout".toList ∨ stream = "stderr".toList := by
    simpa [streams] using h
  · have hunit : removeSuffix ".stdout.log".toList
        (unit ++ ('.' :: "stdout".toList ++ ".log".toList)) = some unit :=
      removeSuffix_append ".stdout.log".toList unit
    rw [hunit]
  · have hother : removeSuffix ".stdout.log".toList
        (unit ++ ('.' :: "stderr".toList ++ ".log".toList)) = none :=
      removeSuffix_none.mpr (not_suffix (by decide) (by decide))
    have hunit : removeSuffix ".stderr.log".toList
        (unit ++ ('.' :: "stderr".toList ++ ".log".toList)) = some unit :=
      removeSuffix_append ".stderr.log".toList unit
    rw [hother, hunit]
    rfl

theorem path_journalFile (h : journalFile name = some file) : file.path = name := by
  simp only [journalFile] at h
  split at h
  next => exact congrArg JournalFile.path (Option.some.inj h).symm
  next =>
    obtain ⟨unit, -, rfl⟩ := Option.map_eq_some_iff.mp h
    rfl

theorem mem_journalFiles : file ∈ journalFiles directory units ↔
    (∃ contents, directory.get file.path = some (.file contents)) ∧
      journalFile file.path = some file ∧ selects units file.unit = true := by
  simp only [journalFiles, List.mem_mergeSort, List.mem_filterMap]
  constructor
  · rintro ⟨⟨name, entry⟩, hentry, h⟩
    obtain ⟨hfile, h⟩ := Option.ite_none_right_eq_some.mp h
    obtain ⟨h, hselect⟩ := Option.filter_eq_some_iff.mp h
    obtain rfl := path_journalFile h
    cases entry with
    | directory => cases hfile
    | file contents => exact ⟨⟨contents, get_eq_some.mpr hentry⟩, h, hselect⟩
  · rintro ⟨⟨contents, hget⟩, h, hselect⟩
    refine ⟨(file.path, .file contents), get_eq_some.mp hget, ?_⟩
    simp [Entry.isFile, h, Option.filter_eq_some_iff, hselect]

theorem get_appendRecord {message : Str}
    (h : appendRecord directory unit stream message = some directory') :
    ∃ contents, directory'.get (fileName unit stream) =
      some (.file (contents ++ asBytes message ++ [10])) := by
  simp only [appendRecord] at h
  split at h
  next =>
    obtain rfl := Option.some.inj h
    exact ⟨[], get_insert_self _ _ _⟩
  next contents _ =>
    obtain rfl := Option.some.inj h
    exact ⟨contents, by rw [get_insert_self, List.append_assoc]⟩
  next => cases h

def safe (name : Str) : Str := safeComponent name "fractald-journald".toList

theorem found_iff (h : stream ∈ streams) :
    Found name stream ↔ selects [name] (safe name) = true := by
  have hread := journalFile_stream h (safe name)
  have hname : fileName name stream = safe name ++ ('.' :: stream ++ ".log".toList) :=
    fileName_stream h name
  rw [← hname] at hread
  constructor
  · intro hfound
    obtain ⟨file, hfile, hpath⟩ :=
      hfound empty (empty.insert (fileName name stream) (.file [10])) [] rfl
    obtain ⟨-, hjournal, hselect⟩ := mem_journalFiles.mp hfile
    rw [hpath, hread] at hjournal
    obtain rfl := Option.some.inj hjournal
    exact hselect
  · intro hselect directory directory' message happend
    obtain ⟨contents, hget⟩ := get_appendRecord happend
    have hfile : (⟨fileName name stream, safe name, 1, stream⟩ : JournalFile) ∈
        journalFiles directory' [name] := mem_journalFiles.mpr ⟨⟨_, hget⟩, hread, hselect⟩
    exact ⟨_, hfile, rfl⟩

theorem fileName_inj {a b : Str} (hs : s ∈ streams) (ht : t ∈ streams) :
    fileName a s = fileName b t ↔ safe a = safe b ∧ s = t := by
  rw [fileName_stream hs, fileName_stream ht]
  constructor
  · intro h
    have hfile := journalFile_stream hs (safe a)
    rw [safe, h] at hfile
    obtain h := Option.some.inj (hfile.symm.trans (journalFile_stream ht (safe b)))
    simp only [JournalFile.mk.injEq, true_and] at h
    exact h.2
  · rintro ⟨h, rfl⟩
    rw [safe, safe] at h
    rw [h]

theorem length_of_take {n : Nat} {u v : Str} (h : (u ++ v).take n = u) :
    u.length = min n (u.length + v.length) := by
  rw [← List.length_append, ← List.length_take, h]

theorem safe_self (hne : name ≠ []) :
    safe name = name ↔ (∀ c ∈ name, safeCharacter c) ∧ name.length ≤ 200 := by
  simp only [safe, safeComponent]
  constructor
  · intro h
    split at h
    next hnil =>
      have hall : ∀ c ∈ name, safeCharacter c := by
        rw [← h]
        exact forall_of_all (by decide)
      rw [List.filter_eq_self.mpr hall, List.take_eq_nil_iff] at hnil
      exact absurd (hnil.resolve_left (by decide)) hne
    next =>
      have hsafe : ∀ c ∈ name, safeCharacter c := by
        intro c hc
        rw [← h] at hc
        exact (List.mem_filter.mp (List.mem_of_mem_take hc)).2
      rw [List.filter_eq_self.mpr hsafe] at h
      rw [← List.append_nil name] at h
      have hlength := length_of_take (h.trans (List.append_nil name))
      exact ⟨hsafe, by simp only [List.length_nil] at hlength; omega⟩
  · rintro ⟨hsafe, hlength⟩
    rw [List.filter_eq_self.mpr hsafe, List.take_of_length_le hlength, if_neg hne]

theorem safe_base {base : Str} (h : name = base ++ ".svc".toList) :
    safe name = base ↔ base.length = 200 ∧ ∀ c ∈ base, safeCharacter c := by
  have hfilter : name.filter safeCharacter = base.filter safeCharacter ++ ".svc".toList := by
    rw [h, List.filter_append]
    rfl
  have hne : (base.filter safeCharacter ++ ".svc".toList).take 200 ≠ [] := by
    rw [ne_eq, List.take_eq_nil_iff]
    simp
  rw [safe, safeComponent]
  simp only [hfilter]
  rw [if_neg hne]
  constructor
  · intro htake
    have hsafe : ∀ c ∈ base, safeCharacter c := by
      intro c hc
      rw [← htake] at hc
      obtain hc | hc := List.mem_append.mp (List.mem_of_mem_take hc)
      · exact (List.mem_filter.mp hc).2
      · have hsvc : ∀ c ∈ ".svc".toList, safeCharacter c := forall_of_all (by decide)
        exact hsvc c hc
    rw [List.filter_eq_self.mpr hsafe] at htake
    have hlength := length_of_take htake
    have hfour : ".svc".toList.length = 4 := rfl
    exact ⟨by omega, hsafe⟩
  · rintro ⟨hlength, hsafe⟩
    rw [List.filter_eq_self.mpr hsafe, ← hlength, List.take_left']
    rfl

theorem selects_iff : selects [name] unit = true ↔
    name = unit ∨ (removeSuffix ".svc".toList name).getD name = unit := by
  simp [selects]

theorem kept_iff (hne : name ≠ []) : selects [name] (safe name) = true ↔ Kept name := by
  rw [selects_iff, Kept, eq_comm (a := name), safe_self hne]
  cases hbase : removeSuffix ".svc".toList name with
  | none =>
    rw [Option.getD_none, eq_comm (a := name), safe_self hne, or_self_iff]
    refine ⟨.inl, fun h => h.elim id ?_⟩
    rintro ⟨base, rfl, -, -⟩
    rw [removeSuffix_append] at hbase
    cases hbase
  | some base =>
    have hname := removeSuffix_some.mp hbase
    rw [Option.getD_some, eq_comm (a := base), safe_base hname]
    refine or_congr_right ⟨fun h => ⟨base, hname, h.1, h.2⟩, ?_⟩
    rintro ⟨other, hother, hlength, hsafe⟩
    obtain rfl := List.append_cancel_right (hname.symm.trans hother)
    exact ⟨hlength, hsafe⟩

theorem safe_kept (hne : name ≠ []) (h : Kept name) :
    safe name = name ∧ name.length ≤ 200 ∨
      name = safe name ++ ".svc".toList ∧ (safe name).length = 200 := by
  obtain h | ⟨base, hname, hlength, hsafe⟩ := h
  · exact .inl ⟨(safe_self hne).mpr h, h.2⟩
  · have hbase := (safe_base hname).mpr ⟨hlength, hsafe⟩
    rw [hbase]
    exact .inr ⟨hname, hlength⟩

theorem safe_twin (hne : name ≠ []) (h : Kept name) (hlength : name.length = 200) :
    safe name = safe (name ++ ".svc".toList) := by
  obtain ⟨hsame, -⟩ | ⟨hcut, hlong⟩ := safe_kept hne h
  · rw [hsame, (safe_base rfl).mpr ⟨hlength, ((safe_self hne).mp hsame).1⟩]
  · have htotal := congrArg List.length hcut
    rw [List.length_append, hlong, hlength] at htotal
    exact absurd htotal (by decide)

theorem safe_inj {a b : Str} (hane : a ≠ []) (hbne : b ≠ []) (ha : Kept a) (hb : Kept b)
    (hab : a ≠ b) : safe a = safe b ↔ Twins a b := by
  constructor
  · intro h
    obtain ⟨hsame, hlength⟩ | ⟨hcut, hlength⟩ := safe_kept hane ha
    · obtain ⟨hother, -⟩ | ⟨hother, hlong⟩ := safe_kept hbne hb
      · exact absurd (hsame.symm.trans (h.trans hother)) hab
      · rw [← h, hsame] at hother hlong
        exact .inl ⟨hlong, hother⟩
    · obtain ⟨hother, -⟩ | ⟨hother, -⟩ := safe_kept hbne hb
      · rw [h, hother] at hcut hlength
        exact .inr ⟨hlength, hcut⟩
      · rw [← h, ← hcut] at hother
        exact absurd hother.symm hab
  · rintro (⟨hlength, rfl⟩ | ⟨hlength, rfl⟩)
    · exact safe_twin hane ha hlength
    · exact (safe_twin hbne hb hlength).symm

end

/-- What is written for two services is read for each of them, and from different files, exactly if
the writer keeps both names and cuts none of them off to the other one. -/
theorem files_found_iff {a b s t : Str} (ha : validateName a = .ok ())
    (hb : validateName b = .ok ()) (hs : s ∈ streams) (ht : t ∈ streams) :
    (Found a s ∧ Found b t ∧ (a ≠ b → fileName a s ≠ fileName b t)) ↔
      Kept a ∧ Kept b ∧ ¬ (s = t ∧ Twins a b) := by
  have hne : ∀ {name : Str}, validateName name = .ok () → name ≠ [] := by
    rintro name h rfl
    cases h
  rw [found_iff hs, found_iff ht, kept_iff (hne ha), kept_iff (hne hb)]
  refine and_congr_right fun hka => and_congr_right fun hkb => ?_
  rw [ne_eq a b, ne_eq (fileName a s), fileName_inj hs ht]
  by_cases hab : a = b
  · have htwins : ¬ Twins a b := by
      rintro (⟨-, h⟩ | ⟨-, h⟩)
      · exact absurd (congrArg List.length h) (by simp [hab])
      · exact absurd (congrArg List.length h) (by simp [hab])
    exact iff_of_true (fun h => absurd hab h) fun h => htwins h.2
  · rw [safe_inj (hne ha) (hne hb) hka hkb hab]
    exact ⟨fun h hc => h hab ⟨hc.2, hc.1⟩, fun h _ hc => h ⟨hc.2, hc.1⟩⟩

theorem files_found_plain : Found "sshd".toList "stdout".toList ∧
    Found "cron".toList "stdout".toList ∧
    ("sshd".toList ≠ "cron".toList →
      fileName "sshd".toList "stdout".toList ≠ fileName "cron".toList "stdout".toList) := by
  refine (files_found_iff rfl rfl (by decide) (by decide)).mpr
    ⟨.inl ⟨forall_of_all (by decide), by decide⟩, .inl ⟨forall_of_all (by decide), by decide⟩, ?_⟩
  rintro ⟨-, h | h⟩
  · exact absurd h.1 (by decide)
  · exact absurd h.1 (by decide)

/-- A mount unit of a path with a hyphen writes into the file of another service. -/
theorem escaped_lost : validateName "srv-a\\x2db".toList = .ok () ∧
    validateName "srv-ax2db".toList = .ok () ∧
    fileName "srv-a\\x2db".toList "stdout".toList = fileName "srv-ax2db".toList "stdout".toList ∧
    ¬ Found "srv-a\\x2db".toList "stdout".toList := by
  refine ⟨rfl, rfl, by decide, fun h => ?_⟩
  exact absurd ((found_iff (by decide)).mp h) (by decide)

end FractalD.Journal.Files
