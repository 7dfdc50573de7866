import FractalD.Config.Words
import FractalD.Escape.Names
import FractalD.Machine.EventRuns

namespace FractalD.Udev.EventData

open FractalD.Config.Words FractalD.Control.State FractalD.Escape.Names FractalD.Machine.CString
open FractalD.Machine.EventRuns FractalD.Machine.OrderedMap FractalD.Machine.Text

abbrev Properties := BTreeMap Str Str

/-- The data directory: the contents of its files by their names. -/
abbrev Directory := BTreeMap Str Str

def parseUevent (bytes : List UInt8) : Properties :=
  (((bytes.splitOn 0).filterMap fromUtf8).filterMap (splitOnce '=')).foldl
    (fun properties e => properties.insert e.1 e.2) empty

/-- A number with sixteen hexadecimal digits. -/
def hexadecimal (n : Nat) : Str :=
  let digits := Nat.toDigits 16 n
  List.replicate (16 - digits.length) '0' ++ digits

def nameCharacter (byte : UInt8) : Char :=
  let c := Char.ofNat byte.toNat
  if c.isAlphanum ∨ c ∈ "_-.".toList then c else '_'

def eventFile (sequence : Nat) (properties : Properties) : Option (Str × Str) := do
  let devpath ← properties.get "DEVPATH".toList
  let name := (asBytes devpath).map nameCharacter
  if name = [] then none
  else
    some (hexadecimal sequence ++ '-' :: name,
      properties.entries.flatMap fun (key, value) => key ++ '=' :: value ++ ['\n'])

/-- No file has a name of more than 255 bytes. -/
def persistUevent (directory : Directory) (sequence : Nat) (properties : Properties) :
    Except Str Directory :=
  match eventFile sequence properties with
  | none => .ok directory
  | some (name, contents) =>
    if 255 < name.length then .error "cannot persist uevent: File name too long".toList
    else .ok (directory.insert name contents)

/-- Remove the files whose names come first, but for 256. -/
def pruneUeventData (directory : Directory) : Directory :=
  ⟨directory.entries.drop (directory.entries.length - 256),
    directory.sorted.sublist (List.drop_sublist _ _)⟩

/-- The directories of the daemon, and its counter while it runs. -/
structure Udevd where
  queue : BTreeSet Str
  data : Directory
  sequence : Option Nat

inductive Step
  | restart
  | uevent (bytes : List UInt8)

def nextSequence (sequence : Nat) : Nat := (sequence + 1) % 2 ^ 64

/-- One round of the loop of the daemon, which an error ends. -/
def receive (s : Udevd) (sequence : Nat) (bytes : List UInt8) : Udevd :=
  if bytes = [] then { s with sequence := none }
  else
    let sequence := nextSequence sequence
    let marker := ".fractald-".toList ++ hexadecimal sequence
    match persistUevent s.data sequence (parseUevent bytes) with
    | .error _ => { s with queue := s.queue.add marker, sequence := none }
    | .ok data => ⟨(s.queue.add marker).erase marker, pruneUeventData data, some sequence⟩

def step (s : Udevd) : Step → Udevd
  | .restart => { s with sequence := some 0 }
  | .uevent bytes =>
    match s.sequence with
    | none => s
    | some sequence => receive s sequence bytes

def persisted (s : Udevd) : Step → Option (Str × Str)
  | .restart => none
  | .uevent bytes => do
    let sequence ← s.sequence
    if bytes = [] then none
    else (eventFile (nextSequence sequence) (parseUevent bytes)).filter (·.1.length ≤ 255)

/-- The daemon with all that has been persisted, one event after the other. -/
def udevd : EventMachine (Udevd × List (Str × Str)) Step Unit := fun s e =>
  ((step s.1 e, s.2 ++ (persisted s.1 e).toList), some [])

def initial : Udevd × List (Str × Str) := (⟨empty, empty, none⟩, [])

/-- The last 256 events. -/
def recent (events : List (Str × Str)) : List (Str × Str) := events.drop (events.length - 256)

/-- The files are those of the last events. -/
def Newest (s : Udevd × List (Str × Str)) : Prop := s.1.data.entries.Perm (recent s.2)

/-- A file that is added to those of the last events takes no name of theirs; where these are 256,
the oldest of them has the name that comes first, or it is the one whose name is taken. -/
def Orderly (files : List (Str × Str)) (name : Str) : Prop :=
  if files.length < 256 then name ∉ files.map Prod.fst
  else
    match files with
    | [] => True
    | oldest :: files =>
      name = oldest.1 ∨
        name ∉ files.map Prod.fst ∧ oldest.1 < name ∧ ∀ file ∈ files, oldest.1 < file.1

theorem names_nodup (directory : Directory) {files : List (Str × Str)}
    (h : directory.entries.Perm files) : (files.map Prod.fst).Nodup :=
  (h.map Prod.fst).nodup_iff.mp (keys_nodup directory)

theorem recent_append (events : List (Str × Str)) (event : Str × Str) :
    recent (events ++ [event]) =
      (recent events).drop ((recent events).length - 255) ++ [event] := by
  have hlength : (events ++ [event]).length = events.length + 1 := by simp
  have hle : (events ++ [event]).length - 256 ≤ events.length := by omega
  have hdrop : (events ++ [event]).length - 256 =
      events.length - 256 + ((recent events).length - 255) := by
    rw [hlength, recent, List.length_drop]
    omega
  rw [recent.eq_def (events ++ [event]), List.drop_append_of_le_length hle, hdrop,
    ← List.drop_drop]
  rfl

theorem pruneUeventData_few {directory : Directory} (h : directory.entries.length ≤ 256) :
    pruneUeventData directory = directory := by
  apply eq_of_entries
  simp only [pruneUeventData, Nat.sub_eq_zero_of_le h, List.drop_zero]

section

variable {data : Directory} {files : List (Str × Str)} {name contents : Str}

theorem insert_few (h : data.entries.Perm files) (hfew : files.length < 256) :
    (pruneUeventData (data.insert name contents)).entries.Perm (files ++ [(name, contents)]) ↔
      name ∉ files.map Prod.fst := by
  have hinsert := insert_perm data name contents
  have hlength : (data.insert name contents).entries.length ≤ 256 := by
    have hle : (data.erase name).entries.length ≤ data.entries.length :=
      List.length_filter_le _ _
    rw [hinsert.length_eq, List.length_cons]
    have := h.length_eq
    omega
  rw [pruneUeventData_few hlength]
  constructor
  · intro hperm
    have hnodup := names_nodup _ hperm
    rw [List.map_append, List.nodup_append_comm] at hnodup
    exact (List.nodup_cons.mp hnodup).1
  · intro hnew
    have hnew' : name ∉ data.entries.map Prod.fst := by rwa [(h.map Prod.fst).mem_iff]
    rw [erase_of_new hnew'] at hinsert
    exact hinsert.trans ((h.cons _).trans (List.perm_append_singleton _ _).symm)

variable {oldest : Str × Str}

theorem insert_taken (h : data.entries.Perm (oldest :: files)) (hfull : files.length = 255)
    (htaken : name ∈ (oldest :: files).map Prod.fst) :
    (pruneUeventData (data.insert name contents)).entries.Perm (files ++ [(name, contents)]) ↔
      name = oldest.1 := by
  have hinsert := insert_perm data name contents
  have hnames := names_nodup _ h
  obtain ⟨hoffiles, -⟩ := List.nodup_cons.mp hnames
  have herase : (data.erase name).entries.Perm ((oldest :: files).filter (·.1 ≠ name)) := by
    have heq : (data.erase name).entries = data.entries.filter (·.1 ≠ name) := by
      simp only [BTreeMap.erase, ne_eq, decide_not]
    exact heq ▸ h.filter _
  have hlt : ((oldest :: files).filter (·.1 ≠ name)).length < (oldest :: files).length := by
    obtain ⟨file, hfile, heq⟩ := List.mem_map.mp htaken
    apply List.length_filter_lt_length_iff_exists.mpr
    exact ⟨file, hfile, by simp [heq]⟩
  have hlength : (data.insert name contents).entries.length ≤ 256 := by
    rw [hinsert.length_eq, List.length_cons, herase.length_eq]
    rw [List.length_cons] at hlt
    omega
  rw [pruneUeventData_few hlength]
  constructor
  · intro hperm
    have hnodup := names_nodup _ hperm
    rw [List.map_append, List.nodup_append_comm] at hnodup
    exact (List.mem_cons.mp htaken).resolve_right (List.nodup_cons.mp hnodup).1
  · intro hname
    subst hname
    have hfilter : (oldest :: files).filter (·.1 ≠ oldest.1) = files := by
      rw [List.filter_cons_of_neg (by simp)]
      apply List.filter_eq_self.mpr
      intro file hfile
      have hne : file.1 ≠ oldest.1 :=
        fun heq => hoffiles (List.mem_map.mpr ⟨file, hfile, heq⟩)
      simpa using hne
    rw [hfilter] at herase
    exact hinsert.trans ((herase.cons _).trans (List.perm_append_singleton _ _).symm)

/-- When all the places are taken, a new file displaces the one whose name comes first. -/
theorem insert_full (h : data.entries.Perm (oldest :: files)) (hfull : files.length = 255)
    (hnew : name ∉ (oldest :: files).map Prod.fst) :
    (pruneUeventData (data.insert name contents)).entries.Perm (files ++ [(name, contents)]) ↔
      oldest.1 < name ∧ ∀ file ∈ files, oldest.1 < file.1 := by
  have hnew' : name ∉ data.entries.map Prod.fst := by rwa [(h.map Prod.fst).mem_iff]
  have hinsert := insert_perm data name contents
  rw [erase_of_new hnew'] at hinsert
  have hall : (data.insert name contents).entries.Perm (oldest :: (files ++ [(name, contents)])) :=
    hinsert.trans ((h.cons _).trans (List.perm_append_singleton _ _).symm)
  have hlength := hall.length_eq
  rw [List.length_cons, List.length_append, List.length_singleton, hfull] at hlength
  have hsorted := (data.insert name contents).sorted
  have hprune : (pruneUeventData (data.insert name contents)).entries =
      (data.insert name contents).entries.drop 1 := by
    simp only [pruneUeventData, hlength]
  rw [hprune]
  revert hall hlength hsorted
  generalize (data.insert name contents).entries = entries
  intro hall hlength hsorted
  cases entries with
  | nil => cases hlength
  | cons least rest =>
    obtain ⟨hleast, -⟩ := List.pairwise_cons.mp hsorted
    rw [List.drop_one, List.tail_cons]
    constructor
    · intro hperm
      have hsame : oldest = least := by
        have hcons := (hperm.cons least).symm.trans hall
        by_contra hne
        have hin := hall.mem_iff.mp List.mem_cons_self
        have hcount := hcons.count_eq least
        rw [List.count_cons_self, List.count_cons_of_ne hne] at hcount
        omega
      subst hsame
      refine ⟨hleast (name, contents) (hperm.mem_iff.mpr (by simp)), fun file hfile => ?_⟩
      exact hleast file (hperm.mem_iff.mpr (by simp [hfile]))
    · rintro ⟨hname, hfiles⟩
      have hsame : least = oldest := by
        by_contra hne
        have holdest := (List.mem_cons.mp (hall.mem_iff.mpr List.mem_cons_self)).resolve_left
          (Ne.symm hne)
        have hlt := hleast oldest holdest
        have hmem := (List.mem_cons.mp (hall.mem_iff.mp List.mem_cons_self)).resolve_left hne
        rw [List.mem_append, List.mem_singleton] at hmem
        obtain hmem | rfl := hmem
        · exact lt_asymm hlt (hfiles least hmem)
        · exact lt_asymm hlt hname
      subst hsame
      exact hall.cons_inv

theorem persist_iff (h : data.entries.Perm files) (hle : files.length ≤ 256) :
    (pruneUeventData (data.insert name contents)).entries.Perm
        (files.drop (files.length - 255) ++ [(name, contents)]) ↔ Orderly files name := by
  rw [Orderly.eq_def]
  split_ifs with hfew
  · rw [Nat.sub_eq_zero_of_le (by omega), List.drop_zero]
    exact insert_few h hfew
  · match files with
    | oldest :: files =>
      rw [List.length_cons] at hle hfew
      have hfull : files.length = 255 := by omega
      have hone : (oldest :: files).length - 255 = 1 := by rw [List.length_cons]; omega
      rw [hone, List.drop_one, List.tail_cons]
      by_cases htaken : name ∈ (oldest :: files).map Prod.fst
      · rw [insert_taken h hfull htaken]
        rw [List.map_cons, List.mem_cons] at htaken
        exact ⟨Or.inl, fun hor => hor.elim id fun hnew => htaken.resolve_right hnew.1⟩
      · rw [insert_full h hfull htaken]
        rw [List.map_cons, List.mem_cons, not_or] at htaken
        exact ⟨fun hlt => Or.inr ⟨htaken.2, hlt⟩, fun hor => (hor.resolve_left htaken.1).2⟩

end

theorem length_recent (events : List (Str × Str)) : (recent events).length ≤ 256 := by
  rw [recent, List.length_drop]
  omega

theorem data_few {s : Udevd × List (Str × Str)} (h : Newest s) :
    pruneUeventData s.1.data = s.1.data :=
  pruneUeventData_few (by rw [h.length_eq]; exact length_recent s.2)

theorem step_data {s : Udevd × List (Str × Str)} (h : Newest s) (e : Step) :
    (step s.1 e).data = match persisted s.1 e with
      | none => s.1.data
      | some (name, contents) => pruneUeventData (s.1.data.insert name contents) := by
  cases e with
  | restart => rfl
  | uevent bytes =>
    simp only [step, persisted]
    cases s.1.sequence with
    | none => rfl
    | some sequence =>
      simp only [receive]
      by_cases hempty : bytes = []
      · simp [hempty]
      · rw [if_neg hempty, persistUevent]
        simp only [Option.bind_eq_bind, Option.bind_some, if_neg hempty]
        cases eventFile (nextSequence sequence) (parseUevent bytes) with
        | none => exact data_few h
        | some file =>
          by_cases hlong : 255 < file.1.length
          · simp [hlong, Option.filter, Nat.not_le.mpr hlong]
          · simp [hlong, Option.filter, Nat.not_lt.mp hlong]

theorem step_newest {s : Udevd × List (Str × Str)} (h : Newest s) (e : Step) :
    Newest (udevd s e).1 ↔ ∀ file ∈ persisted s.1 e, Orderly (recent s.2) file.1 := by
  rw [Newest, udevd, step_data h e]
  cases persisted s.1 e with
  | none =>
    have hnewest := h
    rw [Newest] at hnewest
    simpa using hnewest
  | some file =>
    simp only [Option.toList_some, Option.mem_def, Option.some.injEq, forall_eq',
      recent_append]
    exact persist_iff h (length_recent s.2)

/-- The files are those of the last events after every step of a run exactly if each file that is
added takes its place in order. -/
theorem newest_iff (es : List Step) :
    Along udevd (fun s e => Newest (udevd s e).1) initial es ↔
      Along udevd (fun s e => ∀ file ∈ persisted s.1 e, Orderly (recent s.2) file.1) initial es := by
  have hinitial : Newest initial := List.Perm.refl _
  have hstep : ∀ s e, Newest s → (True ∧ Newest (udevd s e).1 ↔
      ∀ file ∈ persisted s.1 e, Orderly (recent s.2) file.1) := by
    intro s e hs
    rw [true_and]
    exact step_newest hs e
  have h := along_iff hstep hinitial es
  simp only [true_and] at h
  exact h

/-- A daemon that is started again counts from the beginning. -/
theorem overwritten_after_restart :
    ¬ Along udevd (fun s e => Newest (udevd s e).1) initial
      [.restart, .uevent (asBytes "ACTION=add\x00DEVPATH=/a".toList),
        .restart, .uevent (asBytes "ACTION=remove\x00DEVPATH=/a".toList)] := by
  rintro ⟨-, -, -, hlast, -⟩
  have hlength := List.Perm.length_eq hlast
  revert hlength
  decide

/-- Among the files of an earlier daemon, an event whose name comes first is the one that goes. -/
theorem first_pruned {data : Directory} (hfull : data.entries.length = 256) {name : Str}
    (hfirst : ∀ file ∈ data.entries, name < file.1) (contents : Str) :
    pruneUeventData (data.insert name contents) = data := by
  obtain ⟨entries, hsorted⟩ := data
  apply eq_of_entries
  match entries with
  | file :: entries =>
    have hlt : name < file.1 := hfirst file List.mem_cons_self
    simp only [pruneUeventData, BTreeMap.insert, insertEntry, if_pos hlt]
    rw [List.length_cons, hfull]
    rfl

end FractalD.Udev.EventData
