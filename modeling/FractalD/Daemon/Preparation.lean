import FractalD.Daemon.Overlay
import FractalD.Machine.Effect
import FractalD.Storage.Services

namespace FractalD.Daemon.Preparation

open FractalD.Daemon.Discovery FractalD.Daemon.Overlay FractalD.Machine.CString
open FractalD.Machine.Effect FractalD.Machine.OrderedMap FractalD.Packages.Sync
open FractalD.Storage.Fstab FractalD.Storage.Services

/-- `Path::extension` of a file name. -/
def extension (fileName : Str) : Option Str :=
  let before := (fileName.reverse.dropWhile (· ≠ '.')).tail
  if fileName = ['.', '.'] ∨ before = [] then none
  else some (fileName.reverse.takeWhile (· ≠ '.')).reverse

def isDescriptor (fileName : Str) : Bool := extension fileName = some "svc".toList

/-- What reading the fstab gives. -/
inductive Table
  | missing
  | unreadable (error : Str)
  | text (source : Str)

/-- The names of a directory in the order in which they are listed, which an
error may end before the last one. -/
structure Listing (names : List Str) where
  listed : List Str
  error : Option Str
  some_listed : ∃ rest, (listed ++ rest).Perm names
  all_listed : error = none → listed.Perm names

/-- How the system answers a call: the table, the errors it gives and how it
lists a directory. A write that fails may have written something. -/
structure Answers where
  table : Table
  createDirAll : Option Str
  readDir : Option Str
  listing : (names : List Str) → Listing names
  removeFile : Str → Option Str
  openFile : Str → Option Str
  writeAll : Str → Option (Str × Str)

/-- The files, and the names that the call has removed from the directory of
generated services and written to it. -/
structure Disk where
  files : Files
  removed : List Str
  written : List Str

abbrev Prepare := EStateM Str Disk

def look (files : Files) (output name : Str) : Option Entry := (files output).bind (·.get name)

def withEntry (files : Files) (output name : Str) (entry : Option Entry) : Files := fun directory =>
  if directory = output then
    let entries := (files output).getD empty
    some (match entry with
      | some entry => entries.insert name entry
      | none => entries.erase name)
  else files directory

section

variable (answers : Answers) (output : Str)

def failed (verb name error : Str) : Str :=
  verb ++ (⟨output, name⟩ : DescriptorPath).display ++ ": ".toList ++ error

def createDirAll : Prepare Unit :=
  match answers.createDirAll with
  | some e => throw ("cannot create ".toList ++ output ++ ": ".toList ++ e)
  | none => modify fun d => { d with
      files := fun directory =>
        if directory = output then some ((d.files output).getD empty) else d.files directory }

/-- Why a file cannot be removed. -/
def removeError (files : Files) (name : Str) : Option Str :=
  match look files output name with
  | none => some "No such file or directory (os error 2)".toList
  | some .directory => some "Is a directory (os error 21)".toList
  | some (.file _) | some .symlink | some .other => answers.removeFile name

def removeDescriptor (name : Str) : Prepare Unit := do
  if isDescriptor name then
    match removeError answers output (← get).files name with
    | some e => throw (failed output "cannot remove ".toList name e)
    | none => modify fun d => { d with
        files := withEntry d.files output name none
        removed := d.removed ++ [name] }

def removeDescriptors : Prepare Unit := do
  match answers.readDir with
  | some e => throw ("cannot read ".toList ++ output ++ ": ".toList ++ e)
  | none =>
    let listing := answers.listing (((← get).files output).getD empty).keys
    listing.listed.forM (removeDescriptor answers output)
    match listing.error with
    | some e => throw ("cannot enumerate ".toList ++ output ++ ": ".toList ++ e)
    | none => pure ()

/-- What is written through a symlink or to a device ends up elsewhere. -/
def contents (files : Files) (name content : Str) : Files :=
  match look files output name with
  | none | some (.file _) => withEntry files output name (some (.file (.ok content)))
  | some .directory | some .symlink | some .other => files

def put (name content : Str) : Prepare Unit := modify fun d =>
  { d with files := contents output d.files name content, written := d.written ++ [name] }

def openError (files : Files) (name : Str) : Option Str :=
  match look files output name with
  | some .directory => some "Is a directory (os error 21)".toList
  | none | some (.file _) | some .symlink | some .other => answers.openFile name

def writeUnit (unit : GeneratedService) : Prepare Unit := do
  match openError answers output (← get).files unit.name with
  | some e => throw (failed output "cannot write ".toList unit.name e)
  | none =>
    match answers.writeAll unit.name with
    | some (e, part) => do
      put output unit.name part
      throw (failed output "cannot write ".toList unit.name e)
    | none => put output unit.name unit.source

def writeUnits (units : List GeneratedService) : Prepare Unit :=
  units.forM (writeUnit answers output)

def describing {α : Type} (describe : Str) (x : Except StorageError α) : Prepare α :=
  match x with
  | .ok a => pure a
  | .error e => throw (describe ++ e.display)

end

def fstabPath (env : Environment) : Str :=
  (env.var "FRACTALD_STORAGE_FSTAB".toList).getD "/etc/fstab".toList

def prepareNativeStorageServices (env : Environment) (answers : Answers) : Prepare Unit :=
  match nativeStorageServiceDirectory env with
  | none => pure ()
  | some output =>
    match answers.table with
    | .missing => pure ()
    | .unreadable e => throw ("cannot read ".toList ++ fstabPath env ++ ": ".toList ++ e)
    | .text source => do
      let entries ← describing ("cannot parse ".toList ++ fstabPath env ++ ": ".toList)
        (parseFstab source)
      let units ← describing "cannot generate native storage services: ".toList
        (generateServices entries)
      createDirAll answers output
      removeDescriptors answers output
      writeUnits answers output units

section

variable (answers : Answers) (output : Str)

/-- The descriptors among some names that are removed before one cannot be. -/
def cleaned (files : Files) : List Str → List Str
  | [] => []
  | name :: names =>
    if !isDescriptor name then cleaned files names
    else if (removeError answers output files name).isSome then []
    else name :: cleaned files names

def Table.generates : Table → Bool
  | .missing | .unreadable _ => false
  | .text source =>
    ((parseFstab source).toOption.bind fun entries => (generateServices entries).toOption).isSome

/-- The descriptors that a call gets to when it cleans the directory. -/
def reached (files : Files) : List Str :=
  if answers.table.generates ∧ answers.createDirAll = none ∧ answers.readDir = none then
    cleaned answers output files (answers.listing ((files output).getD empty).keys).listed
  else []

end

section

variable {answers : Answers} {output : Str}

theorem look_eq_get (files : Files) (n : Str) :
    look files output n = ((files output).getD empty).get n := by
  cases h : files output with
  | none => simp [look, h, get_empty]
  | some entries => simp [look, h]

theorem look_withEntry (files : Files) (name n : Str) (entry : Option Entry) :
    look (withEntry files output name entry) output n =
      if n = name then entry else look files output n := by
  rw [look_eq_get files n]
  by_cases hn : n = name
  · subst hn
    cases entry with
    | none => simp [look, withEntry, get_erase]
    | some entry => simp [look, withEntry, get_insert_self]
  · cases entry with
    | none => simp [look, withEntry, get_erase, hn]
    | some entry => simp [look, withEntry, get_insert_of_ne, hn]

theorem withEntry_of_ne (files : Files) {directory : Str} (h : directory ≠ output) (name : Str)
    (entry : Option Entry) : withEntry files output name entry directory = files directory :=
  if_neg h

theorem cleaned_congr {files files' : Files} {names : List Str}
    (h : ∀ n ∈ names, look files output n = look files' output n) :
    cleaned answers output files names = cleaned answers output files' names := by
  induction names with
  | nil => rfl
  | cons name names ih =>
    obtain ⟨hname, hnames⟩ := List.forall_mem_cons.mp h
    have herror : removeError answers output files name = removeError answers output files' name := by
      rw [removeError, removeError, hname]
    simp only [cleaned, herror, ih hnames]

theorem mem_cleaned {files : Files} {names : List Str} {n : Str}
    (h : n ∈ cleaned answers output files names) :
    n ∈ names ∧ isDescriptor n ∧ look files output n ≠ none := by
  induction names with
  | nil => cases h
  | cons name names ih =>
    simp only [cleaned] at h
    split at h
    next =>
      obtain ⟨hmem, hrest⟩ := ih h
      exact ⟨.tail _ hmem, hrest⟩
    next hdescriptor =>
      split at h
      next => cases h
      next herror =>
        cases h with
        | head =>
          refine ⟨.head _, by simpa using hdescriptor, fun hnone => herror ?_⟩
          simp [removeError, hnone]
        | tail _ hmem =>
          obtain ⟨hmem, hrest⟩ := ih hmem
          exact ⟨.tail _ hmem, hrest⟩

variable (output)

/-- Some names have been removed, and nothing else has happened. -/
structure Cleared (s t : Disk) (gone : List Str) : Prop where
  removed : t.removed = s.removed ++ gone
  written : t.written = s.written
  look : ∀ n, look t.files output n = if n ∈ gone then none else look s.files output n
  elsewhere : ∀ directory, directory ≠ output → t.files directory = s.files directory

variable {output}

theorem Cleared.refl (s : Disk) : Cleared output s s [] where
  removed := (List.append_nil _).symm
  written := rfl
  look _ := by simp
  elsewhere _ _ := rfl

theorem Cleared.trans {s t u : Disk} {gone gone' : List Str} (h : Cleared output s t gone)
    (h' : Cleared output t u gone') : Cleared output s u (gone ++ gone') where
  removed := by rw [h'.removed, h.removed, List.append_assoc]
  written := h'.written.trans h.written
  look n := by
    rw [h'.look, h.look]
    by_cases hn : n ∈ gone' <;> simp [hn]
  elsewhere directory hne := (h'.elsewhere directory hne).trans (h.elsewhere directory hne)

def afterRemoval (output : Str) (s : Disk) (name : Str) : Disk :=
  { s with files := withEntry s.files output name none, removed := s.removed ++ [name] }

theorem removeDescriptor_of_error {name : Str} {s : Disk} {e : Str} (hd : isDescriptor name = true)
    (he : removeError answers output s.files name = some e) :
    removeDescriptor answers output name s =
      .error (failed output "cannot remove ".toList name e) s := by
  simp only [removeDescriptor, hd, if_true]
  refine bind_error.mpr (.inr ⟨s, s, rfl, ?_⟩)
  simp only [he]
  rfl

theorem removeDescriptor_of_none {name : Str} {s : Disk} (hd : isDescriptor name = true)
    (he : removeError answers output s.files name = none) :
    removeDescriptor answers output name s = .ok () (afterRemoval output s name) := by
  simp only [removeDescriptor, hd, if_true]
  refine bind_ok.mpr ⟨s, s, rfl, ?_⟩
  simp only [he]
  rfl

theorem removeDescriptor_of_other {name : Str} (s : Disk) (hd : isDescriptor name = false) :
    removeDescriptor answers output name s = .ok () s := by
  simp only [removeDescriptor, hd]
  rfl

theorem cleared_afterRemoval (s : Disk) (name : Str) :
    Cleared output s (afterRemoval output s name) [name] where
  removed := rfl
  written := rfl
  look n := by simp only [afterRemoval, look_withEntry, List.mem_singleton]
  elsewhere _ hne := withEntry_of_ne s.files hne name none

variable (answers output) in
theorem forM_removes {names : List Str} (hnames : names.Nodup) (s : Disk) :
    Ends (fun _ t => Cleared output s t (cleaned answers output s.files names) ∧
        ∀ n ∈ names, isDescriptor n → n ∈ cleaned answers output s.files names)
      (fun _ t => Cleared output s t (cleaned answers output s.files names))
      (names.forM (removeDescriptor answers output) s) := by
  induction names generalizing s with
  | nil => exact ⟨.refl s, fun _ h => by cases h⟩
  | cons name names ih =>
    obtain ⟨hname, hnodup⟩ := List.nodup_cons.mp hnames
    change Ends _ _ ((removeDescriptor answers output name >>= fun _ =>
      names.forM (removeDescriptor answers output)) s)
    cases hdescriptor : isDescriptor name with
    | false =>
      have hgone : cleaned answers output s.files (name :: names) =
          cleaned answers output s.files names := by simp [cleaned, hdescriptor]
      rw [bind_of_ok (removeDescriptor_of_other s hdescriptor), hgone]
      refine ends_mono (fun _ t ⟨hcleared, hall⟩ => ⟨hcleared, ?_⟩) (fun _ _ h => h) (ih hnodup s)
      intro n hn hd
      cases hn with
      | head => simp [hdescriptor] at hd
      | tail _ hn => exact hall n hn hd
    | true =>
      cases herror : removeError answers output s.files name with
      | some e =>
        have hgone : cleaned answers output s.files (name :: names) = [] := by
          simp [cleaned, hdescriptor, herror]
        rw [bind_of_error (removeDescriptor_of_error hdescriptor herror), hgone]
        exact .refl s
      | none =>
        let s' := afterRemoval output s name
        have hstep : Cleared output s s' [name] := cleared_afterRemoval s name
        have hsame : cleaned answers output s'.files names = cleaned answers output s.files names := by
          refine cleaned_congr fun n hn => ?_
          have hne : n ≠ name := fun h => hname (h ▸ hn)
          exact (hstep.look n).trans (if_neg fun h => hne (List.mem_singleton.mp h))
        have hgone : cleaned answers output s.files (name :: names) =
            [name] ++ cleaned answers output s'.files names := by
          simp [cleaned, hdescriptor, herror, hsame]
        rw [bind_of_ok (removeDescriptor_of_none hdescriptor herror), hgone]
        refine ends_mono (fun _ t ⟨hcleared, hall⟩ => ⟨hstep.trans hcleared, ?_⟩)
          (fun _ _ hcleared => hstep.trans hcleared) (ih hnodup s')
        intro n hn hd
        cases hn with
        | head => exact List.mem_append_left _ (.head _)
        | tail _ hn => exact List.mem_append_right _ (hall n hn hd)

variable (output)

/-- Only the names that have been written may have changed. -/
structure Wrote (s t : Disk) : Prop where
  removed : t.removed = s.removed
  written : s.written ⊆ t.written
  look : ∀ n, n ∉ t.written → look t.files output n = look s.files output n
  elsewhere : ∀ directory, directory ≠ output → t.files directory = s.files directory

variable {output}

theorem Wrote.refl (s : Disk) : Wrote output s s := ⟨rfl, fun _ h => h, fun _ _ => rfl, fun _ _ => rfl⟩

theorem Wrote.trans {s t u : Disk} (h : Wrote output s t) (h' : Wrote output t u) :
    Wrote output s u where
  removed := h'.removed.trans h.removed
  written := fun _ hn => h'.written (h.written hn)
  look n hn := (h'.look n hn).trans (h.look n fun hmem => hn (h'.written hmem))
  elsewhere directory hne := (h'.elsewhere directory hne).trans (h.elsewhere directory hne)

theorem look_contents (files : Files) {name n : Str} (hn : n ≠ name) (content : Str) :
    look (contents output files name content) output n = look files output n := by
  unfold contents
  split
  · rw [look_withEntry, if_neg hn]
  · rw [look_withEntry, if_neg hn]
  · rfl
  · rfl
  · rfl

theorem contents_of_ne (files : Files) {directory : Str} (h : directory ≠ output)
    (name content : Str) : contents output files name content directory = files directory := by
  have hnew := withEntry_of_ne files h name (some (.file (.ok content)))
  unfold contents
  cases look files output name with
  | none => exact hnew
  | some entry => cases entry with
    | file => exact hnew
    | symlink | directory | other => rfl

theorem wrote_put (s : Disk) (name content : Str) :
    Wrote output s { s with
      files := contents output s.files name content, written := s.written ++ [name] } where
  removed := rfl
  written := List.subset_append_left _ _
  look n hn := look_contents s.files (fun h => hn (by simp [h])) content
  elsewhere directory hne := contents_of_ne s.files hne name content

theorem writeUnit_wrote (unit : GeneratedService) (s : Disk) :
    Ends (fun _ => Wrote output s) (fun _ => Wrote output s)
      (writeUnit answers output unit s) := by
  change Ends _ _ ((match openError answers output s.files unit.name with
    | some e => throw (failed output "cannot write ".toList unit.name e)
    | none =>
      match answers.writeAll unit.name with
      | some (e, part) => do
        put output unit.name part
        throw (failed output "cannot write ".toList unit.name e)
      | none => put output unit.name unit.source : Prepare Unit) s)
  cases openError answers output s.files unit.name with
  | some e => exact Wrote.refl s
  | none =>
    cases answers.writeAll unit.name with
    | some failure => exact wrote_put s unit.name failure.2
    | none => exact wrote_put s unit.name unit.source

theorem writeUnits_wrote (units : List GeneratedService) (s : Disk) :
    Ends (fun _ => Wrote output s) (fun _ => Wrote output s)
      (writeUnits answers output units s) := by
  refine ends_forM (fun unit _ t ht => ?_) (.refl s)
  exact ends_mono (fun _ _ h => ht.trans h) (fun _ _ h => ht.trans h) (writeUnit_wrote unit t)

variable (answers output)

/-- What a call does to the files: it removes the descriptors it gets to, and
what it writes over is among them. -/
structure Touches (files : Files) (gone : List Str) (t : Disk) : Prop where
  removed : t.removed = gone
  kept : ∀ n, n ∉ t.removed → n ∉ t.written → look t.files output n = look files output n
  overwritten : ∀ n ∈ t.written, isDescriptor n → look files output n ≠ none → n ∈ gone
  elsewhere : ∀ directory, directory ≠ output → t.files directory = files directory

def Disk.start (files : Files) : Disk := ⟨files, [], []⟩

variable {answers output}

theorem touches_start (files : Files) : Touches output files [] (.start files) where
  removed := rfl
  kept _ _ _ := rfl
  overwritten _ h := by cases h
  elsewhere _ _ := rfl

variable (answers) in
theorem nodup_listed {names : List Str} (h : names.Nodup) : (answers.listing names).listed.Nodup := by
  obtain ⟨rest, hperm⟩ := (answers.listing names).some_listed
  exact (List.nodup_append.mp (hperm.nodup_iff.mpr h)).1

theorem mem_keys_of_look {files : Files} {n : Str} (h : look files output n ≠ none) :
    n ∈ ((files output).getD empty).keys := by
  rw [look_eq_get] at h
  exact mem_keys.mpr (contains_iff.mpr (Option.ne_none_iff_exists'.mp h))

variable (output)

/-- The directory is there, and nothing has been done to what it holds. -/
structure Intact (files : Files) (s : Disk) : Prop where
  removed : s.removed = []
  written : s.written = []
  entries : (s.files output).getD empty = (files output).getD empty
  elsewhere : ∀ directory, directory ≠ output → s.files directory = files directory

variable {output}

theorem Intact.look {files : Files} {s : Disk} (h : Intact output files s) (n : Str) :
    look s.files output n = look files output n := by
  rw [look_eq_get, look_eq_get, h.entries]

/-- The directory has been created, and still holds what it held. -/
theorem createDirAll_ends (files : Files) :
    Ends (fun _ t => answers.createDirAll = none ∧ Intact output files t)
      (fun _ t => answers.createDirAll ≠ none ∧ t = .start files)
      (createDirAll answers output (.start files)) := by
  unfold createDirAll
  cases answers.createDirAll with
  | some e => exact ⟨nofun, rfl⟩
  | none => exact ⟨rfl, rfl, rfl, by simp [Disk.start], fun _ hne => if_neg hne⟩

variable (output) in
theorem removeDescriptors_ends (hread : answers.readDir = none) (s : Disk) :
    let gone := cleaned answers output s.files
      (answers.listing ((s.files output).getD empty).keys).listed
    Ends (fun _ t => Cleared output s t gone ∧
        ∀ n, isDescriptor n → look s.files output n ≠ none → n ∈ gone)
      (fun _ t => Cleared output s t gone) (removeDescriptors answers output s) := by
  intro gone
  let listing := answers.listing ((s.files output).getD empty).keys
  have hclean := forM_removes answers output
    (nodup_listed answers (keys_nodup ((s.files output).getD empty))) s
  simp only [removeDescriptors, hread]
  change Ends _ _ ((listing.listed.forM (removeDescriptor answers output) >>= fun _ =>
    match listing.error with
    | some e => throw ("cannot enumerate ".toList ++ output ++ ": ".toList ++ e)
    | none => pure ()) s)
  refine ends_bind hclean fun _ t ⟨hcleared, hall⟩ => ?_
  cases herror : listing.error with
  | some e => exact hcleared
  | none =>
    refine ⟨hcleared, fun n hd hlook => hall n ?_ hd⟩
    exact (listing.all_listed herror).mem_iff.mpr (mem_keys_of_look hlook)

theorem touches_of_cleared {files : Files} {s t : Disk} {gone : List Str}
    (hs : Intact output files s) (ht : Cleared output s t gone) :
    Touches output files gone t where
  removed := by rw [ht.removed, hs.removed, List.nil_append]
  kept n hn _ := by
    have hgone : n ∉ gone := by rwa [ht.removed, hs.removed, List.nil_append] at hn
    rw [ht.look, if_neg hgone, hs.look]
  overwritten n hn := by
    rw [ht.written, hs.written] at hn
    cases hn
  elsewhere directory hne := (ht.elsewhere directory hne).trans (hs.elsewhere directory hne)

/-- After a directory has been cleaned of all descriptors none is written over. -/
theorem touches_of_wrote {files : Files} {t u : Disk} {gone : List Str}
    (ht : Touches output files gone t) (hall : ∀ n, isDescriptor n → look files output n ≠ none →
      n ∈ gone) (hu : Wrote output t u) : Touches output files gone u where
  removed := hu.removed.trans ht.removed
  kept n hn hn' := by
    rw [hu.look n hn']
    exact ht.kept n (fun h => hn (hu.removed ▸ h)) fun h => hn' (hu.written h)
  overwritten n _ := hall n
  elsewhere directory hne := (hu.elsewhere directory hne).trans (ht.elsewhere directory hne)

theorem write_touches (files : Files) (units : List GeneratedService)
    (hgenerates : answers.table.generates) :
    let gone := reached answers output files
    Ends (fun _ t => Touches output files gone t) (fun _ t => Touches output files gone t)
      ((do
        createDirAll answers output
        removeDescriptors answers output
        writeUnits answers output units : Prepare Unit) (.start files)) := by
  intro gone
  refine ends_bind (ends_mono (fun _ _ h => h) ?_ (createDirAll_ends files)) fun _ s hs => ?_
  · rintro e t ⟨hfail, rfl⟩
    have hgone : gone = [] := if_neg fun h => hfail h.2.1
    rw [hgone]
    exact touches_start files
  obtain ⟨hcreate, hintact⟩ := hs
  cases hread : answers.readDir with
  | some e =>
    have hgone : gone = [] := if_neg fun h => by simp [hread] at h
    have hfail : removeDescriptors answers output s =
        .error ("cannot read ".toList ++ output ++ ": ".toList ++ e) s := by
      simp only [removeDescriptors, hread]
      rfl
    rw [bind_of_error hfail, hgone]
    exact touches_of_cleared hintact (.refl s)
  | none =>
    have hgone : gone = cleaned answers output s.files
        (answers.listing ((s.files output).getD empty).keys).listed := by
      rw [hintact.entries, cleaned_congr fun n _ => hintact.look n]
      exact if_pos ⟨hgenerates, hcreate, hread⟩
    have hremove := removeDescriptors_ends output hread s
    rw [← hgone] at hremove
    refine ends_bind (ends_mono (fun _ _ h => h) ?_ hremove) fun _ t ⟨hcleared, hall⟩ => ?_
    · exact fun _ t hcleared => touches_of_cleared hintact hcleared
    have htouches := touches_of_cleared hintact hcleared
    have hall' : ∀ n, isDescriptor n → look files output n ≠ none → n ∈ gone :=
      fun n hd hlook => hall n hd (hintact.look n ▸ hlook)
    exact ends_mono (fun _ _ h => touches_of_wrote htouches hall' h)
      (fun _ _ h => touches_of_wrote htouches hall' h) (writeUnits_wrote units t)

theorem describing_ends {α : Type} (describe : Str) (x : Except StorageError α) (s : Disk) :
    Ends (fun a t => x = .ok a ∧ t = s) (fun _ t => x.toOption = none ∧ t = s)
      (describing describe x s) := by
  cases x with
  | ok a => exact ⟨rfl, rfl⟩
  | error e => exact ⟨rfl, rfl⟩

theorem touches_idle {files : Files} (h : answers.table.generates = false) :
    Touches output files (reached answers output files) (.start files) := by
  have hidle : reached answers output files = [] := if_neg fun hall => by simp [h] at hall
  rw [hidle]
  exact touches_start files

/-- A call touches what it gets to and nothing else that was there. -/
theorem prepare_touches {env : Environment} (henv : nativeStorageServiceDirectory env = some output)
    (answers : Answers) (files : Files) :
    Touches output files (reached answers output files)
      (final (prepareNativeStorageServices env answers) (.start files)) := by
  apply ends_final
  unfold prepareNativeStorageServices
  rw [henv]
  cases htable : answers.table with
  | missing => exact touches_idle (by rw [htable]; rfl)
  | unreadable e => exact touches_idle (by rw [htable]; rfl)
  | text source =>
    have hgenerates : answers.table.generates = ((parseFstab source).toOption.bind
        fun entries => (generateServices entries).toOption).isSome := by rw [htable]; rfl
    refine ends_bind (ends_mono (fun _ _ h => h) ?_ (describing_ends _ _ _)) ?_
    · rintro e t ⟨hparse, rfl⟩
      exact touches_idle (by rw [hgenerates, hparse]; rfl)
    rintro entries s ⟨hparse, rfl⟩
    refine ends_bind (ends_mono (fun _ _ h => h) ?_ (describing_ends _ _ _)) ?_
    · rintro e t ⟨hunits, rfl⟩
      exact touches_idle (by rw [hgenerates, hparse, Except.toOption, Option.bind_some, hunits]; rfl)
    rintro units s ⟨hunits, rfl⟩
    exact write_touches files units
      (by rw [hgenerates, hparse, Except.toOption, Option.bind_some, hunits]; rfl)

end

/-- The files, and the names in the directory of generated services whose entries
have been written by a call. -/
structure Store where
  files : Files
  own : Str → Prop

/-- Nothing has been written by a call yet. -/
def Store.start (files : Files) : Store := ⟨files, fun _ => False⟩

/-- What happens to the files: a boot or a reload prepares the services, or
somebody else changes them. -/
inductive Act
  | others (files : Files)
  | prepare (answers : Answers)

section

variable (env : Environment) (output : Str)

def prepared (answers : Answers) (s : Store) : Disk :=
  final (prepareNativeStorageServices env answers) (.start s.files)

/-- What others change is no longer a call's. -/
def Store.next (s : Store) : Act → Store
  | .others files => ⟨files, fun n => s.own n ∧ look files output n = look s.files output n⟩
  | .prepare answers =>
    let d := prepared env answers s
    ⟨d.files, fun n => n ∈ d.written ∨ (s.own n ∧ n ∉ d.removed)⟩

/-- A call removes and overwrites no descriptor but those that one before it has written. -/
def Keeps (answers : Answers) (s : Store) : Prop :=
  let d := prepared env answers s
  ∀ n entry, isDescriptor n → look s.files output n = some entry → ¬ s.own n →
    n ∉ d.removed ∧ n ∉ d.written ∧ look d.files output n = some entry

/-- What a call gets to has been written by one before it. -/
def Clear (answers : Answers) (s : Store) : Prop :=
  ∀ n ∈ reached answers output s.files, s.own n

/-- A condition holds at each call of a run. -/
def AtCalls (p : Answers → Store → Prop) : List Act → Store → Prop
  | [], _ => True
  | .others files :: run, s => AtCalls p run (s.next env output (.others files))
  | .prepare answers :: run, s => p answers s ∧ AtCalls p run (s.next env output (.prepare answers))

variable {env output}

theorem keeps_iff (henv : nativeStorageServiceDirectory env = some output) (answers : Answers)
    (s : Store) : Keeps env output answers s ↔ Clear output answers s := by
  have htouches := prepare_touches henv answers s.files
  constructor
  · intro hkeeps n hn
    by_contra hown
    have hgone := hn
    unfold reached at hn
    split at hn
    next =>
      obtain ⟨-, hdescriptor, hlook⟩ := mem_cleaned hn
      obtain ⟨entry, hentry⟩ := Option.ne_none_iff_exists'.mp hlook
      refine (hkeeps n entry hdescriptor hentry hown).1 ?_
      exact htouches.removed.symm ▸ hgone
    next => cases hn
  · intro hclear n entry hdescriptor hentry hown
    have hgone : n ∉ reached answers output s.files := fun h => hown (hclear n h)
    have hremoved : n ∉ (prepared env answers s).removed := fun h => hgone (htouches.removed ▸ h)
    have hwritten : n ∉ (prepared env answers s).written := fun h =>
      hgone (htouches.overwritten n h hdescriptor (by simp [hentry]))
    exact ⟨hremoved, hwritten, (htouches.kept n hremoved hwritten).trans hentry⟩

theorem atCalls_congr {p q : Answers → Store → Prop} (h : ∀ answers s, p answers s ↔ q answers s)
    (run : List Act) (s : Store) : AtCalls env output p run s ↔ AtCalls env output q run s := by
  induction run generalizing s with
  | nil => exact Iff.rfl
  | cons act run ih =>
    cases act with
    | others files => exact ih _
    | prepare answers => exact and_congr (h answers s) (ih _)

end

/-- Whatever the files are and whatever is done to them, the calls keep what they
have not written exactly if they do not get to any of it. -/
theorem run_keeps_iff {env : Environment} (henv : RootManager env) (files : Files)
    (run : List Act) :
    AtCalls env runServices (Keeps env runServices) run (.start files) ↔
      AtCalls env runServices (Clear runServices) run (.start files) :=
  atCalls_congr (keeps_iff (storageDirectory_eq henv)) run (.start files)

/-- A system on which everything succeeds. -/
def calm (table : Str) : Answers where
  table := .text table
  createDirAll := none
  readDir := none
  listing names := ⟨names, none, ⟨[], by rw [List.append_nil]⟩, fun _ => .refl _⟩
  removeFile _ := none
  openFile _ := none
  writeAll _ := none

def dataTable : Str := "/dev/vda1 /data ext4 defaults 0 2\n".toList

theorem clear_start (answers : Answers) {files : Files}
    (h : reached answers runServices files = []) : Clear runServices answers (.start files) := by
  intro n hn
  change n ∈ reached answers runServices files at hn
  rw [h] at hn
  cases hn

theorem clear_again {env : Environment} {output : Str} {answers answers' : Answers} {s : Store}
    (h : ∀ n ∈ reached answers' output (prepared env answers s).files,
      n ∈ (prepared env answers s).written) :
    Clear output answers' (s.next env output (.prepare answers)) :=
  fun n hn => .inl (h n hn)

/-- A second boot replaces what the first one has written. -/
theorem run_keeps_reboot :
    AtCalls rootEnvironment runServices (Keeps rootEnvironment runServices)
      [.prepare (calm dataTable), .prepare (calm dataTable)] (.start fun _ => none) := by
  have hempty : reached (calm dataTable) runServices (fun _ => none) = [] := by decide +kernel
  have hwritten : ∀ n ∈ reached (calm dataTable) runServices
      (prepared rootEnvironment (calm dataTable) (.start fun _ => none)).files,
      n ∈ (prepared rootEnvironment (calm dataTable) (.start fun _ => none)).written := by
    decide +kernel
  apply (run_keeps_iff rootEnvironment_root _ _).mpr
  exact ⟨clear_start _ hempty, clear_again hwritten, trivial⟩

/-- A package has put a descriptor into the directory. -/
def packaged : Files := fun directory =>
  if directory = runServices then
    some (empty.insert "web.svc".toList (.file (.ok "[service]\nexec=/bin/web\n".toList)))
  else none

theorem look_packaged : look packaged runServices "web.svc".toList =
    some (.file (.ok "[service]\nexec=/bin/web\n".toList)) := rfl

/-- A boot with nothing to mount removes it. -/
theorem boot_removes_descriptor :
    RootManager rootEnvironment ∧ runServices ∈ rootDirectories ∧
      ¬ AtCalls rootEnvironment runServices (Keeps rootEnvironment runServices)
        [.prepare (calm [])] (.start packaged) := by
  have hsearched : runServices ∈ rootDirectories := by decide +kernel
  have hdescriptor : isDescriptor "web.svc".toList := by decide +kernel
  have hremoved : "web.svc".toList ∈
      (prepared rootEnvironment (calm []) (.start packaged)).removed := by decide +kernel
  refine ⟨rootEnvironment_root, hsearched, fun h => ?_⟩
  obtain ⟨hkeeps, -⟩ := h
  exact (hkeeps _ _ hdescriptor look_packaged (fun h => h)).1 hremoved

end FractalD.Daemon.Preparation
