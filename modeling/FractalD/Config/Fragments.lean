import FractalD.Config.Native
import FractalD.Machine.Wire

namespace FractalD.Config.Fragments

open FractalD.Config.Native FractalD.Config.SyscallFilter FractalD.Config.Words
open FractalD.Machine.CString FractalD.Machine.OrderedMap FractalD.Machine.Result
open FractalD.Machine.Text FractalD.Machine.Wire

/-- What a line stands for. -/
inductive Entry
  | blank
  | header (name : Str)
  | directive (key value : Str)

def denoteHeader (line : Str) : Option Str :=
  if line.getLast? ≠ some ']' then none
  else if !isSectionName (trim line.tail.dropLast) then none
  else some (lowercase (trim line.tail.dropLast))

def denoteDirective (line : Str) : Option (Str × Str) :=
  match splitOnce '=' line with
  | none => none
  | some (key, value) => if !isKey (trim key) then none else some (lowercase (trim key), trim value)

/-- What a line stands for, if it stands for something. -/
def denote (line : Str) : Option Entry :=
  if line = [] ∨ line.head? = some '#' ∨ line.head? = some ';' then some .blank
  else if line.head? = some '[' then (denoteHeader line).map .header
  else (denoteDirective line).map fun (key, value) => .directive key value

/-- What an entry makes of what has been read. Only a section has directives. -/
def Entry.enter (r : Reader) (number : Nat) : Entry → Option Reader
  | .blank => some r
  | .header name => some { r with sectionName := some name, file := NativeFile.openSection r.file name }
  | .directive key value => r.sectionName.map fun sectionName =>
    { r with file := r.file.push ⟨sectionName, key, value, number⟩ }

theorem readHeader_ok {line name : Str} {number : Nat} :
    readHeader line number = .ok name ↔ denoteHeader line = some name := by
  unfold readHeader denoteHeader
  by_cases hend : line.getLast? ≠ some ']'
  · rw [if_pos hend, if_pos hend, throw_ne_ok]
    simp
  · rw [if_neg hend, if_neg hend]
    by_cases hname : (!isSectionName (trim line.tail.dropLast)) = true
    · simp only [if_pos hname, throw_ne_ok, reduceCtorEq]
    · simp only [if_neg hname, pure_eq_ok, Option.some.injEq]

theorem readDirective_ok {sectionName : Option Str} {line : Str} {number : Nat} {d : Directive} :
    readDirective sectionName line number = .ok d ↔ ∃ name key value, sectionName = some name ∧
      denoteDirective line = some (key, value) ∧ d = ⟨name, key, value, number⟩ := by
  unfold readDirective denoteDirective
  cases sectionName with
  | none => simp [throw_ne_ok]
  | some name =>
    cases splitOnce '=' line with
    | none => simp [throw_ne_ok]
    | some parts =>
      obtain ⟨key, value⟩ := parts
      by_cases hkey : (!isKey (trim key)) = true
      · simp only [if_pos hkey, throw_ne_ok, reduceCtorEq, false_and, and_false, exists_false]
      · simp only [if_neg hkey, pure_eq_ok, Option.some.injEq, Prod.mk.injEq]
        constructor
        · rintro rfl
          exact ⟨name, _, _, rfl, ⟨rfl, rfl⟩, rfl⟩
        · rintro ⟨_, _, _, rfl, ⟨rfl, rfl⟩, rfl⟩
          rfl

theorem readLogical_ok {r r' : Reader} {line : Str} {number : Nat} :
    r.readLogical line number = .ok r' ↔ ∃ e, denote line = some e ∧ e.enter r number = some r' := by
  unfold Reader.readLogical denote
  by_cases hblank : line = [] ∨ line.head? = some '#' ∨ line.head? = some ';'
  · rw [if_pos hblank, if_pos hblank, pure_eq_ok]
    simp [Entry.enter]
  · rw [if_neg hblank, if_neg hblank]
    by_cases hheader : line.head? = some '['
    · simp only [if_pos hheader, bind_eq_ok, readHeader_ok, pure_eq_ok, Option.map_eq_some_iff]
      constructor
      · rintro ⟨name, hname, rfl⟩
        exact ⟨.header name, ⟨name, hname, rfl⟩, rfl⟩
      · rintro ⟨_, ⟨name, hname, rfl⟩, h⟩
        cases h
        exact ⟨name, hname, rfl⟩
    · simp only [if_neg hheader, bind_eq_ok, readDirective_ok, pure_eq_ok, Option.map_eq_some_iff]
      constructor
      · rintro ⟨_, ⟨name, key, value, hname, hline, rfl⟩, rfl⟩
        exact ⟨.directive key value, ⟨(key, value), hline, rfl⟩, by rw [Entry.enter, hname]; rfl⟩
      · rintro ⟨_, ⟨⟨key, value⟩, hline, rfl⟩, h⟩
        obtain ⟨name, hname, rfl⟩ := Option.map_eq_some_iff.mp h
        exact ⟨_, ⟨name, key, value, hname, hline, rfl⟩, rfl⟩

theorem readPhysical_ok {r r' : Reader} {lineNumber : Nat} {physical : Str} :
    r.readPhysical lineNumber physical = .ok r' ↔
      if hasContinuation (Reader.stripReturn physical) then
        r' = { r with
          logical := r.logical ++ trimEnd isWhitespace (Reader.stripReturn physical).dropLast ++ [' ']
          logicalLine := if r.logical = [] then lineNumber else r.logicalLine }
      else ∃ e q, denote (trim (r.logical ++ Reader.stripReturn physical)) = some e ∧
        e.enter r (if r.logical = [] then lineNumber else r.logicalLine) = some q ∧
        r' = { q with
          logical := []
          logicalLine := if r.logical = [] then lineNumber else r.logicalLine } := by
  unfold Reader.readPhysical
  by_cases hcontinued : hasContinuation (Reader.stripReturn physical) = true
  · simp only [if_pos hcontinued, pure_eq_ok]
    exact eq_comm
  · simp only [if_neg hcontinued, bind_eq_ok, readLogical_ok, pure_eq_ok]
    constructor
    · rintro ⟨q, ⟨e, he, hq⟩, rfl⟩
      exact ⟨e, q, he, hq, rfl⟩
    · rintro ⟨e, q, he, hq, rfl⟩
      exact ⟨q, ⟨e, he, hq⟩, rfl⟩

theorem readLines_cons {r r' : Reader} {lineNumber : Nat} {physical : Str} {lines : List Str} :
    r.readLines lineNumber (physical :: lines) = .ok r' ↔
      ∃ q, r.readPhysical lineNumber physical = .ok q ∧ q.readLines (lineNumber + 1) lines = .ok r' :=
  bind_eq_ok

theorem readLines_append {r r' : Reader} {lineNumber : Nat} {lines more : List Str} :
    r.readLines lineNumber (lines ++ more) = .ok r' ↔
      ∃ q, r.readLines lineNumber lines = .ok q ∧
        q.readLines (lineNumber + lines.length) more = .ok r' := by
  induction lines generalizing r lineNumber with
  | nil =>
    simp only [List.nil_append, List.length_nil, Nat.add_zero]
    constructor
    · exact fun h => ⟨r, rfl, h⟩
    · rintro ⟨q, hq, h⟩
      cases hq
      exact h
  | cons physical lines ih =>
    simp only [List.cons_append, readLines_cons, ih, List.length_cons]
    constructor
    · rintro ⟨q, hq, p, hp, h⟩
      exact ⟨p, ⟨q, hq, hp⟩, by rwa [Nat.add_comm lines.length, ← Nat.add_assoc]⟩
    · rintro ⟨p, ⟨q, hq, hp⟩, h⟩
      exact ⟨q, hq, p, hp, by rwa [Nat.add_comm lines.length, ← Nat.add_assoc] at h⟩

def renumber (g : Nat → Nat) (file : NativeFile) : NativeFile :=
  ⟨file.sections.map (List.map fun d => { d with line := g d.line })⟩

/-- A file up to its line numbers. -/
def unnumbered (file : NativeFile) : NativeFile := renumber (fun _ => 0) file

theorem file_ext {f g : NativeFile} (h : ∀ k, f.sections.get k = g.sections.get k) : f = g := by
  cases f
  cases g
  rw [NativeFile.mk.injEq]
  exact eq_of_get h

theorem get_openSection_self (f : NativeFile) (name : Str) :
    (NativeFile.openSection f name).sections.get name = some ((f.sections.get name).getD []) :=
  get_insert_self ..

theorem get_openSection_of_ne (f : NativeFile) {name k : Str} (h : k ≠ name) :
    (NativeFile.openSection f name).sections.get k = f.sections.get k :=
  get_insert_of_ne _ h _

theorem get_push_self (f : NativeFile) (d : Directive) :
    (f.push d).sections.get d.sectionName = some ((f.sections.get d.sectionName).getD [] ++ [d]) :=
  get_insert_self ..

theorem get_push_of_ne (f : NativeFile) {d : Directive} {k : Str} (h : k ≠ d.sectionName) :
    (f.push d).sections.get k = f.sections.get k :=
  get_insert_of_ne _ h _

theorem get_renumber (g : Nat → Nat) (f : NativeFile) (k : Str) :
    (renumber g f).sections.get k =
      (f.sections.get k).map (List.map fun d => { d with line := g d.line }) :=
  get_map _

/-- Of a section that both files have, the directives of the second stand last. -/
theorem get_merge (base overlay : NativeFile) (k : Str) :
    (NativeFile.merge base overlay).sections.get k =
      ((overlay.sections.get k).map ((base.sections.get k).getD [] ++ ·)).or (base.sections.get k) :=
  get_extendWith ..

theorem merge_openSection (base f : NativeFile) (name : Str) :
    NativeFile.merge base (NativeFile.openSection f name) =
      NativeFile.openSection (NativeFile.merge base f) name := by
  apply file_ext
  intro k
  by_cases hk : k = name
  · subst hk
    rw [get_merge, get_openSection_self, get_openSection_self, get_merge]
    cases f.sections.get k <;> simp
  · rw [get_merge, get_openSection_of_ne f hk, get_openSection_of_ne _ hk, get_merge]

theorem merge_push (base f : NativeFile) (d : Directive) :
    NativeFile.merge base (f.push d) = (NativeFile.merge base f).push d := by
  apply file_ext
  intro k
  by_cases hk : k = d.sectionName
  · subst hk
    rw [get_merge, get_push_self, get_push_self, get_merge]
    cases f.sections.get d.sectionName <;> simp
  · rw [get_merge, get_push_of_ne f hk, get_push_of_ne _ hk, get_merge]

theorem renumber_openSection (g : Nat → Nat) (f : NativeFile) (name : Str) :
    renumber g (NativeFile.openSection f name) = NativeFile.openSection (renumber g f) name := by
  apply file_ext
  intro k
  by_cases hk : k = name
  · subst hk
    rw [get_renumber, get_openSection_self, get_openSection_self, get_renumber]
    cases f.sections.get k <;> simp
  · rw [get_renumber, get_openSection_of_ne f hk, get_openSection_of_ne _ hk, get_renumber]

theorem renumber_push (g : Nat → Nat) (f : NativeFile) (d : Directive) :
    renumber g (f.push d) = (renumber g f).push { d with line := g d.line } := by
  have hself := get_push_self (renumber g f) { d with line := g d.line }
  apply file_ext
  intro k
  by_cases hk : k = d.sectionName
  · subst hk
    rw [get_renumber, get_push_self, hself, get_renumber]
    cases f.sections.get d.sectionName <;> simp
  · have hother := @get_push_of_ne (renumber g f) { d with line := g d.line } k hk
    rw [get_renumber, get_push_of_ne f hk, hother, get_renumber]

theorem renumber_merge (g : Nat → Nat) (base f : NativeFile) :
    renumber g (NativeFile.merge base f) = NativeFile.merge (renumber g base) (renumber g f) := by
  apply file_ext
  intro k
  rw [get_renumber, get_merge, get_merge, get_renumber, get_renumber]
  cases base.sections.get k <;> cases f.sections.get k <;> simp

theorem unnumbered_renumber (g : Nat → Nat) (f : NativeFile) :
    unnumbered (renumber g f) = unnumbered f := by
  apply file_ext
  intro k
  rw [unnumbered, unnumbered, get_renumber, get_renumber, get_renumber, Option.map_map]
  apply congrArg (fun g => Option.map g _)
  funext ds
  rw [Function.comp, List.map_map]
  rfl

/-- Each section of a file is one of the schema, and so are its keys. -/
def Known (file : NativeFile) : Prop :=
  ∀ name directives, file.sections.get name = some directives →
    ∃ keys, allowed name = some keys ∧ ∀ d ∈ directives, d.key ∈ keys

theorem validateSection_ok {name : Str} {directives : List Directive} :
    validateSection (name, directives) = .ok () ↔
      ∃ keys, allowed name = some keys ∧ ∀ d ∈ directives, d.key ∈ keys := by
  unfold validateSection
  cases allowed name with
  | none => simp [throw_ne_ok]
  | some keys =>
    have hkey (d : Directive) : validateDirective name keys d = .ok () ↔ d.key ∈ keys := by
      rw [validateDirective]
      by_cases hd : d.key ∈ keys
      · rw [if_pos hd]
        exact iff_of_true rfl hd
      · rw [if_neg hd, throw_ne_ok]
        exact iff_of_false id hd
    simp only [forM_ok, hkey, Option.some.injEq, exists_eq_left']

theorem validateSchema_ok {file : NativeFile} : validateSchema file = .ok () ↔ Known file := by
  rw [validateSchema, forM_ok]
  constructor
  · intro h name directives hget
    exact validateSection_ok.mp (h _ (get_eq_some.mp hget))
  · rintro h ⟨name, directives⟩ he
    exact validateSection_ok.mpr (h name directives (get_eq_some.mpr he))

theorem known_merge {base overlay : NativeFile} :
    Known (NativeFile.merge base overlay) ↔ Known base ∧ Known overlay := by
  unfold Known
  simp only [get_merge]
  constructor
  · intro h
    constructor
    · intro name directives hbase
      cases hover : overlay.sections.get name with
      | none => exact h name directives (by simp [hbase, hover])
      | some more =>
        obtain ⟨keys, hkeys, hall⟩ := h name (directives ++ more) (by simp [hbase, hover])
        exact ⟨keys, hkeys, fun d hd => hall d (List.mem_append_left _ hd)⟩
    · intro name more hover
      obtain ⟨keys, hkeys, hall⟩ := h name ((base.sections.get name).getD [] ++ more) (by simp [hover])
      exact ⟨keys, hkeys, fun d hd => hall d (List.mem_append_right _ hd)⟩
  · rintro ⟨hbase, hover⟩ name directives hget
    cases hoverlay : overlay.sections.get name with
    | none => exact hbase name directives (by simpa [hoverlay] using hget)
    | some more =>
      obtain ⟨keys, hkeys, hmore⟩ := hover name more hoverlay
      obtain rfl : (base.sections.get name).getD [] ++ more = directives := by
        simpa [hoverlay] using hget
      refine ⟨keys, hkeys, fun d hd => (List.mem_append.mp hd).elim (fun hd => ?_) (hmore d)⟩
      cases hb : base.sections.get name with
      | none => simp [hb] at hd
      | some ds =>
        obtain ⟨keys', hkeys', hds⟩ := hbase name ds hb
        obtain rfl := Option.some_injective _ (hkeys'.symm.trans hkeys)
        exact hds d (by simpa [hb] using hd)

theorem known_renumber {g : Nat → Nat} {file : NativeFile} : Known (renumber g file) ↔ Known file := by
  unfold Known
  simp only [get_renumber, Option.map_eq_some_iff]
  constructor
  · intro h name directives hget
    obtain ⟨keys, hkeys, hall⟩ := h name _ ⟨directives, hget, rfl⟩
    exact ⟨keys, hkeys, fun d hd => hall { d with line := g d.line } (List.mem_map.mpr ⟨d, hd, rfl⟩)⟩
  · rintro h name _ ⟨directives, hget, rfl⟩
    obtain ⟨keys, hkeys, hall⟩ := h name directives hget
    refine ⟨keys, hkeys, fun d hd => ?_⟩
    obtain ⟨d', hd', rfl⟩ := List.mem_map.mp hd
    exact hall d' hd'

/-- One reader has read lines over which another reads a file of its own: it stands `n` lines
further, and its file is the other's over `base`. -/
structure Follows (base : NativeFile) (n : Nat) (r r' : Reader) : Prop where
  file : r'.file = NativeFile.merge base (renumber (· + n) r.file)
  logical : r'.logical = r.logical
  logicalLine : r.logical ≠ [] → r'.logicalLine = r.logicalLine + n
  sectionName : r.sectionName ≠ none → r'.sectionName = r.sectionName

section

variable {base : NativeFile} {n lineNumber : Nat} {r r' q q' : Reader} {physical : Str}

theorem Follows.number (h : Follows base n r r') :
    (if r'.logical = [] then lineNumber + n else r'.logicalLine) =
      (if r.logical = [] then lineNumber else r.logicalLine) + n := by
  rw [h.logical]
  by_cases hl : r.logical = []
  · rw [if_pos hl, if_pos hl]
  · rw [if_neg hl, if_neg hl, h.logicalLine hl]

theorem Follows.enter {e : Entry} {number : Nat} (h : Follows base n r r')
    (he : e.enter r number = some q) :
    ∃ q', e.enter r' (number + n) = some q' ∧
      q'.file = NativeFile.merge base (renumber (· + n) q.file) ∧
      (q.sectionName ≠ none → q'.sectionName = q.sectionName) := by
  cases e with
  | blank =>
    cases he
    exact ⟨r', rfl, h.file, h.sectionName⟩
  | header name =>
    cases he
    refine ⟨_, rfl, ?_, fun _ => rfl⟩
    change NativeFile.openSection r'.file name = _
    rw [renumber_openSection, merge_openSection, h.file]
  | directive key value =>
    obtain ⟨name, hname, rfl⟩ := Option.map_eq_some_iff.mp he
    have hsection := h.sectionName (by simp [hname])
    refine ⟨{ r' with file := r'.file.push ⟨name, key, value, number + n⟩ },
      by rw [Entry.enter, hsection, hname]; rfl, ?_, h.sectionName⟩
    change r'.file.push _ = _
    rw [renumber_push, merge_push, h.file]

theorem Follows.readPhysical (h : Follows base n r r') (hq : r.readPhysical lineNumber physical = .ok q) :
    ∃ q', r'.readPhysical (lineNumber + n) physical = .ok q' ∧ Follows base n q q' := by
  rw [readPhysical_ok] at hq
  simp only [readPhysical_ok]
  by_cases hcontinued : hasContinuation (Reader.stripReturn physical) = true
  · rw [if_pos hcontinued] at hq
    subst hq
    rw [h.number]
    simp only [if_pos hcontinued]
    refine ⟨_, rfl, h.file, ?_, fun _ => rfl, h.sectionName⟩
    rw [h.logical]
  · rw [if_neg hcontinued] at hq
    obtain ⟨e, p, he, hp, rfl⟩ := hq
    obtain ⟨p', hp', hfile, hsection⟩ := h.enter hp
    rw [← h.number] at hp'
    simp only [if_neg hcontinued]
    refine ⟨_, ⟨e, p', by rwa [h.logical], hp', rfl⟩, hfile, rfl, fun hne => absurd rfl hne, hsection⟩

theorem Follows.readLines {lines : List Str} (h : Follows base n r r')
    (hq : r.readLines lineNumber lines = .ok q) :
    ∃ q', r'.readLines (lineNumber + n) lines = .ok q' ∧ Follows base n q q' := by
  induction lines generalizing r r' lineNumber with
  | nil =>
    cases hq
    exact ⟨r', rfl, h⟩
  | cons physical lines ih =>
    obtain ⟨p, hp, hq⟩ := readLines_cons.mp hq
    obtain ⟨p', hp', hfollows⟩ := h.readPhysical hp
    obtain ⟨q', hq', hend⟩ := ih hfollows hq
    refine ⟨q', readLines_cons.mpr ⟨p', hp', ?_⟩, hend⟩
    rwa [Nat.add_right_comm]

theorem Entry.enter_section {e : Entry} {number : Nat} (he : e.enter r number = some q)
    (h : r.sectionName ≠ none) : q.sectionName ≠ none := by
  cases e with
  | blank =>
    cases he
    exact h
  | header name =>
    cases he
    exact Option.some_ne_none name
  | directive key value =>
    obtain ⟨name, -, rfl⟩ := Option.map_eq_some_iff.mp he
    exact h

theorem readPhysical_section (hq : r.readPhysical lineNumber physical = .ok q)
    (h : r.sectionName ≠ none) : q.sectionName ≠ none := by
  rw [readPhysical_ok] at hq
  by_cases hcontinued : hasContinuation (Reader.stripReturn physical) = true
  · rw [if_pos hcontinued] at hq
    rwa [hq]
  · rw [if_neg hcontinued] at hq
    obtain ⟨e, p, -, hp, rfl⟩ := hq
    exact @Entry.enter_section _ p _ _ hp h

theorem Follows.readPhysical_back (h : Follows base n r r') (hsection : r.sectionName ≠ none)
    (hq : r'.readPhysical (lineNumber + n) physical = .ok q') :
    ∃ q, r.readPhysical lineNumber physical = .ok q := by
  rw [readPhysical_ok] at hq
  simp only [readPhysical_ok]
  by_cases hcontinued : hasContinuation (Reader.stripReturn physical) = true
  · simp only [if_pos hcontinued]
    exact ⟨_, rfl⟩
  · rw [if_neg hcontinued, h.logical] at hq
    obtain ⟨e, p', he, -, -⟩ := hq
    simp only [if_neg hcontinued]
    cases e with
    | blank => exact ⟨_, _, _, he, rfl, rfl⟩
    | header name => exact ⟨_, _, _, he, rfl, rfl⟩
    | directive key value =>
      obtain ⟨name, hname⟩ := Option.ne_none_iff_exists'.mp hsection
      exact ⟨_, _, _, he, by rw [Entry.enter, hname]; rfl, rfl⟩

theorem Follows.readLines_back {lines : List Str} (h : Follows base n r r')
    (hsection : r.sectionName ≠ none) (hq : r'.readLines (lineNumber + n) lines = .ok q') :
    ∃ q, r.readLines lineNumber lines = .ok q := by
  induction lines generalizing r r' lineNumber with
  | nil => exact ⟨r, rfl⟩
  | cons physical lines ih =>
    obtain ⟨p', hp', hq⟩ := readLines_cons.mp hq
    obtain ⟨p, hp⟩ := h.readPhysical_back hsection hp'
    obtain ⟨p'', hp'', hfollows⟩ := h.readPhysical hp
    obtain rfl : p'' = p' := Except.ok.inj (hp''.symm.trans hp')
    rw [Nat.add_right_comm] at hq
    obtain ⟨q, hq⟩ := ih hfollows (readPhysical_section hp hsection) hq
    exact ⟨q, readLines_cons.mpr ⟨p, hp, hq⟩⟩

end

/-- A line that begins a section, all of it. -/
def IsHeader (line : Str) : Prop :=
  hasContinuation (Reader.stripReturn line) = false ∧
    (trim (Reader.stripReturn line)).head? = some '['

def Ended (line : Str) : Prop := hasContinuation (Reader.stripReturn line) = false

theorem denote_header {line : Str} {e : Entry} (h : line.head? = some '[') (he : denote line = some e) :
    ∃ name, e = .header name := by
  rw [denote, if_neg (by cases line <;> simp_all), if_pos h] at he
  obtain ⟨name, -, rfl⟩ := Option.map_eq_some_iff.mp he
  exact ⟨name, rfl⟩

theorem readPhysical_header {r r' q' : Reader} {lineNumber number : Nat} {physical : Str}
    (hheader : IsHeader physical) (hl : r.logical = []) (hl' : r'.logical = [])
    (hq : r'.readPhysical number physical = .ok q') :
    ∃ q, r.readPhysical lineNumber physical = .ok q ∧ q.sectionName ≠ none := by
  obtain ⟨hended, hhead⟩ := hheader
  have hcontinued : ¬ hasContinuation (Reader.stripReturn physical) = true := by simp [hended]
  rw [readPhysical_ok, if_neg hcontinued, hl'] at hq
  obtain ⟨e, p', he, -, -⟩ := hq
  obtain ⟨name, rfl⟩ := denote_header hhead he
  simp only [readPhysical_ok, if_neg hcontinued, hl]
  exact ⟨_, ⟨_, _, he, rfl, rfl⟩, Option.some_ne_none name⟩

theorem readPhysical_ended {r q : Reader} {lineNumber : Nat} {physical : Str} (h : Ended physical)
    (hq : r.readPhysical lineNumber physical = .ok q) : q.logical = [] := by
  rw [readPhysical_ok, if_neg (by rw [h]; exact Bool.false_ne_true)] at hq
  obtain ⟨e, p, -, -, rfl⟩ := hq
  rfl

theorem readLines_ended {r q : Reader} {lineNumber : Nat} {lines : List Str} (hl : r.logical = [])
    (h : ∀ line ∈ lines.getLast?, Ended line) (hq : r.readLines lineNumber lines = .ok q) :
    q.logical = [] := by
  obtain rfl | ⟨init, last, rfl⟩ := List.eq_nil_or_concat' lines
  · cases hq
    exact hl
  · obtain ⟨p, -, hp⟩ := readLines_append.mp hq
    obtain ⟨q', hq', hend⟩ := readLines_cons.mp hp
    cases hend
    exact readPhysical_ended (h last (by simp)) hq'

theorem parse_ok {source : Str} {file : NativeFile} :
    NativeFile.parse source = .ok file ↔ ∃ r, Reader.readLines {} 1 (textLines source) = .ok r ∧
      r.logical = [] ∧ Known r.file ∧ r.file = file := by
  unfold NativeFile.parse
  simp only [bind_eq_ok]
  apply exists_congr
  intro r
  by_cases hl : r.logical = []
  · simp only [hl, ne_eq, not_true_eq_false, if_false, bind_eq_ok, pure_eq_ok, true_and]
    constructor
    · rintro ⟨h, _, hvalid, hfile⟩
      exact ⟨h, validateSchema_ok.mp hvalid, hfile⟩
    · rintro ⟨h, hknown, hfile⟩
      exact ⟨h, (), validateSchema_ok.mpr hknown, hfile⟩
  · simp only [ne_eq, hl, not_false_eq_true, if_true, throw_ne_ok, and_false, false_and]

theorem follows_start {r : Reader} (h : r.logical = []) (n : Nat) :
    Follows r.file n {} r :=
  ⟨rfl, h, fun hne => absurd rfl hne, fun hne => absurd rfl hne⟩

theorem unnumbered_merge (base file : NativeFile) (n : Nat) :
    unnumbered (NativeFile.merge base (renumber (· + n) file)) =
      unnumbered (NativeFile.merge base file) := by
  have hmerge (f : NativeFile) : unnumbered (NativeFile.merge base f) =
      NativeFile.merge (unnumbered base) (unnumbered f) := renumber_merge ..
  rw [hmerge, hmerge, unnumbered_renumber]

/-- A text that follows another is read as it is read alone, and its directives are added to
those of the other. A text that is cut where a section begins is read in its parts. -/
theorem parse_append {a b : Str} (hend : a.getLast? = some '\n') :
    (∀ first second, NativeFile.parse a = .ok first → NativeFile.parse b = .ok second →
      ∃ file, NativeFile.parse (a ++ b) = .ok file ∧
        unnumbered file = unnumbered (NativeFile.merge first second)) ∧
      ∀ file, NativeFile.parse (a ++ b) = .ok file →
        (∀ line ∈ (textLines a).getLast?, Ended line) →
        (∃ line ∈ (textLines b).head?, IsHeader line) →
        ∃ first second, NativeFile.parse a = .ok first ∧ NativeFile.parse b = .ok second ∧
          unnumbered file = unnumbered (NativeFile.merge first second) := by
  simp only [parse_ok, textLines_append hend, readLines_append]
  constructor
  · rintro _ _ ⟨r, hr, hl, hknown, rfl⟩ ⟨q, hq, hlq, hknownq, rfl⟩
    obtain ⟨q', hq', hfollows⟩ := (follows_start hl (textLines a).length).readLines hq
    refine ⟨q'.file, ⟨q', ⟨r, hr, hq'⟩, by rw [hfollows.logical, hlq], ?_, rfl⟩, ?_⟩
    · rw [hfollows.file, known_merge, known_renumber]
      exact ⟨hknown, hknownq⟩
    · rw [hfollows.file, unnumbered_merge]
  · rintro _ ⟨q', ⟨r, hr, hq'⟩, hlq', hknown, rfl⟩ hended ⟨line, hline, hheader⟩
    have hl : r.logical = [] := readLines_ended rfl hended hr
    have hstart := follows_start hl (textLines a).length
    obtain ⟨lines, hlines⟩ : ∃ lines, textLines b = line :: lines := by
      cases hb : textLines b with
      | nil => simp [hb] at hline
      | cons first lines => exact ⟨lines, by simpa [hb] using hline⟩
    rw [hlines] at hq' ⊢
    obtain ⟨p', hp', hq'⟩ := readLines_cons.mp hq'
    obtain ⟨p, hp, hsection⟩ := @readPhysical_header {} r p' 1 _ line hheader rfl hl hp'
    obtain ⟨p'', hp'', hfollows⟩ := hstart.readPhysical hp
    obtain rfl : p'' = p' := Except.ok.inj (hp''.symm.trans hp')
    rw [Nat.add_right_comm] at hq'
    obtain ⟨q, hq⟩ := hfollows.readLines_back hsection hq'
    obtain ⟨q'', hq'', hfollows⟩ := hfollows.readLines hq
    obtain rfl : q'' = q' := Except.ok.inj (hq''.symm.trans hq')
    rw [hfollows.file, known_merge, known_renumber] at hknown
    refine ⟨r.file, q.file, ⟨r, hr, hl, hknown.1, rfl⟩,
      ⟨q, readLines_cons.mpr ⟨p, hp, hq⟩, ?_, hknown.2, rfl⟩, ?_⟩
    · rw [← hfollows.logical, hlq']
    · rw [hfollows.file, unnumbered_merge]

def serviceFragment : Str := "# shell\n[service]\nexec=/bin/sh \\\n  -l\n".toList

def dependenciesFragment : Str := "[dependencies]\nafter=storage\n[service]\nuser=root\n".toList

theorem parse_append_dependencies : ∃ first second file,
    NativeFile.parse serviceFragment = .ok first ∧ NativeFile.parse dependenciesFragment = .ok second ∧
      NativeFile.parse (serviceFragment ++ dependenciesFragment) = .ok file ∧
      unnumbered file = unnumbered (NativeFile.merge first second) := by
  have hfirst : (NativeFile.parse serviceFragment).isOk = true := by decide +kernel
  have hsecond : (NativeFile.parse dependenciesFragment).isOk = true := by decide +kernel
  cases ha : NativeFile.parse serviceFragment with
  | error e => simp [ha, Except.isOk, Except.toBool] at hfirst
  | ok first =>
    cases hb : NativeFile.parse dependenciesFragment with
    | error e => simp [hb, Except.isOk, Except.toBool] at hsecond
    | ok second =>
      have hend : serviceFragment.getLast? = some '\n' := by decide
      obtain ⟨file, hfile, hmerge⟩ := (parse_append hend).1 first second ha hb
      exact ⟨first, second, file, rfl, rfl, hfile, hmerge⟩

end FractalD.Config.Fragments
