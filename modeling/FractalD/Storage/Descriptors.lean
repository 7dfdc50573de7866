import FractalD.Config.Conditions
import FractalD.Config.Fragments
import FractalD.Machine.Delimited
import FractalD.Machine.Scan
import FractalD.Storage.Services
import FractalD.Tmpfiles.Rules
import FractalD.Toolbox.MountOptions

namespace FractalD.Storage.Descriptors

open FractalD.Config.Conditions FractalD.Config.Fragments FractalD.Config.Native
open FractalD.Config.SyscallFilter
open FractalD.Config.Words FractalD.Machine.CString FractalD.Machine.OrderedMap
open FractalD.Core.Spec FractalD.Machine.Result FractalD.Machine.Scan FractalD.Machine.Text
open FractalD.Machine.Wire
open FractalD.Storage.Fstab (FstabEntry escapeByte escapeComponent isPlain)
open FractalD.Storage.Services
open FractalD.Toolbox.MountOptions hiding optionsOf canonicalFilesystemType

/-- What the manager keeps of a mount or a swap. -/
structure StorageSpec extends ServiceSpec where
  args : List Str
  mountFilesystem : Option Str := none

def required (file : NativeFile) (sectionName key : Str) : Except ConfigError Str :=
  match (NativeFile.value file sectionName key).filter fun value => trim value ≠ [] with
  | some value => .ok value
  | none => .error (.ofMessage ('[' :: sectionName ++ "] has no ".toList ++ key))

def listValues (file : NativeFile) (sectionName key : Str) : Except ConfigError (List Str) :=
  ((file.effectiveDirectives sectionName key).mapM fun directive =>
    splitWords directive.value directive.line).map List.flatten

def boolValue (file : NativeFile) (sectionName key : Str) : Except ConfigError (Option Bool) :=
  (NativeFile.value file sectionName key).mapM fun value => parseBool value key

def parseMode (value key : Str) : Except ConfigError Nat :=
  let value := (removePrefix "0o".toList (trim value)).getD (trim value)
  match (Tmpfiles.Rules.parseOctal value).filter (· ≤ 0o7777) with
  | some mode => .ok mode
  | none => .error (.ofMessage ("invalid ".toList ++ key ++ '=' :: value))

section

/- Durations are read with floating point numbers. -/
variable (parseDuration : Str → Str → Except ConfigError Duration)

def parseMount (file : NativeFile) (name : Str) : Except ConfigError StorageSpec := do
  let value := fun (key : String) => NativeFile.value file "mount".toList key.toList
  let what ← required file "mount".toList "what".toList
  let wherePath ← required file "mount".toList "where".toList
  if wherePath.head? ≠ some '/' then throw (.ofMessage "mount.where must be absolute".toList)
  let filesystem := (value "type").map canonicalFilesystemType
  let mode ← (value "directory_mode").mapM fun value => parseMode value "directory_mode".toList
  let lazy ← boolValue file "mount".toList "lazy".toList
  let force ← boolValue file "mount".toList "force".toList
  let timeout ← (value "timeout").mapM fun value => parseDuration value "timeout".toList
  pure {
    name
    program := "mount".toList
    args := (filesystem.elim [] fun value => ["-t".toList, value]) ++
      ((value "options").elim [] fun value => ["-o".toList, value]) ++ ["--".toList, what, wherePath]
    mainIgnoreFailure := (value "options").any fun value => "nofail".toList ∈ value.splitOn ','
    serviceType := .mount
    mountWhere := some wherePath
    mountFilesystem := filesystem
    remainAfterExit := true
    startPre := [⟨"mkdir".toList,
      ["-p".toList, "-m".toList, Nat.toDigits 8 (mode.getD 0o755), "--".toList, wherePath]⟩]
    stop := some ⟨"umount".toList, (if lazy.getD false then ["--lazy".toList] else []) ++
      (if force.getD false then ["--force".toList] else []) ++ ["--".toList, wherePath]⟩
    startTimeout := timeout.getD (seconds 30)
    stopTimeout := timeout.getD (seconds 5) }

def parseSwap (file : NativeFile) (name : Str) : Except ConfigError StorageSpec := do
  let value := fun (key : String) => NativeFile.value file "swap".toList key.toList
  let what ← required file "swap".toList "what".toList
  if let some priority := value "priority" then
    if (parseI32 priority).isNone then
      throw (.ofMessage ("invalid swap.priority=".toList ++ priority))
  let timeout ← (value "timeout").mapM fun value => parseDuration value "timeout".toList
  pure {
    name
    program := "swapon".toList
    args := ((value "priority").elim [] fun value => ["--priority".toList, value]) ++
      ((value "options").elim [] fun value => ["-o".toList, value]) ++ ["--".toList, what]
    mainIgnoreFailure := (value "options").any fun value => "nofail".toList ∈ value.splitOn ','
    serviceType := .swap
    remainAfterExit := true
    stop := some ⟨"swapoff".toList, ["--".toList, what]⟩
    startTimeout := timeout.getD (seconds 30)
    stopTimeout := timeout.getD (seconds 5) }

end

/-- A value that is read as it is written. -/
structure Written (value : Str) : Prop where
  first : ∀ c ∈ value.head?, isWhitespace c = false
  last : ∀ c ∈ value.getLast?, isWhitespace c = false
  line : '\n' ∉ value
  whole : hasContinuation value = false

/-- The section of a descriptor. -/
structure Section where
  name : Str
  directives : List (Str × Str)

def directiveText (d : Str × Str) : Str := d.1 ++ '=' :: d.2

def Section.lines (s : Section) : List Str :=
  ('[' :: s.name ++ [']']) :: s.directives.map directiveText

/-- The lines of a descriptor. A blank line is between any two sections. -/
def fileLines (first : Section) (others : List Section) : List Str :=
  first.lines ++ others.flatMap fun s => [] :: s.lines

def fileText (first : Section) (others : List Section) : Str :=
  (fileLines first others).flatMap (· ++ ['\n'])

/-- A section of the schema with values that are read as they are written. -/
structure Section.Clean (s : Section) : Prop where
  plain : isSectionName s.name = true ∧ lowercase s.name = s.name
  known : ∃ keys, allowed s.name = some keys ∧ ∀ d ∈ s.directives, d.1 ∈ keys
  keys : ∀ d ∈ s.directives, isKey d.1 = true ∧ lowercase d.1 = d.1
  values : ∀ d ∈ s.directives, Written d.2

/-- What the directives of a file give to a key. -/
def valuesOf (file : NativeFile) (sectionName key : Str) : List Str :=
  (file.directives sectionName key).map (·.value)

def Section.valuesOf (sectionName key : Str) (s : Section) : List Str :=
  if s.name = lowercase sectionName then (s.directives.filter (·.1 = lowercase key)).map (·.2) else []

/-- A file has in addition what is in sections. -/
structure Adds (f g : NativeFile) (sections : List Section) : Prop where
  known : Known f → Known g
  values : ∀ sectionName key, valuesOf g sectionName key =
    valuesOf f sectionName key ++ sections.flatMap (Section.valuesOf sectionName key)

section

variable {f g k : NativeFile} {s : Section} {sections more : List Section} {r q : Reader} {d : Str × Str}
  {name key value : Str} {n : Nat} {c : Char}

theorem directives_push_eq (file : NativeFile) (directive : Directive) (sectionName key : Str) :
    (file.push directive).directives sectionName key = file.directives sectionName key ++
      if directive.sectionName = lowercase sectionName ∧ directive.key = lowercase key then [directive]
      else [] := by
  by_cases hs : lowercase sectionName = directive.sectionName
  · by_cases hk : lowercase key = directive.key
    · rw [directives_push hs hk, if_pos ⟨hs.symm, hk.symm⟩]
    · rw [if_neg fun h => hk h.2.symm, NativeFile.directives, NativeFile.directives, hs,
        get_push_self, Option.getD_some, List.filter_append]
      simp [Ne.symm hk]
  · rw [if_neg fun h => hs h.1.symm, NativeFile.directives, NativeFile.directives,
      get_push_of_ne _ hs, List.append_nil]

theorem valuesOf_openSection (file : NativeFile) (sectionName key : Str) :
    valuesOf (NativeFile.openSection file name) sectionName key = valuesOf file sectionName key := by
  unfold valuesOf NativeFile.directives
  by_cases hs : lowercase sectionName = name
  · rw [hs, get_openSection_self]
    rfl
  · rw [get_openSection_of_ne file hs]

theorem known_openSection {keys : List Str} (h : allowed name = some keys) (hf : Known f) :
    Known (NativeFile.openSection f name) := by
  intro sectionName directives hget
  by_cases hs : sectionName = name
  · subst hs
    rw [get_openSection_self] at hget
    obtain rfl := Option.some.inj hget
    cases hold : f.sections.get sectionName with
    | none => exact ⟨keys, h, fun d hd => absurd hd List.not_mem_nil⟩
    | some directives => exact hf sectionName directives hold
  · rw [get_openSection_of_ne f hs] at hget
    exact hf sectionName directives hget

theorem known_push {keys : List Str} {directive : Directive}
    (h : allowed directive.sectionName = some keys) (hkey : directive.key ∈ keys) (hf : Known f) :
    Known (f.push directive) := by
  intro sectionName directives hget
  by_cases hs : sectionName = directive.sectionName
  · subst hs
    rw [get_push_self] at hget
    obtain rfl := Option.some.inj hget
    refine ⟨keys, h, fun d hd => ?_⟩
    obtain hd | hd := List.mem_append.mp hd
    · cases hold : f.sections.get directive.sectionName with
      | none => simp [hold] at hd
      | some directives =>
        obtain ⟨keys', hkeys', hall⟩ := hf directive.sectionName directives hold
        obtain rfl := Option.some.inj (hkeys'.symm.trans h)
        exact hall d (by simpa [hold] using hd)
    · rwa [List.mem_singleton.mp hd]
  · rw [get_push_of_ne f hs] at hget
    exact hf sectionName directives hget

theorem Adds.refl (f : NativeFile) : Adds f f [] := ⟨id, fun _ _ => (List.append_nil _).symm⟩

theorem Adds.trans (h : Adds f g sections) (hk : Adds g k more) : Adds f k (sections ++ more) := by
  refine ⟨hk.known ∘ h.known, fun sectionName key => ?_⟩
  rw [hk.values, h.values, List.flatMap_append, List.append_assoc]

theorem adds_openSection {keys : List Str} (h : allowed name = some keys) (f : NativeFile) :
    Adds f (NativeFile.openSection f name) [] :=
  ⟨known_openSection h, fun _ _ => (valuesOf_openSection f _ _).trans (List.append_nil _).symm⟩

theorem adds_push {keys : List Str} (h : allowed name = some keys) (hkey : d.1 ∈ keys) (n : Nat)
    (f : NativeFile) : Adds f (f.push ⟨name, d.1, d.2, n⟩) [⟨name, [d]⟩] := by
  refine ⟨known_push h hkey, fun sectionName key => ?_⟩
  rw [valuesOf, directives_push_eq, List.map_append, List.flatMap_singleton, Section.valuesOf]
  apply congrArg
  by_cases hs : name = lowercase sectionName
  · by_cases hk : d.1 = lowercase key
    · simp [hs, hk]
    · simp [hs, hk]
  · simp [hs]

/-- Directives of one section that follow each other are one section's. -/
theorem Adds.join {ds : List (Str × Str)} (h : Adds f g (⟨name, [d]⟩ :: [⟨name, ds⟩])) :
    Adds f g [⟨name, d :: ds⟩] := by
  refine ⟨h.known, fun sectionName key => ?_⟩
  rw [h.values]
  apply congrArg
  simp only [List.flatMap_cons, List.flatMap_nil, List.append_nil, Section.valuesOf]
  by_cases hs : name = lowercase sectionName
  · rw [if_pos hs, if_pos hs, if_pos hs, ← List.map_append, ← List.filter_append]
    rfl
  · rw [if_neg hs, if_neg hs, if_neg hs, List.nil_append]

theorem takeWhile_stop {p : Char → Bool} (hc : p c = false) (a b : Str) :
    (a ++ c :: b).takeWhile p = a.takeWhile p := by
  induction a with
  | nil => exact List.takeWhile_cons_of_neg (by simp [hc])
  | cons x a ih =>
    cases hx : p x with
    | false => rw [List.cons_append, List.takeWhile_cons_of_neg (by simp [hx]),
        List.takeWhile_cons_of_neg (by simp [hx])]
    | true => rw [List.cons_append, List.takeWhile_cons_of_pos hx, List.takeWhile_cons_of_pos hx, ih]

theorem continuation_append (hc : c ≠ '\\') (start value : Str) :
    hasContinuation (start ++ c :: value) = hasContinuation value := by
  unfold hasContinuation
  rw [List.reverse_append, List.reverse_cons, List.append_assoc, List.singleton_append,
    takeWhile_stop (decide_eq_false hc)]

theorem stripReturn_self {line : Str} (h : ∀ c ∈ line.getLast?, isWhitespace c = false) :
    Reader.stripReturn line = line := by
  have hnone : removeSuffix ['\r'] line = none := by
    rw [removeSuffix_none]
    rintro ⟨start, rfl⟩
    exact absurd (h '\r' List.getLast?_concat) (by decide)
  rw [Reader.stripReturn, hnone]
  rfl

theorem readPhysical_line {line : Str} {e : Entry} (hlogical : r.logical = [])
    (hfirst : ∀ c ∈ line.head?, isWhitespace c = false)
    (hlast : ∀ c ∈ line.getLast?, isWhitespace c = false) (hwhole : hasContinuation line = false)
    (hdenote : denote line = some e) (henter : e.enter r n = some q) :
    r.readPhysical n line = .ok { q with logical := [], logicalLine := n } := by
  rw [readPhysical_ok, stripReturn_self hlast, if_neg (by simp [hwhole]), hlogical, if_pos rfl,
    List.nil_append, trim_self hfirst hlast]
  exact ⟨e, q, hdenote, henter, rfl⟩

theorem directive_last (h : Written value) :
    ∀ c ∈ (key ++ '=' :: value).getLast?, isWhitespace c = false := by
  intro c hc
  by_cases hvalue : value = []
  · rw [hvalue, List.getLast?_concat] at hc
    obtain rfl := Option.some.inj hc
    decide
  · rw [List.append_cons, List.getLast?_append_of_ne_nil _ hvalue] at hc
    exact h.last c hc

theorem key_chars (h : isKey key = true) :
    key ≠ [] ∧ ∀ c ∈ key, (c.isAlphanum || c = '_' || c = '-') = true := by
  rw [isKey, Bool.and_eq_true, decide_eq_true_eq, List.all_eq_true] at h
  exact h

theorem directive_first (h : isKey key = true) (value : Str) :
    ∃ c, (key ++ '=' :: value).head? = some c ∧ (c.isAlphanum || c = '_' || c = '-') = true := by
  obtain ⟨hne, hchars⟩ := key_chars h
  cases key with
  | nil => exact absurd rfl hne
  | cons c key => exact ⟨c, rfl, hchars c List.mem_cons_self⟩

theorem denote_directive (hkey : isKey key = true) (hlower : lowercase key = key)
    (h : Written value) : denote (key ++ '=' :: value) = some (.directive key value) := by
  obtain ⟨hne, hchars⟩ := key_chars hkey
  obtain ⟨c, hhead, hc⟩ := directive_first hkey value
  have hmark : c ≠ '#' ∧ c ≠ ';' ∧ c ≠ '[' := by
    refine ⟨?_, ?_, ?_⟩ <;> rintro rfl <;> exact absurd hc (by decide)
  have hequals : '=' ∉ key := fun hmem => absurd (hchars '=' hmem) (by decide)
  have htrim : trim key = key := trim_self
    (fun c hc => keyChar_solid (hchars c (List.mem_of_head? hc)))
    (fun c hc => keyChar_solid (hchars c (List.mem_of_getLast? hc)))
  unfold denote denoteDirective
  rw [hhead, splitOnce_append hequals, if_neg (by simp [hmark.1, hmark.2.1]), if_neg (by simp [hmark.2.2])]
  simp only [htrim, hkey, hlower, trim_self h.first h.last]
  rfl

theorem readPhysical_directive {keys : List Str} (hlogical : r.logical = [])
    (hsection : r.sectionName = some name) (hallowed : allowed name = some keys) (hknown : d.1 ∈ keys)
    (hkey : isKey d.1 = true) (hlower : lowercase d.1 = d.1) (hvalue : Written d.2) :
    ∃ q, r.readPhysical n (directiveText d) = .ok q ∧ q.logical = [] ∧ q.sectionName = some name ∧
      Adds r.file q.file [⟨name, [d]⟩] := by
  obtain ⟨c, hhead, hc⟩ := directive_first hkey d.2
  have henter : (Entry.directive d.1 d.2).enter r n =
      some { r with file := r.file.push ⟨name, d.1, d.2, n⟩ } := by
    rw [Entry.enter, hsection]
    rfl
  have hfirst : ∀ a ∈ (directiveText d).head?, isWhitespace a = false := by
    intro a ha
    obtain rfl : c = a := Option.some.inj (hhead.symm.trans ha)
    exact keyChar_solid hc
  have hwhole : hasContinuation (directiveText d) = false := by
    rw [directiveText, continuation_append (by decide), hvalue.whole]
  exact ⟨_, readPhysical_line hlogical hfirst (directive_last hvalue) hwhole
    (denote_directive hkey hlower hvalue) henter, rfl, hsection, adds_push hallowed hknown n r.file⟩

theorem readLines_directives {keys : List Str} {ds : List (Str × Str)} (hlogical : r.logical = [])
    (hsection : r.sectionName = some name) (hallowed : allowed name = some keys)
    (hknown : ∀ d ∈ ds, d.1 ∈ keys) (hkeys : ∀ d ∈ ds, isKey d.1 = true ∧ lowercase d.1 = d.1)
    (hvalues : ∀ d ∈ ds, Written d.2) :
    ∃ q, r.readLines n (ds.map directiveText) = .ok q ∧ q.logical = [] ∧
      Adds r.file q.file [⟨name, ds⟩] := by
  induction ds generalizing r n with
  | nil => exact ⟨r, rfl, hlogical, id, fun sectionName key => by simp [Section.valuesOf]⟩
  | cons d ds ih =>
    obtain ⟨hd, hknown⟩ := List.forall_mem_cons.mp hknown
    obtain ⟨⟨hkey, hlower⟩, hkeys⟩ := List.forall_mem_cons.mp hkeys
    obtain ⟨hvalue, hvalues⟩ := List.forall_mem_cons.mp hvalues
    obtain ⟨p, hp, hplogical, hpsection, hadds⟩ :=
      readPhysical_directive (n := n) hlogical hsection hallowed hd hkey hlower hvalue
    obtain ⟨q, hq, hqlogical, hmore⟩ := ih (n := n + 1) hplogical hpsection hknown hkeys hvalues
    exact ⟨q, readLines_cons.mpr ⟨p, hp, hq⟩, hqlogical, (hadds.trans hmore).join⟩

theorem readPhysical_header (hlogical : r.logical = []) (hs : s.Clean) :
    ∃ q, r.readPhysical n ('[' :: s.name ++ [']']) = .ok q ∧ q.logical = [] ∧
      q.sectionName = some s.name ∧ Adds r.file q.file [] := by
  obtain ⟨keys, hkeys, -⟩ := hs.known
  obtain ⟨hname, hlower⟩ := hs.plain
  have hend : ('[' :: s.name ++ [']']).getLast? = some ']' := List.getLast?_concat
  have htrim : trim s.name = s.name := by
    rw [isSectionName, Bool.and_eq_true, Bool.and_eq_true, List.all_eq_true] at hname
    have hsolid : ∀ c ∈ s.name, isWhitespace c = false := by
      intro c hc
      apply keyChar_solid
      have := hname.2 c hc
      simp only [Bool.or_eq_true] at this ⊢
      exact .inl this
    exact trim_self (fun c hc => hsolid c (List.mem_of_head? hc))
      (fun c hc => hsolid c (List.mem_of_getLast? hc))
  have hdenote : denote ('[' :: s.name ++ [']']) = some (.header s.name) := by
    have hinner : ('[' :: s.name ++ [']']).tail.dropLast = s.name := List.dropLast_concat
    have hfirst : ('[' :: s.name ++ [']']).head? = some '[' := rfl
    rw [denote, hfirst, if_neg (by simp), if_pos rfl, denoteHeader, if_neg (not_not_intro hend), hinner, htrim,
      hname, hlower]
    rfl
  have hwhole : hasContinuation ('[' :: s.name ++ [']']) = false := by
    rw [continuation_append (by decide)]
    rfl
  refine ⟨_, readPhysical_line hlogical ?_ ?_ hwhole hdenote rfl, rfl, rfl,
    adds_openSection hkeys r.file⟩
  · intro c hc
    obtain rfl := Option.some.inj hc
    decide
  · intro c hc
    rw [hend] at hc
    obtain rfl := Option.some.inj hc
    decide

theorem readLines_section (hlogical : r.logical = []) (hs : s.Clean) :
    ∃ q, r.readLines n s.lines = .ok q ∧ q.logical = [] ∧ Adds r.file q.file [s] := by
  obtain ⟨keys, hkeys, hknown⟩ := hs.known
  obtain ⟨p, hp, hplogical, hpsection, hadds⟩ := readPhysical_header (n := n) hlogical hs
  obtain ⟨q, hq, hqlogical, hmore⟩ :=
    readLines_directives (n := n + 1) hplogical hpsection hkeys hknown hs.keys hs.values
  exact ⟨q, readLines_cons.mpr ⟨p, hp, hq⟩, hqlogical, hadds.trans hmore⟩

theorem readLines_sections {others : List Section} (hlogical : r.logical = [])
    (h : ∀ s ∈ others, s.Clean) :
    ∃ q, r.readLines n (others.flatMap fun s => [] :: s.lines) = .ok q ∧ q.logical = [] ∧
      Adds r.file q.file others := by
  induction others generalizing r n with
  | nil => exact ⟨r, rfl, hlogical, Adds.refl _⟩
  | cons s others ih =>
    obtain ⟨hs, hothers⟩ := List.forall_mem_cons.mp h
    have hblank : r.readPhysical n [] = .ok { r with logical := [], logicalLine := n } :=
      readPhysical_line (e := .blank) hlogical (by simp) (by simp) rfl rfl rfl
    obtain ⟨p, hp, hplogical, hadds⟩ :=
      readLines_section (r := { r with logical := [], logicalLine := n }) (n := n + 1) rfl hs
    obtain ⟨q, hq, hqlogical, hmore⟩ := ih (n := n + 1 + s.lines.length) hplogical hothers
    exact ⟨q, readLines_cons.mpr ⟨_, hblank, readLines_append.mpr ⟨p, hp, hq⟩⟩, hqlogical,
      hadds.trans hmore⟩

theorem section_oneLine (hs : s.Clean) : ∀ line ∈ s.lines, OneLine line := by
  intro line hline
  obtain rfl | hline := List.mem_cons.mp hline
  · obtain ⟨hname, -⟩ := hs.plain
    rw [isSectionName, Bool.and_eq_true, Bool.and_eq_true, List.all_eq_true] at hname
    refine ⟨?_, ?_⟩
    · intro hmem
      simp only [List.cons_append, List.mem_cons, List.mem_append, List.not_mem_nil, or_false] at hmem
      obtain h | h | h := hmem
      · exact absurd h (by decide)
      · exact absurd (hname.2 '\n' h) (by decide)
      · exact absurd h (by decide)
    · rw [List.getLast?_concat]
      decide
  · obtain ⟨d, hd, rfl⟩ := List.mem_map.mp hline
    obtain ⟨-, hchars⟩ := key_chars (hs.keys d hd).1
    have hvalue := hs.values d hd
    refine ⟨?_, ?_⟩
    · intro hmem
      obtain h | h := List.mem_append.mp hmem
      · exact absurd (hchars '\n' h) (by decide)
      · obtain h | h := List.mem_cons.mp h
        · exact absurd h (by decide)
        · exact hvalue.line h
    · intro hlast
      exact absurd (directive_last hvalue '\r' hlast) (by decide)

theorem parse_fileText {first : Section} {others : List Section} (hfirst : first.Clean)
    (hothers : ∀ s ∈ others, s.Clean) :
    ∃ file, NativeFile.parse (fileText first others) = .ok file ∧
      ∀ sectionName key, valuesOf file sectionName key =
        (first :: others).flatMap (Section.valuesOf sectionName key) := by
  have hlines : textLines (fileText first others) = fileLines first others := by
    refine textLines_ended_iff.mpr fun line hline => ?_
    obtain hline | hline := List.mem_append.mp hline
    · exact section_oneLine hfirst line hline
    · obtain ⟨s, hs, hline⟩ := List.mem_flatMap.mp hline
      obtain rfl | hline := List.mem_cons.mp hline
      · exact ⟨List.not_mem_nil, by simp⟩
      · exact section_oneLine (hothers s hs) line hline
  obtain ⟨p, hp, hplogical, hadds⟩ := readLines_section (r := {}) (n := 1) rfl hfirst
  obtain ⟨q, hq, hqlogical, hmore⟩ := readLines_sections (n := 1 + first.lines.length) hplogical hothers
  have hall := hadds.trans hmore
  have hknown : Known q.file := hall.known fun name directives hget => absurd hget (by simp [get_empty])
  refine ⟨q.file, ?_, fun sectionName key => by rw [hall.values]; rfl⟩
  rw [NativeFile.parse, hlines]
  refine bind_eq_ok.mpr ⟨q, readLines_append.mpr ⟨p, hp, hq⟩, ?_⟩
  rw [if_neg (not_not_intro hqlogical)]
  exact bind_eq_ok.mpr ⟨(), validateSchema_ok.mpr hknown, rfl⟩

end

def wordsDirective (key : String) (words : List Str) : List (Str × Str) :=
  if words = [] then [] else [(key.toList, join [' '] words)]

def givenDirective (key : String) (value : Option Str) : List (Str × Str) :=
  value.elim [] fun value => [(key.toList, value)]

def serviceSection (kind : String) : Section :=
  ⟨"service".toList,
    [("kind".toList, kind.toList), ("remain_after_exit".toList, "true".toList)]⟩

def dependencyDirectives (d : Dependencies) : List (Str × Str) :=
  wordsDirective "requires" d.requires ++ wordsDirective "wants" d.wants ++
    wordsDirective "after" d.after ++ wordsDirective "before" d.before

def dependencySection (d : Dependencies) : Section := ⟨"dependencies".toList, dependencyDirectives d⟩

def typeOf (entry : FstabEntry) : Option Str :=
  let fstype := canonicalFilesystemType entry.fstype
  if lowercase fstype = "auto".toList then none else some fstype

def optionsOf (entry : FstabEntry) : Option Str :=
  if entry.mountOptions = [] then none else some (join [','] entry.mountOptions)

def timeoutOf (entry : FstabEntry) : Option Str :=
  (entry.optionValue "x-fractald.mount-timeout".toList).orElse fun _ =>
    entry.optionValue "x-fractald.device-timeout".toList

def conditionSection (entry : FstabEntry) : Section :=
  ⟨"conditions".toList, [("mount_point".toList, '!' :: entry.target)]⟩

def mountDirectives (entry : FstabEntry) : List (Str × Str) :=
  [("what".toList, entry.source)] ++ [("where".toList, entry.target)] ++
    givenDirective "type" (typeOf entry) ++ givenDirective "options" (optionsOf entry) ++
    givenDirective "timeout" (timeoutOf entry) ++ [("directory_mode".toList, "0755".toList)]

def mountSection (entry : FstabEntry) : Section := ⟨"mount".toList, mountDirectives entry⟩

def swapDirectives (entry : FstabEntry) : List (Str × Str) :=
  [("what".toList, entry.source)] ++ givenDirective "options" (optionsOf entry) ++
    givenDirective "priority" (entry.optionValue "pri".toList)

def swapSection (entry : FstabEntry) : Section := ⟨"swap".toList, swapDirectives entry⟩

section

variable {entry : FstabEntry} {activeTargets : List (List Machine.Paths.Component)}

def directivesText (ds : List (Str × Str)) : Str := ds.flatMap fun d => directiveText d ++ ['\n']

/-- The text of directives each of which is put on a new line. -/
def leadText (ds : List (Str × Str)) : Str := ds.flatMap fun d => '\n' :: directiveText d

def Section.text (s : Section) : Str := '[' :: s.name ++ ']' :: '\n' :: directivesText s.directives

theorem directivesText_append (ds es : List (Str × Str)) :
    directivesText (ds ++ es) = directivesText ds ++ directivesText es := List.flatMap_append

theorem leadText_ended (ds : List (Str × Str)) (rest : Str) :
    leadText ds ++ '\n' :: rest = '\n' :: (directivesText ds ++ rest) := by
  induction ds with
  | nil => rfl
  | cons d ds ih =>
    rw [leadText, directivesText, List.flatMap_cons, List.flatMap_cons, List.append_assoc]
    change ('\n' :: directiveText d) ++ (leadText ds ++ '\n' :: rest) = _
    rw [ih]
    simp [directivesText]

theorem section_text (s : Section) : s.lines.flatMap (· ++ ['\n']) = s.text := by
  simp [Section.lines, Section.text, directivesText, List.flatMap_map]

theorem fileText_eq (first : Section) (others : List Section) :
    fileText first others = first.text ++ others.flatMap fun s => '\n' :: s.text := by
  rw [fileText, fileLines, List.flatMap_append, section_text, List.flatMap_assoc]
  apply congrArg
  apply congrArg (List.flatMap · others)
  funext s
  rw [List.flatMap_cons, section_text]
  rfl

theorem pushWords_eq (key : String) (words : List Str) :
    pushWords key words = directivesText (wordsDirective key words) := by
  unfold pushWords wordsDirective
  by_cases h : words = []
  · rw [if_pos h, if_pos h]
    rfl
  · rw [if_neg h, if_neg h]
    simp [directivesText, directiveText]

theorem header_text (name : Str) (ds : List (Str × Str)) :
    (⟨name, ds⟩ : Section).text = ('[' :: name ++ "]\n".toList) ++ directivesText ds := by
  simp [Section.text]

theorem dependencySection_text (d : Dependencies) :
    (dependencySection d).text = "[dependencies]\n".toList ++ pushWords "requires" d.requires ++
      pushWords "wants" d.wants ++ pushWords "after" d.after ++ pushWords "before" d.before := by
  have hheader : "[dependencies]\n".toList = '[' :: "dependencies".toList ++ "]\n".toList := rfl
  refine (header_text _ _).trans ?_
  simp only [dependencyDirectives, pushWords_eq, directivesText_append, hheader, List.append_assoc]

theorem leadText_given (key : String) (value : Option Str) :
    leadText (givenDirective key value) =
      value.elim [] fun value => '\n' :: key.toList ++ '=' :: value := by
  cases value with
  | none => rfl
  | some value => exact List.flatMap_singleton ..

theorem mountSection_text : (mountSection entry).text = "[mount]\nwhat=".toList ++ entry.source ++
    "\nwhere=".toList ++ entry.target ++ leadText (givenDirective "type" (typeOf entry)) ++
    leadText (givenDirective "options" (optionsOf entry)) ++
    leadText (givenDirective "timeout" (timeoutOf entry)) ++ "\ndirectory_mode=0755\n".toList := by
  have hheader : "[mount]\nwhat=".toList = '[' :: "mount".toList ++ "]\nwhat=".toList := rfl
  have hmode : "\ndirectory_mode=0755\n".toList =
      '\n' :: directivesText [("directory_mode".toList, "0755".toList)] := rfl
  have hplaces : directivesText ([("what".toList, entry.source)] ++ [("where".toList, entry.target)]) =
      "what=".toList ++ entry.source ++ "\nwhere=".toList ++ entry.target ++ ['\n'] := by
    simp [directivesText, directiveText]
  rw [mountSection, header_text, mountDirectives, directivesText_append, directivesText_append,
    directivesText_append, directivesText_append, hplaces, hmode, hheader]
  simp only [List.append_assoc, leadText_ended]
  simp

theorem serviceSection_text (kind : String) : (serviceSection kind).text =
    "[service]\nkind=".toList ++ kind.toList ++ "\nremain_after_exit=true\n".toList := by
  unfold serviceSection
  rw [header_text]
  simp [directivesText, directiveText]

theorem conditionSection_text : (conditionSection entry).text =
    "[conditions]\nmount_point=!".toList ++ entry.target ++ ['\n'] := by
  unfold conditionSection
  rw [header_text]
  simp [directivesText, directiveText]

theorem type_text : (if lowercase (canonicalFilesystemType entry.fstype) = "auto".toList then []
    else "\ntype=".toList ++ canonicalFilesystemType entry.fstype) =
    leadText (givenDirective "type" (typeOf entry)) := by
  rw [leadText_given, typeOf]
  split <;> rfl

theorem options_text : (if entry.mountOptions = [] then []
    else "\noptions=".toList ++ join [','] entry.mountOptions) =
    leadText (givenDirective "options" (optionsOf entry)) := by
  rw [leadText_given, optionsOf]
  split <;> rfl

theorem mountService_eq : mountService entry activeTargets = fileText (serviceSection "mount")
    [dependencySection (mountDependencies entry activeTargets), conditionSection entry,
      mountSection entry] := by
  have htimeout : (entry.optionValue "x-fractald.mount-timeout".toList).orElse
      (fun _ => entry.optionValue "x-fractald.device-timeout".toList) = timeoutOf entry := rfl
  simp only [fileText_eq, List.flatMap_cons, List.flatMap_nil, List.append_nil, serviceSection_text,
    dependencySection_text, conditionSection_text, mountSection_text, leadText_given "timeout"]
  unfold mountService
  dsimp only
  rw [type_text, options_text, htimeout]
  cases timeoutOf entry <;> simp

theorem swapSection_text : (swapSection entry).text = "[swap]\nwhat=".toList ++ entry.source ++
    leadText (givenDirective "options" (optionsOf entry)) ++
    leadText (givenDirective "priority" (entry.optionValue "pri".toList)) ++ ['\n'] := by
  have hheader : "[swap]\nwhat=".toList = '[' :: "swap".toList ++ "]\nwhat=".toList := rfl
  have hplace : directivesText [("what".toList, entry.source)] =
      "what=".toList ++ entry.source ++ ['\n'] := by
    simp [directivesText, directiveText]
  rw [swapSection, header_text, swapDirectives, directivesText_append, directivesText_append, hplace,
    hheader]
  simp only [List.append_assoc, leadText_ended]
  simp

theorem swapService_eq : swapService entry = fileText (serviceSection "swap")
    [dependencySection (swapDependencies entry), swapSection entry] := by
  simp only [fileText_eq, List.flatMap_cons, List.flatMap_nil, List.append_nil, serviceSection_text,
    dependencySection_text, swapSection_text, leadText_given "priority"]
  unfold swapService
  dsimp only
  rw [options_text]
  cases entry.optionValue "pri".toList <;> simp [swapDependencies, pushWords]

end

/-- What directives give to a key. -/
def picked (key : Str) (ds : List (Str × Str)) : List Str := (ds.filter (·.1 = key)).map (·.2)

section

variable {file : NativeFile} {sectionName key : Str} {words reads : List Str} {value : Str}

theorem picked_append (ds es : List (Str × Str)) :
    picked key (ds ++ es) = picked key ds ++ picked key es := by
  rw [picked, List.filter_append, List.map_append]
  rfl

theorem picked_cons (d : Str × Str) (ds : List (Str × Str)) :
    picked key (d :: ds) = (if d.1 = key then [d.2] else []) ++ picked key ds := by
  by_cases h : d.1 = key <;> simp [picked, h]

theorem picked_given (k : String) (value : Option Str) :
    picked key (givenDirective k value) = if k.toList = key then value.toList else [] := by
  cases value with
  | none => exact (ite_self _).symm
  | some value =>
    rw [givenDirective, Option.elim_some, picked_cons]
    exact List.append_nil _

theorem picked_words (k : String) (words : List Str) :
    picked key (wordsDirective k words) =
      if k.toList = key ∧ words ≠ [] then [join [' '] words] else [] := by
  unfold wordsDirective
  by_cases hempty : words = []
  · simp [hempty, picked]
  · rw [if_neg hempty, picked_cons]
    by_cases hkey : k.toList = key <;> simp [hkey, hempty, picked]

theorem effectiveDirectives_full (h : ∀ v ∈ valuesOf file sectionName key, v ≠ []) :
    file.effectiveDirectives sectionName key = file.directives sectionName key := by
  have hne : ∀ d ∈ file.directives sectionName key, d.value ≠ [] := fun d hd =>
    h d.value (List.mem_map_of_mem hd)
  rw [NativeFile.effectiveDirectives]
  generalize file.directives sectionName key = ds at hne
  induction ds using List.reverseRecOn with
  | nil => rfl
  | append_singleton ds d ih =>
    have hd : d.value ≠ [] := hne d (by simp)
    rw [List.foldl_append, ih fun d hd => hne d (List.mem_append_left _ hd)]
    exact if_neg fun hempty => hd hempty.1

theorem value_last (h : ∀ v ∈ valuesOf file sectionName key, v ≠ []) :
    NativeFile.value file sectionName key = (valuesOf file sectionName key).getLast? := by
  rw [NativeFile.value, effectiveDirectives_full h]
  rw [valuesOf, List.getLast?_map]
  cases hlast : (file.directives sectionName key).getLast? with
  | none => rfl
  | some d =>
    have hd : d.value ≠ [] := h d.value (List.mem_map_of_mem (List.mem_of_getLast? hlast))
    exact if_neg hd

theorem value_given {given : Option Str} (hgiven : ∀ v ∈ given, v ≠ [])
    (h : valuesOf file sectionName key = given.toList) :
    NativeFile.value file sectionName key = given := by
  rw [value_last (by simpa [h] using hgiven), h]
  cases given <;> rfl

theorem effective_single (hvalue : value ≠ []) (h : valuesOf file sectionName key = [value]) :
    ∃ d, file.effectiveDirectives sectionName key = [d] ∧ d.value = value := by
  rw [effectiveDirectives_full (by simpa [h] using hvalue)]
  exact List.map_eq_singleton_iff.mp h

theorem effective_empty (h : valuesOf file sectionName key = []) :
    file.effectiveDirectives sectionName key = [] := by
  rw [effectiveDirectives_full (by simp [h])]
  exact List.map_eq_nil_iff.mp h

theorem listValues_words (hwords : SpellsAll words reads)
    (h : valuesOf file sectionName key = if words = [] then [] else [join [' '] words]) :
    listValues file sectionName key = .ok reads := by
  rw [listValues]
  cases hwords with
  | nil =>
    rw [effective_empty (by rw [h, if_pos rfl])]
    rfl
  | @cons word read words reads hword hwords =>
    have hjoin : join [' '] (word :: words) ≠ [] := by
      intro hnil
      have hhead := @head_join word words hword.1
      rw [hnil] at hhead
      exact hword.1 (List.head?_eq_none_iff.mp hhead.symm)
    obtain ⟨d, hd, hvalue⟩ := effective_single hjoin (by rw [h, if_neg (List.cons_ne_nil _ _)])
    rw [hd, List.mapM_cons, hvalue, splitWords_join (.cons hword hwords)]
    simp [bind, Except.bind, pure, Except.pure, Except.map]

end

/-- What the parser reads of the dependencies that a descriptor has. -/
structure ReadAs (d found : Dependencies) : Prop where
  requires : SpellsAll d.requires found.requires
  wants : SpellsAll d.wants found.wants
  after : SpellsAll d.after found.after
  before : SpellsAll d.before found.before

/-- The dependencies that a descriptor gives are some, and it gives no others that order. -/
structure HasDependencies (file : NativeFile) (found : Dependencies) : Prop where
  requires : listValues file "dependencies".toList "requires".toList = .ok found.requires
  wants : listValues file "dependencies".toList "wants".toList = .ok found.wants
  after : listValues file "dependencies".toList "after".toList = .ok found.after
  before : listValues file "dependencies".toList "before".toList = .ok found.before
  others : ∀ key ∈ ["binds_to", "requisite", "requires_mount", "wants_mount"],
    listValues file "dependencies".toList key.toList = .ok []

/-- What an entry has to be like for its descriptor to be read as it is written. -/
structure Plain (entry : FstabEntry) : Prop where
  source : entry.source ≠ [] ∧ Written entry.source
  options : ∀ o ∈ entry.mountOptions, o ≠ [] ∧ ',' ∉ o
  text : ∀ value ∈ optionsOf entry, Written value

/-- The same for what only mounts have. -/
structure PlainMount (entry : FstabEntry) : Prop where
  absolute : entry.target.head? = some '/'
  target : ∀ c ∈ entry.target, Literal c
  type : ∀ value ∈ typeOf entry, value ≠ [] ∧ Written value
  timeout : ∀ value ∈ timeoutOf entry, value ≠ [] ∧ Written value

section

variable {entry : FstabEntry} {activeTargets : List (List Machine.Paths.Component)}
  {d found : Dependencies}

theorem continuation_of_last {value : Str} (h : ∀ c ∈ value.getLast?, c ≠ '\\') :
    hasContinuation value = false := by
  have hnone : value.reverse.takeWhile (· = '\\') = [] := by
    cases hrev : value.reverse with
    | nil => rfl
    | cons c rest =>
      have hc : value.getLast? = some c := by rw [← List.head?_reverse, hrev, List.head?_cons]
      exact List.takeWhile_cons_of_neg (by simpa using h c hc)
  rw [hasContinuation, hnone]
  rfl

theorem written_literal {value : Str} (h : ∀ c ∈ value, Literal c) : Written value where
  first c hc := (h c (List.mem_of_head? hc)).1
  last c hc := (h c (List.mem_of_getLast? hc)).1
  line hmem := absurd (h '\n' hmem).1 (by decide)
  whole := continuation_of_last fun c hc => (h c (List.mem_of_getLast? hc)).2.1

theorem written_join {words reads : List Str} (h : SpellsAll words reads) :
    Written (join [' '] words) := by
  have hword : ∀ w ∈ words, w ≠ [] ∧ ∃ r, Spells w r := by
    intro w hw
    obtain ⟨r, -, hne, hr⟩ := exists_of_forall₂ h hw
    exact ⟨hne, r, hr⟩
  have hsolid : ∀ w ∈ words, Solid w ∧ w ≠ [] := by
    intro w hw
    obtain ⟨hne, r, hr⟩ := hword w hw
    exact ⟨hr.solid, hne⟩
  refine ⟨?_, getLast_join hsolid, ?_, continuation_of_last fun c hc => ?_⟩
  · cases words with
    | nil => simp [join]
    | cons word words =>
      rw [head_join (hsolid word List.mem_cons_self).2]
      exact fun c hc => (hsolid word List.mem_cons_self).1 c (List.mem_of_head? hc)
  · intro hmem
    obtain ⟨w, hw, hline⟩ := (Machine.Delimited.mem_join (by decide)).mp hmem
    exact absurd ((hsolid w hw).1 '\n' hline) (by decide)
  · by_cases hspace : c = ' '
    · rw [hspace]
      decide
    · obtain ⟨w, hw, hlast⟩ := (Machine.Delimited.getLast_join_iff hspace).mp hc
      obtain ⟨-, r, hr⟩ := hword w (List.mem_of_getLast? hw)
      exact hr.last c hlast

def usedKeys : List (String × List String) :=
  [("service", ["kind", "remain_after_exit"]),
    ("dependencies", ["requires", "wants", "after", "before"]),
    ("conditions", ["mount_point"]),
    ("mount", ["what", "where", "type", "options", "timeout", "directory_mode"]),
    ("swap", ["what", "options", "priority"])]

theorem usedKeys_known : ∀ used ∈ usedKeys,
    (isSectionName used.1.toList = true ∧ lowercase used.1.toList = used.1.toList) ∧
      ((allowed used.1.toList).any fun keys => used.2.all fun key => key.toList ∈ keys) = true ∧
      ∀ key ∈ used.2, isKey key.toList = true ∧ lowercase key.toList = key.toList := by
  decide +kernel

theorem clean_of_used {s : Section} (used : String × List String) (hused : used ∈ usedKeys)
    (hname : s.name = used.1.toList)
    (h : ∀ p ∈ s.directives, (∃ key ∈ used.2, p.1 = key.toList) ∧ Written p.2) : s.Clean := by
  obtain ⟨hplain, hknown, hkeys⟩ := usedKeys_known used hused
  refine ⟨hname ▸ hplain, ?_, fun p hp => ?_, fun p hp => (h p hp).2⟩
  · obtain ⟨keys, hallowed, hall⟩ := (Option.any_eq_true ..).mp hknown
    rw [List.all_eq_true] at hall
    refine ⟨keys, hname ▸ hallowed, fun p hp => ?_⟩
    obtain ⟨⟨key, hkey, heq⟩, -⟩ := h p hp
    rw [heq]
    exact of_decide_eq_true (hall key hkey)
  · obtain ⟨⟨key, hkey, heq⟩, -⟩ := h p hp
    rw [heq]
    exact hkeys key hkey

theorem mem_given {key : String} {value : Option Str} {p : Str × Str}
    (h : p ∈ givenDirective key value) : p.1 = key.toList ∧ p.2 ∈ value := by
  cases value with
  | none => exact absurd h List.not_mem_nil
  | some value =>
    obtain rfl := List.mem_singleton.mp h
    exact ⟨rfl, rfl⟩

theorem mem_words {key : String} {words : List Str} {p : Str × Str}
    (h : p ∈ wordsDirective key words) : p.1 = key.toList ∧ p.2 = join [' '] words := by
  unfold wordsDirective at h
  split_ifs at h
  · exact absurd h List.not_mem_nil
  · obtain rfl := List.mem_singleton.mp h
    exact ⟨rfl, rfl⟩

theorem serviceSection_clean {kind : String} (h : Written kind.toList) :
    (serviceSection kind).Clean := by
  apply clean_of_used ("service", ["kind", "remain_after_exit"]) (by simp [usedKeys]) rfl
  intro p hp
  obtain rfl | hp := List.mem_cons.mp hp
  · exact ⟨⟨"kind", by simp, rfl⟩, h⟩
  · obtain rfl := List.mem_singleton.mp hp
    exact ⟨⟨"remain_after_exit", by simp, rfl⟩, written_literal (forall_of_all (by decide))⟩

theorem dependencySection_clean (h : ReadAs d found) : (dependencySection d).Clean := by
  apply clean_of_used ("dependencies", ["requires", "wants", "after", "before"])
    (by simp [usedKeys]) rfl
  intro p hp
  have hwritten {words reads : List Str} (hwords : SpellsAll words reads) (key : String)
      (hp : p ∈ wordsDirective key words) : p.1 = key.toList ∧ Written p.2 := by
    obtain ⟨hkey, hvalue⟩ := mem_words hp
    exact ⟨hkey, hvalue ▸ written_join hwords⟩
  change p ∈ dependencyDirectives d at hp
  simp only [dependencyDirectives, List.mem_append] at hp
  obtain ((hp | hp) | hp) | hp := hp
  · obtain ⟨hkey, hvalue⟩ := hwritten h.requires "requires" hp
    exact ⟨⟨"requires", by simp, hkey⟩, hvalue⟩
  · obtain ⟨hkey, hvalue⟩ := hwritten h.wants "wants" hp
    exact ⟨⟨"wants", by simp, hkey⟩, hvalue⟩
  · obtain ⟨hkey, hvalue⟩ := hwritten h.after "after" hp
    exact ⟨⟨"after", by simp, hkey⟩, hvalue⟩
  · obtain ⟨hkey, hvalue⟩ := hwritten h.before "before" hp
    exact ⟨⟨"before", by simp, hkey⟩, hvalue⟩

theorem conditionSection_clean (h : Written entry.target) : (conditionSection entry).Clean := by
  apply clean_of_used ("conditions", ["mount_point"]) (by simp [usedKeys]) rfl
  intro p hp
  obtain rfl := List.mem_singleton.mp hp
  refine ⟨⟨"mount_point", by simp, rfl⟩, ?_, ?_, ?_, ?_⟩
  · intro c hc
    obtain rfl := Option.some.inj hc
    decide
  · intro c hc
    by_cases hempty : entry.target = []
    · rw [hempty] at hc
      obtain rfl := Option.some.inj hc
      decide
    · rw [List.getLast?_cons_of_ne_nil hempty] at hc
      exact h.last c hc
  · exact List.not_mem_cons_of_ne_of_not_mem (by decide) h.line
  · exact (continuation_append (by decide) [] entry.target).trans h.whole

theorem mountSection_clean (h : ∀ p ∈ mountDirectives entry, Written p.2) :
    (mountSection entry).Clean := by
  apply clean_of_used
    ("mount", ["what", "where", "type", "options", "timeout", "directory_mode"])
    (by simp [usedKeys]) rfl
  intro p hp
  refine ⟨?_, h p hp⟩
  change p ∈ mountDirectives entry at hp
  simp only [mountDirectives, List.mem_append, List.mem_singleton] at hp
  obtain ((((rfl | rfl) | hp) | hp) | hp) | rfl := hp
  · exact ⟨"what", by simp, rfl⟩
  · exact ⟨"where", by simp, rfl⟩
  · exact ⟨"type", by simp, (mem_given hp).1⟩
  · exact ⟨"options", by simp, (mem_given hp).1⟩
  · exact ⟨"timeout", by simp, (mem_given hp).1⟩
  · exact ⟨"directory_mode", by simp, rfl⟩

theorem swapSection_clean (h : ∀ p ∈ swapDirectives entry, Written p.2) :
    (swapSection entry).Clean := by
  apply clean_of_used ("swap", ["what", "options", "priority"]) (by simp [usedKeys]) rfl
  intro p hp
  refine ⟨?_, h p hp⟩
  change p ∈ swapDirectives entry at hp
  simp only [swapDirectives, List.mem_append, List.mem_singleton] at hp
  obtain (rfl | hp) | hp := hp
  · exact ⟨"what", by simp, rfl⟩
  · exact ⟨"options", by simp, (mem_given hp).1⟩
  · exact ⟨"priority", by simp, (mem_given hp).1⟩

theorem sections_absent {sections : List Section} {sectionName key : Str}
    (h : ∀ s ∈ sections, s.name ≠ lowercase sectionName) :
    sections.flatMap (Section.valuesOf sectionName key) = [] := by
  rw [List.flatMap_eq_nil_iff]
  exact fun s hs => if_neg (h s hs)

theorem sections_present {sections : List Section} {sectionName key : Str} {s : Section}
    (hs : s ∈ sections) (hnames : (sections.map Section.name).Nodup)
    (hname : s.name = lowercase sectionName) :
    sections.flatMap (Section.valuesOf sectionName key) = picked (lowercase key) s.directives := by
  induction sections with
  | nil => exact absurd hs List.not_mem_nil
  | cons first others ih =>
    obtain ⟨hfirst, hothers⟩ := List.nodup_cons.mp hnames
    rw [List.flatMap_cons]
    obtain rfl | hs := List.mem_cons.mp hs
    · rw [sections_absent fun t ht hsame => hfirst (List.mem_map.mpr ⟨t, ht, hsame.trans hname.symm⟩),
        List.append_nil, Section.valuesOf, if_pos hname, picked]
    · have hne : first.name ≠ lowercase sectionName := fun hsame =>
        hfirst (List.mem_map.mpr ⟨s, hs, hname.trans hsame.symm⟩)
      rw [Section.valuesOf, if_neg hne, ih hs hothers, List.nil_append]

variable {file : NativeFile} {sectionName key value : Str}

theorem required_given (hne : value ≠ []) (hwritten : Written value)
    (h : valuesOf file sectionName key = [value]) : required file sectionName key = .ok value := by
  have hvalue : NativeFile.value file sectionName key = some value :=
    value_given (by simpa using hne) h
  have htrim : trim value = value := trim_self hwritten.first hwritten.last
  have hfilter : (some value).filter (fun value => trim value ≠ []) = some value := by
    simp [Option.filter, htrim, hne]
  rw [required, hvalue, hfilter]

theorem boolValue_absent (h : valuesOf file sectionName key = []) :
    boolValue file sectionName key = .ok none := by
  have hvalue : NativeFile.value file sectionName key = none :=
    value_given (by simp) h
  rw [boolValue, hvalue]
  rfl

theorem picked_single (k value key : Str) :
    picked key [(k, value)] = if k = key then [value] else [] := by
  by_cases h : k = key <;> simp [picked, h]

theorem mount_picked (entry : FstabEntry) (key : Str) :
    picked key (mountDirectives entry) =
      (if "what".toList = key then [entry.source] else []) ++
        (if "where".toList = key then [entry.target] else []) ++
        (if "type".toList = key then (typeOf entry).toList else []) ++
        (if "options".toList = key then (optionsOf entry).toList else []) ++
        (if "timeout".toList = key then (timeoutOf entry).toList else []) ++
        if "directory_mode".toList = key then ["0755".toList] else [] := by
  simp only [mountDirectives, picked_append, picked_single, picked_given]

theorem dependency_picked (d : Dependencies) (key : Str) :
    picked key (dependencyDirectives d) =
      (if "requires".toList = key ∧ d.requires ≠ [] then [join [' '] d.requires] else []) ++
        (if "wants".toList = key ∧ d.wants ≠ [] then [join [' '] d.wants] else []) ++
        (if "after".toList = key ∧ d.after ≠ [] then [join [' '] d.after] else []) ++
        if "before".toList = key ∧ d.before ≠ [] then [join [' '] d.before] else [] := by
  simp only [dependencyDirectives, picked_append, picked_words]

/-- A descriptor is read and each of its sections gives what was written. -/
theorem parse_sections {first : Section} {others : List Section} (hfirst : first.Clean)
    (hothers : ∀ s ∈ others, s.Clean) (hnames : ((first :: others).map Section.name).Nodup) :
    ∃ file, NativeFile.parse (fileText first others) = .ok file ∧
      (∀ s ∈ first :: others, ∀ key, valuesOf file s.name key = picked (lowercase key) s.directives) ∧
      ∀ sectionName key, (∀ s ∈ first :: others, s.name ≠ lowercase sectionName) →
        valuesOf file sectionName key = [] := by
  obtain ⟨file, hparse, hvalues⟩ := parse_fileText hfirst hothers
  refine ⟨file, hparse, fun s hs key => ?_, fun sectionName key habsent => ?_⟩
  · have hclean : s.Clean := (List.mem_cons.mp hs).elim (fun h => h ▸ hfirst) (hothers s)
    rw [hvalues]
    exact sections_present hs hnames hclean.plain.2.symm
  · rw [hvalues]
    exact sections_absent habsent

theorem dependencies_read (hwords : ReadAs d found)
    (h : ∀ key, valuesOf file "dependencies".toList key =
      picked (lowercase key) (dependencyDirectives d)) : HasDependencies file found := by
  have hif (words : List Str) : (if words ≠ [] then [join [' '] words] else []) =
      if words = [] then [] else [join [' '] words] := ite_not ..
  refine ⟨?_, ?_, ?_, ?_, fun key hkey => ?_⟩
  · refine listValues_words hwords.requires ?_
    have hlower : lowercase "requires".toList = "requires".toList := by decide
    rw [h, hlower, dependency_picked, ← hif]
    simp
  · refine listValues_words hwords.wants ?_
    have hlower : lowercase "wants".toList = "wants".toList := by decide
    rw [h, hlower, dependency_picked, ← hif]
    simp
  · refine listValues_words hwords.after ?_
    have hlower : lowercase "after".toList = "after".toList := by decide
    rw [h, hlower, dependency_picked, ← hif]
    simp
  · refine listValues_words hwords.before ?_
    have hlower : lowercase "before".toList = "before".toList := by decide
    rw [h, hlower, dependency_picked, ← hif]
    simp
  · have hforeign : ∀ key ∈ ["binds_to", "requisite", "requires_mount", "wants_mount"],
        ∀ used ∈ ["requires", "wants", "after", "before"],
          used.toList ≠ lowercase key.toList := by decide
    have hused := hforeign key hkey
    simp only [List.forall_mem_cons] at hused
    refine listValues_words .nil ?_
    rw [h, dependency_picked, if_neg fun h => hused.1 h.1, if_neg fun h => hused.2.1 h.1,
      if_neg fun h => hused.2.2.1 h.1, if_neg fun h => hused.2.2.2.1 h.1]
    rfl

theorem mountService_parses (h : ∀ p ∈ mountDirectives entry, Written p.2)
    (hfound : ReadAs (mountDependencies entry activeTargets) found) :
    ∃ file, NativeFile.parse (mountService entry activeTargets) = .ok file ∧
      HasDependencies file found ∧
      (∀ s ∈ [serviceSection "mount", conditionSection entry, mountSection entry],
        ∀ key, valuesOf file s.name key = picked (lowercase key) s.directives) ∧
      ∀ key, valuesOf file "assertions".toList key = [] := by
  have htarget : Written entry.target := h ("where".toList, entry.target) (by simp [mountDirectives])
  have hservice : (serviceSection "mount").Clean :=
    serviceSection_clean (written_literal (forall_of_all (by decide)))
  have hothers : ∀ s ∈ [dependencySection (mountDependencies entry activeTargets),
      conditionSection entry, mountSection entry], s.Clean := by
    simp only [List.forall_mem_cons]
    exact ⟨dependencySection_clean hfound, conditionSection_clean htarget, mountSection_clean h, by simp⟩
  obtain ⟨file, hparse, hpresent, habsent⟩ := parse_sections hservice hothers
    (by change ["service".toList, "dependencies".toList, "conditions".toList, "mount".toList].Nodup; decide)
  have hnames : ∀ name ∈ ["service".toList, "dependencies".toList, "conditions".toList,
      "mount".toList], name ≠ lowercase "assertions".toList := by decide
  have hdependencies := hpresent (dependencySection (mountDependencies entry activeTargets)) (by simp)
  refine ⟨file, mountService_eq ▸ hparse, dependencies_read hfound hdependencies, fun s hs => ?_,
    fun key => habsent _ key fun s hs => hnames s.name (List.mem_map_of_mem (f := Section.name) hs)⟩
  exact hpresent s (((List.Sublist.refl _).cons _).cons_cons _ |>.subset hs)

theorem swapService_parses (h : ∀ p ∈ swapDirectives entry, Written p.2)
    (hfound : ReadAs (swapDependencies entry) found) :
    ∃ file, NativeFile.parse (swapService entry) = .ok file ∧ HasDependencies file found ∧
      ∀ s ∈ [serviceSection "swap", swapSection entry],
        ∀ key, valuesOf file s.name key = picked (lowercase key) s.directives := by
  have hservice : (serviceSection "swap").Clean :=
    serviceSection_clean (written_literal (forall_of_all (by decide)))
  have hothers : ∀ s ∈ [dependencySection (swapDependencies entry), swapSection entry], s.Clean := by
    simp only [List.forall_mem_cons]
    exact ⟨dependencySection_clean hfound, swapSection_clean h, by simp⟩
  obtain ⟨file, hparse, hpresent, -⟩ := parse_sections hservice hothers
    (by change ["service".toList, "dependencies".toList, "swap".toList].Nodup; decide)
  have hdependencies := hpresent (dependencySection (swapDependencies entry)) (by simp)
  refine ⟨file, swapService_eq ▸ hparse, dependencies_read hfound hdependencies, fun s hs => ?_⟩
  exact hpresent s (((List.Sublist.refl _).cons _).cons_cons _ |>.subset hs)

/-- The mount that an entry stands for, as the manager has it. -/
def mountSpec (name : Str) (entry : FstabEntry) (timeout : Option Duration) : StorageSpec where
  name := name
  program := "mount".toList
  args := ((typeOf entry).elim [] fun value => ["-t".toList, value]) ++
    ((optionsOf entry).elim [] fun value => ["-o".toList, value]) ++
    ["--".toList, entry.source, entry.target]
  mainIgnoreFailure := (optionsOf entry).any fun value => "nofail".toList ∈ value.splitOn ','
  serviceType := .mount
  mountWhere := some entry.target
  mountFilesystem := typeOf entry
  remainAfterExit := true
  startPre := [⟨"mkdir".toList, ["-p".toList, "-m".toList, "755".toList, "--".toList, entry.target]⟩]
  stop := some ⟨"umount".toList, ["--".toList, entry.target]⟩
  startTimeout := timeout.getD (seconds 30)
  stopTimeout := timeout.getD (seconds 5)

theorem type_canonical : (typeOf entry).map canonicalFilesystemType = typeOf entry := by
  rw [typeOf]
  split
  · rfl
  · exact congrArg some (Toolbox.MountOptions.canonicalFilesystemType_idem entry.fstype)

theorem optionsOf_ne_nil (h : ∀ o ∈ entry.mountOptions, o ≠ [] ∧ ',' ∉ o) :
    ∀ value ∈ optionsOf entry, value ≠ [] := by
  rintro value hvalue rfl
  rw [optionsOf] at hvalue
  split_ifs at hvalue
  · cases hvalue
  · cases hoptions : entry.mountOptions with
    | nil => contradiction
    | cons o os =>
      have hjoin := Option.some.inj hvalue
      have hsplit := congrArg (List.splitOn ',') hjoin
      rw [join, List.splitOn_intercalate ',' (fun o ho => (h o ho).2) (by simp [hoptions]), hoptions] at hsplit
      obtain ⟨rfl, -⟩ := List.cons.inj hsplit
      exact (h [] (by simp [hoptions])).1 rfl

theorem mount_value {given : Option Str} {key : Str} (hgiven : ∀ v ∈ given, v ≠ [])
    (hvalues : ∀ key, valuesOf file "mount".toList key =
      picked (lowercase key) (mountDirectives entry))
    (hlower : lowercase key = key) (hpick : picked key (mountDirectives entry) = given.toList) :
    NativeFile.value file "mount".toList key = given :=
  value_given hgiven (by rw [hvalues, hlower, hpick])

theorem parseMount_ok {parseDuration : Str → Str → Except ConfigError Duration} {name : Str}
    {timeout : Option Duration} (h : Plain entry) (hmount : PlainMount entry)
    (htimeout : (timeoutOf entry).mapM (fun value => parseDuration value "timeout".toList) = .ok timeout)
    (hvalues : ∀ key, valuesOf file "mount".toList key =
      picked (lowercase key) (mountDirectives entry)) :
    parseMount parseDuration file name = .ok (mountSpec name entry timeout) := by
  have hne : entry.target ≠ [] := by
    intro hnil
    have habsolute := hmount.absolute
    rw [hnil] at habsolute
    cases habsolute
  have hwhat : required file "mount".toList "what".toList = .ok entry.source := by
    refine required_given h.source.1 h.source.2 ?_
    have hlower : lowercase "what".toList = "what".toList := by decide
    rw [hvalues, hlower, mount_picked]
    simp
  have hwhere : required file "mount".toList "where".toList = .ok entry.target := by
    refine required_given hne (written_literal hmount.target) ?_
    have hlower : lowercase "where".toList = "where".toList := by decide
    rw [hvalues, hlower, mount_picked]
    simp
  have htype : NativeFile.value file "mount".toList "type".toList = typeOf entry := by
    refine mount_value (fun v hv => (hmount.type v hv).1) hvalues (by decide) ?_
    rw [mount_picked]
    simp
  have hoptions : NativeFile.value file "mount".toList "options".toList = optionsOf entry := by
    refine mount_value (optionsOf_ne_nil h.options) hvalues (by decide) ?_
    rw [mount_picked]
    simp
  have hlimit : NativeFile.value file "mount".toList "timeout".toList = timeoutOf entry := by
    refine mount_value (fun v hv => (hmount.timeout v hv).1) hvalues (by decide) ?_
    rw [mount_picked]
    simp
  have hmode : NativeFile.value file "mount".toList "directory_mode".toList = some "0755".toList := by
    refine mount_value (by simp) hvalues (by decide) ?_
    rw [mount_picked]
    simp
  have hlazy : boolValue file "mount".toList "lazy".toList = .ok none := by
    refine boolValue_absent ?_
    have hlower : lowercase "lazy".toList = "lazy".toList := by decide
    rw [hvalues, hlower, mount_picked]
    simp
  have hforce : boolValue file "mount".toList "force".toList = .ok none := by
    refine boolValue_absent ?_
    have hlower : lowercase "force".toList = "force".toList := by decide
    rw [hvalues, hlower, mount_picked]
    simp
  have hread : (some "0755".toList).mapM (fun value => parseMode value "directory_mode".toList) =
      .ok (some 0o755) := by decide
  rw [parseMount]
  dsimp only
  rw [hwhat, hwhere, htype, hoptions, hlimit, hmode, hlazy, hforce, htimeout, hread, type_canonical]
  simp only [bind, Except.bind, hmount.absolute]
  rfl

end

/-- A part of a path in the name of a service is read with a character for each of its bytes. -/
theorem spells_escapeComponent (value : Str) : Spells (escapeComponent value) (byteChars value) := by
  have hplain : ∀ n < 256, isPlain (UInt8.ofNat n) = true → Literal (Char.ofNat n) := by decide +kernel
  have hdigit : ∀ n < 16, hexValue (Nat.digitChar n) = some n := by decide
  have hbyte (b : UInt8) : Spells (escapeByte b) [Char.ofNat b.toNat] := by
    unfold escapeByte
    split_ifs with h
    · exact .literal (hplain b.toNat b.toNat_lt (by rwa [UInt8.ofNat_toNat])) .nil
    · have hspells := Spells.escape (hdigit (b.toNat / 16) (by have := b.toNat_lt; omega))
        (hdigit (b.toNat % 16) (by omega)) .nil
      rwa [Nat.div_add_mod] at hspells
  unfold escapeComponent byteChars asBytes
  induction value.flatMap String.utf8EncodeChar with
  | nil => exact .nil
  | cons b bytes ih => exact (hbyte b).append ih

theorem spells_parts (parts : List Str) :
    Spells (join ['-'] (parts.map escapeComponent)) (join ['-'] (parts.map byteChars)) := by
  induction parts with
  | nil => exact .nil
  | cons part parts ih =>
    cases parts with
    | nil =>
      simp only [List.map_cons, List.map_nil, join_singleton]
      exact spells_escapeComponent part
    | cons next parts =>
      simp only [List.map_cons] at ih ⊢
      exact (spells_escapeComponent part).append (.literal (by decide) ih)

section

variable {entry : FstabEntry} {d : Dependencies} {file : NativeFile}

end

end FractalD.Storage.Descriptors
