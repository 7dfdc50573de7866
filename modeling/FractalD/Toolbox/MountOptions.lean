import FractalD.Config.Words
import FractalD.Machine.Result
import FractalD.Machine.Text
import Mathlib.Data.List.Induction

namespace FractalD.Toolbox.MountOptions

open FractalD.Config.Words FractalD.Machine.CString FractalD.Machine.Result FractalD.Machine.Text

abbrev Flags := BitVec 64

def msRdonly : Flags := 1
def msNosuid : Flags := 2
def msNodev : Flags := 4
def msNoexec : Flags := 8
def msSynchronous : Flags := 16
def msRemount : Flags := 32
def msMandlock : Flags := 64
def msDirsync : Flags := 128
def msNoatime : Flags := 1024
def msNodiratime : Flags := 2048
def msBind : Flags := 4096
def msRec : Flags := 16384
def msSilent : Flags := 32768
def msUnbindable : Flags := 1 <<< 17
def msPrivate : Flags := 1 <<< 18
def msSlave : Flags := 1 <<< 19
def msShared : Flags := 1 <<< 20
def msRelatime : Flags := 1 <<< 21
def msStrictatime : Flags := 1 <<< 24
def msLazytime : Flags := 1 <<< 25

/-- What an option does to the flags. -/
inductive Effect
  | keep
  | set (flags : Flags)
  | clear (flags : Flags)
  deriving DecidableEq, Repr

def Effect.apply (flags : Flags) : Effect → Flags
  | .keep => flags
  | .set f => flags ||| f
  | .clear f => flags &&& ~~~f

def effects : List (Str × Effect) :=
  (["defaults", "auto", "noauto", "nofail", "_netdev", "suid", "dev", "exec", "async",
      "atime"].map fun name => (name.toList, .keep)) ++
    ([("ro", .set msRdonly),
      ("rw", .clear msRdonly),
      ("nosuid", .set msNosuid),
      ("nodev", .set msNodev),
      ("noexec", .set msNoexec),
      ("sync", .set msSynchronous),
      ("dirsync", .set msDirsync),
      ("remount", .set msRemount),
      ("mand", .set msMandlock),
      ("noatime", .set msNoatime),
      ("nodiratime", .set msNodiratime),
      ("relatime", .set msRelatime),
      ("strictatime", .set msStrictatime),
      ("lazytime", .set msLazytime),
      ("bind", .set msBind),
      ("rbind", .set (msBind ||| msRec)),
      ("silent", .set msSilent),
      ("private", .set msPrivate),
      ("rprivate", .set (msPrivate ||| msRec)),
      ("slave", .set msSlave),
      ("rslave", .set (msSlave ||| msRec)),
      ("shared", .set msShared),
      ("rshared", .set (msShared ||| msRec)),
      ("unbindable", .set msUnbindable),
      ("runbindable", .set (msUnbindable ||| msRec))].map fun entry => (entry.1.toList, entry.2))

/-- What a recognised option does. -/
def effectOf (option : Str) : Option Effect :=
  match effects.lookup option with
  | some effect => some effect
  | none =>
    if "x-".toList.isPrefixOf option ∨ "comment=".toList.isPrefixOf option then some .keep else none

def optionsOf (value : Str) : List Str := (value.splitOn ',').filter (· ≠ [])

def readOption (state : Flags × List Str) (option : Str) : Flags × List Str :=
  match effectOf option with
  | some effect => (effect.apply state.1, state.2)
  | none => (state.1, state.2 ++ [option])

def parseMountOptions (value : Str) : Except Str (Str × Flags) :=
  let (flags, data) := (optionsOf value).foldl readOption (0, [])
  .ok (join [','] data, flags)

/-- Two options the last of which decides on a flag. -/
structure Pair where
  set : Str
  clear : Str
  flag : Flags
  deriving DecidableEq

def writing : Pair := ⟨"ro".toList, "rw".toList, msRdonly⟩

/-- The pairs of which the option that clears the flag is recognised and ignored. -/
def ignored : List Pair :=
  [⟨"nosuid".toList, "suid".toList, msNosuid⟩,
    ⟨"nodev".toList, "dev".toList, msNodev⟩,
    ⟨"noexec".toList, "exec".toList, msNoexec⟩,
    ⟨"sync".toList, "async".toList, msSynchronous⟩,
    ⟨"noatime".toList, "atime".toList, msNoatime⟩]

def pairs : List Pair := writing :: ignored

def Pair.last (p : Pair) (options : List Str) : Option Str :=
  options.reverse.find? fun o => o = p.set ∨ o = p.clear

def ownFlags (option : Str) : Flags :=
  if pairs.any fun p => option = p.set ∨ option = p.clear then 0
  else
    match effectOf option with
    | some (.set f) => f
    | _ => 0

def union (l : List Flags) : Flags := l.foldr (· ||| ·) 0

def paired : Flags := union (pairs.map Pair.flag)

/-- What the options ask for. -/
structure Obeys (options : List Str) (data : Str) (flags : Flags) : Prop where
  pair : ∀ p ∈ pairs, flags &&& p.flag = if p.last options = some p.set then p.flag else 0
  own : flags &&& ~~~paired = union (options.map ownFlags)
  data : data = join [','] (options.filter fun o => (effectOf o).isNone)

def Effect.suits (p : Pair) (name : Str) : Effect → Bool
  | .keep => name ≠ p.set && (name ≠ p.clear || p ≠ writing)
  | .set f => if name = p.set then f = p.flag else name ≠ p.clear && f &&& p.flag = 0
  | .clear f =>
    name ≠ p.set && if name = p.clear then f = p.flag && p = writing else f &&& p.flag = 0

/-- How an effect bears on the flags of no pair. -/
def Effect.owns (name : Str) : Effect → Bool
  | .keep => ownFlags name = 0
  | .set f => f &&& ~~~paired = ownFlags name
  | .clear f => f &&& ~~~paired = 0 && ownFlags name = 0

theorem effects_suit : ∀ entry ∈ effects, ∀ p ∈ pairs, entry.2.suits p entry.1 = true := by decide

theorem effects_own : ∀ entry ∈ effects, entry.2.owns entry.1 = true := by decide

theorem names_plain : ∀ p ∈ pairs, ∀ name ∈ [p.set, p.clear],
    ¬ "x-".toList.isPrefixOf name ∧ ¬ "comment=".toList.isPrefixOf name := by decide

section

variable {option : Str} {effect : Effect} {p : Pair} {flags : Flags} {options data : List Str}

theorem effectOf_cases (h : effectOf option = some effect) :
    (option, effect) ∈ effects ∨
      effect = .keep ∧ ∀ p ∈ pairs, option ≠ p.set ∧ option ≠ p.clear := by
  simp only [effectOf] at h
  cases hlookup : effects.lookup option with
  | some e =>
    rw [hlookup] at h
    obtain rfl := Option.some.inj h
    obtain ⟨before, after, heq, -⟩ := List.lookup_eq_some_iff.mp hlookup
    exact .inl (heq ▸ List.mem_append_cons_self)
  | none =>
    rw [hlookup] at h
    obtain ⟨hstart, heffect⟩ := Option.ite_none_right_eq_some.mp h
    refine .inr ⟨(Option.some.inj heffect).symm, fun p hp => ⟨?_, ?_⟩⟩
    · rintro rfl
      have hplain := names_plain p hp p.set (by simp)
      exact hstart.elim hplain.1 hplain.2
    · rintro rfl
      have hplain := names_plain p hp p.clear (by simp)
      exact hstart.elim hplain.1 hplain.2

theorem effectOf_suits (h : effectOf option = some effect) (hp : p ∈ pairs) :
    effect.suits p option = true := by
  obtain hmem | ⟨rfl, hplain⟩ := effectOf_cases h
  · exact effects_suit _ hmem p hp
  · simp [Effect.suits, hplain p hp]

theorem and_or_of_disjoint {a b c : Flags} (h : b &&& c = 0) : (a ||| b) &&& c = a &&& c := by
  rw [BitVec.and_or_distrib_right, h]
  exact BitVec.or_zero

theorem and_not_and {a b c : Flags} (h : b &&& c = 0) : (a &&& ~~~b) &&& c = a &&& c := by
  have hc : ~~~b &&& c = c :=
    calc ~~~b &&& c = (b &&& c) ||| (~~~b &&& c) := by rw [h]; exact BitVec.zero_or.symm
      _ = (b ||| ~~~b) &&& c := BitVec.and_or_distrib_right.symm
      _ = c := by rw [BitVec.or_not_self, BitVec.allOnes_and]
  rw [BitVec.and_assoc, hc]

theorem or_and_self (a c : Flags) : (a ||| c) &&& c = c := by
  ext i hi
  simp only [BitVec.getElem_and, BitVec.getElem_or, Bool.and_eq_right_iff_imp, Bool.or_eq_true]
  exact .inr

theorem apply_pair (h : effect.suits p option = true) :
    effect.apply flags &&& p.flag =
      if option = p.set then p.flag
      else if option = p.clear ∧ p = writing then 0 else flags &&& p.flag := by
  cases effect with
  | keep =>
    simp only [Effect.suits, Bool.and_eq_true, Bool.or_eq_true, decide_eq_true_eq] at h
    rw [if_neg h.1, if_neg fun hclear => h.2.elim (· hclear.1) (· hclear.2)]
    rfl
  | set f =>
    by_cases hset : option = p.set
    · simp only [Effect.suits, if_pos hset, decide_eq_true_eq] at h
      rw [if_pos hset, h]
      exact or_and_self flags p.flag
    · simp only [Effect.suits, if_neg hset, Bool.and_eq_true, decide_eq_true_eq] at h
      rw [if_neg hset, if_neg fun hclear => h.1 hclear.1]
      exact and_or_of_disjoint h.2
  | clear f =>
    simp only [Effect.suits, Bool.and_eq_true, decide_eq_true_eq] at h
    rw [if_neg h.1]
    by_cases hclear : option = p.clear
    · have hflag : f = p.flag ∧ p = writing := by simpa [hclear] using h.2
      rw [if_pos ⟨hclear, hflag.2⟩, hflag.1, Effect.apply, BitVec.and_assoc, BitVec.not_and_self]
      exact BitVec.and_zero
    · rw [if_neg fun hc => hclear hc.1]
      exact and_not_and (by simpa [hclear] using h.2)

theorem apply_own (h : effect.owns option = true) :
    effect.apply flags &&& ~~~paired = (flags &&& ~~~paired) ||| ownFlags option := by
  cases effect with
  | keep =>
    simp only [Effect.owns, decide_eq_true_eq] at h
    rw [h]
    exact BitVec.or_zero.symm
  | set f =>
    simp only [Effect.owns, decide_eq_true_eq] at h
    rw [← h]
    exact BitVec.and_or_distrib_right
  | clear f =>
    simp only [Effect.owns, Bool.and_eq_true, decide_eq_true_eq] at h
    rw [h.2]
    exact (and_not_and h.1).trans BitVec.or_zero.symm

theorem effectOf_owns (h : effectOf option = some effect) : effect.owns option = true := by
  obtain hmem | ⟨rfl, -⟩ := effectOf_cases h
  · exact effects_own _ hmem
  · simp [Effect.owns, ownFlags, h]

theorem pairs_recognised : ∀ p ∈ pairs, effectOf p.set ≠ none ∧ effectOf p.clear ≠ none := by decide

variable {state : Flags × List Str}

theorem readOption_pair (hp : p ∈ pairs) : (readOption state option).1 &&& p.flag =
    if option = p.set then p.flag
    else if option = p.clear ∧ p = writing then 0 else state.1 &&& p.flag := by
  cases heffect : effectOf option with
  | some effect =>
    simp only [readOption, heffect]
    exact apply_pair (effectOf_suits heffect hp)
  | none =>
    obtain ⟨hset, hclear⟩ := pairs_recognised p hp
    simp only [readOption, heffect]
    rw [if_neg (by rintro rfl; exact hset heffect),
      if_neg (by rintro ⟨rfl, -⟩; exact hclear heffect)]

theorem readOption_own : (readOption state option).1 &&& ~~~paired =
    (state.1 &&& ~~~paired) ||| ownFlags option := by
  cases heffect : effectOf option with
  | some effect =>
    simp only [readOption, heffect]
    exact apply_own (effectOf_owns heffect)
  | none =>
    have hown : ownFlags option = 0 := by simp [ownFlags, heffect]
    simp only [readOption, heffect, hown]
    exact BitVec.or_zero.symm

variable (options)

def read : Flags × List Str := options.foldl readOption (0, [])

theorem read_concat (option : Str) :
    read (options ++ [option]) = readOption (read options) option := by
  rw [read, List.foldl_append]
  rfl

theorem read_data : (read options).2 = options.filter fun o => (effectOf o).isNone := by
  induction options using List.reverseRecOn with
  | nil => rfl
  | append_singleton options option ih =>
    rw [read_concat, List.filter_append, ← ih]
    cases heffect : effectOf option <;> simp [readOption, heffect]

theorem union_concat (l : List Flags) (f : Flags) : union (l ++ [f]) = union l ||| f := by
  induction l with
  | nil => exact BitVec.or_comm f 0
  | cons a l ih =>
    calc union (a :: l ++ [f]) = a ||| union (l ++ [f]) := rfl
      _ = a ||| (union l ||| f) := by rw [ih]
      _ = union (a :: l) ||| f := (BitVec.or_assoc _ _ _).symm

theorem read_own : (read options).1 &&& ~~~paired = union (options.map ownFlags) := by
  induction options using List.reverseRecOn with
  | nil => rfl
  | append_singleton options option ih =>
    rw [read_concat, readOption_own, ih, List.map_append, List.map_singleton, union_concat]

theorem last_concat (p : Pair) (option : Str) : p.last (options ++ [option]) =
    if option = p.set ∨ option = p.clear then some option else p.last options := by
  rw [Pair.last, List.reverse_append]
  by_cases h : option = p.set ∨ option = p.clear
  · simp [h]
  · simp [Pair.last, h]

theorem writing_ne : writing.set ≠ writing.clear := by decide

theorem read_writing : (read options).1 &&& writing.flag =
    if writing.last options = some writing.set then writing.flag else 0 := by
  induction options using List.reverseRecOn with
  | nil => rfl
  | append_singleton options option ih =>
    rw [read_concat, readOption_pair (List.mem_cons_self), ih, last_concat]
    by_cases hset : option = writing.set
    · simp [hset]
    · by_cases hclear : option = writing.clear
      · simp [hclear, writing_ne.symm]
      · simp [hset, hclear]

variable {options}

theorem read_ignored (hp : p ∈ ignored) :
    (read options).1 &&& p.flag = if p.set ∈ options then p.flag else 0 := by
  have hpair : p ∈ pairs := List.mem_cons_of_mem _ hp
  have hne : p ≠ writing := by
    rintro rfl
    exact absurd hp (by decide)
  induction options using List.reverseRecOn with
  | nil => simp [read]
  | append_singleton options option ih =>
    rw [read_concat, readOption_pair hpair, ih]
    by_cases hset : option = p.set
    · simp [hset]
    · simp [hset, hne, Ne.symm hset]

theorem flag_ne_zero : ∀ p ∈ pairs, p.flag ≠ 0 := by decide

theorem mem_of_last {name : Str} (h : p.last options = some name) : name ∈ options :=
  List.mem_reverse.mp (List.mem_of_find?_eq_some h)

end

/-- The last option of each pair decides exactly if none of the five options that clear a flag and
are ignored comes after the option that sets it. -/
theorem obeys_iff (value : Str) :
    (∃ data flags, parseMountOptions value = .ok (data, flags) ∧
      Obeys (optionsOf value) data flags) ↔
    ∀ p ∈ ignored, p.set ∈ optionsOf value → p.last (optionsOf value) = some p.set := by
  have hparse : parseMountOptions value =
      .ok (join [','] (read (optionsOf value)).2, (read (optionsOf value)).1) := rfl
  constructor
  · rintro ⟨data, flags, hok, h⟩ p hp hset
    obtain ⟨rfl, rfl⟩ := Prod.ext_iff.mp (Except.ok.inj (hparse.symm.trans hok))
    have hpair := h.pair p (List.mem_cons_of_mem _ hp)
    rw [read_ignored hp, if_pos hset] at hpair
    by_contra hlast
    rw [if_neg hlast] at hpair
    exact flag_ne_zero p (List.mem_cons_of_mem _ hp) hpair
  · intro h
    refine ⟨_, _, hparse, ?_, read_own _, by rw [read_data]⟩
    rintro p hp
    obtain rfl | hp := List.mem_cons.mp hp
    · exact read_writing _
    · rw [read_ignored hp]
      by_cases hset : p.set ∈ optionsOf value
      · rw [if_pos hset, if_pos (h p hp hset)]
      · rw [if_neg hset, if_neg fun hlast => hset (mem_of_last hlast)]

/-- Set-user-ID bits that are asked for last are not honoured. -/
theorem suid_ignored : parseMountOptions "nosuid,suid".toList = .ok ([], msNosuid) ∧
    ¬ Obeys (optionsOf "nosuid,suid".toList) [] msNosuid := by
  refine ⟨by decide, fun h => ?_⟩
  exact absurd (h.pair ⟨"nosuid".toList, "suid".toList, msNosuid⟩ (by decide)) (by decide)

/-- What the arguments of the applet say. -/
structure Arguments where
  filesystem : Option Str := none
  optionValues : List Str := []
  flags : Flags := 0
  readOnlyArgument : Bool := false
  bindArgument : Bool := false
  recursiveBindArgument : Bool := false
  sloppyArgument : Bool := false
  operands : List Str := []

namespace Arguments

def readOnly (a : Arguments) : Arguments :=
  { a with flags := a.flags ||| msRdonly, readOnlyArgument := true }

def bind (a : Arguments) : Arguments :=
  { a with flags := a.flags ||| msBind, bindArgument := true }

def recursiveBind (a : Arguments) : Arguments :=
  { a with flags := a.flags ||| (msBind ||| msRec), recursiveBindArgument := true }

def sloppy (a : Arguments) : Arguments := { a with sloppyArgument := true }

def types (a : Arguments) (value : Str) : Arguments := { a with filesystem := some value }

def options (a : Arguments) (value : Str) : Arguments :=
  { a with optionValues := a.optionValues ++ [value] }

def operand (a : Arguments) (values : List Str) : Arguments :=
  { a with operands := a.operands ++ values }

end Arguments

def missingOptions : Str := "mount: -o requires options".toList

/-- The loop over the arguments in `run_mount`. -/
def readArguments : List Str → Arguments → Except Str Arguments
  | [], a => .ok a
  | argument :: rest, a =>
    if argument = "--".toList then .ok (a.operand rest)
    else if argument = "-r".toList ∨ argument = "--read-only".toList then
      readArguments rest a.readOnly
    else if argument = "-t".toList ∨ argument = "--types".toList then
      match rest with
      | [] => .error "mount: -t requires a filesystem type".toList
      | value :: rest => readArguments rest (a.types value)
    else if argument = "-o".toList ∨ argument = "--options".toList then
      match rest with
      | [] => .error missingOptions
      | value :: rest => readArguments rest (a.options value)
    else if "-o".toList.isPrefixOf argument then readArguments rest (a.options (argument.drop 2))
    else if argument = "--bind".toList then readArguments rest a.bind
    else if argument = "--rbind".toList then readArguments rest a.recursiveBind
    else if argument = "-s".toList ∨ argument = "--sloppy".toList then readArguments rest a.sloppy
    else if argument.head? = some '-' then
      .error ("mount: unsupported option ".toList ++ argument)
    else readArguments rest (a.operand [argument])

/-- How running a program ends. -/
inductive Launch
  | missing
  | failed (error : Str)
  | exited (success : Bool) (output : Str)

/-- The paths that exist and the programs that are run. -/
structure Devices where
  present : Str → Bool
  launch : Str → List Str → Launch

def blkidPrograms : List Str :=
  ["/usr/bin/blkid".toList, "/usr/sbin/blkid".toList, "/bin/blkid".toList, "/sbin/blkid".toList,
    "blkid".toList]

def firstLine (output : Str) : Option Str := ((textLines output).map trim).find? (· ≠ [])

/-- The directory of the links for a kind of tag, and the arguments that look the tag up. -/
def lookupOf (kind identifier : Str) : Option (Str × List Str) :=
  let tag := kind ++ '=' :: identifier
  if kind = "UUID".toList then some ("by-uuid".toList, ["-U".toList, identifier])
  else if kind = "LABEL".toList then some ("by-label".toList, ["-L".toList, identifier])
  else if kind = "PARTUUID".toList then
    some ("by-partuuid".toList, ["-t".toList, tag, "-o".toList, "device".toList])
  else if kind = "PARTLABEL".toList then
    some ("by-partlabel".toList, ["-t".toList, tag, "-o".toList, "device".toList])
  else none

/-- `Path::join`, for a tag's link. -/
def linkOf (directory identifier : Str) : Str :=
  if identifier.head? = some '/' then identifier
  else "/dev/disk/".toList ++ directory ++ '/' :: identifier

def askBlkid (d : Devices) (value : Str) (arguments : List Str) : List Str → Except Str Str
  | [] => .error ("cannot resolve tagged source ".toList ++ value ++
      "; /dev/disk and blkid did not find it".toList)
  | program :: programs =>
    match d.launch program arguments with
    | .missing | .exited false _ => askBlkid d value arguments programs
    | .failed error => .error ("mount: cannot execute ".toList ++ program ++
        " while resolving ".toList ++ value ++ ": ".toList ++ error)
    | .exited true output =>
      match firstLine output with
      | some device => .ok device
      | none => askBlkid d value arguments programs

def resolveTaggedSource (d : Devices) (source : Str) : Except Str Str :=
  match splitOnce '=' source with
  | none => .ok source
  | some (kind, identifier) =>
    match lookupOf (kind.map Char.toUpper) identifier with
    | none => .ok source
    | some (directory, arguments) =>
      if d.present (linkOf directory identifier) then .ok (linkOf directory identifier)
      else askBlkid d source arguments blkidPrograms

def canonicalFilesystemType (value : Str) : Str :=
  let value := value.map Char.toLower
  if value = "fat".toList ∨ value = "msdos".toList then "vfat".toList
  else if value = "ext".toList then "ext4".toList
  else value

def detectFrom (d : Devices) (source : Str) : List Str → Option Str
  | [] => none
  | program :: programs =>
    match d.launch program ["-s".toList, "TYPE".toList, "-o".toList, "value".toList, source] with
    | .missing | .exited false _ => detectFrom d source programs
    | .failed _ => none
    | .exited true output =>
      match firstLine output with
      | some filesystem => some (canonicalFilesystemType filesystem)
      | none => detectFrom d source programs

def detectFilesystemType (d : Devices) (source : Str) : Option Str :=
  detectFrom d source blkidPrograms

def isAuto (filesystem : Str) : Bool := filesystem.map Char.toLower = "auto".toList

def mountHelperArguments (source target : Str) (filesystem : Option Str) (rawOptions : Str)
    (a : Arguments) : List Str :=
  (if a.readOnlyArgument then ["--read-only".toList] else []) ++
    ((if a.recursiveBindArgument then ["--rbind".toList]
      else if a.bindArgument then ["--bind".toList] else []) ++
    ((if a.sloppyArgument then ["--sloppy".toList] else []) ++
    (((filesystem.filter (!isAuto ·)).elim [] fun value => ["-t".toList, value]) ++
    ((if rawOptions = [] then [] else ["-o".toList, rawOptions]) ++
      ["--".toList, source, target]))))

/-- The arguments of the system call. -/
structure MountCall where
  source : Str
  target : Str
  filesystem : Option Str
  data : Option Str
  flags : Flags
  deriving DecidableEq, Repr

/-- What the applet does: print the mounts, or make the call and, if the call fails, run the
helper with the arguments given. -/
inductive Mounting
  | list
  | call (c : MountCall) (helper : List Str)
  deriving DecidableEq, Repr

def chosenFilesystem (d : Devices) (a : Arguments) (source : Str) : Option Str :=
  ((a.filesystem.map canonicalFilesystemType).filter (!isAuto ·)).or (detectFilesystemType d source)

def runMount (d : Devices) (args : List Str) : Except Str Mounting := do
  let a ← readArguments args {}
  match a.operands with
  | [] => return .list
  | [source, target] =>
    let source ← resolveTaggedSource d source
    let filesystem := chosenFilesystem d a source
    let rawOptions := join [','] a.optionValues
    let (options, optionFlags) ← parseMountOptions rawOptions
    let c := ⟨source, target, filesystem, if options = [] then none else some options,
      a.flags ||| optionFlags⟩
    return .call c (mountHelperArguments source target filesystem rawOptions a)
  | _ => throw "mount: expected SOURCE TARGET".toList

def Arguments.Coherent (a : Arguments) : Prop :=
  a.flags = (if a.readOnlyArgument then msRdonly else 0) |||
    ((if a.bindArgument then msBind else 0) |||
      if a.recursiveBindArgument then msBind ||| msRec else 0)

def Devices.NamesPaths (d : Devices) : Prop :=
  ∀ kind identifier directory arguments, lookupOf kind identifier = some (directory, arguments) →
    ∀ program output, d.launch program arguments = .exited true output →
      ∀ device, firstLine output = some device → device.head? = some '/'

section

variable {d : Devices} {a b : Arguments} {args rest : List Str} {source target value : Str}

theorem Arguments.Coherent.readOnly (h : a.Coherent) : a.readOnly.Coherent := by
  unfold Arguments.Coherent at *
  simp only [Arguments.readOnly, h]
  cases a.readOnlyArgument <;> cases a.bindArgument <;> cases a.recursiveBindArgument <;> decide

theorem Arguments.Coherent.bind (h : a.Coherent) : a.bind.Coherent := by
  unfold Arguments.Coherent at *
  simp only [Arguments.bind, h]
  cases a.readOnlyArgument <;> cases a.bindArgument <;> cases a.recursiveBindArgument <;> decide

theorem Arguments.Coherent.recursiveBind (h : a.Coherent) : a.recursiveBind.Coherent := by
  unfold Arguments.Coherent at *
  simp only [Arguments.recursiveBind, h]
  cases a.readOnlyArgument <;> cases a.bindArgument <;> cases a.recursiveBindArgument <;> decide

theorem readArguments_coherent (ha : a.Coherent) (h : readArguments args a = .ok b) :
    b.Coherent := by
  fun_induction readArguments args a with
  | case1 => exact Except.ok.inj h ▸ ha
  | case2 => exact Except.ok.inj h ▸ ha
  | case3 a argument rest _ _ ih => exact ih ha.readOnly h
  | case4 => cases h
  | case5 a argument _ _ _ value rest ih => exact ih ha h
  | case6 => cases h
  | case7 a argument _ _ _ _ value rest ih => exact ih ha h
  | case8 argument rest a _ _ _ _ _ ih => exact ih ha h
  | case9 rest a _ _ _ _ _ ih => exact ih ha.bind h
  | case10 rest a _ _ _ _ _ _ ih => exact ih ha.recursiveBind h
  | case11 argument rest a _ _ _ _ _ _ _ _ ih => exact ih ha h
  | case12 => cases h
  | case13 argument rest a _ _ _ _ _ _ _ _ _ ih => exact ih ha h

theorem readArguments_dashes : readArguments ("--".toList :: rest) a = .ok (a.operand rest) := by
  unfold readArguments
  exact if_pos rfl

theorem readArguments_readOnly (yes : Bool) :
    readArguments ((if yes then ["--read-only".toList] else []) ++ rest) a =
      readArguments rest (if yes then a.readOnly else a) := by
  cases yes with
  | false => rfl
  | true =>
    change readArguments ("--read-only".toList :: rest) a = readArguments rest a.readOnly
    conv_lhs => unfold readArguments
    rw [if_neg (by decide), if_pos (by decide)]

theorem readArguments_bind (recursive yes : Bool) :
    readArguments ((if recursive then ["--rbind".toList] else if yes then ["--bind".toList] else []) ++
        rest) a =
      readArguments rest (if recursive then a.recursiveBind else if yes then a.bind else a) := by
  cases recursive with
  | true =>
    change readArguments ("--rbind".toList :: rest) a = readArguments rest a.recursiveBind
    conv_lhs => unfold readArguments
    rw [if_neg (by decide), if_neg (by decide), if_neg (by decide), if_neg (by decide),
      if_neg (by decide), if_neg (by decide), if_pos rfl]
  | false =>
    cases yes with
    | false => rfl
    | true =>
      change readArguments ("--bind".toList :: rest) a = readArguments rest a.bind
      conv_lhs => unfold readArguments
      rw [if_neg (by decide), if_neg (by decide), if_neg (by decide), if_neg (by decide),
        if_neg (by decide), if_pos rfl]

theorem readArguments_sloppy (yes : Bool) :
    readArguments ((if yes then ["--sloppy".toList] else []) ++ rest) a =
      readArguments rest (if yes then a.sloppy else a) := by
  cases yes with
  | false => rfl
  | true =>
    change readArguments ("--sloppy".toList :: rest) a = readArguments rest a.sloppy
    conv_lhs => unfold readArguments
    rw [if_neg (by decide), if_neg (by decide), if_neg (by decide), if_neg (by decide),
      if_neg (by decide), if_neg (by decide), if_neg (by decide), if_pos (by decide)]

theorem readArguments_types (filesystem : Option Str) :
    readArguments ((filesystem.elim [] fun value => ["-t".toList, value]) ++ rest) a =
      readArguments rest (filesystem.elim a a.types) := by
  cases filesystem with
  | none => rfl
  | some value =>
    change readArguments ("-t".toList :: value :: rest) a = readArguments rest (a.types value)
    conv_lhs => unfold readArguments
    rw [if_neg (by decide), if_neg (by decide), if_pos (by decide)]

theorem readArguments_options (rawOptions : Str) :
    readArguments ((if rawOptions = [] then [] else ["-o".toList, rawOptions]) ++ rest) a =
      readArguments rest (if rawOptions = [] then a else a.options rawOptions) := by
  by_cases hempty : rawOptions = []
  · rw [if_pos hempty, if_pos hempty, List.nil_append]
  · rw [if_neg hempty, if_neg hempty]
    change readArguments ("-o".toList :: rawOptions :: rest) a = _
    conv_lhs => unfold readArguments
    rw [if_neg (by decide), if_neg (by decide), if_neg (by decide), if_pos (by decide)]

def helperReads (source target : Str) (filesystem : Option Str) (rawOptions : Str)
    (a : Arguments) : Arguments where
  filesystem := filesystem.filter (!isAuto ·)
  optionValues := if rawOptions = [] then [] else [rawOptions]
  flags := a.flags
  readOnlyArgument := a.readOnlyArgument
  bindArgument := !a.recursiveBindArgument && a.bindArgument
  recursiveBindArgument := a.recursiveBindArgument
  sloppyArgument := a.sloppyArgument
  operands := [source, target]

theorem readArguments_helper (source target : Str) (ha : a.Coherent) (filesystem : Option Str) (rawOptions : Str) :
    readArguments (mountHelperArguments source target filesystem rawOptions a) {} =
      .ok (helperReads source target filesystem rawOptions a) := by
  rw [mountHelperArguments, readArguments_readOnly, readArguments_bind, readArguments_sloppy,
    readArguments_types, readArguments_options, readArguments_dashes]
  obtain ⟨fs, values, flags, readOnly, bind, recursive, sloppy, operands⟩ := a
  have hflags : flags = (if readOnly then msRdonly else 0) |||
      ((if bind then msBind else 0) ||| if recursive then msBind ||| msRec else 0) := ha
  subst hflags
  unfold helperReads
  generalize filesystem.filter (!isAuto ·) = chosen
  by_cases hempty : rawOptions = []
  · simp only [if_pos hempty]
    cases chosen <;> cases readOnly <;> cases bind <;> cases recursive <;> cases sloppy <;> rfl
  · simp only [if_neg hempty]
    cases chosen <;> cases readOnly <;> cases bind <;> cases recursive <;> cases sloppy <;> rfl

theorem toLower_toLower (c : Char) : c.toLower.toLower = c.toLower := by
  by_cases h : c.val ≥ 'A'.val ∧ c.val ≤ 'Z'.val
  · have hval : c.toLower.val = c.val + 32 := by
      have hlower : c.toLower = ⟨c.val + 32, _⟩ := dif_pos h
      rw [hlower]
    have hlast : ¬ (c.toLower.val ≥ 'A'.val ∧ c.toLower.val ≤ 'Z'.val) := by
      rintro ⟨-, hZ⟩
      obtain ⟨hA, hc⟩ := h
      have hA : 65 ≤ c.val.toNat := UInt32.le_iff_toNat_le.mp hA
      have hc : c.val.toNat ≤ 90 := UInt32.le_iff_toNat_le.mp hc
      have hZ : (c.val + 32).toNat ≤ 90 := UInt32.le_iff_toNat_le.mp (hval ▸ hZ)
      rw [UInt32.toNat_add] at hZ
      have hZ : (c.val.toNat + 32) % 2 ^ 32 ≤ 90 := hZ
      omega
    exact dif_neg hlast
  · have hself : c.toLower = c := dif_neg h
    rw [hself, hself]

theorem canonicalFilesystemType_idem (value : Str) :
    canonicalFilesystemType (canonicalFilesystemType value) = canonicalFilesystemType value := by
  have hidem : (value.map Char.toLower).map Char.toLower = value.map Char.toLower := by
    rw [List.map_map]
    exact List.map_congr_left fun c _ => toLower_toLower c
  unfold canonicalFilesystemType
  by_cases hfat : value.map Char.toLower = "fat".toList ∨ value.map Char.toLower = "msdos".toList
  · simp only [if_pos hfat]
    decide
  · by_cases hext : value.map Char.toLower = "ext".toList
    · simp only [if_neg hfat, if_pos hext]
      decide
    · simp only [if_neg hfat, if_neg hext, hidem]

theorem detectFrom_canonical {programs : List Str} {filesystem : Str}
    (h : detectFrom d source programs = some filesystem) :
    canonicalFilesystemType filesystem = filesystem := by
  induction programs with
  | nil => cases h
  | cons program programs ih =>
    rw [detectFrom] at h
    split at h
    · exact ih h
    · exact ih h
    · cases h
    · split at h
      · cases h
        exact canonicalFilesystemType_idem _
      · exact ih h

theorem chosenFilesystem_again (rawOptions : Str) :
    chosenFilesystem d
        (helperReads source target (chosenFilesystem d a source) rawOptions a) source =
      chosenFilesystem d a source := by
  have hgiven (filesystem : Str)
      (h : (a.filesystem.map canonicalFilesystemType).filter (!isAuto ·) = some filesystem) :
      canonicalFilesystemType filesystem = filesystem ∧ isAuto filesystem = false := by
    obtain ⟨hmap, hauto⟩ := Option.filter_eq_some_iff.mp h
    obtain ⟨value, -, rfl⟩ := Option.map_eq_some_iff.mp hmap
    exact ⟨canonicalFilesystemType_idem value, by simpa using hauto⟩
  unfold chosenFilesystem helperReads
  cases h : (a.filesystem.map canonicalFilesystemType).filter (!isAuto ·) with
  | some filesystem =>
    obtain ⟨hcanonical, hauto⟩ := hgiven filesystem h
    simp [hauto, hcanonical]
  | none =>
    rw [Option.none_or]
    cases hdetect : detectFilesystemType d source with
    | none => rfl
    | some filesystem =>
      have hcanonical := detectFrom_canonical hdetect
      cases hauto : isAuto filesystem with
      | true => simp [Option.filter, hauto]
      | false => simp [Option.filter, hauto, hcanonical]

theorem resolveTaggedSource_path (h : source.head? = some '/') :
    resolveTaggedSource d source = .ok source := by
  obtain ⟨rest, rfl⟩ := List.head?_eq_some_iff.mp h
  unfold resolveTaggedSource
  cases hsplit : splitOnce '=' ('/' :: rest) with
  | none => rfl
  | some parts =>
    rw [splitOnce] at hsplit
    split_ifs at hsplit
    obtain rfl := Option.some.inj hsplit
    simp [lookupOf]

theorem askBlkid_ok {programs : List Str} {device : Str}
    (h : askBlkid d value args programs = .ok device) :
    ∃ program output, d.launch program args = .exited true output ∧
      firstLine output = some device := by
  induction programs with
  | nil => cases h
  | cons program programs ih =>
    rw [askBlkid] at h
    split at h
    · exact ih h
    · exact ih h
    · cases h
    · next output hlaunch =>
      split at h
      · next device' hline =>
        cases h
        exact ⟨program, output, hlaunch, hline⟩
      · exact ih h

theorem linkOf_path (directory identifier : Str) :
    (linkOf directory identifier).head? = some '/' := by
  unfold linkOf
  split_ifs with h
  · exact h
  · rfl

theorem resolveTaggedSource_again (hd : d.NamesPaths) {resolved : Str}
    (h : resolveTaggedSource d source = .ok resolved) :
    resolveTaggedSource d resolved = .ok resolved := by
  have hself : source = resolved → resolveTaggedSource d resolved = .ok resolved := by
    rintro rfl
    exact h
  rw [resolveTaggedSource] at h
  split at h
  · exact hself (Except.ok.inj h)
  · next kind identifier _ =>
    split at h
    · exact hself (Except.ok.inj h)
    · next directory arguments hlookup =>
      split_ifs at h
      · obtain rfl := Except.ok.inj h
        exact resolveTaggedSource_path (linkOf_path directory identifier)
      · obtain ⟨program, output, hlaunch, hline⟩ := askBlkid_ok h
        exact resolveTaggedSource_path
          (hd _ _ _ _ hlookup program output hlaunch resolved hline)

theorem runMount_call {c : MountCall} {helper : List Str}
    (h : runMount d args = .ok (.call c helper)) :
    ∃ a source, readArguments args {} = .ok a ∧ a.operands = [source, c.target] ∧
      resolveTaggedSource d source = .ok c.source ∧
      c.filesystem = chosenFilesystem d a c.source ∧
      helper = mountHelperArguments c.source c.target c.filesystem (join [','] a.optionValues) a ∧
      ∃ options flags, parseMountOptions (join [','] a.optionValues) = .ok (options, flags) ∧
        c.data = (if options = [] then none else some options) ∧ c.flags = a.flags ||| flags := by
  obtain ⟨a, ha, h⟩ := bind_eq_ok.mp h
  refine ⟨a, ?_⟩
  split at h
  · cases pure_eq_ok.mp h
  · next source target hoperands =>
    obtain ⟨resolved, hresolved, h⟩ := bind_eq_ok.mp h
    obtain ⟨⟨options, flags⟩, hoptions, h⟩ := bind_eq_ok.mp h
    cases pure_eq_ok.mp h
    exact ⟨source, ha, hoperands, hresolved, rfl, rfl, options, flags, hoptions, rfl, rfl⟩
  · exact absurd h throw_ne_ok.mp

theorem runMount_of_reads {resolved options : Str} {flags : Flags}
    (ha : readArguments args {} = .ok a) (hoperands : a.operands = [source, target])
    (hresolved : resolveTaggedSource d source = .ok resolved)
    (hoptions : parseMountOptions (join [','] a.optionValues) = .ok (options, flags)) :
    runMount d args = .ok (.call
      ⟨resolved, target, chosenFilesystem d a resolved, if options = [] then none else some options,
        a.flags ||| flags⟩
      (mountHelperArguments resolved target (chosenFilesystem d a resolved)
        (join [','] a.optionValues) a)) := by
  rw [runMount, ha]
  simp only [bind, Except.bind, hoperands, hresolved, hoptions]
  rfl

theorem join_helperReads (source target : Str) (filesystem : Option Str) (rawOptions : Str) :
    join [','] (helperReads source target filesystem rawOptions a).optionValues = rawOptions := by
  unfold helperReads
  by_cases hempty : rawOptions = []
  · rw [hempty]
    rfl
  · simp [if_neg hempty, join]

theorem mountHelperArguments_again (source target : Str) (filesystem : Option Str) (rawOptions : Str) :
    mountHelperArguments source target filesystem rawOptions
        (helperReads source target filesystem rawOptions a) =
      mountHelperArguments source target filesystem rawOptions a := by
  unfold mountHelperArguments helperReads
  cases a.recursiveBindArgument <;> rfl

end

/-- If the system call fails, the helper is given arguments that ask for the same call: the applet
reads them back as it read its own. -/
theorem helper_repeats (d : Devices) (hd : d.NamesPaths) (args helper : List Str) (c : MountCall)
    (h : runMount d args = .ok (.call c helper)) : runMount d helper = .ok (.call c helper) := by
  obtain ⟨a, source, ha, -, hresolved, hfilesystem, hhelper, options, flags, hoptions, hdata, hflags⟩ :=
    runMount_call h
  have hcoherent : a.Coherent := readArguments_coherent (by unfold Arguments.Coherent; decide) ha
  have hread := readArguments_helper c.source c.target hcoherent c.filesystem
    (join [','] a.optionValues)
  rw [← hhelper] at hread
  have hagain := resolveTaggedSource_again hd hresolved
  have hchosen : chosenFilesystem d (helperReads c.source c.target c.filesystem
      (join [','] a.optionValues) a) c.source = c.filesystem := by
    rw [hfilesystem]
    exact chosenFilesystem_again _
  have harguments := mountHelperArguments_again (a := a) c.source c.target c.filesystem
    (join [','] a.optionValues)
  have hjoin := join_helperReads (a := a) c.source c.target c.filesystem
    (join [','] a.optionValues)
  rw [← hjoin] at hoptions
  rw [runMount_of_reads hread rfl hagain hoptions, hchosen, hjoin, harguments, ← hhelper]
  have hc : (⟨c.source, c.target, c.filesystem, c.data, a.flags ||| flags⟩ : MountCall) = c := by
    rw [← hflags]
  rw [← hdata]
  exact congrArg (fun c => Except.ok (Mounting.call c helper)) hc

def labelled : Devices where
  present _ := false
  launch program arguments :=
    if program = "/usr/bin/blkid".toList ∧ arguments = ["-L".toList, "data".toList] then
      .exited true "/dev/sda1\n".toList
    else .exited false []

theorem labelled_namesPaths : labelled.NamesPaths := by
  intro kind identifier directory arguments _ program output hlaunch device hline
  unfold labelled at hlaunch
  dsimp only at hlaunch
  split_ifs at hlaunch
  · cases hlaunch
    have hfirst : firstLine "/dev/sda1\n".toList = some "/dev/sda1".toList := by decide
    rw [hfirst] at hline
    cases hline
    rfl
  · cases hlaunch

theorem helper_repeats_labelled :
    runMount labelled ["--rbind".toList, "-oro,x-a=b".toList, "LABEL=data".toList, "/mnt".toList] =
        .ok (.call ⟨"/dev/sda1".toList, "/mnt".toList, none, none, msBind ||| msRec ||| msRdonly⟩
          ["--rbind".toList, "-o".toList, "ro,x-a=b".toList, "--".toList, "/dev/sda1".toList,
            "/mnt".toList]) ∧
      runMount labelled ["--rbind".toList, "-o".toList, "ro,x-a=b".toList, "--".toList,
          "/dev/sda1".toList, "/mnt".toList] =
        .ok (.call ⟨"/dev/sda1".toList, "/mnt".toList, none, none, msBind ||| msRec ||| msRdonly⟩
          ["--rbind".toList, "-o".toList, "ro,x-a=b".toList, "--".toList, "/dev/sda1".toList,
            "/mnt".toList]) := by
  refine ⟨by decide, ?_⟩
  exact helper_repeats labelled labelled_namesPaths
    ["--rbind".toList, "-oro,x-a=b".toList, "LABEL=data".toList, "/mnt".toList] _ _ (by decide)

end FractalD.Toolbox.MountOptions
