import FractalD.Kernel.Steps
import FractalD.Machine.Wire
import Mathlib.Data.List.Forall2
import Mathlib.Data.List.TakeWhile

namespace FractalD.Kernel.BootEntry

open FractalD.Kernel.FileSystem FractalD.Kernel.Install FractalD.Kernel.Steps
open FractalD.Machine.CString FractalD.Machine.Effect FractalD.Machine.Text FractalD.Machine.Wire

/-- What a line says of a key; blanks around a value are no part of it. -/
def valueOf (key line : Str) : Option Str :=
  let words := trim line
  if words.takeWhile (!isWhitespace ·) = key then some (trim (words.dropWhile (!isWhitespace ·)))
  else none

/-- The values of a key in the text of a loader entry. -/
def values (key text : Str) : List Str := (text.splitOn '\n').filterMap (valueOf key)

section

variable {key : Str}

theorem trim_append {s w : Str} (hw : ∀ c ∈ w, isWhitespace c) : trim (s ++ w) = trim s := by
  rw [trim, trim]
  by_cases hs : ∀ c ∈ s, isWhitespace c
  · rw [List.dropWhile_append_of_pos hs, List.dropWhile_eq_nil_iff.mpr hs,
      List.dropWhile_eq_nil_iff.mpr hw]
  · have hne : s.dropWhile isWhitespace ≠ [] := fun h => hs (List.dropWhile_eq_nil_iff.mp h)
    rw [List.dropWhile_append, if_neg (by simpa using hs), trimEnd, trimEnd, List.reverse_append,
      List.dropWhile_append_of_pos fun c hc => hw c (List.mem_reverse.mp hc)]

theorem valueOf_word {word : Str} (hsolid : Solid word) (hne : word ≠ []) (rest : Str) :
    valueOf key (word ++ ' ' :: rest) = if word = key then some (trim rest) else none := by
  obtain ⟨w, hline, hw, -⟩ := trimEnd_append isWhitespace (word ++ ' ' :: rest)
  obtain ⟨u, htrim, hrest⟩ :
      ∃ u, trimEnd isWhitespace (word ++ ' ' :: rest) = word ++ u ∧ ' ' :: rest = u ++ w := by
    obtain ⟨u, hu, hrest⟩ | ⟨u, hu, hrest⟩ := List.append_eq_append_iff.mp hline
    · exact ⟨u, hu, hrest⟩
    · have hnil : u = [] := by
        refine List.eq_nil_iff_forall_not_mem.mpr fun c hc => ?_
        have hsp := hw c (hrest ▸ List.mem_append_left _ hc)
        rw [hsolid c (hu ▸ List.mem_append_right _ hc)] at hsp
        cases hsp
      subst hnil
      rw [List.append_nil] at hu
      exact ⟨[], by rw [List.append_nil, ← hu], hrest.symm⟩
  have hdrop : (word ++ ' ' :: rest).dropWhile isWhitespace = word ++ ' ' :: rest := by
    cases word with
    | nil => exact absurd rfl hne
    | cons a word =>
      exact List.dropWhile_cons_of_neg (by simp [hsolid a List.mem_cons_self])
  have hword : ∀ c ∈ word, (!isWhitespace c) = true := fun c hc => by simp [hsolid c hc]
  have hu : u.takeWhile (!isWhitespace ·) = [] ∧ u.dropWhile (!isWhitespace ·) = u := by
    cases u with
    | nil => exact ⟨rfl, rfl⟩
    | cons a u =>
      obtain ⟨rfl, -⟩ := List.cons.inj hrest
      exact ⟨rfl, rfl⟩
  have hvalue : trim u = trim rest := by
    rw [← trim_append hw, ← hrest]
    rfl
  rw [valueOf, trim, hdrop, htrim, List.takeWhile_append_of_pos hword,
    List.dropWhile_append_of_pos hword, hu.1, hu.2, hvalue, List.append_nil]

theorem values_ended (hkey : key ≠ []) (lines : List Str) :
    values key (lines.flatMap (· ++ ['\n'])) = lines.flatMap (values key) := by
  induction lines with
  | nil => simp [values, valueOf, trim, trimEnd, hkey.symm]
  | cons line lines ih =>
    rw [List.flatMap_cons, List.flatMap_cons, ← ih, values, List.append_assoc,
      List.singleton_append, List.splitOn_append_cons_self, List.filterMap_append]
    rfl

theorem values_line {line : Str} (h : '\n' ∉ line) :
    values key line = (valueOf key line).toList := by
  rw [values, List.splitOn_eq_singleton h]
  cases hv : valueOf key line <;> simp [hv]

theorem values_broken {start : Str} (h : '\n' ∉ start) (s : Str) :
    values key (start ++ s) = (valueOf key (start ++ s.takeWhile (· ≠ '\n'))).toList ++
      (s.splitOn '\n').tail.filterMap (valueOf key) := by
  have hfirst : '\n' ∉ s.takeWhile (· ≠ '\n') := fun hc => by
    simpa using List.all_eq_true.mp List.all_takeWhile _ hc
  have hs := List.takeWhile_append_dropWhile (p := (· ≠ '\n')) (l := s)
  cases hd : s.dropWhile (· ≠ '\n') with
  | nil =>
    rw [hd, List.append_nil] at hs
    rw [hs] at hfirst ⊢
    rw [values_line (by simp [h, hfirst]), List.splitOn_eq_singleton hfirst]
    simp
  | cons c rest =>
    have hc : c = '\n' := by
      have hhead := List.head?_dropWhile_not (fun c => decide (c ≠ '\n')) s
      rw [hd] at hhead
      simpa using hhead
    subst hc
    rw [hd] at hs
    have hsplit : s.splitOn '\n' = s.takeWhile (· ≠ '\n') :: rest.splitOn '\n' := by
      conv => lhs; rw [← hs]
      exact List.splitOn_append_cons_self_of_not_mem hfirst rest
    have hwhole : (start ++ s).splitOn '\n' =
        (start ++ s.takeWhile (· ≠ '\n')) :: rest.splitOn '\n' := by
      conv => lhs; rw [← hs, ← List.append_assoc]
      exact List.splitOn_append_cons_self_of_not_mem
        (fun hc => (List.mem_append.mp hc).elim h hfirst) rest
    rw [values, hwhole, hsplit, List.filterMap_cons]
    cases valueOf key (start ++ s.takeWhile (· ≠ '\n')) <;> rfl

end

/-- The value that a line of the loader entry has for an initrd, whose name may be broken up. -/
def spelled (c : Context) (version name : Str) : Str :=
  trim (bootPath [c.entryToken, version, name.takeWhile (· ≠ '\n')])

/-- The lines that a name makes beyond the first. -/
def further (name : Str) : List Str := (name.splitOn '\n').tail

section

variable {env : Environment} {c : Context} {version : Str} {names : List Str} {t : Tree}

theorem newline_validName {name : Str} (h : validName name = true) : '\n' ∉ name := by
  intro hm
  simp only [validName, Bool.and_eq_true, Bool.not_eq_true', List.any_eq_false] at h
  exact h.2 '\n' hm rfl

theorem newline_lookupKey {values : List (Str × Str)} {key value : Str}
    (h : ∀ kv ∈ values, '\n' ∉ kv.2) (hv : lookupKey values key = some value) : '\n' ∉ value := by
  obtain ⟨kv, hfind, rfl⟩ := Option.map_eq_some_iff.mp hv
  exact h kv (List.mem_reverse.mp (List.mem_of_find?_eq_some hfind))

theorem newline_osRelease {os : Os} {root : Path} :
    ∀ kv ∈ osRelease os t root, '\n' ∉ kv.2 := by
  intro kv hkv
  unfold osRelease at hkv
  split at hkv
  next => cases hkv
  next contents _ =>
    obtain ⟨line, hline, hkv⟩ := List.mem_filterMap.mp hkv
    obtain ⟨⟨k, v⟩, hsplit, rfl⟩ := Option.map_eq_some_iff.mp hkv
    intro hm
    have hv : '\n' ∈ v :=
      (List.dropWhile_suffix _).subset (List.mem_reverse.mp
        ((List.dropWhile_suffix _).subset (List.mem_reverse.mp hm)))
    unfold splitOnce at hsplit
    split at hsplit
    next => cases hsplit
    next rest hdrop =>
      obtain ⟨-, rfl⟩ := Prod.mk.inj (Option.some.inj hsplit)
      have hrest : '\n' ∈ line.dropWhile (· ≠ '=') := hdrop ▸ List.mem_cons_of_mem _ hv
      exact newline_not_mem hline ((List.dropWhile_suffix _).subset hrest)

theorem newline_title (hv : validName version = true) :
    '\n' ∉ (loaderEntry env c t version names).title := by
  rw [loaderEntry]
  cases hk : lookupKey (osRelease env.os t c.root) "PRETTY_NAME".toList with
  | none =>
    intro hm
    obtain hm | hm := List.mem_append.mp hm
    · revert hm
      decide
    · exact newline_validName hv hm
  | some title => exact newline_lookupKey newline_osRelease hk

theorem newline_join {words : List Str} (h : ∀ word ∈ words, '\n' ∉ word) :
    '\n' ∉ join [' '] words := by
  induction words with
  | nil => exact List.not_mem_nil
  | cons word words ih =>
    obtain ⟨hword, hwords⟩ := List.forall_mem_cons.mp h
    cases words with
    | nil =>
      rw [join_singleton]
      exact hword
    | cons next words =>
      rw [join_cons_cons]
      intro hm
      obtain hm | hm := List.mem_append.mp hm
      · exact hword hm
      · obtain hm | hm := List.mem_cons.mp hm
        · cases hm
        · exact ih hwords hm

theorem newline_options : '\n' ∉ (loaderEntry env c t version names).options := by
  have hwords : ∀ s p, '\n' ∉ join [' '] ((splitWhitespace s).filter p) := fun s p =>
    newline_join fun word hword hm => by
      have hsolid := (solid_of_mem_splitWhitespace (List.mem_of_mem_filter hword)).1 '\n' hm
      cases hsolid
  change '\n' ∉ kernelCmdline env.os t c.root
  unfold kernelCmdline
  split
  next => exact hwords _ _
  next =>
    split
    next => exact hwords _ _
    next => exact List.not_mem_nil

/-- The lines of a loader entry before those of its initrds; none of them is broken up. -/
def headLines (e : LoaderEntry) : List Str :=
  ["# Boot Loader Specification type#1 entry".toList, "title      ".toList ++ e.title,
    "version    ".toList ++ e.version] ++
    (e.machineId.toList.map ("machine-id ".toList ++ ·)) ++
    (if e.options = [] then [] else ["options    ".toList ++ e.options]) ++
    ["linux      ".toList ++ bootPath e.linux]

theorem text_flatMap (first title version id options linux initrd : Str) (e : LoaderEntry) :
    first ++ ['\n'] ++ title ++ e.title ++ '\n' :: version ++ e.version ++ ['\n'] ++
        e.machineId.elim [] (fun name => id ++ name ++ ['\n']) ++
        (if e.options = [] then [] else options ++ e.options ++ ['\n']) ++
        linux ++ bootPath e.linux ++ ['\n'] ++
        e.initrds.flatMap (fun names => initrd ++ bootPath names ++ ['\n']) =
      ([first, title ++ e.title, version ++ e.version] ++ e.machineId.toList.map (id ++ ·) ++
        (if e.options = [] then [] else [options ++ e.options]) ++ [linux ++ bootPath e.linux] ++
        e.initrds.map (initrd ++ bootPath ·)).flatMap (· ++ ['\n']) := by
  cases e.machineId <;> by_cases ho : e.options = [] <;>
    simp only [if_pos, if_neg, ho, not_false_eq_true, List.flatMap_cons, List.flatMap_map,
      List.append_assoc, List.cons_append, List.nil_append,
      List.append_nil, List.map_cons, List.map_nil, Option.toList_none, Option.toList_some,
      Option.elim_none, Option.elim_some]

theorem text_lines (e : LoaderEntry) :
    e.text = (headLines e ++ e.initrds.map ("initrd     ".toList ++ bootPath ·)).flatMap
      (· ++ ['\n']) := by
  obtain ⟨title, version, id, options, linux, initrds⟩ := e
  cases id <;>
    exact text_flatMap "# Boot Loader Specification type#1 entry".toList "title      ".toList
      "version    ".toList "machine-id ".toList "options    ".toList "linux      ".toList
      "initrd     ".toList _

theorem headLines_single (hv : validName version = true) :
    ∀ line ∈ headLines (loaderEntry env c t version names), '\n' ∉ line := by
  have happ : ∀ {start s : Str}, '\n' ∉ start → '\n' ∉ s → '\n' ∉ start ++ s :=
    fun hstart hs hm => (List.mem_append.mp hm).elim hstart hs
  have hid : ∀ id ∈ (loaderEntry env c t version names).machineId, '\n' ∉ id := by
    intro id hid
    simp only [loaderEntry] at hid
    split at hid
    next =>
      obtain rfl := Option.some.inj hid
      exact newline_validName c.validToken
    next => cases hid
  have hlinux : '\n' ∉ bootPath (loaderEntry env c t version names).linux := by
    have htoken := newline_validName c.validToken
    have hversion := newline_validName hv
    simp [bootPath, loaderEntry, htoken, hversion]
  simp only [headLines, List.forall_mem_append, List.forall_mem_cons, List.forall_mem_map,
    Option.mem_toList]
  refine ⟨⟨⟨⟨by decide, happ (by decide) (newline_title hv), happ (by decide) (newline_validName hv),
    fun _ h => absurd h List.not_mem_nil⟩, fun id h => happ (by decide) (hid id h)⟩, ?_⟩,
    happ (by decide) hlinux, fun _ h => absurd h List.not_mem_nil⟩
  split
  next => exact fun _ h => absurd h List.not_mem_nil
  next => exact List.forall_mem_singleton.mpr (happ (by decide) newline_options)

theorem values_word {key word rest : Str} (hsolid : Solid word) (hne : word ≠ [])
    (h : '\n' ∉ word ++ ' ' :: rest) :
    values key (word ++ ' ' :: rest) = if word = key then [trim rest] else [] := by
  rw [values_line h, valueOf_word hsolid hne]
  split <;> rfl

theorem values_headLines {key : Str} (hv : validName version = true)
    (hkey : key ∉ ["#".toList, "title".toList, "version".toList, "machine-id".toList,
      "options".toList]) :
    (headLines (loaderEntry env c t version names)).flatMap (values key) =
      if "linux".toList = key then [trim (bootPath [c.entryToken, version, "linux".toList])]
      else [] := by
  have hsingle : ∀ line ∈ headLines (loaderEntry env c t version names), '\n' ∉ line :=
    headLines_single hv
  have hother : ∀ word rest : Str, word ∈ ["#".toList, "title".toList, "version".toList,
      "machine-id".toList, "options".toList] → '\n' ∉ word ++ ' ' :: rest →
      values key (word ++ ' ' :: rest) = [] := by
    intro word rest hword hline
    have hplain : ∀ word ∈ ["#".toList, "title".toList, "version".toList, "machine-id".toList,
        "options".toList], Solid word ∧ word ≠ [] := by decide
    rw [values_word (hplain word hword).1 (hplain word hword).2 hline,
      if_neg (ne_of_mem_of_not_mem hword hkey)]
  have hlinux : ∀ rest : Str, '\n' ∉ "linux".toList ++ ' ' :: rest →
      values key ("linux".toList ++ ' ' :: rest) =
        if "linux".toList = key then [trim rest] else [] := fun rest h =>
    values_word (by decide) (by decide) h
  simp only [headLines, List.forall_mem_append, List.forall_mem_cons, List.forall_mem_map] at hsingle
  obtain ⟨⟨⟨⟨hfirst, htitle, hversion, -⟩, hid⟩, hoptions⟩, hentry, -⟩ := hsingle
  have hids : ((loaderEntry env c t version names).machineId.toList.map
      ("machine-id ".toList ++ ·)).flatMap (values key) = [] := by
    rw [List.flatMap_eq_nil_iff]
    intro line hline
    obtain ⟨id, hmem, rfl⟩ := List.mem_map.mp hline
    exact hother "machine-id".toList id (by simp) (hid id hmem)
  have hstart : ["# Boot Loader Specification type#1 entry".toList,
      "title      ".toList ++ (loaderEntry env c t version names).title,
      "version    ".toList ++ (loaderEntry env c t version names).version].flatMap (values key) =
        [] := by
    rw [List.flatMap_eq_nil_iff]
    refine List.forall_mem_cons.mpr ⟨?_, List.forall_mem_cons.mpr ⟨?_, List.forall_mem_cons.mpr
      ⟨?_, fun _ h => absurd h List.not_mem_nil⟩⟩⟩
    · exact hother "#".toList _ (by simp) hfirst
    · exact hother "title".toList _ (by simp) htitle
    · exact hother "version".toList _ (by simp) hversion
  have hopts : (if (loaderEntry env c t version names).options = [] then []
      else ["options    ".toList ++ (loaderEntry env c t version names).options]).flatMap
        (values key) = [] := by
    split
    next => rfl
    next ho =>
      rw [if_neg ho] at hoptions
      rw [List.flatMap_singleton]
      exact hother "options".toList _ (by simp) (hoptions _ List.mem_cons_self)
  rw [headLines, List.flatMap_append, List.flatMap_append, List.flatMap_append, hstart, hids, hopts,
    List.flatMap_singleton]
  exact hlinux _ hentry

theorem valueOf_initrd (key rest : Str) : valueOf key ("initrd     ".toList ++ rest) =
    if "initrd".toList = key then some (trim rest) else none := by
  have hsolid : Solid "initrd".toList := by decide
  exact (valueOf_word hsolid (by decide) ("    ".toList ++ rest)).trans rfl

theorem values_initrdLine {key : Str} (hv : validName version = true) (name : Str) :
    values key ("initrd     ".toList ++ bootPath [c.entryToken, version, name]) =
      (if "initrd".toList = key then [spelled c version name] else []) ++
        (further name).filterMap (valueOf key) := by
  have hstart : '\n' ∉ "initrd     ".toList ++ bootPath [c.entryToken, version, []] := by
    have htoken := newline_validName c.validToken
    have hversion := newline_validName hv
    intro hm
    obtain hm | hm := List.mem_append.mp hm
    · revert hm
      decide
    · simp [bootPath, htoken, hversion] at hm
  have hpath : ∀ s, bootPath [c.entryToken, version, s] = bootPath [c.entryToken, version, []] ++ s :=
    fun s => by simp [bootPath]
  rw [hpath, ← List.append_assoc, values_broken hstart, List.append_assoc, ← hpath, valueOf_initrd]
  split <;> rfl

theorem values_text {key : Str} (hkey : key ≠ []) (hv : validName version = true) :
    values key (loaderEntry env c t version names).text =
      (headLines (loaderEntry env c t version names)).flatMap (values key) ++
        names.flatMap fun name => (if "initrd".toList = key then [spelled c version name] else []) ++
          (further name).filterMap (valueOf key) := by
  have hinitrds : (loaderEntry env c t version names).initrds =
      names.map fun name => [c.entryToken, version, name] := rfl
  rw [text_lines, values_ended hkey, List.flatMap_append, hinitrds, List.map_map, List.flatMap_map]
  congr 1
  exact List.flatMap_congr fun name _ => values_initrdLine hv name

/-- The kernel is named once, unless a name of an initrd makes a line of that kind. -/
theorem values_linux (hv : validName version = true) :
    values "linux".toList (loaderEntry env c t version names).text =
      trim (bootPath [c.entryToken, version, "linux".toList]) ::
        names.flatMap fun name => (further name).filterMap (valueOf "linux".toList) := by
  rw [values_text (by decide) hv, values_headLines hv (by decide)]
  rfl

theorem values_initrd (hv : validName version = true) :
    values "initrd".toList (loaderEntry env c t version names).text =
      names.flatMap fun name => spelled c version name ::
        (further name).filterMap (valueOf "initrd".toList) := by
  rw [values_text (by decide) hv, values_headLines hv (by decide)]
  rfl

end

/-- A place below the boot root. -/
def bootFile (os : Os) (c : Context) (names : List Str) : Location :=
  resolve os c.bootRoot ++ names

def namedFile (os : Os) (c : Context) (value : Str) : Location :=
  resolve os ⟨c.bootRoot.absolute, c.bootRoot.components ++ (Path.parse value).components⟩

/-- A value names a file of the entry directory that has the contents of its source. -/
def Boots (os : Os) (c : Context) (version : Str) (sources after : Tree) (value : Str)
    (source : Path) : Prop :=
  (∃ name, namedFile os c value = resolve os (entryDirectory c version) ++ [name]) ∧
    ∃ image, textOf sources (resolve os source) = some image ∧
      textOf after (namedFile os c value) = some image

/-- There is a loader entry. It names the kernel and the initrds in turn, each by a file of the
entry directory with the contents of what has been installed. -/
structure Bootable (os : Os) (c : Context) (version : Str) (kernelImage : Path)
    (initrds : List Path) (before images after : Tree) (text : Str) : Prop where
  written : textOf after (resolve os (entryPath c version)) = some text
  linux : List.Forall₂ (Boots os c version before after) (values "linux".toList text) [kernelImage]
  initrds : List.Forall₂ (Boots os c version images after) (values "initrd".toList text) initrds

/-- The files that are read at boot, each with the source that it stands for. -/
def entryReads (os : Os) (c : Context) (version : Str) (kernelImage : Path)
    (initrds : List Path) : List (Location × Location) :=
  (resolve os kernelImage, resolve os (entryDirectory c version) ++ ["linux".toList]) ::
    initrds.filterMap fun p =>
      p.fileName.map fun name => (resolve os p, namedFile os c (spelled c version name))

/-- What is read at boot is what has been installed: it is in the directory; the last file that is
copied there has the same contents, and has been somewhere else unless it is empty; where nothing
is copied, what was there before has them; and only the text itself stands for the last file. -/
structure Apart (files : Location → Option Str) (cs rs : List (Location × Location))
    (directory last : Location) (text : Str) : Prop where
  inside : ∀ r ∈ rs, ∃ name, r.2 = directory ++ [name]
  same : ∀ r ∈ rs, r.2 ≠ last → ∀ s, lastSource r.2 cs = some s → s ≠ r.2 → files s = files r.1
  own : ∀ r ∈ rs, r.2 ≠ last → lastSource r.2 cs = some r.2 → files r.1 = some []
  kept : ∀ r ∈ rs, r.2 ≠ last → lastSource r.2 cs = none → files r.2 = files r.1
  text : ∀ r ∈ rs, r.2 = last → files r.1 = some text

theorem delivered_iff {files : Location → Option Str} {cs rs : List (Location × Location)}
    {directory last : Location} {text : Str} :
    (∀ r ∈ rs, (∃ name, r.2 = directory ++ [name]) ∧
        Function.update (copied files cs) last (some text) r.2 = files r.1) ↔
      Apart files cs rs directory last text := by
  constructor
  · intro h
    have hother : ∀ r ∈ rs, r.2 ≠ last → copied files cs r.2 = files r.1 := by
      intro r hr hne
      have hr := (h r hr).2
      rwa [Function.update_of_ne hne] at hr
    refine ⟨fun r hr => (h r hr).1, fun r hr hne s hs hsr => ?_, fun r hr hne hs => ?_,
      fun r hr hne hs => ?_, fun r hr he => ?_⟩
    · have hr := hother r hr hne
      simp only [copied, hs] at hr
      rwa [if_neg hsr] at hr
    · have hr := hother r hr hne
      simp only [copied, hs] at hr
      exact hr.symm.trans (if_pos trivial)
    · have hr := hother r hr hne
      simp only [copied, hs] at hr
      exact hr
    · rw [← (h r hr).2, he, Function.update_self]
  · intro h r hr
    refine ⟨h.inside r hr, ?_⟩
    by_cases he : r.2 = last
    · rw [he, Function.update_self, h.text r hr he]
    · rw [Function.update_of_ne he, copied]
      cases hs : lastSource r.2 cs with
      | none => exact h.kept r hr he hs
      | some s =>
        by_cases hsr : s = r.2
        · subst hsr
          rw [h.own r hr he hs]
          exact if_pos rfl
        · exact (if_neg hsr).trans (h.same r hr he s hs hsr)

theorem apart_text {files : Location → Option Str} {cs rs : List (Location × Location)}
    {directory last : Location} {text text' : Str} (h : Apart files cs rs directory last text)
    (hsame : ∀ name, directory ++ [name] = last → text = text') :
    Apart files cs rs directory last text' := by
  refine ⟨h.inside, h.same, h.own, h.kept, fun r hr he => ?_⟩
  obtain ⟨name, hname⟩ := h.inside r hr
  rw [← hsame name (hname.symm.trans he)]
  exact h.text r hr he

/-- The installation of an entry delivers: no name of an initrd makes a line of its own that names
another file, and what is read at boot is apart. -/
structure Installable (env : Environment) (c : Context) (version : Str) (kernelImage : Path)
    (initrds : List Path) (images : Tree) : Prop where
  lines : ∀ name ∈ initrds.filterMap Path.fileName, ∀ line ∈ further name,
    valueOf "linux".toList line = none ∧ valueOf "initrd".toList line = none
  apart : Apart (textOf images) (entryCopies env.os c version kernelImage initrds)
    (entryReads env.os c version kernelImage initrds) (resolve env.os (entryDirectory c version))
    (resolve env.os (entryPath c version))
    (loaderEntry env c images version (initrds.filterMap Path.fileName)).text

section

variable {env : Environment} {c : Context} {version : Str} {kernelImage : Path}
  {initrds : List Path} {names : List Str} {t : Tree}

theorem entryFile_location (hv : validName version = true) (name : Str) :
    resolve env.os (entryDirectory c version) ++ [name] =
      bootFile env.os c [c.entryToken, version, name] := by
  rw [resolve_entryDirectory hv, bootFile]
  simp

theorem slash_validName {name : Str} (h : validName name = true) :
    '/' ∉ name ∧ name ≠ [] ∧ name ≠ ['.'] ∧ name ≠ parentDir := by
  simp only [validName, Bool.and_eq_true, decide_eq_true_eq, Bool.not_eq_true',
    List.contains_eq_mem, decide_eq_false_iff_not] at h
  exact ⟨h.1.2, h.1.1.1.1, h.1.1.1.2, h.1.1.2⟩

theorem namedFile_bootPath {name : Str} (hv : validName version = true) (hslash : '/' ∉ name)
    (hne : name ≠ [] ∧ name ≠ ['.'] ∧ name ≠ parentDir) :
    namedFile env.os c (bootPath [c.entryToken, version, name]) =
      resolve env.os (entryDirectory c version) ++ [name] := by
  obtain ⟨htoken, htoken₀, htoken₁, htoken₂⟩ := slash_validName c.validToken
  obtain ⟨hversion, hversion₀, hversion₁, hversion₂⟩ := slash_validName hv
  have hsplit : (bootPath [c.entryToken, version, name]).splitOn '/' =
      [[], c.entryToken, version, name] := by
    have hpath : bootPath [c.entryToken, version, name] =
        [] ++ '/' :: (c.entryToken ++ '/' :: (version ++ '/' :: name)) := by simp [bootPath]
    rw [hpath, List.splitOn_append_cons_self_of_not_mem List.not_mem_nil,
      List.splitOn_append_cons_self_of_not_mem htoken,
      List.splitOn_append_cons_self_of_not_mem hversion, List.splitOn_eq_singleton hslash]
  have hparse : (Path.parse (bootPath [c.entryToken, version, name])).components =
      [c.entryToken, version, name] := by
    simp [Path.parse, hsplit, htoken₀, htoken₁, hversion₀, hversion₁, hne]
  rw [namedFile, hparse, entryFile_location hv, bootFile, resolve, List.foldl_append]
  simp [step, htoken₂, hversion₂, hne, resolve]

theorem namedFile_linux (hv : validName version = true) :
    namedFile env.os c (trim (bootPath [c.entryToken, version, "linux".toList])) =
      resolve env.os (entryDirectory c version) ++ ["linux".toList] := by
  have htrim : trim (bootPath [c.entryToken, version, "linux".toList]) =
      bootPath [c.entryToken, version, "linux".toList] := by
    have hlast : bootPath [c.entryToken, version, "linux".toList] =
        bootPath [c.entryToken, version, "linu".toList] ++ ['x'] := by simp [bootPath]
    refine trim_self (fun a ha => ?_) fun a ha => ?_
    · obtain rfl := Option.some.inj ha
      rfl
    · rw [hlast, List.getLast?_concat] at ha
      obtain rfl := Option.some.inj ha
      rfl
  rw [htrim, namedFile_bootPath hv (by decide) (by decide)]

/-- A file name without a new line that has no blank at its end. -/
structure Spellable (name : Str) : Prop where
  slash : '/' ∉ name
  proper : name ≠ [] ∧ name ≠ ['.'] ∧ name ≠ parentDir
  line : '\n' ∉ name
  last : ∀ a ∈ name.getLast?, isWhitespace a = false

theorem namedFile_spelled {name : Str} (hv : validName version = true) (hname : Spellable name) :
    namedFile env.os c (spelled c version name) =
      resolve env.os (entryDirectory c version) ++ [name] := by
  have hwhole : name.takeWhile (· ≠ '\n') = name :=
    List.takeWhile_eq_self_iff.mpr fun a ha => by simpa using ne_of_mem_of_not_mem ha hname.line
  have htrim : spelled c version name = bootPath [c.entryToken, version, name] := by
    rw [spelled, hwhole]
    refine trim_self (fun a ha => ?_) fun a ha => hname.last a ?_
    · obtain rfl := Option.some.inj ha
      rfl
    · have hpath : bootPath [c.entryToken, version, name] =
          bootPath [c.entryToken, version, []] ++ name := by simp [bootPath]
      rwa [hpath, List.getLast?_append_of_ne_nil _ hname.proper.1] at ha
  rw [htrim, namedFile_bootPath hv hname.slash hname.proper]

theorem entryReads_spellable (hv : validName version = true)
    (h : ∀ p ∈ initrds, ∀ name ∈ p.fileName, Spellable name) :
    entryReads env.os c version kernelImage initrds =
      entryCopies env.os c version kernelImage initrds := by
  rw [entryReads, entryCopies, initrdCopies]
  congr 1
  refine List.filterMap_congr fun p hp => ?_
  cases hname : p.fileName with
  | none => rfl
  | some name =>
    rw [Option.map_some, Option.map_some, namedFile_spelled hv (h p hp name hname)]

theorem flatMap_length_le (f : Str → Str) (g : Str → List Str) (names : List Str) :
    names.length ≤ (names.flatMap fun name => f name :: g name).length := by
  induction names with
  | nil => exact Nat.le_refl _
  | cons name names ih =>
    rw [List.flatMap_cons, List.length_append, List.length_cons, List.length_cons]
    omega

theorem flatMap_single {f : Str → Str} {g : Str → List Str} {names : List Str} :
    (names.flatMap fun name => f name :: g name).length = names.length ↔
      ∀ name ∈ names, g name = [] := by
  induction names with
  | nil => simp
  | cons name names ih =>
    have hle := flatMap_length_le f g names
    rw [List.flatMap_cons, List.length_append, List.length_cons, List.length_cons,
      List.forall_mem_cons, ← ih, ← List.length_eq_zero_iff]
    omega

end

section

variable {env : Environment} {c : Context} {version : Str} {kernelImage : Path}
  {initrds : List Path} {names : List Str} {t₂ before images after : Tree}

theorem names_eq (hn : List.Forall₂ (fun name p => Path.fileName p = some name) names initrds) :
    initrds.filterMap Path.fileName = names := by
  induction hn with
  | nil => rfl
  | cons h _ ih => rw [List.filterMap_cons_some h, ih]

theorem delivered_initrds
    (hn : List.Forall₂ (fun name p => Path.fileName p = some name) names initrds)
    (hi : ∀ p ∈ initrds, (textOf images (resolve env.os p)).isSome) :
    List.Forall₂ (Boots env.os c version images after) (names.map (spelled c version)) initrds ↔
      ∀ r ∈ initrds.filterMap fun p => p.fileName.map fun name =>
          (resolve env.os p, namedFile env.os c (spelled c version name)),
        (∃ name, r.2 = resolve env.os (entryDirectory c version) ++ [name]) ∧
          textOf after r.2 = textOf images r.1 := by
  induction hn with
  | nil => simp
  | @cons name p names initrds h _ ih =>
    obtain ⟨image, hp⟩ := Option.isSome_iff_exists.mp (hi p List.mem_cons_self)
    rw [List.map_cons, List.forall₂_cons, ih fun q hq => hi q (List.mem_cons_of_mem _ hq),
      List.filterMap_cons_some (by rw [h]; rfl), List.forall_mem_cons]
    simp [Boots, hp]

theorem values_linux_single (hv : validName version = true) :
    List.Forall₂ (Boots env.os c version before after)
        (values "linux".toList (loaderEntry env c t₂ version names).text) [kernelImage] ↔
      Boots env.os c version before after
          (trim (bootPath [c.entryToken, version, "linux".toList])) kernelImage ∧
        ∀ name ∈ names, ∀ line ∈ further name, valueOf "linux".toList line = none := by
  rw [values_linux hv, List.forall₂_cons, List.forall₂_nil_right_iff, List.flatMap_eq_nil_iff]
  simp only [List.filterMap_eq_nil_iff]

theorem values_initrd_single (hv : validName version = true)
    (hn : List.Forall₂ (fun name p => Path.fileName p = some name) names initrds) :
    List.Forall₂ (Boots env.os c version images after)
        (values "initrd".toList (loaderEntry env c t₂ version names).text) initrds ↔
      List.Forall₂ (Boots env.os c version images after) (names.map (spelled c version)) initrds ∧
        ∀ name ∈ names, ∀ line ∈ further name, valueOf "initrd".toList line = none := by
  have hsingle : (∀ name ∈ names, ∀ line ∈ further name, valueOf "initrd".toList line = none) ↔
      ∀ name ∈ names, (further name).filterMap (valueOf "initrd".toList) = [] := by
    simp only [List.filterMap_eq_nil_iff]
  have hplain : (∀ name ∈ names, (further name).filterMap (valueOf "initrd".toList) = []) →
      values "initrd".toList (loaderEntry env c t₂ version names).text =
        names.map (spelled c version) := by
    intro h
    rw [values_initrd hv, ← List.flatMap_singleton' (names.map (spelled c version)),
      List.flatMap_map]
    exact List.flatMap_congr fun name hname => by rw [h name hname]
  rw [hsingle]
  constructor
  · intro h
    have hlength := h.length_eq
    rw [values_initrd hv, ← hn.length_eq, flatMap_single] at hlength
    exact ⟨hplain hlength ▸ h, hlength⟩
  · rintro ⟨h, hnone⟩
    rwa [hplain hnone]

theorem bootable_iff_delivered (hv : validName version = true)
    (hn : List.Forall₂ (fun name p => Path.fileName p = some name) names initrds)
    (hk : textOf images (resolve env.os kernelImage) = textOf before (resolve env.os kernelImage))
    (hks : (textOf images (resolve env.os kernelImage)).isSome)
    (hi : ∀ p ∈ initrds, (textOf images (resolve env.os p)).isSome)
    (hw : textOf after (resolve env.os (entryPath c version)) =
      some (loaderEntry env c t₂ version names).text) :
    (∃ text, Bootable env.os c version kernelImage initrds before images after text) ↔
      (∀ name ∈ names, ∀ line ∈ further name,
        valueOf "linux".toList line = none ∧ valueOf "initrd".toList line = none) ∧
      ∀ r ∈ entryReads env.os c version kernelImage initrds,
        (∃ name, r.2 = resolve env.os (entryDirectory c version) ++ [name]) ∧
          textOf after r.2 = textOf images r.1 := by
  obtain ⟨image, him⟩ := Option.isSome_iff_exists.mp hks
  have hlinux : Boots env.os c version before after
      (trim (bootPath [c.entryToken, version, "linux".toList])) kernelImage ↔
        textOf after (resolve env.os (entryDirectory c version) ++ ["linux".toList]) =
          textOf images (resolve env.os kernelImage) := by
    rw [Boots, namedFile_linux hv, ← hk, him]
    simp
  have hall : (∃ text, Bootable env.os c version kernelImage initrds before images after text) ↔
      Bootable env.os c version kernelImage initrds before images after
        (loaderEntry env c t₂ version names).text := by
    constructor
    · rintro ⟨text, h⟩
      obtain rfl := Option.some.inj (h.written.symm.trans hw)
      exact h
    · exact fun h => ⟨_, h⟩
  rw [hall, entryReads, List.forall_mem_cons, ← delivered_initrds hn hi]
  constructor
  · rintro ⟨-, hl, hs⟩
    obtain ⟨hl, hlnone⟩ := (values_linux_single hv).mp hl
    obtain ⟨hs, hsnone⟩ := (values_initrd_single hv hn).mp hs
    exact ⟨fun name hname line hline => ⟨hlnone name hname line hline, hsnone name hname line hline⟩,
      ⟨⟨_, rfl⟩, hlinux.mp hl⟩, hs⟩
  · rintro ⟨hnone, ⟨-, hl⟩, hs⟩
    exact ⟨hw, (values_linux_single hv).mpr ⟨hlinux.mpr hl, fun name hname line hline =>
      (hnone name hname line hline).1⟩, (values_initrd_single hv hn).mpr ⟨hs,
        fun name hname line hline => (hnone name hname line hline).2⟩⟩

end

section

variable {env : Environment} {c : Context} {version : Str} {kernelImage : Path}
  {initrds : List Path} {names : List Str} {t t' : Tree}

theorem entryFile_ne_parentDir (version : Str) : entryFile c version ≠ parentDir := by
  intro h
  have hl := congrArg List.length h
  simp [entryFile, parentDir] at hl
  omega

theorem resolve_entryPath (version : Str) :
    resolve env.os (entryPath c version) =
      bootFile env.os c ["loader".toList, "entries".toList, entryFile c version] := by
  rw [entryPath, entriesDirectory, resolve_child _ _ (entryFile_ne_parentDir version),
    resolve_child _ _ (by decide), resolve_child _ _ (by decide), bootFile]
  simp

theorem bootRoot_prefix_directory (hv : validName version = true) (name : Str) :
    resolve env.os c.bootRoot <+: resolve env.os (entryDirectory c version) ++ [name] := by
  rw [entryFile_location hv]
  exact List.prefix_append _ _

theorem target_of_mem_entryCopies {os : Os} {a : Location × Location}
    (ha : a ∈ entryCopies os c version kernelImage initrds) :
    ∃ name, a.2 = resolve os (entryDirectory c version) ++ [name] := by
  obtain rfl | ha := List.mem_cons.mp ha
  · exact ⟨_, rfl⟩
  · exact target_of_mem_initrdCopies ha

theorem resolve_rootedPath {os : Os} {root path : Path} {directory name : Str} {above : List Str}
    (hpath : path.components = above ++ [directory, name]) (hd : directory ≠ parentDir)
    (hn : name ≠ parentDir) :
    ∃ l, resolve os (rootedPath root path) = l ++ [directory, name] := by
  have hends : ∀ (start : Location) (cs : List Str),
      ∃ l, (cs ++ path.components).foldl step start = l ++ [directory, name] := by
    intro start cs
    refine ⟨(cs ++ above).foldl step start, ?_⟩
    rw [hpath, ← List.append_assoc, List.foldl_append]
    simp [step, hd, hn]
  unfold rootedPath
  split
  next => exact hends _ []
  next => exact hends _ root.components

/-- The directories of the files that a loader entry is made from. -/
def sourceDirectories : List Str :=
  ["etc".toList, "lib".toList, "kernel".toList, "proc".toList]

theorem loaderEntry_congr
    (h : ∀ l, ∀ directory ∈ sourceDirectories, ∀ name,
      textOf t (l ++ [directory, name]) = textOf t' (l ++ [directory, name])) :
    loaderEntry env c t version names = loaderEntry env c t' version names := by
  have hread : ∀ (root path : Path) (above : List Str) (directory name : Str),
      path.components = above ++ [directory, name] → directory ∈ sourceDirectories →
      name ≠ parentDir → readToString env.os t (rootedPath root path) =
        readToString env.os t' (rootedPath root path) := by
    intro root path above directory name hpath hd hn
    obtain ⟨l, hl⟩ : ∃ l, resolve env.os (rootedPath root path) = l ++ [directory, name] :=
      resolve_rootedPath hpath (ne_of_mem_of_not_mem hd (by decide)) hn
    rw [readToString, readToString, hl, h l directory hd name]
  have hrelease : osRelease env.os t c.root = osRelease env.os t' c.root := by
    rw [osRelease, osRelease, List.findSome?_cons, List.findSome?_cons, List.findSome?_nil,
      List.findSome?_cons, List.findSome?_cons, List.findSome?_nil,
      hread c.root (.parse "/etc/os-release".toList) [] _ _ rfl (by decide) (by decide),
      hread c.root (.parse "/usr/lib/os-release".toList) ["usr".toList] _ _ rfl (by decide)
        (by decide)]
  have hcmdline : kernelCmdline env.os t c.root = kernelCmdline env.os t' c.root := by
    have hproc : readToString env.os t (.parse "/proc/cmdline".toList) =
        readToString env.os t' (.parse "/proc/cmdline".toList) :=
      hread rootDir (.parse "/proc/cmdline".toList) [] _ _ rfl (by decide) (by decide)
    rw [kernelCmdline, kernelCmdline, List.findSome?_cons, List.findSome?_cons, List.findSome?_nil,
      List.findSome?_cons, List.findSome?_cons, List.findSome?_nil,
      hread c.root (.parse "/etc/kernel/cmdline".toList) ["etc".toList] _ _ rfl (by decide)
        (by decide),
      hread c.root (.parse "/usr/lib/kernel/cmdline".toList) ["usr".toList, "lib".toList] _ _ rfl
        (by decide) (by decide), hproc]
  rw [loaderEntry, loaderEntry, hrelease, hcmdline]

theorem loaderEntry_copied {directory : Location} {cs : List (Location × Location)}
    (hcs : ∀ a ∈ cs, ∃ name, a.2 = directory ++ ["entries".toList, name])
    (ht : textOf t' = copied (textOf t) cs) :
    loaderEntry env c t' version names = loaderEntry env c t version names := by
  refine loaderEntry_congr fun l d hd name => ?_
  have hnone : lastSource (l ++ [d, name]) cs = none := by
    rw [← Option.not_isSome_iff_eq_none, lastSource_isSome]
    rintro ⟨a, ha, he⟩
    obtain ⟨n, hn⟩ := hcs a ha
    rw [hn] at he
    obtain ⟨-, hlast⟩ := List.append_inj' he rfl
    have hentries := (List.cons.inj hlast).1
    rw [← hentries] at hd
    revert hd
    decide
  rw [ht]
  simp only [copied, hnone]

end

section

variable {env : Environment} {c : Context} {operands : List Str} {version : Str}
  {kernelImage : Path} {initrds : List Path} {t t₁ t' : Tree}

theorem add_steps (hp : prepare env c operands t = .ok (version, kernelImage, initrds) t₁)
    (h : add env c operands t = .ok () t') :
    ∃ t₂ t₃, (if usesEntry c then installEntry env c version kernelImage initrds
        else installFlat env c version kernelImage initrds) t₁ = .ok () t₂ ∧
      addModuleIndex env c version t₂ = .ok () t₃ ∧
      runAdminPlugins env "add".toList version kernelImage initrds t₃ = .ok () t' := by
  obtain ⟨⟨v, k, is⟩, s, hp', h⟩ := bind_ok.mp h
  obtain ⟨⟨⟩, rfl⟩ : (version, kernelImage, initrds) = (v, k, is) ∧ t₁ = s := by
    simpa [hp] using hp'
  obtain ⟨_, t₂, hi, h⟩ := bind_ok.mp h
  obtain ⟨_, t₃, hm, h⟩ := bind_ok.mp h
  exact ⟨t₂, t₃, hi, hm, h⟩

theorem add_ok (hq : Quiet env c)
    (hp : prepare env c operands t = .ok (version, kernelImage, initrds) t₁)
    (h : add env c operands t = .ok () t') :
    ∃ t₂, (if usesEntry c then installEntry env c version kernelImage initrds
        else installFlat env c version kernelImage initrds) t₁ = .ok () t₂ ∧
      ∀ q, resolve env.os c.bootRoot <+: q → textOf t' q = textOf t₂ q := by
  obtain ⟨t₂, t₃, hi, hm, ha⟩ := add_steps hp h
  refine ⟨t₂, hi, fun q hb => ?_⟩
  rw [runAdminPlugins_text hq ha hb, addModuleIndex_text hq hm hb]

/-- What an installation with a loader entry leaves below the boot root. -/
theorem add_entry (hq : Quiet env c) (he : usesEntry c = true)
    (hp : prepare env c operands t = .ok (version, kernelImage, initrds) t₁)
    (h : add env c operands t = .ok () t') :
    ∃ names t₃, List.Forall₂ (fun name p => Path.fileName p = some name) names initrds ∧
      (textOf t₁ (resolve env.os kernelImage)).isSome ∧
      textOf t₃ = copied (textOf t₁) (entryCopies env.os c version kernelImage initrds) ∧
      ∀ q, resolve env.os c.bootRoot <+: q → textOf t' q = Function.update (textOf t₃)
        (resolve env.os (entryPath c version)) (some (loaderEntry env c t₃ version names).text) q := by
  obtain ⟨t₂, hi, ht⟩ := add_ok hq hp h
  rw [if_pos he] at hi
  obtain ⟨names, t₃, hn, hks, hcopied, hi⟩ := installEntry_ok hi
  refine ⟨names, t₃, hn, hks, hcopied, fun q hroot => ?_⟩
  rw [ht q hroot, hi, hcopied]

theorem bootRoot_prefix_entryPath : resolve env.os c.bootRoot <+: resolve env.os (entryPath c version) := by
  rw [resolve_entryPath]
  exact List.prefix_append _ _

/-- An installation with a loader entry is bootable exactly when its files are installable, seen
from the tree in which the kernel image and the initrds are read. -/
theorem add_bootable_iff (hq : Quiet env c) (he : usesEntry c = true)
    (hp : prepare env c operands t = .ok (version, kernelImage, initrds) t₁)
    (h : add env c operands t = .ok () t') :
    (∃ text, Bootable env.os c version kernelImage initrds t t₁ t' text) ↔
      Installable env c version kernelImage initrds t₁ := by
  obtain ⟨names, t₃, hn, hks, hcopied, ht⟩ := add_entry hq he hp h
  obtain ⟨hv, hk, his, -⟩ := prepare_ok hp
  have hw : textOf t' (resolve env.os (entryPath c version)) =
      some (loaderEntry env c t₃ version names).text := by
    rw [ht _ bootRoot_prefix_entryPath, Function.update_self]
  have hsame : ∀ name, resolve env.os (entryDirectory c version) ++ [name] =
      resolve env.os (entryPath c version) →
        (loaderEntry env c t₃ version names).text = (loaderEntry env c t₁ version names).text := by
    intro name hname
    rw [resolve_entryPath, bootFile] at hname
    have hdirectory : resolve env.os (entryDirectory c version) =
        resolve env.os c.bootRoot ++ ["loader".toList] ++ ["entries".toList] := by
      have happ : resolve env.os (entryDirectory c version) ++ [name] =
          resolve env.os c.bootRoot ++ ["loader".toList] ++ ["entries".toList] ++
            [entryFile c version] := by simpa using hname
      exact (List.append_inj' happ rfl).1
    have htargets : ∀ a ∈ entryCopies env.os c version kernelImage initrds, ∃ n,
        a.2 = resolve env.os c.bootRoot ++ ["loader".toList] ++ ["entries".toList, n] := by
      intro a ha
      obtain ⟨n, hn⟩ := target_of_mem_entryCopies ha
      exact ⟨n, by rw [hn, hdirectory, List.append_assoc]; rfl⟩
    rw [loaderEntry_copied htargets hcopied]
  have hdelivered : (∀ r ∈ entryReads env.os c version kernelImage initrds,
      (∃ name, r.2 = resolve env.os (entryDirectory c version) ++ [name]) ∧
        textOf t' r.2 = textOf t₁ r.1) ↔ Apart (textOf t₁)
          (entryCopies env.os c version kernelImage initrds)
          (entryReads env.os c version kernelImage initrds)
          (resolve env.os (entryDirectory c version)) (resolve env.os (entryPath c version))
          (loaderEntry env c t₃ version names).text := by
    rw [← delivered_iff]
    refine forall₂_congr fun r hr => and_congr_right fun hinside => ?_
    obtain ⟨name, hname⟩ := hinside
    rw [hname, ht _ (bootRoot_prefix_directory hv name), hcopied]
  rw [bootable_iff_delivered hv hn hk hks his hw, hdelivered, ← names_eq hn]
  rw [← names_eq hn] at hsame
  exact ⟨fun h => ⟨h.1, apart_text h.2 hsame⟩,
    fun h => ⟨h.lines, apart_text h.apart fun name hname => (hsame name hname).symm⟩⟩

end

/-- A machine with a kernel image, and with an initrd if there is one. -/
def machine (initrd : Option Str) : Tree where
  node l := if l = [['k']] then some (.file ['K']) else if l = [['i']] then initrd.map .file
    else if l = [] then some .dir else none
  parent l name hn := by
    have hl : l = [] := by
      by_contra hl
      simp [hl, List.append_eq_cons_iff] at hn
    simp [hl]

def bareTree : Tree := machine none

def plainOs : Os := ⟨[], fun _ => none⟩

def plainEnvironment (dracut : Option (Path → Str → Path → Tree → Except Str Str)) : Environment :=
  ⟨plainOs, ['0'], dracut, true, false, none, none⟩

/-- A `dracut` that makes the same image for every kernel. -/
def plainDracut : Path → Str → Path → Tree → Except Str Str := fun _ _ _ _ => .ok ['I']

def plainContext : Context := ⟨rootDir, ⟨true, [['b']]⟩, ['t'], bls, none, none, by decide⟩

def plainOperands : List Str := [['1'], ['/', 'k']]

theorem plainEnvironment_quiet (dracut : Option (Path → Str → Path → Tree → Except Str Str)) :
    Quiet (plainEnvironment dracut) plainContext :=
  ⟨fun _ h => (by cases h), fun _ h => (by cases h)⟩

def suppliedOperands : List Str := plainOperands ++ [['/', 'i']]

theorem add_bootable_iff_supplied :
    ∃ text, Bootable plainOs plainContext ['1'] ⟨true, [['k']]⟩ [⟨true, [['i']]⟩]
      (machine (some ['I']))
      (final (prepare (plainEnvironment none) plainContext suppliedOperands) (machine (some ['I'])))
      (final (add (plainEnvironment none) plainContext suppliedOperands) (machine (some ['I'])))
      text := by
  have hprepared : prepare (plainEnvironment none) plainContext suppliedOperands
      (machine (some ['I'])) = .ok (['1'], ⟨true, [['k']]⟩, [⟨true, [['i']]⟩])
        (final (prepare (plainEnvironment none) plainContext suppliedOperands)
          (machine (some ['I']))) := rfl
  have hadded : add (plainEnvironment none) plainContext suppliedOperands (machine (some ['I'])) =
      .ok () (final (add (plainEnvironment none) plainContext suppliedOperands)
        (machine (some ['I']))) := ok_final (by decide +kernel)
  have hiff := add_bootable_iff (plainEnvironment_quiet none) (by decide) hprepared hadded
  refine hiff.mpr ⟨?_, ?_⟩
  · exact List.forall_mem_singleton.mpr fun line hline => absurd hline List.not_mem_nil
  · have hreads : entryReads plainOs plainContext ['1'] ⟨true, [['k']]⟩ [⟨true, [['i']]⟩] =
        entryCopies plainOs plainContext ['1'] ⟨true, [['k']]⟩ [⟨true, [['i']]⟩] := by
      refine @entryReads_spellable (plainEnvironment none) _ _ _ _ (by decide) ?_
      refine List.forall_mem_singleton.mpr fun name hname => ?_
      obtain rfl := Option.some.inj hname
      refine ⟨by decide, by decide, by decide, fun a ha => ?_⟩
      obtain rfl := Option.some.inj ha
      decide
    have hcopies : entryCopies plainOs plainContext ['1'] ⟨true, [['k']]⟩ [⟨true, [['i']]⟩] =
        [([['k']], [['b'], ['t'], ['1'], "linux".toList]),
          ([['i']], [['b'], ['t'], ['1'], ['i']])] := by decide
    have hlast : resolve plainOs (entryPath plainContext ['1']) =
        [['b'], "loader".toList, "entries".toList, "t-1.conf".toList] := by decide
    rw [show (plainEnvironment none).os = plainOs from rfl, hreads, hcopies, hlast]
    refine ⟨?_, ?_, ?_, ?_, ?_⟩
    · exact List.forall_mem_cons.mpr ⟨⟨_, rfl⟩, List.forall_mem_singleton.mpr ⟨_, rfl⟩⟩
    · intro r hr _ s hs _
      obtain rfl | hr := List.mem_cons.mp hr
      · obtain rfl := Option.some.inj hs
        rfl
      · obtain rfl := List.mem_singleton.mp hr
        obtain rfl := Option.some.inj hs
        rfl
    · exact fun r hr _ hs => absurd hs (by revert r; decide)
    · exact fun r hr _ hs => absurd hs (by revert r; decide)
    · exact fun r hr he => absurd he (by revert r; decide)

/-- A generated initrd is copied onto itself and lost. -/
theorem add_empties_initrd :
    ∃ t₁, prepare (plainEnvironment (some plainDracut)) plainContext plainOperands bareTree =
        .ok (['1'], ⟨true, [['k']]⟩, [generatedInitrd plainContext ['1']]) t₁ ∧
      add (plainEnvironment (some plainDracut)) plainContext plainOperands bareTree = .ok ()
        (final (add (plainEnvironment (some plainDracut)) plainContext plainOperands) bareTree) ∧
      ¬ ∃ text, Bootable plainOs plainContext ['1'] ⟨true, [['k']]⟩
        [generatedInitrd plainContext ['1']] bareTree t₁
        (final (add (plainEnvironment (some plainDracut)) plainContext plainOperands) bareTree)
        text := by
  have hprepared : prepare (plainEnvironment (some plainDracut)) plainContext plainOperands bareTree =
      .ok (['1'], ⟨true, [['k']]⟩, [generatedInitrd plainContext ['1']])
        (final (prepare (plainEnvironment (some plainDracut)) plainContext plainOperands) bareTree) :=
    rfl
  have hadded : add (plainEnvironment (some plainDracut)) plainContext plainOperands bareTree = .ok ()
      (final (add (plainEnvironment (some plainDracut)) plainContext plainOperands) bareTree) :=
    ok_final (by decide +kernel)
  refine ⟨_, hprepared, hadded, ?_⟩
  rintro ⟨text, h⟩
  obtain ⟨names, t₃, hn, -, hcopied, ht⟩ :=
    add_entry (plainEnvironment_quiet (some plainDracut)) (by decide) hprepared hadded
  have hpath : textOf (final (add (plainEnvironment (some plainDracut)) plainContext plainOperands)
      bareTree) (resolve plainOs (entryPath plainContext ['1'])) =
        some (loaderEntry (plainEnvironment (some plainDracut)) plainContext t₃ ['1'] names).text :=
    (ht _ bootRoot_prefix_entryPath).trans (Function.update_self ..)
  obtain rfl := Option.some.inj (h.written.symm.trans hpath)
  have hs := h.initrds
  rw [values_initrd (by decide), ← names_eq hn] at hs
  obtain ⟨⟨-, image, hi, ha⟩, -⟩ := List.forall₂_cons.mp hs
  have hnamed : namedFile plainOs plainContext (spelled plainContext ['1'] "initrd".toList) =
      resolve plainOs (generatedInitrd plainContext ['1']) := by decide
  have hi' : some ['I'] = some image := hi
  have ha' : textOf (final (add (plainEnvironment (some plainDracut)) plainContext plainOperands)
      bareTree) (resolve plainOs (generatedInitrd plainContext ['1'])) = some image := hnamed ▸ ha
  have hroot : resolve plainOs plainContext.bootRoot <+:
      resolve plainOs (generatedInitrd plainContext ['1']) := by decide
  have hempty : textOf t₃ (resolve plainOs (generatedInitrd plainContext ['1'])) = some [] := by
    rw [hcopied]
    rfl
  rw [ht _ hroot, Function.update_of_ne (by decide), hempty] at ha'
  exact absurd (hi'.trans ha'.symm) (by decide)

end FractalD.Kernel.BootEntry
