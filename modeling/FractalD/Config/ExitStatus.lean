import FractalD.Config.SyscallFilter
import FractalD.Core.Record
import FractalD.Machine.Wire
import Mathlib.Data.List.TakeWhile

namespace FractalD.Config.ExitStatus

open FractalD.Config.SyscallFilter FractalD.Config.Words FractalD.Core.Record FractalD.Core.Spec
open FractalD.Machine.CString FractalD.Machine.OrderedMap FractalD.Machine.Result
open FractalD.Machine.Text FractalD.Machine.Wire

def signalNames : List (Str × Int) :=
  [("HUP".toList, 1), ("INT".toList, 2), ("QUIT".toList, 3), ("ILL".toList, 4),
    ("TRAP".toList, 5), ("ABRT".toList, 6), ("BUS".toList, 7), ("FPE".toList, 8),
    ("KILL".toList, 9), ("USR1".toList, 10), ("SEGV".toList, 11), ("USR2".toList, 12),
    ("PIPE".toList, 13), ("ALRM".toList, 14), ("TERM".toList, 15), ("CHLD".toList, 17),
    ("CONT".toList, 18), ("STOP".toList, 19), ("TSTP".toList, 20), ("TTIN".toList, 21),
    ("TTOU".toList, 22), ("URG".toList, 23), ("XCPU".toList, 24), ("XFSZ".toList, 25),
    ("VTALRM".toList, 26), ("PROF".toList, 27), ("WINCH".toList, 28), ("IO".toList, 29),
    ("PWR".toList, 30), ("SYS".toList, 31)]

def exitNames : List (Str × Int) :=
  [("OK".toList, 0), ("USAGE".toList, 64), ("DATAERR".toList, 65), ("NOINPUT".toList, 66),
    ("NOUSER".toList, 67), ("NOHOST".toList, 68), ("UNAVAILABLE".toList, 69),
    ("SOFTWARE".toList, 70), ("OSERR".toList, 71), ("OSFILE".toList, 72),
    ("CANTCREAT".toList, 73), ("IOERR".toList, 74), ("TEMPFAIL".toList, 75),
    ("PROTOCOL".toList, 76), ("NOPERM".toList, 77), ("CONFIG".toList, 78)]

def invalid (key value : Str) : ConfigError :=
  .ofMessage ("invalid ".toList ++ key ++ '=' :: value)

/-- `strip_prefix`, or the value itself. -/
def without (start value : Str) : Str := (removePrefix start value).getD value

def parseSignal (value : Str) : Except ConfigError Int := do
  let value := trim value
  let signal ←
    match signalNames.lookup ((without "SIG".toList value).map Char.toUpper) with
    | some signal => pure signal
    | none =>
      match parseI32 value with
      | some signal => pure signal
      | none => throw (invalid "signal".toList value)
  if signal ≤ 0 then throw (invalid "signal".toList value)
  pure signal

def isNamed (value : Str) : Bool := value.all fun c => c.isAlpha || c = '_'

def parseExitStatus (value key : Str) : Except ConfigError Int :=
  if isNamed value then
    match parseSignal value with
    | .ok signal => .ok signal
    | .error _ =>
      match exitNames.lookup (without "EX_".toList value) with
      | some status => .ok status
      | none => .error (invalid key (without "EX_".toList value))
  else
    match parseI32 value with
    | none => .error (invalid key value)
    | some status => if 0 ≤ status ∧ status ≤ 255 then .ok status else .error (invalid key value)

def listValues (file : NativeFile) (sectionName key : Str) : Except ConfigError (List Str) := do
  let values ← (file.effectiveDirectives sectionName key).mapM fun directive =>
    splitWords directive.value directive.line
  pure values.flatten

def exitStatuses (file : NativeFile) (key : Str) : Except ConfigError (List Int) := do
  (← listValues file "service".toList key).mapM (parseExitStatus · key)

def NamesCode (word : Str) (code : Int) : Prop :=
  (0 ≤ code ∧ code ≤ 255 ∧ parseI32 word = some code) ∨
    exitNames.lookup (without "EX_".toList word) = some code

def NamesSignal (word : Str) (signal : Int) : Prop :=
  signalNames.lookup ((without "SIG".toList word).map Char.toUpper) = some signal

/-- A list of words names what a process has ended with. -/
def Names (words : List Str) : ExitReason → Prop
  | .exited code => ∃ word ∈ words, NamesCode word code
  | .signaled signal | .coreDumped signal => ∃ word ∈ words, NamesSignal word signal

/-- A list of words names the same number, but of the other kind. -/
def Misnames (words : List Str) : ExitReason → Prop
  | .exited code => ∃ word ∈ words, NamesSignal word code
  | .signaled signal | .coreDumped signal => ∃ word ∈ words, NamesCode word signal

section

variable {value key : Str} {n m : Int}

theorem without_cases (start value : Str) :
    without start value = value ∧ ¬ start <+: value ∨ value = start ++ without start value := by
  rw [without, removePrefix]
  split
  next h =>
    obtain ⟨rest, rfl⟩ := List.isPrefixOf_iff_prefix.mp h
    exact .inr (by simp)
  next h => exact .inl ⟨rfl, fun hp => h (List.isPrefixOf_iff_prefix.mpr hp)⟩

theorem code_of_isAlpha {c : Char} (h : c.isAlpha) : 65 ≤ c.toNat ∧ c.toNat ≤ 122 := by
  simp only [isAlpha_eq, isUpper_eq, isLower_eq, Bool.or_eq_true, Bool.and_eq_true,
    decide_eq_true_eq, UInt32.le_iff_toNat_le] at h
  have hcode : c.val.toNat = c.toNat := rfl
  have hletters : 'A'.val.toNat = 65 ∧ 'Z'.val.toNat = 90 ∧ 'a'.val.toNat = 97 ∧
    'z'.val.toNat = 122 := by decide
  omega

theorem parseI32_head (h : parseI32 value = some n) :
    ∃ c cs, value = c :: cs ∧ c.isAlpha = false ∧ c ≠ '_' := by
  cases value with
  | nil => cases h
  | cons c cs =>
    refine ⟨c, cs, rfl, ?_⟩
    by_cases hminus : c = '-'
    · rw [hminus]
      decide
    by_cases hplus : c = '+'
    · rw [hplus]
      decide
    have hdigits : (c :: cs).all Char.isDigit := by
      by_contra hno
      rw [parseI32.eq_2 _ (fun _ he => hminus (List.cons.inj he).1)] at h
      simp [hplus, hno] at h
    rw [List.all_cons, Bool.and_eq_true, Char.isDigit, Bool.and_eq_true, decide_eq_true_eq,
      decide_eq_true_eq, ge_iff_le, UInt32.le_iff_toNat_le, UInt32.le_iff_toNat_le] at hdigits
    have hhigh : c.toNat ≤ 57 := hdigits.1.2
    constructor
    · by_contra halpha
      have := (code_of_isAlpha (Bool.eq_true_of_not_eq_false halpha)).1
      omega
    · rintro rfl
      revert hhigh
      decide

theorem not_named_of_number (h : parseI32 value = some n) : isNamed value = false := by
  obtain ⟨c, cs, rfl, halpha, hc⟩ := parseI32_head h
  rw [isNamed, List.all_cons, halpha, decide_eq_false hc]
  rfl

theorem not_signal_of_number (h : parseI32 value = some n) : ¬ NamesSignal value m := by
  intro hs
  obtain ⟨c, cs, rfl, halpha, -⟩ := parseI32_head h
  have hwithout : without "SIG".toList (c :: cs) = c :: cs := by
    obtain ⟨he, -⟩ | he := without_cases "SIG".toList (c :: cs)
    · exact he
    · obtain ⟨rfl, -⟩ := List.cons.inj he
      cases halpha
  have hall : signalNames.all (fun e => e.1.head?.all Char.isAlpha) = true := by decide +kernel
  rw [NamesSignal, hwithout] at hs
  obtain ⟨l, l', hsplit, -⟩ := List.lookup_eq_some_iff.mp hs
  have hmem : ((c :: cs).map Char.toUpper, m) ∈ signalNames := by simp [hsplit]
  have hupper : c.toUpper = c := by
    rw [isAlpha_eq, Bool.or_eq_false_iff] at halpha
    have hlower : ¬ (c.val ≥ 'a'.val ∧ c.val ≤ 'z'.val) := by
      intro hc
      have hl : c.isLower = true := by
        rw [isLower_eq, decide_eq_true hc.1, decide_eq_true hc.2]
        rfl
      rw [halpha.2] at hl
      cases hl
    exact dif_neg hlower
  have hletter : c.toUpper.isAlpha = true := List.all_eq_true.mp hall _ hmem
  rw [hupper, halpha] at hletter
  cases hletter

theorem not_signal_of_exit (h : exitNames.lookup (without "EX_".toList value) = some n) :
    isNamed value ∧ ¬ NamesSignal value m := by
  have hall : ∀ e ∈ exitNames, ∀ w ∈ [e.1, "EX_".toList ++ e.1], isNamed w ∧
      signalNames.lookup ((without "SIG".toList w).map Char.toUpper) = none := by decide +kernel
  obtain ⟨l, l', hsplit, -⟩ := List.lookup_eq_some_iff.mp h
  have hmem : (without "EX_".toList value, n) ∈ exitNames := by simp [hsplit]
  have hvalue : value ∈ [without "EX_".toList value,
      "EX_".toList ++ without "EX_".toList value] := by
    rw [List.mem_pair]
    exact (without_cases _ value).imp (fun h => h.1.symm) id
  obtain ⟨hnamed, hnone⟩ := hall _ hmem value hvalue
  refine ⟨hnamed, fun hs => ?_⟩
  rw [NamesSignal, hnone] at hs
  cases hs

theorem signal_pos (h : NamesSignal value n) : 0 < n := by
  have hall : ∀ e ∈ signalNames, 0 < e.2 := by decide +kernel
  obtain ⟨l, l', hsplit, -⟩ := List.lookup_eq_some_iff.mp h
  have hmem : ((without "SIG".toList value).map Char.toUpper, n) ∈ signalNames := by
    rw [hsplit]
    exact List.mem_append_right _ List.mem_cons_self
  exact hall _ hmem

theorem trim_named (h : isNamed value) : trim value = value := by
  have hsolid : Solid value := by
    intro c hc
    have hname := List.all_eq_true.mp h c hc
    rw [Bool.or_eq_true, decide_eq_true_eq] at hname
    obtain halpha | rfl := hname
    · have hcode := code_of_isAlpha halpha
      simp only [isWhitespace, isSpace, Bool.or_eq_false_iff, beq_eq_false_iff_ne,
        decide_eq_false_iff_not, Bool.and_eq_false_iff, List.mem_cons, List.not_mem_nil, or_false]
      omega
    · decide
  rw [trim, List.dropWhile_eq_self_iff.mpr fun hl => by simp [hsolid _ (List.getElem_mem hl)]]
  exact trimEnd_self fun c hc => hsolid c (List.mem_of_getLast? hc)

theorem names_iff (h : parseExitStatus value key = .ok n) :
    NamesCode value m ∨ NamesSignal value m ↔ m = n := by
  rw [parseExitStatus] at h
  split at h
  next hnamed =>
    have hnumber : parseI32 value = none := by
      by_contra hne
      obtain ⟨number, hnumber⟩ := Option.ne_none_iff_exists'.mp hne
      rw [not_named_of_number hnumber] at hnamed
      cases hnamed
    cases hsignal : signalNames.lookup ((without "SIG".toList value).map Char.toUpper) with
    | some signal =>
      have hparse : parseSignal value = .ok signal := by
        have hpos : ¬ signal ≤ 0 := not_le.mpr (signal_pos hsignal)
        simp only [parseSignal, trim_named hnamed, hsignal]
        exact if_neg hpos
      simp only [hparse] at h
      cases h
      have hexit : exitNames.lookup (without "EX_".toList value) ≠ some m := by
        intro hexit
        exact (not_signal_of_exit hexit).2 hsignal
      simp only [NamesCode, NamesSignal, hnumber, hexit, hsignal, reduceCtorEq, and_false,
        false_or, Option.some.injEq]
      exact eq_comm
    | none =>
      have hparse : parseSignal value = .error (invalid "signal".toList value) := by
        simp only [parseSignal, trim_named hnamed, hsignal, hnumber]
        rfl
      simp only [hparse] at h
      cases hexit : exitNames.lookup (without "EX_".toList value) with
      | none =>
        rw [hexit] at h
        cases h
      | some status =>
        rw [hexit] at h
        cases h
        simp only [NamesCode, NamesSignal, hnumber, hexit, hsignal, reduceCtorEq, and_false,
          false_or, or_false, Option.some.injEq]
        exact eq_comm
  next hnamed =>
    cases hnumber : parseI32 value with
    | none =>
      rw [hnumber] at h
      cases h
    | some status =>
      simp only [hnumber] at h
      split at h
      next hrange =>
        cases h
        have hexit : exitNames.lookup (without "EX_".toList value) ≠ some m := by
          intro hexit
          exact hnamed (not_signal_of_exit (m := m) hexit).1
        have hsignal := not_signal_of_number (m := m) hnumber
        simp only [NamesCode, hnumber, hexit, hsignal, or_false, Option.some.injEq]
        constructor
        · exact fun hm => hm.2.2.symm
        · rintro rfl
          exact ⟨hrange.1, hrange.2, rfl⟩
      next => cases h

end

section

variable {words : List Str} {key : Str} {statuses : List Int}

theorem mem_statuses (h : words.mapM (parseExitStatus · key) = .ok statuses) {m : Int} :
    m ∈ statuses ↔ ∃ word ∈ words, NamesCode word m ∨ NamesSignal word m := by
  have hmap := mapM_eq_ok.mp h
  have hmem : ∀ n, n ∈ statuses ↔ ∃ word ∈ words, parseExitStatus word key = .ok n := by
    intro n
    rw [← List.mem_map, hmap, List.mem_map_of_injective fun _ _ => Except.ok.inj]
  constructor
  · intro hm
    obtain ⟨word, hword, hparse⟩ := (hmem m).mp hm
    exact ⟨word, hword, (names_iff hparse).mpr rfl⟩
  · rintro ⟨word, hword, hnames⟩
    have hparsed : parseExitStatus word key ∈ statuses.map Except.ok := by
      rw [← hmap]
      exact List.mem_map_of_mem hword
    obtain ⟨n, hn, hparse⟩ := List.mem_map.mp hparsed
    rw [(names_iff hparse.symm).mp hnames]
    exact hn

/-- A list matches what it names, of whatever kind. -/
theorem matches_iff (h : words.mapM (parseExitStatus · key) = .ok statuses)
    (reason : ExitReason) : ServiceRecord.exitStatusMatches statuses reason ↔
      Names words reason ∨ Misnames words reason := by
  have hor : ∀ p q : Str → Prop, (∃ word ∈ words, p word ∨ q word) ↔
      (∃ word ∈ words, p word) ∨ ∃ word ∈ words, q word := by
    intro p q
    simp only [← exists_or, ← and_or_left]
  cases reason with
  | exited code => rw [ServiceRecord.exitStatusMatches, decide_eq_true_eq, mem_statuses h, hor]; rfl
  | signaled signal | coreDumped signal =>
    rw [ServiceRecord.exitStatusMatches, decide_eq_true_eq, mem_statuses h, hor, or_comm]
    rfl

end

/-- A list that is accepted matches just what it names exactly if the number is named as
what it is whenever it is named as what it is not. -/
theorem exitStatuses_iff {file : NativeFile} {key : Str} {words : List Str} {statuses : List Int}
    (hwords : listValues file "service".toList key = .ok words)
    (h : exitStatuses file key = .ok statuses) (reason : ExitReason) :
    (ServiceRecord.exitStatusMatches statuses reason ↔ Names words reason) ↔
      (Misnames words reason → Names words reason) := by
  have hparse : words.mapM (parseExitStatus · key) = .ok statuses := by
    rw [exitStatuses, hwords] at h
    exact h
  rw [matches_iff hparse]
  exact ⟨fun h hm => h.mp (.inr hm), fun h => ⟨fun hn => hn.elim id h, .inl⟩⟩

def statusFile (value : String) : NativeFile :=
  NativeFile.push ⟨empty⟩ ⟨"service".toList, "success_exit_status".toList, value.toList, 2⟩

theorem exitStatuses_iff_statusFile :
    (ServiceRecord.exitStatusMatches [15, 64] (.signaled 15) ↔
        Names ["TERM".toList, "EX_USAGE".toList] (.signaled 15)) ↔
      (Misnames ["TERM".toList, "EX_USAGE".toList] (.signaled 15) →
        Names ["TERM".toList, "EX_USAGE".toList] (.signaled 15)) := by
  have hwords : listValues (statusFile "TERM EX_USAGE") "service".toList
      "success_exit_status".toList = .ok ["TERM".toList, "EX_USAGE".toList] := by decide +kernel
  have h : exitStatuses (statusFile "TERM EX_USAGE") "success_exit_status".toList =
      .ok [15, 64] := by decide +kernel
  exact exitStatuses_iff hwords h (.signaled 15)

/-- An exit code is taken for the signal with its number. -/
theorem code_matches_signal :
    listValues (statusFile "SIGTERM") "service".toList "success_exit_status".toList =
        .ok ["SIGTERM".toList] ∧
      exitStatuses (statusFile "SIGTERM") "success_exit_status".toList = .ok [15] ∧
      ServiceRecord.exitStatusMatches [15] (.exited 15) = true ∧
      ¬ Names ["SIGTERM".toList] (.exited 15) := by
  refine ⟨by decide +kernel, by decide +kernel, rfl, ?_⟩
  rintro ⟨word, hword, hcode⟩
  cases List.mem_singleton.mp hword
  rw [NamesCode] at hcode
  revert hcode
  decide +kernel

end FractalD.Config.ExitStatus
