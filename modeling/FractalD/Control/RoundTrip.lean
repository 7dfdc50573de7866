import FractalD.Control.Responses
import FractalD.Machine.Result
import Mathlib.Data.List.TakeWhile

namespace FractalD.Control.RoundTrip

open FractalD.Config.Words FractalD.Control.Messages FractalD.Control.Responses
open FractalD.Core.Spec FractalD.Machine.CString FractalD.Machine.Result FractalD.Machine.Text
open FractalD.Machine.Wire

theorem splitOnce_some {c : Char} {s a b : Str} (h : splitOnce c s = some (a, b)) : s = a ++ c :: b := by
  simp only [splitOnce, Option.ite_none_right_eq_some, Option.some.injEq, Prod.mk.injEq] at h
  obtain ⟨hmem, rfl, rfl⟩ := h
  have hcut : s.takeWhile (· ≠ c) ++ s.dropWhile (· ≠ c) = s := List.takeWhile_append_dropWhile
  cases hd : s.dropWhile (· ≠ c) with
  | nil =>
    have hall := List.dropWhile_eq_nil_iff.mp hd c hmem
    simp at hall
  | cons d rest =>
    have hhead := List.head?_dropWhile_not (fun x => decide (x ≠ c)) s
    rw [hd] at hhead
    obtain rfl : d = c := by simpa using hhead
    rw [hd] at hcut
    exact hcut.symm

def field (name value : Str) : Str := name ++ '=' :: value

theorem solid_field {name value : Str} (hn : Solid name) (hv : Solid value) : Solid (field name value) :=
  hn.append (List.forall_mem_cons.mpr ⟨rfl, hv⟩)

theorem field_ne_nil (name value : Str) : field name value ≠ [] := by simp [field]

theorem parseField_field {α : Type} {name value : Str} {read : Str → Option α} {a : α}
    (hname : '=' ∉ name) (hread : read value = some a) (rest : List Str) :
    parseField name read (field name value :: rest) = .ok (a, rest) := by
  simp only [parseField, field, splitOnce_append hname, ne_eq, not_true_eq_false, if_false, hread]
  rfl

theorem parseField_ok {α : Type} {name : Str} {read : Str → Option α} {fields rest : List Str} {a : α}
    (h : parseField name read fields = .ok (a, rest)) :
    ∃ value, read value = some a ∧ fields = field name value :: rest := by
  cases fields with
  | nil => cases h
  | cons first fields =>
    simp only [parseField] at h
    split at h
    · cases h
    next fieldName value hsplit =>
      split at h
      · cases h
      next hname =>
        split at h
        · cases h
        next a' hread =>
          cases h
          refine ⟨value, hread, ?_⟩
          rw [not_not] at hname
          rw [splitOnce_some hsplit, hname, field]

theorem parseLine_form {line form : Str} {fields : List Str}
    {parse : Str → List Str → Except ProtocolError Response}
    (hsplit : splitWhitespace line = "OK".toList :: form :: fields)
    (hfind : forms.find? (·.1 = form) = some (form, parse)) : parseLine line = parse line fields := by
  have hother (word : Str) (hnone : forms.find? (·.1 = word) = none) : form ≠ word := by
    rintro rfl
    cases hfind.symm.trans hnone
  have hline (word text : Str) (hword : splitWhitespace text = ["OK".toList, word])
      (hnone : forms.find? (·.1 = word) = none) : line ≠ text := by
    rintro rfl
    rw [hword, List.cons.injEq, List.cons.injEq] at hsplit
    exact hother word hnone hsplit.2.1.symm
  have herror : removePrefix "ERR ".toList line = none := by
    rw [Option.eq_none_iff_forall_ne_some]
    intro rest hrest
    obtain rfl := removePrefix_some.mp hrest
    have hwords : splitWhitespace ("ERR ".toList ++ rest) = "ERR".toList :: splitWhitespace rest :=
      @splitWhitespace_cons "ERR".toList (by decide) (by decide) _ rfl rest
    rw [hwords, List.cons.injEq] at hsplit
    exact absurd hsplit.1 (by decide)
  have hevent : removePrefix "OK EVENT ".toList line = none := by
    rw [Option.eq_none_iff_forall_ne_some]
    intro rest hrest
    obtain rfl := removePrefix_some.mp hrest
    have hwords : splitWhitespace ("OK EVENT ".toList ++ rest) =
        "OK".toList :: "EVENT".toList :: splitWhitespace rest := by
      refine (@splitWhitespace_cons "OK".toList (by decide) (by decide) _ rfl
        ("EVENT ".toList ++ rest)).trans ?_
      apply congrArg ("OK".toList :: ·)
      exact @splitWhitespace_cons "EVENT".toList (by decide) (by decide) _ rfl rest
    rw [hwords, List.cons.injEq, List.cons.injEq] at hsplit
    exact hother _ rfl hsplit.2.1.symm
  rw [parseLine, herror]
  simp only
  rw [if_neg (hline "STOPPING".toList _ (by decide) rfl), if_neg (hline "PONG".toList _ (by decide) rfl),
    if_neg (hline "SUBSCRIBED".toList _ (by decide) rfl), hevent]
  simp only
  rw [if_neg (hline "RELOADED".toList _ (by decide) rfl),
    if_neg (hline "RESET_FAILED".toList _ (by decide) rfl), parseForm, hsplit]
  simp only [ne_eq, not_true_eq_false, if_false, hfind]

theorem parse_words {form : Str} {fields : List Str}
    {parse : Str → List Str → Except ProtocolError Response}
    (hwords : ∀ word ∈ form :: fields, Solid word ∧ word ≠ [])
    (hfind : forms.find? (·.1 = form) = some (form, parse)) :
    Response.parse (join [' '] ("OK".toList :: form :: fields) ++ ['\n']) =
      parse (join [' '] ("OK".toList :: form :: fields)) fields := by
  have hall : ∀ word ∈ "OK".toList :: form :: fields, Solid word ∧ word ≠ [] :=
    List.forall_mem_cons.mpr ⟨by decide, hwords⟩
  rw [Response.parse, trim_join hall]
  exact parseLine_form (splitWhitespace_join hall) hfind

/-- The words of a response that is read as a form. -/
def wordsOf : Response → List Str
  | .status pid uptimeMs => ["OK".toList, "STATUS".toList, field "pid".toList (printUnsigned pid),
      field "uptime_ms".toList (printUnsigned uptimeMs)]
  | .services names => ["OK".toList, "SERVICES".toList, field "names".toList (join [','] names)]
  | .service s => ["OK".toList, "SERVICE".toList, field "name".toList s.name,
      field "state".toList s.state, field "pid".toList (s.pid.elim ['-'] printUnsigned),
      field "generation".toList (printUnsigned s.generation),
      field "restarts".toList (printUnsigned s.restartCount)]
  | .transaction s => ["OK".toList, "TRANSACTION".toList, field "id".toList (printUnsigned s.id),
      field "operation".toList s.operation, field "name".toList s.name, field "state".toList s.state]
  | .accepted id operation name => ["OK".toList, "ACCEPTED".toList,
      field "id".toList (printUnsigned id), field "operation".toList operation,
      field "name".toList name]
  | .enabled name => ["OK".toList, "ENABLED".toList, field "name".toList name]
  | .disabled name => ["OK".toList, "DISABLED".toList, field "name".toList name]
  | .enabledStatus name on => ["OK".toList, "ENABLED_STATUS".toList, field "name".toList name,
      field "enabled".toList (printUnsigned on.toNat)]
  | _ => []

theorem line_eq_join {r : Response} (h : wordsOf r ≠ []) : r.line = join [' '] (wordsOf r) := by
  have huptime_label : " uptime_ms=".toList = ' ' :: ("uptime_ms".toList ++ ['=']) := by decide
  have hstate_label : " state=".toList = ' ' :: ("state".toList ++ ['=']) := by decide
  have hpid_label : " pid=".toList = ' ' :: ("pid".toList ++ ['=']) := by decide
  have hgeneration_label : " generation=".toList = ' ' :: ("generation".toList ++ ['=']) := by decide
  have hrestarts_label : " restarts=".toList = ' ' :: ("restarts".toList ++ ['=']) := by decide
  have hoperation_label : " operation=".toList = ' ' :: ("operation".toList ++ ['=']) := by decide
  have hname_label : " name=".toList = ' ' :: ("name".toList ++ ['=']) := by decide
  have henabled_label : " enabled=".toList = ' ' :: ("enabled".toList ++ ['=']) := by decide
  cases r with
  | status pid uptimeMs =>
    have hstart : "OK STATUS pid=".toList =
        "OK".toList ++ ' ' :: ("STATUS".toList ++ ' ' :: ("pid".toList ++ ['='])) := by decide
    change "OK STATUS pid=".toList ++ printUnsigned pid ++ " uptime_ms=".toList ++ printUnsigned uptimeMs = _
    simp only [wordsOf, join_cons_cons, join_singleton, field, hstart, huptime_label,
      List.append_assoc, List.cons_append, List.nil_append]
  | services names =>
    have hstart : "OK SERVICES names=".toList =
        "OK".toList ++ ' ' :: ("SERVICES".toList ++ ' ' :: ("names".toList ++ ['='])) := by decide
    change "OK SERVICES names=".toList ++ join [','] names = _
    simp only [wordsOf, join_cons_cons, join_singleton, field, hstart,
      List.append_assoc, List.cons_append, List.nil_append]
  | service s =>
    have hstart : "OK SERVICE name=".toList =
        "OK".toList ++ ' ' :: ("SERVICE".toList ++ ' ' :: ("name".toList ++ ['='])) := by decide
    change "OK SERVICE name=".toList ++ s.name ++ " state=".toList ++ s.state ++
      " pid=".toList ++ s.pid.elim ['-'] printUnsigned ++
      " generation=".toList ++ printUnsigned s.generation ++
      " restarts=".toList ++ printUnsigned s.restartCount = _
    simp only [wordsOf, join_cons_cons, join_singleton, field, hstart, hstate_label, hpid_label, hgeneration_label, hrestarts_label,
      List.append_assoc, List.cons_append, List.nil_append]
  | transaction s =>
    have hstart : "OK TRANSACTION id=".toList =
        "OK".toList ++ ' ' :: ("TRANSACTION".toList ++ ' ' :: ("id".toList ++ ['='])) := by decide
    change "OK TRANSACTION id=".toList ++ printUnsigned s.id ++ " operation=".toList ++ s.operation ++
      " name=".toList ++ s.name ++ " state=".toList ++ s.state = _
    simp only [wordsOf, join_cons_cons, join_singleton, field, hstart, hoperation_label, hname_label, hstate_label,
      List.append_assoc, List.cons_append, List.nil_append]
  | accepted id operation name =>
    have hstart : "OK ACCEPTED id=".toList =
        "OK".toList ++ ' ' :: ("ACCEPTED".toList ++ ' ' :: ("id".toList ++ ['='])) := by decide
    change "OK ACCEPTED id=".toList ++ printUnsigned id ++ " operation=".toList ++ operation ++
      " name=".toList ++ name = _
    simp only [wordsOf, join_cons_cons, join_singleton, field, hstart, hoperation_label, hname_label,
      List.append_assoc, List.cons_append, List.nil_append]
  | enabled name =>
    have hstart : "OK ENABLED name=".toList =
        "OK".toList ++ ' ' :: ("ENABLED".toList ++ ' ' :: ("name".toList ++ ['='])) := by decide
    change "OK ENABLED name=".toList ++ name = _
    simp only [wordsOf, join_cons_cons, join_singleton, field, hstart,
      List.append_assoc, List.cons_append, List.nil_append]
  | disabled name =>
    have hstart : "OK DISABLED name=".toList =
        "OK".toList ++ ' ' :: ("DISABLED".toList ++ ' ' :: ("name".toList ++ ['='])) := by decide
    change "OK DISABLED name=".toList ++ name = _
    simp only [wordsOf, join_cons_cons, join_singleton, field, hstart,
      List.append_assoc, List.cons_append, List.nil_append]
  | enabledStatus name on =>
    have hstart : "OK ENABLED_STATUS name=".toList =
        "OK".toList ++ ' ' :: ("ENABLED_STATUS".toList ++ ' ' :: ("name".toList ++ ['='])) := by decide
    change "OK ENABLED_STATUS name=".toList ++ name ++ " enabled=".toList ++
      printUnsigned on.toNat = _
    simp only [wordsOf, join_cons_cons, join_singleton, field, hstart, henabled_label,
      List.append_assoc, List.cons_append, List.nil_append]
  | stopping | pong | subscribed | reloaded | reset => exact absurd rfl h
  | event _ | error _ => exact absurd rfl h

/-- The check of a service name by the configuration. -/
def ValidName (name : Str) : Prop := name ≠ [] ∧ unusableName name = false

theorem ValidName.solid {name : Str} (h : ValidName name) : Solid name := by
  intro c hc
  have hu := h.2
  simp only [unusableName, Bool.or_eq_false_iff, List.any_eq_false] at hu
  have hspace := hu.1.1.1 c hc
  simp only [Bool.or_eq_true, not_or, Bool.not_eq_true] at hspace
  exact hspace.1

/-- The numbers of a response are those of their types, its names pass the check of the
configuration, and its messages contain no newline. -/
def Admissible : Response → Prop
  | .status pid uptimeMs => pid < 2 ^ 32 ∧ uptimeMs ≤ ulongMax
  | .event message | .error message => '\n' ∉ message
  | .services names => ∀ name ∈ names, ValidName name
  | .service s => ValidName s.name ∧ (∀ pid ∈ s.pid, pid < 2 ^ 32) ∧ s.generation ≤ ulongMax ∧
      s.restartCount < 2 ^ 32
  | .transaction s => s.id ≤ ulongMax ∧ ValidName s.name
  | .accepted id _ name => id ≤ ulongMax ∧ ValidName name
  | .enabled name | .disabled name | .enabledStatus name _ => ValidName name
  | .stopping | .pong | .subscribed | .reloaded | .reset => True

/-- A message that has an end of its own and nothing that is sent as a space. -/
structure Sendable (message : Str) : Prop where
  nonempty : message ≠ []
  plain : ∀ c ∈ message, c ≠ '\r' ∧ c.toNat ≠ 0
  ends : ∀ c ∈ message.getLast?, isWhitespace c = false

/-- What a response must not contain to come through. -/
def Plain : Response → Prop
  | .event message | .error message => Sendable message
  | .services names => ∀ name ∈ names, ',' ∉ name
  | .service s => Solid s.state
  | .transaction s => Solid s.operation ∧ Solid s.state
  | .accepted _ operation _ => Solid operation
  | _ => True

theorem parseUnsigned_print {n : Nat} (h : n < 2 ^ 32) : parseUnsigned 32 (printUnsigned n) = some n := by
  have hle : n ≤ ulongMax := by
    rw [ulongMax]
    omega
  rw [parseUnsigned, parseU64_printUnsigned hle, Option.filter_some, if_pos (decide_eq_true h)]

theorem parsePid_print (line : Str) {pid : Option Nat} (h : ∀ n ∈ pid, n < 2 ^ 32) :
    parsePid line (pid.elim ['-'] printUnsigned) = .ok pid := by
  cases pid with
  | none => rfl
  | some n =>
    have hne : printUnsigned n ≠ ['-'] := by
      intro heq
      have hd : '-'.isDigit := isDigit_of_mem_printUnsigned (n := n) (heq ▸ List.mem_cons_self)
      cases hd
    simp only [parsePid, Option.elim_some, hne, if_false, parseUnsigned_print (h n rfl)]
    rfl

theorem solid_pid (pid : Option Nat) : Solid (pid.elim ['-'] printUnsigned) := by
  cases pid with
  | none => decide
  | some n => exact solid_printUnsigned n

theorem splitOn_join {names : List Str} (h : ∀ name ∈ names, ValidName name ∧ ',' ∉ name) :
    (if join [','] names = [] then [] else (join [','] names).splitOn ',') = names := by
  cases names with
  | nil => rfl
  | cons name names =>
    have hne : join [','] (name :: names) ≠ [] := by
      have hname := (h name List.mem_cons_self).1.1
      cases names with
      | nil => rwa [join, List.intercalate_singleton]
      | cons next names =>
        rw [join, List.intercalate_cons_cons]
        simp
    rw [if_neg hne, join]
    exact List.splitOn_intercalate ',' (fun l hl => (h l hl).2) (by simp)

theorem solid_join {names : List Str} (h : ∀ name ∈ names, Solid name) : Solid (join [','] names) := by
  induction names with
  | nil => exact fun c hc => by cases hc
  | cons name names ih =>
    obtain ⟨hname, hnames⟩ := List.forall_mem_cons.mp h
    cases names with
    | nil => rwa [join, List.intercalate_singleton]
    | cons next names =>
      rw [join, List.intercalate_cons_cons]
      exact (hname.append (by decide)).append (ih hnames)

/-- A response that consists of fields comes through, where its fields are words. -/
theorem form_survives {r : Response} (ha : Admissible r) (hp : Plain r) (hform : wordsOf r ≠ []) :
    Response.parse r.asLine = .ok r := by
  have hword {name value : Str} (hn : Solid name) (hv : Solid value) :
      Solid (field name value) ∧ field name value ≠ [] :=
    ⟨solid_field hn hv, field_ne_nil name value⟩
  have hdigits := solid_printUnsigned
  rw [Response.asLine, line_eq_join hform]
  cases r with
  | status pid uptimeMs =>
    obtain ⟨hpid, huptime⟩ := ha
    rw [wordsOf, @parse_words _ _ parseStatus (by
      simp only [List.forall_mem_cons]
      exact ⟨by decide, hword (by decide) (hdigits _), hword (by decide) (hdigits _), by simp⟩) rfl]
    apply bind_eq_ok.mpr ⟨_, parseField_field (by decide) (parseUnsigned_print hpid) _, _⟩
    exact bind_eq_ok.mpr ⟨_, parseField_field (by decide) (parseU64_printUnsigned huptime) _, rfl⟩
  | services names =>
    have hjoin : Solid (join [','] names) := solid_join fun name hname => (ha name hname).solid
    rw [wordsOf, @parse_words _ _ parseServices (by
      simp only [List.forall_mem_cons]
      exact ⟨by decide, hword (by decide) hjoin, by simp⟩) rfl]
    apply bind_eq_ok.mpr ⟨_, parseField_field (by decide) rfl _, _⟩
    change Except.ok (Response.services _) = _
    rw [splitOn_join fun name hname => ⟨ha name hname, hp name hname⟩]
  | service s =>
    obtain ⟨hname, hpid, hgeneration, hrestarts⟩ := ha
    rw [wordsOf, @parse_words _ _ parseService (by
      simp only [List.forall_mem_cons]
      exact ⟨by decide, hword (by decide) hname.solid, hword (by decide) hp,
        hword (by decide) (solid_pid _), hword (by decide) (hdigits _), hword (by decide) (hdigits _),
        by simp⟩) rfl]
    apply bind_eq_ok.mpr ⟨_, parseField_field (by decide) rfl _, _⟩
    apply bind_eq_ok.mpr ⟨_, parseField_field (by decide) rfl _, _⟩
    apply bind_eq_ok.mpr ⟨_, parseField_field (by decide) rfl _, _⟩
    apply bind_eq_ok.mpr ⟨_, parseField_field (by decide) (parseU64_printUnsigned hgeneration) _, _⟩
    apply bind_eq_ok.mpr ⟨_, parseField_field (by decide) (parseUnsigned_print hrestarts) _, _⟩
    exact bind_eq_ok.mpr ⟨_, parsePid_print _ hpid, rfl⟩
  | transaction s =>
    obtain ⟨hid, hname⟩ := ha
    obtain ⟨hoperation, hstate⟩ := hp
    rw [wordsOf, @parse_words _ _ parseTransaction (by
      simp only [List.forall_mem_cons]
      exact ⟨by decide, hword (by decide) (hdigits _), hword (by decide) hoperation,
        hword (by decide) hname.solid, hword (by decide) hstate, by simp⟩) rfl]
    apply bind_eq_ok.mpr ⟨_, parseField_field (by decide) (parseU64_printUnsigned hid) _, _⟩
    apply bind_eq_ok.mpr ⟨_, parseField_field (by decide) rfl _, _⟩
    apply bind_eq_ok.mpr ⟨_, parseField_field (by decide) rfl _, _⟩
    exact bind_eq_ok.mpr ⟨_, parseField_field (by decide) rfl _, rfl⟩
  | accepted id operation name =>
    obtain ⟨hid, hname⟩ := ha
    rw [wordsOf, @parse_words _ _ parseAccepted (by
      simp only [List.forall_mem_cons]
      exact ⟨by decide, hword (by decide) (hdigits _), hword (by decide) hp,
        hword (by decide) hname.solid, by simp⟩) rfl]
    apply bind_eq_ok.mpr ⟨_, parseField_field (by decide) (parseU64_printUnsigned hid) _, _⟩
    apply bind_eq_ok.mpr ⟨_, parseField_field (by decide) rfl _, _⟩
    exact bind_eq_ok.mpr ⟨_, parseField_field (by decide) rfl _, rfl⟩
  | enabled name =>
    rw [wordsOf, @parse_words _ _ (parseNamed .enabled) (by
      simp only [List.forall_mem_cons]
      exact ⟨by decide, hword (by decide) ha.solid, by simp⟩) rfl]
    exact bind_eq_ok.mpr ⟨_, parseField_field (by decide) rfl _, rfl⟩
  | disabled name =>
    rw [wordsOf, @parse_words _ _ (parseNamed .disabled) (by
      simp only [List.forall_mem_cons]
      exact ⟨by decide, hword (by decide) ha.solid, by simp⟩) rfl]
    exact bind_eq_ok.mpr ⟨_, parseField_field (by decide) rfl _, rfl⟩
  | enabledStatus name on =>
    rw [wordsOf, @parse_words _ _ parseEnabledStatus (by
      simp only [List.forall_mem_cons]
      exact ⟨by decide, hword (by decide) ha.solid, hword (by decide) (hdigits _), by simp⟩) rfl]
    have hon : parseUnsigned 8 (printUnsigned on.toNat) = some on.toNat := by
      cases on <;> decide
    apply bind_eq_ok.mpr ⟨_, parseField_field (by decide) rfl _, _⟩
    apply bind_eq_ok.mpr ⟨_, parseField_field (by decide) hon _, _⟩
    cases on <;> rfl
  | stopping | pong | subscribed | reloaded | reset => exact absurd rfl hform
  | event _ | error _ => exact absurd rfl hform

theorem finish_ok {line : Str} {rest : List Str} {response r : Response}
    (h : finish line rest response = .ok r) : r = response := by
  rw [finish] at h
  split at h
  · cases h
  · cases h
    rfl

theorem solid_value {name value : Str} (h : Solid (field name value)) : Solid value := fun c hc =>
  h c (List.mem_append_right _ (List.mem_cons_of_mem _ hc))

theorem parseField_solid {name value : Str} {fields rest : List Str}
    (hwords : ∀ word ∈ fields, Solid word) (h : parseField name some fields = .ok (value, rest)) :
    Solid value ∧ ∀ word ∈ rest, Solid word := by
  obtain ⟨_, hvalue, rfl⟩ := parseField_ok h
  cases hvalue
  exact ⟨solid_value (hwords _ List.mem_cons_self), fun word hword =>
    hwords word (List.mem_cons_of_mem _ hword)⟩

theorem parseField_rest {α : Type} {name : Str} {read : Str → Option α} {a : α} {fields rest : List Str}
    (hwords : ∀ word ∈ fields, Solid word) (h : parseField name read fields = .ok (a, rest)) :
    ∀ word ∈ rest, Solid word := by
  obtain ⟨value, -, rfl⟩ := parseField_ok h
  exact fun word hword => hwords word (List.mem_cons_of_mem _ hword)

theorem parseStatus_plain {line : Str} {fields : List Str} {r : Response}
    (h : parseStatus line fields = .ok r) : wordsOf r ≠ [] ∧ Plain r := by
  obtain ⟨⟨pid, rest⟩, -, h⟩ := bind_eq_ok.mp h
  obtain ⟨⟨uptime, rest⟩, -, h⟩ := bind_eq_ok.mp h
  rw [finish_ok h]
  exact ⟨by simp [wordsOf], trivial⟩

theorem parseServices_plain {line : Str} {fields : List Str} {r : Response}
    (h : parseServices line fields = .ok r) : wordsOf r ≠ [] ∧ Plain r := by
  obtain ⟨⟨names, rest⟩, -, h⟩ := bind_eq_ok.mp h
  rw [finish_ok h]
  refine ⟨by simp [wordsOf], ?_⟩
  intro name hname hcomma
  split at hname
  · cases hname
  · simpa using (mem_of_mem_splitOnP hname ',' hcomma).2

theorem parseService_plain {line : Str} {fields : List Str} {r : Response}
    (hwords : ∀ word ∈ fields, Solid word) (h : parseService line fields = .ok r) :
    wordsOf r ≠ [] ∧ Plain r := by
  obtain ⟨⟨name, rest⟩, hname, h⟩ := bind_eq_ok.mp h
  obtain ⟨⟨state, rest⟩, hstate, h⟩ := bind_eq_ok.mp h
  obtain ⟨⟨pid, rest⟩, -, h⟩ := bind_eq_ok.mp h
  obtain ⟨⟨generation, rest⟩, -, h⟩ := bind_eq_ok.mp h
  obtain ⟨⟨restarts, rest⟩, -, h⟩ := bind_eq_ok.mp h
  simp only at h
  split at h
  · cases h
  obtain ⟨pid, -, h⟩ := bind_eq_ok.mp h
  cases h
  exact ⟨by simp [wordsOf], (parseField_solid (parseField_rest hwords hname) hstate).1⟩

theorem parseTransaction_plain {line : Str} {fields : List Str} {r : Response}
    (hwords : ∀ word ∈ fields, Solid word) (h : parseTransaction line fields = .ok r) :
    wordsOf r ≠ [] ∧ Plain r := by
  obtain ⟨⟨id, rest⟩, hid, h⟩ := bind_eq_ok.mp h
  obtain ⟨⟨operation, rest⟩, hoperation, h⟩ := bind_eq_ok.mp h
  obtain ⟨⟨name, rest⟩, hname, h⟩ := bind_eq_ok.mp h
  obtain ⟨⟨state, rest⟩, hstate, h⟩ := bind_eq_ok.mp h
  obtain ⟨hsolid, hrest⟩ := parseField_solid (parseField_rest hwords hid) hoperation
  rw [finish_ok h]
  exact ⟨by simp [wordsOf], hsolid, (parseField_solid (parseField_rest hrest hname) hstate).1⟩

theorem parseAccepted_plain {line : Str} {fields : List Str} {r : Response}
    (hwords : ∀ word ∈ fields, Solid word) (h : parseAccepted line fields = .ok r) :
    wordsOf r ≠ [] ∧ Plain r := by
  obtain ⟨⟨id, rest⟩, hid, h⟩ := bind_eq_ok.mp h
  obtain ⟨⟨operation, rest⟩, hoperation, h⟩ := bind_eq_ok.mp h
  obtain ⟨⟨name, rest⟩, hname, h⟩ := bind_eq_ok.mp h
  rw [finish_ok h]
  exact ⟨by simp [wordsOf], (parseField_solid (parseField_rest hwords hid) hoperation).1⟩

theorem parseNamed_plain {make : Str → Response} {line : Str} {fields : List Str} {r : Response}
    (hmake : ∀ name, wordsOf (make name) ≠ [] ∧ Plain (make name))
    (h : parseNamed make line fields = .ok r) : wordsOf r ≠ [] ∧ Plain r := by
  obtain ⟨⟨name, rest⟩, -, h⟩ := bind_eq_ok.mp h
  rw [finish_ok h]
  exact hmake name

theorem parseEnabledStatus_plain {line : Str} {fields : List Str} {r : Response}
    (h : parseEnabledStatus line fields = .ok r) : wordsOf r ≠ [] ∧ Plain r := by
  obtain ⟨⟨name, rest⟩, -, h⟩ := bind_eq_ok.mp h
  obtain ⟨⟨enabled, rest⟩, -, h⟩ := bind_eq_ok.mp h
  simp only at h
  split at h
  · cases h
  · cases h
    exact ⟨by simp [wordsOf], trivial⟩

/-- What is read of fields consists of words, and no name of a list contains a comma. -/
theorem parseForm_plain {line : Str} {r : Response} (h : parseForm line = .ok r) :
    wordsOf r ≠ [] ∧ Plain r := by
  have hsolid : ∀ word ∈ splitWhitespace line, Solid word := fun word hword =>
    (solid_of_mem_splitWhitespace hword).1
  rw [parseForm] at h
  split at h
  · cases h
  next first fields hsplit =>
    rw [hsplit] at hsolid
    split at h
    · cases h
    split at h
    · cases h
    next form fields =>
      have hwords : ∀ word ∈ fields, Solid word := fun word hword =>
        hsolid word (List.mem_cons_of_mem _ (List.mem_cons_of_mem _ hword))
      split at h
      · cases h
      next parse hfind =>
        have hmem := List.mem_of_find?_eq_some hfind
        simp only [forms, List.mem_cons, Prod.mk.injEq, List.not_mem_nil, or_false] at hmem
        obtain ⟨-, rfl⟩ | ⟨-, rfl⟩ | ⟨-, rfl⟩ | ⟨-, rfl⟩ | ⟨-, rfl⟩ | ⟨-, rfl⟩ | ⟨-, rfl⟩ | ⟨-, rfl⟩ := hmem
        · exact parseStatus_plain h
        · exact parseServices_plain h
        · exact parseService_plain hwords h
        · exact parseTransaction_plain hwords h
        · exact parseAccepted_plain hwords h
        · exact @parseNamed_plain .enabled _ _ _ (fun _ => ⟨by simp [wordsOf], trivial⟩) h
        · exact @parseNamed_plain .disabled _ _ _ (fun _ => ⟨by simp [wordsOf], trivial⟩) h
        · exact parseEnabledStatus_plain h

theorem parseLine_ok {line : Str} {r : Response} (h : parseLine line = .ok r) :
    (∃ message, r = .error message ∧ line = "ERR ".toList ++ message) ∨
      (∃ message, r = .event message ∧ message ≠ [] ∧ line = "OK EVENT ".toList ++ message) ∨
      r ∈ [Response.stopping, .pong, .subscribed, .reloaded, .reset] ∨ parseForm line = .ok r := by
  rw [parseLine] at h
  split at h
  next message hline =>
    cases h
    exact .inl ⟨message, rfl, removePrefix_some.mp hline⟩
  split at h
  · cases h
    simp
  split at h
  · cases h
    simp
  split at h
  · cases h
    simp
  split at h
  next message hline =>
    split at h
    · cases h
    next hne =>
      cases h
      exact .inr (.inl ⟨message, rfl, hne, removePrefix_some.mp hline⟩)
  split at h
  · cases h
    simp
  split at h
  · cases h
    simp
  · exact .inr (.inr (.inr h))

theorem parseLine_error {line message : Str} :
    parseLine line = .ok (.error message) ↔ line = "ERR ".toList ++ message := by
  constructor
  · intro h
    obtain ⟨_, hm, hline⟩ | ⟨_, hm, -⟩ | hm | h := parseLine_ok h
    · cases hm
      exact hline
    · cases hm
    · simp at hm
    · exact absurd rfl (parseForm_plain h).1
  · rintro rfl
    rw [parseLine, removePrefix_append]
    rfl

theorem parseLine_event {line message : Str} :
    parseLine line = .ok (.event message) ↔ message ≠ [] ∧ line = "OK EVENT ".toList ++ message := by
  constructor
  · intro h
    obtain ⟨_, hm, -⟩ | ⟨_, hm, hne, hline⟩ | hm | h := parseLine_ok h
    · cases hm
    · cases hm
      exact ⟨hne, hline⟩
    · simp at hm
    · exact absurd rfl (parseForm_plain h).1
  · rintro ⟨hne, rfl⟩
    have hother (text : Str) (h : ¬ "OK EVENT ".toList <+: text) :
        "OK EVENT ".toList ++ message ≠ text := by
      rintro rfl
      exact h (List.prefix_append _ _)
    have herror : removePrefix "ERR ".toList ("OK EVENT ".toList ++ message) = none := rfl
    rw [parseLine, herror]
    simp only
    rw [if_neg (hother _ (by decide)), if_neg (hother _ (by decide)), if_neg (hother _ (by decide)),
      removePrefix_append]
    exact if_neg hne

theorem trimEnd_starts (p : Char → Bool) (s : Str) : trimEnd p s <+: s := by
  rw [trimEnd, ← List.reverse_suffix, List.reverse_reverse]
  exact List.dropWhile_suffix p

theorem getLast_trim (s : Str) : ∀ c ∈ (trim s).getLast?, isWhitespace c = false := by
  intro c hc
  have hhead := List.head?_dropWhile_not isWhitespace (s.dropWhile isWhitespace).reverse
  rw [trim, trimEnd, List.getLast?_reverse] at hc
  rw [hc] at hhead
  simpa using hhead

theorem trim_message {first : Char} {start sent message : Str} (hfirst : isWhitespace first = false)
    (hlength : sent.length ≤ message.length) :
    trim (first :: (start ++ ' ' :: sent) ++ ['\n']) = first :: (start ++ ' ' :: message) ↔
      sent = message ∧ message ≠ [] ∧ ∀ c ∈ message.getLast?, isWhitespace c = false := by
  have hends {text : Str} (hne : text ≠ []) :
      (first :: (start ++ ' ' :: text)).getLast? = text.getLast? := by
    have happend : first :: (start ++ ' ' :: text) = (first :: (start ++ [' '])) ++ text := by simp
    rw [happend, List.getLast?_append_of_ne_nil _ hne]
  constructor
  · intro h
    have hlast := getLast_trim (first :: (start ++ ' ' :: sent) ++ ['\n'])
    have hpre := trimEnd_starts isWhitespace (first :: (start ++ ' ' :: sent))
    have htrim : trim (first :: (start ++ ' ' :: sent) ++ ['\n']) =
        trimEnd isWhitespace (first :: (start ++ ' ' :: sent)) := by
      rw [trim, List.cons_append, List.dropWhile_cons_of_neg (by simp [hfirst]), ← List.cons_append,
        trimEnd_concat rfl]
    rw [← htrim, h, List.prefix_cons_inj, List.prefix_append_right_inj, List.prefix_cons_inj] at hpre
    obtain rfl := hpre.eq_of_length_le hlength
    rw [h] at hlast
    have hne : message ≠ [] := by
      rintro rfl
      have hspace := hlast ' ' (by simp [List.getLast?_cons])
      cases hspace
    rw [hends hne] at hlast
    exact ⟨rfl, hne, hlast⟩
  · rintro ⟨rfl, hne, hlast⟩
    apply trim_ended
    · intro c hc
      cases hc
      exact hfirst
    · rwa [hends hne]

theorem oneLine_length (m : Str) : (oneLine m).length = m.length := List.length_map _

theorem oneLine_eq {m : Str} (hline : '\n' ∉ m) :
    oneLine m = m ↔ ∀ c ∈ m, c ≠ '\r' ∧ c.toNat ≠ 0 := by
  have hspace (c : Char) (hc : c ∈ m) :
      (if c = '\n' ∨ c = '\r' ∨ c.toNat = 0 then ' ' else c) = c ↔ c ≠ '\r' ∧ c.toNat ≠ 0 := by
    have hn : c ≠ '\n' := by
      rintro rfl
      exact hline hc
    rw [ite_eq_right_iff, ← not_or]
    constructor
    · rintro h hbad
      have hc := h (.inr hbad)
      subst hc
      revert hbad
      decide
    · exact fun h hbad => absurd (hbad.resolve_left hn) h
  have hmap : oneLine m = m ↔ oneLine m = m.map id := by rw [List.map_id]
  rw [hmap, oneLine, List.map_inj_left]
  exact forall₂_congr hspace

theorem error_survives {message : Str} (hline : '\n' ∉ message) :
    Response.parse (Response.error message).asLine = .ok (.error message) ↔ Sendable message := by
  have hsend : Response.parse (Response.error message).asLine = .ok (.error message) ↔
      trim ('E' :: ("RR".toList ++ ' ' :: oneLine message) ++ ['\n']) =
        'E' :: ("RR".toList ++ ' ' :: message) := parseLine_error
  rw [hsend, trim_message rfl (oneLine_length message).le, oneLine_eq hline]
  exact ⟨fun ⟨hplain, hne, hends⟩ => ⟨hne, hplain, hends⟩, fun h => ⟨h.plain, h.nonempty, h.ends⟩⟩

theorem event_survives {message : Str} (hline : '\n' ∉ message) :
    Response.parse (Response.event message).asLine = .ok (.event message) ↔ Sendable message := by
  have hsend : Response.parse (Response.event message).asLine = .ok (.event message) ↔
      message ≠ [] ∧ trim ('O' :: ("K EVENT".toList ++ ' ' :: oneLine (trimEnd isLineEnd message)) ++
        ['\n']) = 'O' :: ("K EVENT".toList ++ ' ' :: message) := parseLine_event
  have htrim := (trimEnd_starts isLineEnd message).length_le
  rw [hsend, trim_message rfl ((oneLine_length _).trans_le htrim)]
  constructor
  · rintro ⟨-, hsame, hne, hends⟩
    have hwhole : trimEnd isLineEnd message = message := by
      apply (trimEnd_starts isLineEnd message).eq_of_length_le
      rw [← oneLine_length (trimEnd isLineEnd message), hsame]
    rw [hwhole, oneLine_eq hline] at hsame
    exact ⟨hne, hsame, hends⟩
  · intro h
    have hwhole : trimEnd isLineEnd message = message := by
      apply trimEnd_self
      intro c hc
      have hspace := h.ends c hc
      rw [isLineEnd, Bool.or_eq_false_iff, decide_eq_false_iff_not, decide_eq_false_iff_not]
      constructor
      · rintro rfl
        cases hspace
      · rintro rfl
        cases hspace
    rw [hwhole, oneLine_eq hline]
    exact ⟨h.nonempty, h.plain, h.nonempty, h.ends⟩

theorem parse_forms {r : Response} (hform : wordsOf r ≠ []) (h : Response.parse r.asLine = .ok r) :
    Plain r := by
  obtain ⟨_, rfl, -⟩ | ⟨_, rfl, -⟩ | hr | h := parseLine_ok h
  · exact absurd rfl hform
  · exact absurd rfl hform
  · simp only [List.mem_cons, List.not_mem_nil, or_false] at hr
    obtain rfl | rfl | rfl | rfl | rfl := hr <;> exact absurd rfl hform
  · exact (parseForm_plain h).2

/-- A response comes back from the wire if and only if nothing in it is cut or replaced there. -/
theorem response_survives_iff (r : Response) (h : Admissible r) :
    Response.parse r.asLine = .ok r ↔ Plain r := by
  by_cases hform : wordsOf r = []
  · cases r with
    | event message => exact event_survives h
    | error message => exact error_survives h
    | stopping => exact iff_of_true rfl trivial
    | pong => exact iff_of_true rfl trivial
    | subscribed => exact iff_of_true rfl trivial
    | reloaded => exact iff_of_true rfl trivial
    | reset => exact iff_of_true rfl trivial
    | _ => cases hform
  · exact ⟨parse_forms hform, fun hplain => form_survives h hplain hform⟩

theorem names_survive :
    Response.parse (Response.services ["shell".toList, "a=b".toList]).asLine =
      .ok (.services ["shell".toList, "a=b".toList]) := by
  apply (response_survives_iff _ _).mpr
  · simp only [Plain, List.forall_mem_cons]
    decide
  · simp only [Admissible, ValidName, List.forall_mem_cons]
    decide

/-- A name that contains a comma is read as two, and an empty message is no message. -/
theorem comma_splits_name :
    Admissible (.services ["a,b".toList]) ∧
      Response.parse (Response.services ["a,b".toList]).asLine =
        .ok (.services ["a".toList, "b".toList]) ∧
      Response.parse (Response.error []).asLine = .error (.malformedResponse "ERR".toList) ∧
      Response.parse (Response.event []).asLine = .error (.malformedResponse "OK EVENT".toList) :=
  ⟨List.forall_mem_singleton.mpr ⟨by decide, by decide⟩, by decide +kernel, by decide +kernel,
    by decide +kernel⟩

end FractalD.Control.RoundTrip
