import FractalD.Config.Words
import FractalD.Control.State
import FractalD.Machine.Wire
import FractalD.Resolved.Lossy

namespace FractalD.Journal.Entries

open FractalD.Config.Words FractalD.Control.State FractalD.Machine.CString
open FractalD.Machine.OrderedMap FractalD.Machine.Text FractalD.Machine.Utf8 FractalD.Machine.Wire
open FractalD.Resolved.Answers FractalD.Resolved.Lossy

/-- The bytes of a message that `encode_entry` keeps. -/
def keeps (byte : UInt8) : Bool := byte ≠ 0 && byte ≠ 10

def encodeEntry (unit stream : Str) (pid : UInt32) (message : List UInt8) : List UInt8 :=
  let message := message.filter keeps
  asBytes "MESSAGE=".toList ++ message ++
    asBytes "\nFRACTALD_SERVICE=".toList ++ asBytes unit ++
    asBytes "\n_PID=".toList ++ asBytes (printUnsigned pid.toNat) ++
    asBytes "\n_STREAM=".toList ++ asBytes stream ++
    asBytes "\n_TRANSPORT=stdout\n".toList

def parseFields (payload : List UInt8) : BTreeMap Str Str :=
  ((textLines (fromUtf8Lossy payload)).filterMap (splitOnce '=')).foldl
    (fun fields e => fields.insert e.1 e.2) empty

/-- A message without its NUL and newline characters. -/
def cleaned (message : Str) : Str := message.filter (fun c => c ≠ '\x00' && c ≠ '\n')

/-- The entry is read back as it was meant. -/
def Filed (unit stream message : Str) (fields : BTreeMap Str Str) : Prop :=
  fields.get "FRACTALD_SERVICE".toList = some unit ∧ fields.get "_STREAM".toList = some stream ∧
    fields.get "MESSAGE".toList = some (cleaned message)

section

variable {c : Char} {s key value : Str}

theorem filter_utf8 (c : Char) : (String.utf8EncodeChar c).filter keeps =
    if c ≠ '\x00' && c ≠ '\n' then String.utf8EncodeChar c else [] := by
  split
  next h =>
    rw [List.filter_eq_self]
    intro b hb
    rw [Bool.and_eq_true, decide_eq_true_eq, decide_eq_true_eq] at h
    rw [keeps, Bool.and_eq_true, decide_eq_true_eq, decide_eq_true_eq]
    refine ⟨?_, ?_⟩
    · rintro rfl
      exact h.1 (Char.toNat_inj.mp (toNat_of_mem_utf8 (by decide) hb))
    · rintro rfl
      exact h.2 (Char.toNat_inj.mp (toNat_of_mem_utf8 (by decide) hb))
  next h =>
    rw [Bool.and_eq_true, decide_eq_true_eq, decide_eq_true_eq, not_and_or, not_not, not_not] at h
    obtain rfl | rfl := h
    · rfl
    · rfl

theorem filter_asBytes (s : Str) : (asBytes s).filter keeps = asBytes (cleaned s) := by
  induction s with
  | nil => rfl
  | cons c s ih =>
    have hc : asBytes (c :: s) = String.utf8EncodeChar c ++ asBytes s := List.flatMap_cons
    rw [hc, List.filter_append, filter_utf8, ih]
    simp only [cleaned, List.filter_cons]
    split
    · exact List.flatMap_cons.symm
    · rfl

def entryFields (unit stream : Str) (pid : UInt32) (message : Str) : List (Str × Str) :=
  [("MESSAGE".toList, cleaned message), ("FRACTALD_SERVICE".toList, unit),
    ("_PID".toList, printUnsigned pid.toNat), ("_STREAM".toList, stream),
    ("_TRANSPORT".toList, "stdout".toList)]

def fieldLine (e : Str × Str) : Str := e.1 ++ '=' :: e.2

theorem encodeEntry_text (unit stream : Str) (pid : UInt32) (message : Str) :
    encodeEntry unit stream pid (asBytes message) =
      asBytes (((entryFields unit stream pid message).map fieldLine).flatMap (· ++ ['\n'])) := by
  have happend : ∀ s t : Str, asBytes (s ++ t) = asBytes s ++ asBytes t := by
    intro s t
    exact List.flatMap_append
  have hservice : "\nFRACTALD_SERVICE=".toList = '\n' :: ("FRACTALD_SERVICE".toList ++ ['=']) := rfl
  have hpid : "\n_PID=".toList = '\n' :: ("_PID".toList ++ ['=']) := rfl
  have hstream : "\n_STREAM=".toList = '\n' :: ("_STREAM".toList ++ ['=']) := rfl
  have htransport : "\n_TRANSPORT=stdout\n".toList =
      '\n' :: ("_TRANSPORT".toList ++ '=' :: ("stdout".toList ++ ['\n'])) := rfl
  have hmessage : "MESSAGE=".toList = "MESSAGE".toList ++ ['='] := rfl
  simp only [encodeEntry, filter_asBytes, ← happend]
  rw [hmessage, hservice, hpid, hstream, htransport]
  simp only [entryFields, fieldLine, List.map_cons, List.map_nil, List.flatMap_cons,
    List.flatMap_nil, List.append_assoc, List.cons_append, List.nil_append, List.append_nil]

theorem unreturned_fieldLine :
    unreturned (fieldLine (key, value)) = fieldLine (key, unreturned value) := by
  by_cases hv : value = []
  · rw [hv, fieldLine, unreturned, if_neg (by simp)]
    rfl
  · have hlast : (fieldLine (key, value)).getLast? = value.getLast? := by
      rw [fieldLine, List.getLast?_append_of_ne_nil _ (List.cons_ne_nil _ _),
        List.getLast?_cons_of_ne_nil hv]
    have hdrop : (fieldLine (key, value)).dropLast = fieldLine (key, value.dropLast) := by
      rw [fieldLine, List.dropLast_append_of_ne_nil (List.cons_ne_nil _ _),
        List.dropLast_cons_of_ne_nil hv]
      rfl
    simp only [unreturned, hlast, hdrop]
    split <;> rfl

theorem splitOnce_fieldLine (h : '=' ∉ key) :
    splitOnce '=' (unreturned (fieldLine (key, value))) = some (key, unreturned value) := by
  rw [unreturned_fieldLine]
  exact splitOnce_append h _

end

section

variable {unit stream message : Str} {pid : UInt32}

theorem newline_not_mem_cleaned (s : Str) : '\n' ∉ cleaned s := by
  intro h
  simpa using List.of_mem_filter h

theorem entry_oneLine (hunit : '\n' ∉ unit) (hstream : '\n' ∉ stream) :
    ∀ e ∈ entryFields unit stream pid message, '=' ∉ e.1 ∧ '\n' ∉ fieldLine e := by
  have hm := newline_not_mem_cleaned message
  have hp : '\n' ∉ printUnsigned pid.toNat := by
    intro h
    exact absurd (solid_printUnsigned _ _ h) (by decide)
  simp only [entryFields, List.forall_mem_cons]
  simp only [fieldLine, List.mem_append, List.mem_cons, not_or]
  refine ⟨⟨by decide, by decide, by decide, hm⟩, ⟨by decide, by decide, by decide, hunit⟩,
    ⟨by decide, by decide, by decide, hp⟩, ⟨by decide, by decide, by decide, hstream⟩,
    ⟨by decide, by decide, by decide, by decide⟩, by simp⟩

/-- The receiver gets each field without the carriage return that may end it. -/
theorem parseFields_encodeEntry (hunit : '\n' ∉ unit) (hstream : '\n' ∉ stream) :
    parseFields (encodeEntry unit stream pid (asBytes message)) =
      ((entryFields unit stream pid message).map (fun e => (e.1, unreturned e.2))).foldl
        (fun fields e => fields.insert e.1 e.2) empty := by
  have h := @entry_oneLine _ _ message pid hunit hstream
  rw [parseFields, encodeEntry_text, asBytes, lossy_utf8, textLines_unreturned (by
    intro line hline
    obtain ⟨e, he, rfl⟩ := List.mem_map.mp hline
    exact (h e he).2), List.map_map]
  congr 1
  generalize entryFields unit stream pid message = fields at h
  induction fields with
  | nil => rfl
  | cons e fields ih =>
    obtain ⟨he, hfields⟩ := List.forall_mem_cons.mp h
    rw [List.map_cons, List.filterMap_cons, Function.comp_apply, splitOnce_fieldLine he.1, ih hfields]
    rfl

theorem solid_serviceName (h : validateServiceName unit = .ok ()) : Solid unit := by
  intro c hc
  rw [validateServiceName] at h
  split at h
  next => cases h
  next hvalid =>
    rw [← Bool.not_eq_true]
    intro hspace
    refine hvalid (.inr (.inr (.inr (.inr ?_))))
    exact List.any_eq_true.mpr ⟨c, hc, by rw [hspace, Bool.or_true]⟩

theorem oneLine_of_solid (h : Solid unit) : OneLine unit := by
  refine ⟨fun hn => absurd (h _ hn) (by decide), fun hr => ?_⟩
  exact absurd (h _ (List.mem_of_getLast? hr)) (by decide)

/-- The unit and the stream are always read back, and so is the message unless it
ends with a carriage return, which `lines` takes for a part of the end of its line. -/
theorem filed_iff (hunit : validateServiceName unit = .ok ()) (hstream : OneLine stream) :
    Filed unit stream message (parseFields (encodeEntry unit stream pid (asBytes message))) ↔
      (cleaned message).getLast? ≠ some '\r' := by
  have hu := oneLine_of_solid (solid_serviceName hunit)
  rw [parseFields_encodeEntry hu.1 hstream.1, Filed, ← unreturned_eq_iff]
  simp only [entryFields, List.map_cons, List.map_nil, List.foldl_cons, List.foldl_nil, get_insert]
  rw [unreturned_eq_iff.mpr hu.2, unreturned_eq_iff.mpr hstream.2]
  simp

end

/-- A message that a daemon prints with a line end of its own. -/
theorem filed_plain : Filed "sshd".toList "stdout".toList "up\n".toList
    (parseFields (encodeEntry "sshd".toList "stdout".toList 7 (asBytes "up\n".toList))) :=
  (filed_iff (by decide) ⟨by decide, by decide⟩).mpr (by decide)

/-- The carriage return that ends a message is lost. -/
theorem return_lost : ¬ Filed "sshd".toList "stdout".toList "up\r".toList
    (parseFields (encodeEntry "sshd".toList "stdout".toList 7 (asBytes "up\r".toList))) := by
  unfold Filed
  decide

end FractalD.Journal.Entries
