import FractalD.Control.Messages
import FractalD.Machine.Wire

namespace FractalD.Control.Requests

open FractalD.Control.Messages FractalD.Machine.CString FractalD.Machine.Text
open FractalD.Machine.Wire

def withField (command field : Str) : Str := command ++ ' ' :: field

/-- The line that is sent for a request, without its newline. -/
def Request.line : Request → Str
  | .status => "STATUS".toList
  | .stop => "STOP".toList
  | .ping => "PING".toList
  | .list => "LIST".toList
  | .reload => "RELOAD".toList
  | .enableService name => withField "ENABLE_SERVICE".toList name
  | .disableService name => withField "DISABLE_SERVICE".toList name
  | .isEnabled name => withField "IS_ENABLED".toList name
  | .reloadService name => withField "RELOAD_SERVICE".toList name
  | .resetFailed name => name.elim "RESET_FAILED".toList (withField "RESET_FAILED".toList)
  | .startService name => withField "START_SERVICE".toList name
  | .isolateService name => withField "ISOLATE_SERVICE".toList name
  | .stopService name => withField "STOP_SERVICE".toList name
  | .restartService name => withField "RESTART_SERVICE".toList name
  | .serviceStatus name => withField "SERVICE_STATUS".toList name
  | .transactionStatus id => withField "TRANSACTION_STATUS".toList (printUnsigned id)
  | .subscribe since =>
    since.elim "SUBSCRIBE".toList fun since => withField "SUBSCRIBE".toList (printUnsigned since)
  | .shutdown action => withField "SHUTDOWN".toList action.asStr

def Request.asLine (r : Request) : Str := Request.line r ++ ['\n']

/-- The numbers of a request are those of a `u64`. -/
def Request.InRange : Request → Prop
  | .transactionStatus id => id ≤ ulongMax
  | .subscribe since => ∀ n ∈ since, n ≤ ulongMax
  | _ => True

def Request.serviceName : Request → Option Str
  | .enableService name | .disableService name | .isEnabled name | .reloadService name
  | .startService name | .isolateService name | .stopService name | .restartService name
  | .serviceStatus name => some name
  | .resetFailed name => name
  | _ => none

/-- A request is refused by the parser or comes out of it as it is. -/
def Survives (r : Request) : Prop :=
  (∃ e, Request.parse (Request.asLine r) = .error e) ∨ Request.parse (Request.asLine r) = .ok r

theorem splitWhitespace_withField {command : Str} (hsolid : Solid command) (hne : command ≠ [])
    (field : Str) : splitWhitespace (withField command field ++ ['\n']) =
      command :: splitWhitespace field := by
  rw [splitWhitespace_ended rfl, withField, splitWhitespace_cons hsolid hne rfl]

theorem parse_withField {command : Str} {read : Messages.Field Request} (hsolid : Solid command)
    (hne : command ≠ []) (hfind : commands.find? (·.1 = command) = some (command, read))
    (field : Str) : Request.parse (withField command field ++ ['\n']) = (do
      let (request, rest) ← read (splitWhitespace field)
      if rest = [] then pure request
      else throw (.malformedRequest (trim (withField command field ++ ['\n'])))) := by
  rw [Request.parse, splitWhitespace_withField hsolid hne]
  simp only [hfind]

theorem parseServiceName_word {word : Str} (h : Solid word) (hne : word ≠ []) (rest : List Str) :
    parseServiceName (word :: rest) = .ok (word, rest) := by
  have hline : '\n' ∉ word := fun hc => by cases h _ hc
  have hreturn : '\r' ∉ word := fun hc => by cases h _ hc
  rw [parseServiceName, if_neg (by simp [hne, hline, hreturn])]
  rfl

theorem survives_named_iff {command name : Str} {make : Str → Request} (hsolid : Solid command)
    (hne : command ≠ [])
    (hfind : commands.find? (·.1 = command) = some (command, build make parseServiceName))
    (hline : Request.asLine (make name) = withField command name ++ ['\n'])
    (hmake : ∀ a b, make a = make b → a = b) :
    Survives (make name) ↔ ∀ word, splitWhitespace name = [word] → word = name := by
  rw [Survives, hline, parse_withField hsolid hne hfind]
  cases hwords : splitWhitespace name with
  | nil => simp [build, parseServiceName, bind, Except.bind, throw, throwThe, MonadExceptOf.throw]
  | cons word rest =>
    obtain ⟨hword, hnonempty⟩ := solid_of_mem_splitWhitespace (hwords ▸ List.mem_cons_self)
    have hread : build make parseServiceName (word :: rest) = .ok (make word, rest) := by
      rw [build, parseServiceName_word hword hnonempty]
      rfl
    rw [hread]
    cases rest with
    | nil =>
      change (∃ e, Except.ok (make word) = .error e) ∨ Except.ok (make word) = .ok (make name) ↔ _
      simp only [reduceCtorEq, exists_false, false_or, Except.ok.injEq, List.cons.injEq, and_true]
      exact ⟨fun h w hw => hw ▸ hmake _ _ h, fun h => congrArg make (h word rfl)⟩
    | cons next rest =>
      refine iff_of_true (.inl ⟨_, rfl⟩) ?_
      intro w hw
      cases hw

theorem survives_field {command word : Str} {request : Request} {read : Messages.Field Request}
    (hsolid : Solid command) (hne : command ≠ [])
    (hfind : commands.find? (·.1 = command) = some (command, read))
    (hline : Request.asLine request = withField command word ++ ['\n']) (hword : Solid word)
    (hnonempty : word ≠ []) (hread : (∃ e, read [word] = .error e) ∨ read [word] = .ok (request, [])) :
    Survives request := by
  rw [Survives, hline, parse_withField hsolid hne hfind, splitWhitespace_single hword hnonempty]
  obtain ⟨e, he⟩ | hok := hread
  · rw [he]
    exact .inl ⟨e, rfl⟩
  · rw [hok]
    exact .inr rfl

theorem resetFailed_survives_iff (name : Str) : Survives (.resetFailed (some name)) ↔
    (∀ word, splitWhitespace name = [word] → word = name) ∧ splitWhitespace name ≠ [] := by
  have hparse := @parse_withField "RESET_FAILED".toList _ (by decide) (by decide) rfl name
  have hline : Request.asLine (.resetFailed (some name)) =
      withField "RESET_FAILED".toList name ++ ['\n'] := rfl
  rw [Survives, hline, hparse]
  cases hwords : splitWhitespace name with
  | nil =>
    change (∃ e, Except.ok (Request.resetFailed none) = .error e) ∨
      Except.ok (Request.resetFailed none) = .ok (Request.resetFailed (some name)) ↔ _
    simp
  | cons word rest =>
    cases rest with
    | nil =>
      change (∃ e, Except.ok (Request.resetFailed (some word)) = .error e) ∨
        Except.ok (Request.resetFailed (some word)) = .ok (Request.resetFailed (some name)) ↔ _
      simp
    | cons next rest =>
      refine iff_of_true (.inl ⟨_, rfl⟩) ⟨?_, by simp⟩
      intro w hw
      cases hw

theorem survives_subscribe {since : Nat} (h : since ≤ ulongMax) : Survives (.subscribe (some since)) := by
  apply @survives_field "SUBSCRIBE".toList _ _ _ (by decide) (by decide) rfl rfl
    (solid_printUnsigned since) (printUnsigned_ne_nil since)
  right
  simp only [build, parseOptionalSequence, parseU64_printUnsigned h]
  rfl

theorem survives_transactionStatus {id : Nat} (h : id ≤ ulongMax) : Survives (.transactionStatus id) := by
  apply @survives_field "TRANSACTION_STATUS".toList _ _ _ (by decide) (by decide) rfl rfl
    (solid_printUnsigned id) (printUnsigned_ne_nil id)
  simp only [build, parseTransactionId, parseU64_printUnsigned h]
  by_cases hid : id = 0
  · rw [if_pos hid]
    exact .inl ⟨_, rfl⟩
  · rw [if_neg hid]
    exact .inr rfl

/-- A request comes to the daemon as it is or is refused, exactly where the name that it
carries is not one word with spaces around it, and where a name to reset has words at all. -/
theorem request_survives_iff (r : Request) (h : Request.InRange r) : Survives r ↔
    (∀ name ∈ Request.serviceName r, ∀ word, splitWhitespace name = [word] → word = name) ∧
      ∀ name, r = .resetFailed (some name) → splitWhitespace name ≠ [] := by
  have hnamed {command : Str} {make : Str → Request} (hsolid : Solid command)
      (hne : command ≠ [])
      (hfind : commands.find? (·.1 = command) = some (command, build make parseServiceName))
      (hline : ∀ name, Request.asLine (make name) = withField command name ++ ['\n'])
      (hmake : ∀ a b, make a = make b → a = b) (name : Str)
      (hname : Request.serviceName (make name) = some name)
      (hreset : ∀ n, make name ≠ .resetFailed (some n)) : Survives (make name) ↔
        (∀ name' ∈ Request.serviceName (make name), ∀ word, splitWhitespace name' = [word] →
          word = name') ∧
        ∀ name', make name = .resetFailed (some name') → splitWhitespace name' ≠ [] := by
    rw [survives_named_iff hsolid hne hfind (hline name) hmake, hname]
    simp [hreset]
  have hplain {r : Request} (hs : Survives r) (hname : Request.serviceName r = none)
      (hreset : ∀ n, r ≠ .resetFailed (some n)) : Survives r ↔
        (∀ name ∈ Request.serviceName r, ∀ word, splitWhitespace name = [word] → word = name) ∧
          ∀ name, r = .resetFailed (some name) → splitWhitespace name ≠ [] := by
    rw [hname]
    exact iff_of_true hs ⟨by simp, fun n hn => absurd hn (hreset n)⟩
  cases r with
  | status | stop | ping | list | reload => exact hplain (.inr rfl) rfl (by simp)
  | enableService name =>
    exact hnamed (by decide) (by decide) rfl (fun _ => rfl) (by simp) name rfl (by simp)
  | disableService name =>
    exact hnamed (by decide) (by decide) rfl (fun _ => rfl) (by simp) name rfl (by simp)
  | isEnabled name =>
    exact hnamed (by decide) (by decide) rfl (fun _ => rfl) (by simp) name rfl (by simp)
  | reloadService name =>
    exact hnamed (by decide) (by decide) rfl (fun _ => rfl) (by simp) name rfl (by simp)
  | startService name =>
    exact hnamed (by decide) (by decide) rfl (fun _ => rfl) (by simp) name rfl (by simp)
  | isolateService name =>
    exact hnamed (by decide) (by decide) rfl (fun _ => rfl) (by simp) name rfl (by simp)
  | stopService name =>
    exact hnamed (by decide) (by decide) rfl (fun _ => rfl) (by simp) name rfl (by simp)
  | restartService name =>
    exact hnamed (by decide) (by decide) rfl (fun _ => rfl) (by simp) name rfl (by simp)
  | serviceStatus name =>
    exact hnamed (by decide) (by decide) rfl (fun _ => rfl) (by simp) name rfl (by simp)
  | resetFailed name =>
    cases name with
    | none => exact hplain (.inr rfl) rfl (by simp)
    | some name =>
      rw [resetFailed_survives_iff]
      simp [Request.serviceName]
  | transactionStatus id => exact hplain (survives_transactionStatus h) rfl (by simp)
  | subscribe since =>
    cases since with
    | none => exact hplain (.inr rfl) rfl (by simp)
    | some since => exact hplain (survives_subscribe (h since rfl)) rfl (by simp)
  | shutdown action =>
    apply hplain _ rfl (by simp)
    cases action <;> exact .inr rfl

theorem start_survives : Survives (.startService "shell".toList) ↔
    (∀ name ∈ Request.serviceName (.startService "shell".toList), ∀ word,
      splitWhitespace name = [word] → word = name) ∧
      ∀ name, Request.startService "shell".toList = .resetFailed (some name) →
        splitWhitespace name ≠ [] :=
  request_survives_iff (.startService "shell".toList) trivial

/-- The request to reset a service with an empty name resets all, and a name with a space
before it is that of another service. -/
theorem empty_name_resets_all :
    Request.parse (Request.asLine (.resetFailed (some []))) = .ok (.resetFailed none) ∧
      Request.parse (Request.asLine (.stopService " shell".toList)) =
        .ok (.stopService "shell".toList) := by
  constructor <;> decide +kernel

end FractalD.Control.Requests
