import FractalD.Config.Words
import FractalD.Control.Messages
import FractalD.Machine.Wire

namespace FractalD.Control.Responses

open FractalD.Config.Words FractalD.Control.Messages FractalD.Machine.CString
open FractalD.Machine.Text FractalD.Machine.Wire

/-- The value of the field of a name, which is the next, and the fields that are left. -/
def parseField {α : Type} (name : Str) (read : Str → Option α) (fields : List Str) :
    Except ProtocolError (α × List Str) :=
  match fields with
  | [] => throw (.malformedResponse ("missing ".toList ++ name))
  | field :: rest =>
    match splitOnce '=' field with
    | none => throw (.malformedResponse field)
    | some (fieldName, value) =>
      if fieldName ≠ name then throw (.malformedResponse field)
      else
        match read value with
        | none => throw (.malformedResponse field)
        | some a => pure (a, rest)

/-- What is read of a response, if no field is left. -/
def finish (line : Str) (rest : List Str) (response : Response) : Except ProtocolError Response :=
  if rest ≠ [] then throw (.malformedResponse line) else pure response

def parseStatus (line : Str) (fields : List Str) : Except ProtocolError Response := do
  let (pid, fields) ← parseField "pid".toList (parseUnsigned 32) fields
  let (uptimeMs, fields) ← parseField "uptime_ms".toList parseU64 fields
  finish line fields (.status pid uptimeMs)

def parseServices (line : Str) (fields : List Str) : Except ProtocolError Response := do
  let (names, fields) ← parseField "names".toList some fields
  finish line fields (.services (if names = [] then [] else names.splitOn ','))

def parsePid (line pid : Str) : Except ProtocolError (Option Nat) :=
  if pid = ['-'] then pure none
  else
    match parseUnsigned 32 pid with
    | none => throw (.malformedResponse line)
    | some pid => pure (some pid)

def parseService (line : Str) (fields : List Str) : Except ProtocolError Response := do
  let (name, fields) ← parseField "name".toList some fields
  let (state, fields) ← parseField "state".toList some fields
  let (pid, fields) ← parseField "pid".toList some fields
  let (generation, fields) ← parseField "generation".toList parseU64 fields
  let (restartCount, fields) ← parseField "restarts".toList (parseUnsigned 32) fields
  if fields ≠ [] then throw (.malformedResponse line)
  else do
    let pid ← parsePid line pid
    pure (.service ⟨name, state, pid, generation, restartCount⟩)

def parseTransaction (line : Str) (fields : List Str) : Except ProtocolError Response := do
  let (id, fields) ← parseField "id".toList parseU64 fields
  let (operation, fields) ← parseField "operation".toList some fields
  let (name, fields) ← parseField "name".toList some fields
  let (state, fields) ← parseField "state".toList some fields
  finish line fields (.transaction ⟨id, operation, name, state⟩)

def parseAccepted (line : Str) (fields : List Str) : Except ProtocolError Response := do
  let (id, fields) ← parseField "id".toList parseU64 fields
  let (operation, fields) ← parseField "operation".toList some fields
  let (name, fields) ← parseField "name".toList some fields
  finish line fields (.accepted id operation name)

def parseNamed (make : Str → Response) (line : Str) (fields : List Str) :
    Except ProtocolError Response := do
  let (name, fields) ← parseField "name".toList some fields
  finish line fields (make name)

def parseEnabledStatus (line : Str) (fields : List Str) : Except ProtocolError Response := do
  let (name, fields) ← parseField "name".toList some fields
  let (enabled, fields) ← parseField "enabled".toList (parseUnsigned 8) fields
  if fields ≠ [] ∨ enabled > 1 then throw (.malformedResponse line)
  else pure (.enabledStatus name (enabled = 1))

/-- The responses that consist of fields. -/
def forms : List (Str × (Str → List Str → Except ProtocolError Response)) :=
  [("STATUS".toList, parseStatus),
    ("SERVICES".toList, parseServices),
    ("SERVICE".toList, parseService),
    ("TRANSACTION".toList, parseTransaction),
    ("ACCEPTED".toList, parseAccepted),
    ("ENABLED".toList, parseNamed .enabled),
    ("DISABLED".toList, parseNamed .disabled),
    ("ENABLED_STATUS".toList, parseEnabledStatus)]

def parseForm (line : Str) : Except ProtocolError Response :=
  match splitWhitespace line with
  | [] => throw (.malformedResponse line)
  | first :: fields =>
    if first ≠ "OK".toList then throw (.malformedResponse line)
    else
      match fields with
      | [] => throw (.malformedResponse line)
      | form :: fields =>
        match forms.find? (·.1 = form) with
        | none => throw (.malformedResponse line)
        | some (_, parse) => parse line fields

def parseLine (line : Str) : Except ProtocolError Response :=
  match removePrefix "ERR ".toList line with
  | some rest => pure (.error rest)
  | none =>
    if line = "OK STOPPING".toList then pure .stopping
    else if line = "OK PONG".toList then pure .pong
    else if line = "OK SUBSCRIBED".toList then pure .subscribed
    else
      match removePrefix "OK EVENT ".toList line with
      | some event => if event = [] then throw (.malformedResponse line) else pure (.event event)
      | none =>
        if line = "OK RELOADED".toList then pure .reloaded
        else if line = "OK RESET_FAILED".toList then pure .reset
        else parseForm line

def Response.parse (value : Str) : Except ProtocolError Response := parseLine (trim value)

example : Response.parse "OK SERVICES names=shell,network\n".toList =
    .ok (.services ["shell".toList, "network".toList]) := by decide +kernel

end FractalD.Control.Responses
