import FractalD.Config.SyscallFilter
import FractalD.Escape.Names

namespace FractalD.Config.Credentials

open FractalD.Config.SyscallFilter FractalD.Config.Words FractalD.Escape.Names
open FractalD.Machine.CString FractalD.Machine.Result FractalD.Machine.Text

inductive CredentialSource
  | file (path : Str)
  | store (name : Str)
  | value (bytes : List UInt8)
  deriving DecidableEq

structure CredentialSpec where
  name : Str
  source : CredentialSource
  deriving DecidableEq

structure CredentialImportSpec where
  pattern : Str
  rename : Option Str
  deriving DecidableEq

def ownerMarker : Str := ".fractald-owner".toList

def nameCharacter (c : Char) : Bool := c.isAlphanum || c ∈ "_-.".toList

/-- A name that is one component of a path, and not that of the mark of a directory. -/
def safeCredentialName (value : Str) : Bool :=
  value ≠ [] && value ≠ ".".toList && value ≠ "..".toList && value ≠ ownerMarker &&
    value.all nameCharacter

def validateCredentialName (value : Str) (line : Nat) : Except ConfigError Unit :=
  if safeCredentialName value then pure ()
  else throw ⟨some line, "invalid credential name ".toList ++ value⟩

def validateCredentialNameTemplate (value : Str) : Bool :=
  value ≠ [] && value.all fun c => nameCharacter c || c = '*'

def fileCredential (directive : Directive) : Except ConfigError CredentialSpec :=
  match splitOnce ':' directive.value with
  | none => throw (.atLine directive.line "credentials.file entries must use NAME:PATH")
  | some (name, path) => do
    validateCredentialName name directive.line
    if path = [] then throw (.atLine directive.line "credential path is empty")
    else pure ⟨name, .file path⟩

def valueCredential (directive : Directive) : Except ConfigError CredentialSpec :=
  match splitOnce ':' directive.value with
  | none => throw (.atLine directive.line "credentials.value entries must use NAME:VALUE")
  | some (name, value) => do
    validateCredentialName name directive.line
    pure ⟨name, .value (asBytes value)⟩

def storeCredential (directive : Directive) : Except ConfigError CredentialSpec := do
  let (name, value) := (splitOnce ':' directive.value).getD (directive.value, directive.value)
  validateCredentialName name directive.line
  pure ⟨name, .store value⟩

def credentialImport (directive : Directive) : Except ConfigError CredentialImportSpec :=
  let (pattern, rename) :=
    match splitOnce ':' directive.value with
    | some (pattern, rename) => (pattern, some rename)
    | none => (directive.value, none)
  if validateCredentialNameTemplate pattern then pure ⟨pattern, rename⟩
  else throw (.atLine directive.line "credential import pattern is invalid")

def parseCredentials (file : NativeFile) :
    Except ConfigError (List CredentialSpec × List CredentialImportSpec) := do
  let directives := fun (key : String) => file.effectiveDirectives "credentials".toList key.toList
  let files ← (directives "file").mapM fileCredential
  let values ← (directives "value").mapM valueCredential
  let stores ← (directives "store").mapM storeCredential
  let imports ← (directives "import").mapM credentialImport
  pure (files ++ values ++ stores, imports)

section

variable {directive : Directive} {credential : CredentialSpec}

theorem validateCredentialName_ok {value : Str} {line : Nat} :
    validateCredentialName value line = .ok () ↔ safeCredentialName value = true := by
  unfold validateCredentialName
  split_ifs with h
  · exact iff_of_true rfl h
  · exact iff_of_false nofun h

theorem safe_fileCredential (h : fileCredential directive = .ok credential) :
    safeCredentialName credential.name = true := by
  unfold fileCredential at h
  split at h
  next => cases h
  next name path _ =>
    obtain ⟨_, hname, h⟩ := bind_eq_ok.mp h
    split_ifs at h
    cases h
    exact validateCredentialName_ok.mp hname

theorem safe_valueCredential (h : valueCredential directive = .ok credential) :
    safeCredentialName credential.name = true := by
  unfold valueCredential at h
  split at h
  next => cases h
  next name value _ =>
    obtain ⟨_, hname, h⟩ := bind_eq_ok.mp h
    cases h
    exact validateCredentialName_ok.mp hname

theorem safe_storeCredential (h : storeCredential directive = .ok credential) :
    safeCredentialName credential.name = true := by
  unfold storeCredential at h
  obtain ⟨_, hname, h⟩ := bind_eq_ok.mp h
  cases h
  exact validateCredentialName_ok.mp hname

theorem of_mapM {α β : Type} {f : α → Except ConfigError β} {p : β → Prop} {l : List α}
    {r : List β} (h : l.mapM f = .ok r) (hf : ∀ a b, f a = .ok b → p b) : ∀ b ∈ r, p b := by
  intro b hb
  have hmem : Except.ok b ∈ l.map f := by
    rw [mapM_eq_ok.mp h]
    exact List.mem_map_of_mem hb
  obtain ⟨a, -, ha⟩ := List.mem_map.mp hmem
  exact hf a b ha

theorem safe_parseCredentials {file : NativeFile} {credentials : List CredentialSpec}
    {imports : List CredentialImportSpec} (h : parseCredentials file = .ok (credentials, imports)) :
    ∀ credential ∈ credentials, safeCredentialName credential.name = true := by
  obtain ⟨files, hfiles, h⟩ := bind_eq_ok.mp h
  obtain ⟨values, hvalues, h⟩ := bind_eq_ok.mp h
  obtain ⟨stores, hstores, h⟩ := bind_eq_ok.mp h
  obtain ⟨imports', -, h⟩ := bind_eq_ok.mp h
  cases h
  intro credential hmem
  simp only [List.mem_append] at hmem
  obtain (hmem | hmem) | hmem := hmem
  · exact of_mapM hfiles (fun _ _ => safe_fileCredential) credential hmem
  · exact of_mapM hvalues (fun _ _ => safe_valueCredential) credential hmem
  · exact of_mapM hstores (fun _ _ => safe_storeCredential) credential hmem

end

end FractalD.Config.Credentials
