import FractalD.Config.Credentials
import FractalD.Machine.FirstCome
import FractalD.Supervisor.Expansion

namespace FractalD.Supervisor.Credentials

open FractalD.Config.Credentials FractalD.Config.SyscallFilter FractalD.Core.Spec
open FractalD.Machine.CString FractalD.Machine.FirstCome FractalD.Machine.OrderedMap
open FractalD.Machine.Result FractalD.Machine.Text FractalD.Supervisor.Expansion

abbrev Bytes := List UInt8

inductive ErrorKind
  | invalidData
  | other (code : Nat)
  deriving DecidableEq

structure IoError where
  kind : ErrorKind
  message : Str
  deriving DecidableEq

/-- A directory of a credential store: its names, if they can be listed, and what reading gives of
each regular file in it. -/
structure StoreDirectory where
  path : Str
  names : Option (List Str)
  file : Str → Option (Except IoError Bytes)

/-- What is expanded in the settings of a service, and what there is to be read. -/
structure Setting where
  expand : Str → Str
  read : Str → Except IoError Bytes
  importDirs : List StoreDirectory

def maxCredentialBytes : Nat := 1024 * 1024

/-- What has been loaded, and its size. -/
structure Loaded where
  values : BTreeMap Str Bytes
  totalBytes : Nat

/-- Whether a value has been added, and what has been loaded then. -/
def addCredentialValue (s : Loaded) (name : Str) (value : Bytes) (fatalOnLimit : Bool) :
    Except IoError (Bool × Loaded) :=
  if s.values.contains name then .ok (false, s)
  else if maxCredentialBytes < value.length ∨ maxCredentialBytes < s.totalBytes + value.length then
    if fatalOnLimit then
      .error ⟨.invalidData, "credential data for ".toList ++ name ++ " exceeds the ".toList ++
        printUnsigned maxCredentialBytes ++ " byte per-unit limit".toList⟩
    else .ok (false, s)
  else .ok (true, ⟨s.values.insert name value, s.totalBytes + value.length⟩)

variable (setting : Setting)

def credentialStoreEntry (name : Str) : Option (Str × Except IoError Bytes) :=
  setting.importDirs.findSome? fun directory =>
    (directory.file name).map (under directory.path name, ·)

/-- Where the value of a credential is read from, and what is read there. -/
def explicitSource (credential : CredentialSpec) : Option (Str × Except IoError Bytes) :=
  match credential.source with
  | .file path => some (setting.expand path, setting.read (setting.expand path))
  | .store name =>
    let name := setting.expand name
    if safeCredentialName name then credentialStoreEntry setting name else none
  | .value _ => none

def loadExplicit (s : Loaded) (credential : CredentialSpec) : Except IoError Loaded :=
  match explicitSource setting credential with
  | none => .ok s
  | some (path, .error error) =>
    .error ⟨error.kind, "cannot load credential ".toList ++ credential.name ++ " from ".toList ++
      path ++ ": ".toList ++ error.message⟩
  | some (_, .ok value) => Prod.snd <$> addCredentialValue s credential.name value true

def expandCredentialImport (i : CredentialImportSpec) : CredentialImportSpec :=
  ⟨setting.expand i.pattern, i.rename.map setting.expand⟩

/-- The candidates of a directory for a pattern that ends with a star. -/
def listCandidates (start : Str) (candidates : BTreeMap Str (Except IoError Bytes))
    (directory : StoreDirectory) : BTreeMap Str (Except IoError Bytes) :=
  (directory.names.getD []).foldl (fun candidates name =>
    if start <+: name ∧ safeCredentialName name then
      match directory.file name with
      | some content => if candidates.contains name then candidates else candidates.insert name content
      | none => candidates
    else candidates) candidates

def credentialImportCandidates (i : CredentialImportSpec) : BTreeMap Str (Except IoError Bytes) :=
  match removeSuffix ['*'] i.pattern with
  | some start => setting.importDirs.foldl (listCandidates start) empty
  | none =>
    match setting.importDirs.findSome? (·.file i.pattern) with
    | some content => empty.insert i.pattern content
    | none => empty

def importedCredentialName (i : CredentialImportSpec) (sourceName : Str) : Str :=
  match removeSuffix ['*'] i.pattern with
  | some start => i.rename.getD start ++ (removePrefix start sourceName).getD sourceName
  | none => i.rename.getD sourceName

def loadCandidate (i : CredentialImportSpec) (s : Loaded)
    (candidate : Str × Except IoError Bytes) : Except IoError Loaded :=
  let destination := importedCredentialName i candidate.1
  if !safeCredentialName destination then .ok s
  else if s.values.contains destination then .ok s
  else
    match candidate.2 with
    | .error _ => .ok s
    | .ok value => Prod.snd <$> addCredentialValue s destination value false

def loadImport (s : Loaded) (i : CredentialImportSpec) : Except IoError Loaded :=
  let i := expandCredentialImport setting i
  (credentialImportCandidates setting i).entries.foldlM (loadCandidate i) s

def loadInline (s : Loaded) (credential : CredentialSpec) : Except IoError Loaded :=
  match credential.source with
  | .value value => Prod.snd <$> addCredentialValue s credential.name value true
  | .file _ | .store _ => .ok s

def materializeCredentialValues (credentials : List CredentialSpec)
    (imports : List CredentialImportSpec) : Except IoError (BTreeMap Str Bytes) := do
  let s ← credentials.foldlM (loadExplicit setting) ⟨empty, 0⟩
  let s ← imports.foldlM (loadImport setting) s
  let s ← credentials.foldlM loadInline s
  pure s.values

/-- What a pattern finds in a directory under a name. -/
def held (i : CredentialImportSpec) (name : Str) (directory : StoreDirectory) :
    Option (Except IoError Bytes) :=
  match removeSuffix ['*'] i.pattern with
  | some start =>
    if start <+: name ∧ safeCredentialName name ∧ name ∈ directory.names.getD [] then
      directory.file name
    else none
  | none => if name = i.pattern then directory.file name else none

abbrev CredentialOffer := Offer Str Bytes

def explicitOffer (credential : CredentialSpec) : Option CredentialOffer :=
  (explicitSource setting credential).map fun source =>
    ⟨credential.name, source.2.toOption, true⟩

def candidateOffer (i : CredentialImportSpec) (candidate : Str × Except IoError Bytes) :
    Option CredentialOffer :=
  let destination := importedCredentialName i candidate.1
  if safeCredentialName destination then some ⟨destination, candidate.2.toOption, false⟩ else none

def importOffers (i : CredentialImportSpec) : List CredentialOffer :=
  let i := expandCredentialImport setting i
  (credentialImportCandidates setting i).entries.filterMap (candidateOffer i)

def inlineOffer (credential : CredentialSpec) : Option CredentialOffer :=
  match credential.source with
  | .value value => some ⟨credential.name, some value, true⟩
  | .file _ | .store _ => none

/-- The sources of the values, those of the highest priority first. -/
def offers (credentials : List CredentialSpec) (imports : List CredentialImportSpec) :
    List CredentialOffer :=
  credentials.filterMap (explicitOffer setting) ++ imports.flatMap (importOffers setting) ++
    credentials.filterMap inlineOffer

/-- What the offers give that have been considered. -/
structure Took (done : List CredentialOffer) (s : Loaded) : Prop where
  values : s.values = takeAll List.length maxCredentialBytes done
  size : s.totalBytes = total List.length s.values
  bounded : s.totalBytes ≤ maxCredentialBytes

section

variable {setting} {done : List CredentialOffer} {s s' : Loaded} {credential : CredentialSpec}
  {i : CredentialImportSpec}

theorem took_add {name : Str} {value : Bytes} {required added : Bool} (h : Took done s)
    (hadd : addCredentialValue s name value required = .ok (added, s')) :
    Took (done ++ [⟨name, some value, required⟩]) s' := by
  unfold addCredentialValue at hadd
  have htake : takeAll List.length maxCredentialBytes (done ++ [⟨name, some value, required⟩]) = _ :=
    takeAll_concat
  rw [← h.values, take] at htake
  split_ifs at hadd with hkey hlimit hfatal
  · cases hadd
    refine ⟨?_, h.size, h.bounded⟩
    rw [htake, if_pos hkey]
  · cases hadd
    refine ⟨?_, h.size, h.bounded⟩
    rw [if_neg hkey] at htake
    simp only at htake
    rw [htake, if_neg]
    rw [← h.size]
    rintro (hrequired | hfits)
    · exact hfatal hrequired
    · omega
  · cases hadd
    rw [not_or, not_lt, not_lt] at hlimit
    refine ⟨?_, ?_, hlimit.2⟩
    · rw [if_neg hkey] at htake
      simp only at htake
      rw [htake, if_pos]
      exact Or.inr (h.size ▸ hlimit.2)
    · rw [total_insert hkey, h.size]

theorem took_none {name : Str} {required : Bool} (h : Took done s) :
    Took (done ++ [⟨name, none, required⟩]) s := by
  refine ⟨?_, h.size, h.bounded⟩
  rw [takeAll_concat, ← h.values, take]
  split_ifs <;> rfl

theorem took_present {o : CredentialOffer} (h : Took done s) (hkey : s.values.contains o.key = true) :
    Took (done ++ [o]) s := by
  refine ⟨?_, h.size, h.bounded⟩
  rw [takeAll_concat, ← h.values, take, if_pos hkey]

theorem took_explicit (h : Took done s) (hload : loadExplicit setting s credential = .ok s') :
    Took (done ++ (explicitOffer setting credential).toList) s' := by
  unfold loadExplicit at hload
  rw [explicitOffer]
  split at hload
  next hsource =>
    cases hload
    rw [hsource, Option.map_none, Option.toList_none, List.append_nil]
    exact h
  next => cases hload
  next path value hsource =>
    obtain ⟨⟨added, t⟩, hadd, rfl⟩ := map_eq_ok.mp hload
    rw [hsource]
    exact took_add h hadd

theorem took_candidate {candidate : Str × Except IoError Bytes} (h : Took done s)
    (hload : loadCandidate i s candidate = .ok s') :
    Took (done ++ (candidateOffer i candidate).toList) s' := by
  unfold loadCandidate at hload
  rw [candidateOffer]
  simp only [Bool.not_eq_true'] at hload
  split_ifs at hload with hplain hkey
  · cases hload
    rw [hplain]
    simpa using h
  · cases hload
    rw [Bool.not_eq_false] at hplain
    simp only [hplain, if_true, Option.toList_some]
    exact took_present h hkey
  · rw [Bool.not_eq_false] at hplain
    simp only [hplain, if_true, Option.toList_some]
    obtain ⟨source, content⟩ := candidate
    cases content with
    | error e =>
      cases hload
      exact took_none h
    | ok value =>
      obtain ⟨⟨added, t⟩, hadd, rfl⟩ := map_eq_ok.mp hload
      exact took_add h hadd

theorem took_inline (h : Took done s) (hload : loadInline s credential = .ok s') :
    Took (done ++ (inlineOffer credential).toList) s' := by
  unfold loadInline at hload
  rw [inlineOffer]
  cases hsource : credential.source with
  | value value =>
    rw [hsource] at hload
    obtain ⟨⟨added, t⟩, hadd, rfl⟩ := map_eq_ok.mp hload
    exact took_add h hadd
  | file path | store name =>
    rw [hsource] at hload
    cases hload
    simpa using h

/-- Steps that consider the offers of an element each consider those of all of them. -/
theorem took_fold {α : Type} (load : Loaded → α → Except IoError Loaded)
    (given : α → List CredentialOffer) {l : List α}
    (hstep : ∀ done s a s', Took done s → load s a = .ok s' → Took (done ++ given a) s')
    (h : Took done s) (hload : l.foldlM load s = .ok s') : Took (done ++ l.flatMap given) s' := by
  have hfold : Took (done ++ ([] ++ l).flatMap given) s' :=
    foldlM_ok (p := fun l s => Took (done ++ l.flatMap given) s) ?_ ?_ hload
  · exact hfold
  · intro l a s s' hs hs'
    rw [List.flatMap_append, ← List.append_assoc]
    simpa using hstep _ s a s' hs hs'
  · simpa using h

theorem flatMap_toList {α β : Type} (f : α → Option β) (l : List α) :
    l.flatMap (fun a => (f a).toList) = l.filterMap f := by
  induction l with
  | nil => rfl
  | cons a l ih =>
    rw [List.flatMap_cons, ih]
    cases h : f a with
    | none => rw [List.filterMap_cons_none h]; rfl
    | some b => rw [List.filterMap_cons_some h]; rfl

theorem took_import (h : Took done s) (hload : loadImport setting s i = .ok s') :
    Took (done ++ importOffers setting i) s' := by
  have hfold := took_fold _ (fun candidate =>
    (candidateOffer (expandCredentialImport setting i) candidate).toList)
    (fun _ _ _ _ => took_candidate) h hload
  rwa [flatMap_toList] at hfold

variable {credentials : List CredentialSpec} {imports : List CredentialImportSpec}
  {values : BTreeMap Str Bytes}

theorem took_materialize (h : materializeCredentialValues setting credentials imports = .ok values) :
    ∃ s, s.values = values ∧ Took (offers setting credentials imports) s := by
  obtain ⟨s, hexplicit, h⟩ := bind_eq_ok.mp h
  obtain ⟨s', himports, h⟩ := bind_eq_ok.mp h
  obtain ⟨t, hinline, h⟩ := bind_eq_ok.mp h
  obtain rfl := pure_eq_ok.mp h
  have hstart : Took [] ⟨empty, 0⟩ := ⟨rfl, rfl, Nat.zero_le _⟩
  have hs := took_fold (loadExplicit setting)
    (fun credential => (explicitOffer setting credential).toList)
    (fun _ _ _ _ => took_explicit) hstart hexplicit
  have hs' := took_fold (loadImport setting) (importOffers setting)
    (fun _ _ _ _ => took_import) hs himports
  have ht := took_fold loadInline (fun credential => (inlineOffer credential).toList)
    (fun _ _ _ _ => took_inline) hs' hinline
  rw [flatMap_toList, flatMap_toList, List.nil_append] at ht
  exact ⟨t, rfl, ht⟩

theorem get_listCandidates (start : Str) (candidates : BTreeMap Str (Except IoError Bytes))
    (directory : StoreDirectory) (name : Str) :
    (listCandidates start candidates directory).get name = (candidates.get name).or
      (if start <+: name ∧ safeCredentialName name = true ∧ name ∈ directory.names.getD [] then
        directory.file name
      else none) := by
  rw [listCandidates]
  generalize directory.names.getD [] = names
  induction names generalizing candidates with
  | nil => simp
  | cons first names ih =>
    rw [List.foldl_cons, ih]
    by_cases hfirst : start <+: first ∧ safeCredentialName first = true
    · rw [if_pos hfirst]
      cases hfile : directory.file first with
      | none =>
        by_cases hname : name = first
        · subst hname
          simp [hfile]
        · simp [hname]
      | some content =>
        simp only
        by_cases hname : name = first
        · subst hname
          by_cases hkey : candidates.contains name = true
          · obtain ⟨old, hold⟩ := contains_iff.mp hkey
            simp [hkey, hold]
          · have hnone : candidates.get name = none := by simpa [BTreeMap.contains] using hkey
            simp [hkey, hnone, hfirst, hfile]
        · by_cases hkey : candidates.contains first = true
          · simp [hkey, hname]
          · simp [hkey, hname, get_insert_of_ne _ hname]
    · rw [if_neg hfirst]
      by_cases hname : name = first
      · subst hname
        have hnone : ∀ p, ¬ (start <+: name ∧ safeCredentialName name = true ∧ p) :=
          fun p h => hfirst ⟨h.1, h.2.1⟩
        rw [if_neg (hnone _), if_neg (hnone _)]
      · simp [hname]

theorem findSome_cons {α β : Type} (f : α → Option β) (a : α) (l : List α) :
    (a :: l).findSome? f = (f a).or (l.findSome? f) := by
  rw [List.findSome?_cons]
  cases f a <;> rfl

theorem get_candidates (i : CredentialImportSpec) (name : Str) :
    (credentialImportCandidates setting i).get name = setting.importDirs.findSome? (held i name) := by
  unfold credentialImportCandidates held
  cases removeSuffix ['*'] i.pattern with
  | some start =>
    simp only
    have hfold : ∀ (candidates : BTreeMap Str (Except IoError Bytes)) (l : List StoreDirectory),
        (l.foldl (listCandidates start) candidates).get name =
          (candidates.get name).or (l.findSome? fun directory =>
            if start <+: name ∧ safeCredentialName name = true ∧ name ∈ directory.names.getD [] then
              directory.file name
            else none) := by
      intro candidates l
      induction l generalizing candidates with
      | nil => simp
      | cons directory l ih =>
        rw [List.foldl_cons, ih, get_listCandidates, findSome_cons, Option.or_assoc]
    rw [hfold, get_empty, Option.none_or]
  | none =>
    simp only
    by_cases hname : name = i.pattern
    · subst hname
      simp only [if_true]
      cases setting.importDirs.findSome? (·.file i.pattern) with
      | none => rfl
      | some content => exact get_insert_self _ _ _
    · simp only [hname, if_false]
      have hnone : setting.importDirs.findSome? (fun _ => (none : Option (Except IoError Bytes))) =
          none := by simp
      rw [hnone]
      cases setting.importDirs.findSome? (·.file i.pattern) with
      | none => rfl
      | some content =>
        simp only
        rw [get_insert_of_ne _ hname, get_empty]

theorem readable (h : credentials.foldlM (loadExplicit setting) s = .ok s')
    (hmem : credential ∈ credentials) {path : Str} {content : Except IoError Bytes}
    (hsource : explicitSource setting credential = some (path, content)) :
    ∃ value, content = .ok value := by
  induction credentials generalizing s with
  | nil => cases hmem
  | cons first credentials ih =>
    rw [List.foldlM_cons] at h
    obtain ⟨t, hfirst, h⟩ := bind_eq_ok.mp h
    obtain rfl | hmem := List.mem_cons.mp hmem
    · unfold loadExplicit at hfirst
      rw [hsource] at hfirst
      cases content with
      | error e => cases hfirst
      | ok value => exact ⟨value, rfl⟩
    · exact ih h hmem

/-- What is promised of the values of a service. -/
structure Materialized (setting : Setting) (credentials : List CredentialSpec)
    (imports : List CredentialImportSpec) (values : BTreeMap Str Bytes) : Prop where
  safe : ∀ name, values.contains name = true → safeCredentialName name = true
  bounded : total List.length values ≤ maxCredentialBytes
  first : ∀ name value, values.get name = some value ↔
    FirstYields List.length maxCredentialBytes (offers setting credentials imports) name value
  earliest : ∀ i ∈ imports, ∀ name,
    (credentialImportCandidates setting (expandCredentialImport setting i)).get name =
      setting.importDirs.findSome? (held (expandCredentialImport setting i) name)
  explicit : ∀ credential ∈ credentials, ∀ path, credential.source = .file path →
    values.contains credential.name = true
  kept : ∀ before after, offers setting credentials imports = before ++ after →
    ∀ name value, (takeAll List.length maxCredentialBytes before).get name = some value →
      values.get name = some value

theorem safe_offers (hsafe : ∀ credential ∈ credentials, safeCredentialName credential.name = true) :
    ∀ o ∈ offers setting credentials imports, safeCredentialName o.key = true := by
  intro o ho
  simp only [offers, List.mem_append, List.mem_filterMap, List.mem_flatMap] at ho
  obtain (⟨credential, hmem, h⟩ | ⟨i, -, ho⟩) | ⟨credential, hmem, h⟩ := ho
  · obtain ⟨source, -, rfl⟩ := Option.map_eq_some_iff.mp h
    exact hsafe credential hmem
  · obtain ⟨candidate, -, h⟩ := List.mem_filterMap.mp ho
    obtain ⟨hname, h⟩ := Option.ite_none_right_eq_some.mp h
    obtain rfl := Option.some.inj h
    exact hname
  · unfold inlineOffer at h
    split at h
    next =>
      cases h
      exact hsafe credential hmem
    next => cases h
    next => cases h

theorem materialized (hsafe : ∀ credential ∈ credentials, safeCredentialName credential.name = true)
    (h : materializeCredentialValues setting credentials imports = .ok values) :
    Materialized setting credentials imports values := by
  obtain ⟨s, rfl, htook⟩ := took_materialize h
  obtain ⟨t, hexplicit, -⟩ := bind_eq_ok.mp h
  have hfirst (name : Str) (value : Bytes) : s.values.get name = some value ↔
      FirstYields List.length maxCredentialBytes (offers setting credentials imports) name value := by
    rw [htook.values]
    exact get_takeAll_iff
  refine ⟨fun name hname => ?_, ?_, hfirst, fun i _ name => get_candidates _ name,
    fun credential hmem path hsource => ?_, fun before after heq name value hget => ?_⟩
  · obtain ⟨value, hvalue⟩ := contains_iff.mp hname
    obtain ⟨before, o, after, heq, rfl, -⟩ := (hfirst name value).mp hvalue
    exact safe_offers hsafe o (heq ▸ List.mem_append_right _ List.mem_cons_self)
  · rw [← htook.size]
    exact htook.bounded
  · have hpath : explicitSource setting credential =
        some (setting.expand path, setting.read (setting.expand path)) := by
      rw [explicitSource, hsource]
    obtain ⟨value, hvalue⟩ := readable hexplicit hmem hpath
    have hoffer : explicitOffer setting credential = some ⟨credential.name, some value, true⟩ := by
      rw [explicitOffer, hpath, hvalue]
      rfl
    have hin : (⟨credential.name, some value, true⟩ : CredentialOffer) ∈
        offers setting credentials imports := by
      refine List.mem_append_left _ (List.mem_append_left _ ?_)
      exact List.mem_filterMap.mpr ⟨credential, hmem, hoffer⟩
    obtain ⟨before, after, heq⟩ := List.append_of_mem hin
    rw [htook.values, heq]
    exact contains_of_yields (a := value) ⟨rfl, Or.inl rfl⟩
  · rw [htook.values, heq]
    exact get_takeAll_append hget

end

/-- The settings of a service that is run in some surroundings. -/
def settingOf (around : Surroundings) (spec : ServiceSpec) (read : Str → Except IoError Bytes)
    (importDirs : List StoreDirectory) : Setting :=
  ⟨fun s => expandSpecifiers around s spec, read, importDirs⟩

/-- The values of a service whose settings are accepted. -/
theorem credentials_materialized {file : NativeFile} {credentials : List CredentialSpec}
    {imports : List CredentialImportSpec} {around : Surroundings} {spec : ServiceSpec}
    {read : Str → Except IoError Bytes} {importDirs : List StoreDirectory}
    {values : BTreeMap Str Bytes} (hparse : parseCredentials file = .ok (credentials, imports))
    (h : materializeCredentialValues (settingOf around spec read importDirs) credentials imports =
      .ok values) :
    Materialized (settingOf around spec read importDirs) credentials imports values :=
  materialized (safe_parseCredentials hparse) h

def demoFile : NativeFile :=
  let directive := fun (key value : String) =>
    (⟨"credentials".toList, key.toList, value.toList, 1⟩ : Directive)
  ⟨empty.insert "credentials".toList
    [directive "file" "tls:/etc/tls.pem", directive "value" "token:inline",
      directive "import" "app.*:x."]⟩

def demoCredentials : List CredentialSpec :=
  [⟨"tls".toList, .file "/etc/tls.pem".toList⟩,
    ⟨"token".toList, .value (asBytes "inline".toList)⟩]

def demoImports : List CredentialImportSpec := [⟨"app.*".toList, some "x.".toList⟩]

def demoSetting : Setting :=
  settingOf ⟨fun _ => none, 0, fun _ => none⟩
    { name := "web".toList, program := "/bin/web".toList } (fun _ => .ok [3])
    [⟨"/run/credstore".toList, some ["app.key".toList],
      fun name => if name = "app.key".toList then some (.ok [1, 2]) else none⟩]

theorem demo_materialized :
    ∃ values, materializeCredentialValues demoSetting demoCredentials demoImports = .ok values ∧
      Materialized demoSetting demoCredentials demoImports values := by
  have hparse : parseCredentials demoFile = .ok (demoCredentials, demoImports) := by decide
  have hok : (materializeCredentialValues demoSetting demoCredentials demoImports).isOk = true := by
    decide
  cases h : materializeCredentialValues demoSetting demoCredentials demoImports with
  | error e =>
    rw [h] at hok
    cases hok
  | ok values => exact ⟨values, rfl, credentials_materialized hparse h⟩

example : (materializeCredentialValues demoSetting demoCredentials demoImports).toOption.map
    BTreeMap.keys = some ["tls".toList, "token".toList, "x.key".toList] := by
  decide

end FractalD.Supervisor.Credentials
