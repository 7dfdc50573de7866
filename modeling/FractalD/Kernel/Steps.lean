import FractalD.Kernel.Install
import FractalD.Machine.Result
import Mathlib.Data.List.Find

namespace FractalD.Kernel.Steps

open FractalD.Kernel.FileSystem FractalD.Kernel.Install FractalD.Machine.CString
open FractalD.Machine FractalD.Machine.Effect

@[simp]
theorem lift_ok {describe : Str → Str} {op : Tree → Except Str Tree} {t t' : Tree} {u : Unit} :
    lift describe op t = .ok u t' ↔ op t = .ok t' := by
  unfold lift
  cases op t <;> simp

theorem get_ok {t t' s : Tree} :
    (get : Run Tree) t = .ok s t' ↔ t = s ∧ t = t' := by
  change EStateM.Result.ok t t = .ok s t' ↔ _
  simp

theorem validName_ne_parentDir {name : Str} (h : validName name = true) : name ≠ parentDir := by
  rintro rfl
  revert h
  decide

section

variable {env : Environment} {c : Context} {t t' : Tree} {u : Unit}

theorem createDir_text {p : Path} (h : createDir env p t = .ok u t') : textOf t' = textOf t :=
  createDirAll_text (lift_ok.mp h)

theorem copyImage_text {source destination : Path}
    (h : copyImage env source destination t = .ok u t') :
    (textOf t (resolve env.os source)).isSome ∧
      textOf t' = copyStep (textOf t) (resolve env.os source, resolve env.os destination) := by
  unfold copyImage at h
  cases hp : destination.parent with
  | none => simp [hp] at h
  | some parent =>
    simp only [hp] at h
    obtain ⟨_, s, hs, h⟩ := bind_ok.mp h
    have := copy_text (lift_ok.mp h)
    rwa [createDir_text hs] at this

theorem requireFile_ok {message : Str} {p : Path} (h : requireFile env message p t = .ok u t') :
    t' = t ∧ isFile env.os t p = true := by
  obtain ⟨s, s', hs, h⟩ := bind_ok.mp h
  obtain ⟨rfl, rfl⟩ := get_ok.mp hs
  split at h
  next hf => exact ⟨(pure_ok.mp h).2.symm, hf⟩
  next => simp at h

theorem requireFiles_ok {message : Str} {ps : List Path}
    (h : requireFiles env message ps t = .ok u t') :
    t' = t ∧ ∀ p ∈ ps, isFile env.os t p = true := by
  induction ps generalizing t with
  | nil => exact ⟨(pure_ok.mp h).2.symm, by simp⟩
  | cons p ps ih =>
    unfold requireFiles at h
    obtain ⟨_, s, hp, hr⟩ := bind_ok.mp h
    obtain ⟨rfl, hf⟩ := requireFile_ok hp
    obtain ⟨rfl, hs⟩ := ih hr
    exact ⟨rfl, by simpa using ⟨hf, hs⟩⟩

def initrdCopies (os : Os) (directory : Location) (initrds : List Path) :
    List (Location × Location) :=
  initrds.filterMap (fun p => p.fileName.map (fun name => (resolve os p, directory ++ [name])))

theorem resolve_child_of_fileName {os : Os} {p q : Path} {name : Str} (h : p.fileName = some name) :
    resolve os (q.child name) = resolve os q ++ [name] :=
  resolve_child os q (resolve_of_fileName os h).1

theorem copyInitrds_ok {directory : Path} {initrds : List Path} {names : List Str}
    (h : copyInitrds env directory initrds t = .ok names t') :
    List.Forall₂ (fun name p => Path.fileName p = some name) names initrds ∧
      textOf t' = (initrdCopies env.os (resolve env.os directory) initrds).foldl copyStep
        (textOf t) := by
  induction initrds generalizing t names with
  | nil =>
    obtain ⟨rfl, rfl⟩ := pure_ok.mp h
    exact ⟨.nil, rfl⟩
  | cons p initrds ih =>
    unfold copyInitrds at h
    cases hn : p.fileName with
    | none => simp [hn] at h
    | some name =>
      simp only [hn] at h
      obtain ⟨_, s, hc, h⟩ := bind_ok.mp h
      obtain ⟨names', s', hr, h⟩ := bind_ok.mp h
      obtain ⟨rfl, rfl⟩ := pure_ok.mp h
      obtain ⟨hf, ht⟩ := ih hr
      refine ⟨.cons hn hf, ?_⟩
      rw [ht, (copyImage_text hc).2, resolve_child_of_fileName hn]
      simp [initrdCopies, hn]

theorem sameTarget_initrdCopies {os : Os} {directory : Location} {initrds : List Path}
    {a b : Location × Location} (hb : b ∈ initrdCopies os directory initrds)
    (ha : ∃ name, a.2 = directory ++ [name]) : SameTarget a b := by
  obtain ⟨m, hm⟩ := ha
  obtain ⟨p, -, hp⟩ := List.mem_filterMap.mp hb
  obtain ⟨n, hn, rfl⟩ := Option.map_eq_some_iff.mp hp
  obtain ⟨-, l, hl⟩ := resolve_of_fileName os hn
  intro he
  rw [hm, hl] at he
  obtain ⟨-, hnm⟩ := List.append_inj' he rfl
  rw [hm, hnm]

theorem target_of_mem_initrdCopies {os : Os} {directory : Location} {initrds : List Path}
    {a : Location × Location} (ha : a ∈ initrdCopies os directory initrds) :
    ∃ name, a.2 = directory ++ [name] := by
  obtain ⟨p, -, hp⟩ := List.mem_filterMap.mp ha
  obtain ⟨n, -, rfl⟩ := Option.map_eq_some_iff.mp hp
  exact ⟨n, rfl⟩

theorem pairwise_initrdCopies (os : Os) (directory : Location) (initrds : List Path)
    (kernel : Location) (name : Str) :
    ((kernel, directory ++ [name]) :: initrdCopies os directory initrds).Pairwise SameTarget := by
  have hs : (initrdCopies os directory initrds).Pairwise SameTarget :=
    List.pairwise_of_forall_mem_list fun a ha b hb =>
      sameTarget_initrdCopies hb (target_of_mem_initrdCopies ha)
  exact List.pairwise_cons.mpr ⟨fun b hb => sameTarget_initrdCopies hb ⟨name, rfl⟩, hs⟩

theorem addArguments_ok {operands : List Str} {version : Str} {kernelImage : Path}
    {supplied : List Path}
    (h : addArguments env c operands t = .ok (version, kernelImage, supplied) t') :
    t' = t ∧ validName version = true ∧ isFile env.os t kernelImage = true ∧
      ∀ p ∈ supplied, isFile env.os t p = true := by
  obtain ⟨_, t₁, hv, h⟩ := bind_ok.mp h
  obtain ⟨_, t₂, hk, h⟩ := bind_ok.mp h
  obtain ⟨_, t₃, hs, h⟩ := bind_ok.mp h
  obtain ⟨hr, rfl⟩ := pure_ok.mp h
  obtain ⟨rfl, hr'⟩ := Prod.mk.inj hr
  obtain ⟨rfl, rfl⟩ := Prod.mk.inj hr'
  unfold validateVersion at hv
  split at hv
  next hvalid =>
    obtain ⟨-, rfl⟩ := pure_ok.mp hv
    obtain ⟨rfl, hf⟩ := requireFile_ok hk
    obtain ⟨rfl, hfs⟩ := requireFiles_ok hs
    exact ⟨rfl, hvalid, hf, hfs⟩
  next => simp at hv

theorem generateInitrd_ok {version : Str} {kernelImage destination : Path} {made : Bool}
    (h : generateInitrd env c version kernelImage destination t = .ok made t') :
    (made = false ∧ t' = t) ∨ (made = true ∧
      ∃ image, textOf t' = Function.update (textOf t) (resolve env.os destination) (some image)) := by
  unfold generateInitrd at h
  cases hd : env.dracut with
  | none =>
    obtain ⟨rfl, rfl⟩ := pure_ok.mp (by simpa only [hd] using h)
    exact .inl ⟨rfl, rfl⟩
  | some dracut =>
    simp only [hd] at h
    split at h
    next =>
      obtain ⟨rfl, rfl⟩ := pure_ok.mp h
      exact .inl ⟨rfl, rfl⟩
    next =>
      obtain ⟨_, t₁, hl, h⟩ := bind_ok.mp h
      obtain ⟨rfl, rfl⟩ := pure_ok.mp h
      obtain ⟨image, -, hw⟩ := Result.bind_eq_ok.mp (lift_ok.mp hl)
      exact .inr ⟨rfl, image, write_text hw⟩

theorem adjacentInitrd_of_fileName {kernelImage : Path} (hf : isFile env.os t kernelImage = true)
    (hn : kernelImage.fileName = some "initrd".toList) :
    (adjacentInitrd env t kernelImage).isSome := by
  obtain ⟨cs, hcs⟩ : ∃ cs, kernelImage.components = cs ++ ["initrd".toList] := by
    unfold Path.fileName at hn
    split at hn
    next => cases hn
    next name hl =>
      split at hn
      next => cases hn
      next =>
        obtain rfl := Option.some.inj hn
        exact List.getLast?_eq_some_iff.mp hl
  have hc : kernelImage = (⟨kernelImage.absolute, cs⟩ : Path).child "initrd".toList := by
    cases kernelImage
    simp_all [Path.child]
  have hp : kernelImage.parent = some ⟨kernelImage.absolute, cs⟩ := by
    simp [Path.parent, hcs]
  rw [hc] at hf
  rw [adjacentInitrd, hp, Option.bind_some, List.map_cons, List.find?_cons, hf]
  rfl

/-- The initrds are found without a change, or the only one has been generated. -/
theorem chooseInitrds_ok {version : Str} {kernelImage : Path} {supplied initrds : List Path}
    (hf : isFile env.os t kernelImage = true) (hs : ∀ p ∈ supplied, isFile env.os t p = true)
    (h : chooseInitrds env c version kernelImage supplied t = .ok initrds t') :
    (t' = t ∧ ∀ p ∈ initrds, isFile env.os t p = true) ∨ (initrds = [generatedInitrd c version] ∧
      kernelImage.fileName ≠ some "initrd".toList ∧
      ∃ image, textOf t' = Function.update (textOf t)
        (resolve env.os (generatedInitrd c version)) (some image)) := by
  unfold chooseInitrds at h
  split at h
  next =>
    obtain ⟨rfl, rfl⟩ := pure_ok.mp h
    exact .inl ⟨rfl, hs⟩
  next =>
    obtain ⟨s, t₁, hg, h⟩ := bind_ok.mp h
    obtain ⟨rfl, rfl⟩ := get_ok.mp hg
    cases ha : adjacentInitrd env t kernelImage with
    | some candidate =>
      simp only [ha] at h
      obtain ⟨rfl, rfl⟩ := pure_ok.mp h
      obtain ⟨parent, -, hfind⟩ := Option.bind_eq_some_iff.mp ha
      exact .inl ⟨rfl, by simpa using List.find?_some hfind⟩
    | none =>
      simp only [ha] at h
      split at h
      next =>
        obtain ⟨made, t₂, hm, h⟩ := bind_ok.mp h
        obtain ⟨rfl, rfl⟩ := pure_ok.mp h
        obtain ⟨rfl, rfl⟩ | ⟨rfl, image, hi⟩ := generateInitrd_ok hm
        · exact .inl ⟨rfl, by simp⟩
        · refine .inr ⟨rfl, fun hn => ?_, image, hi⟩
          simpa [ha] using adjacentInitrd_of_fileName hf hn
      next =>
        obtain ⟨rfl, rfl⟩ := pure_ok.mp h
        exact .inl ⟨rfl, by simp⟩

/-- The state in which the installation starts: nothing has changed but for the
initrd that may have been generated, and the kernel image is never that file. -/
theorem prepare_ok {operands : List Str} {version : Str} {kernelImage : Path}
    {initrds : List Path}
    (h : prepare env c operands t = .ok (version, kernelImage, initrds) t') :
    validName version = true ∧
      textOf t' (resolve env.os kernelImage) = textOf t (resolve env.os kernelImage) ∧
      (∀ p ∈ initrds, (textOf t' (resolve env.os p)).isSome) ∧
      (textOf t' = textOf t ∨ (initrds = [generatedInitrd c version] ∧
        ∃ image, textOf t' = Function.update (textOf t)
          (resolve env.os (generatedInitrd c version)) (some image))) := by
  obtain ⟨⟨v, k, supplied⟩, t₁, ha, h⟩ := bind_ok.mp h
  obtain ⟨_, t₂, hd, h⟩ := bind_ok.mp h
  obtain ⟨chosen, t₃, hc, h⟩ := bind_ok.mp h
  obtain ⟨hr, rfl⟩ := pure_ok.mp h
  obtain ⟨rfl, hr'⟩ := Prod.mk.inj hr
  obtain ⟨rfl, rfl⟩ := Prod.mk.inj hr'
  obtain ⟨rfl, hv, hf, hs⟩ := addArguments_ok ha
  have ht : textOf t₂ = textOf t₁ := by
    split at hd
    next => exact createDir_text hd
    next => rw [(pure_ok.mp hd).2]
  have hft : ∀ p, isFile env.os t₂ p = isFile env.os t₁ p := by
    intro p
    simp only [isFile, readToString, ht]
  refine ⟨hv, ?_⟩
  obtain ⟨rfl, hfs⟩ | ⟨rfl, hn, image, hi⟩ :=
    chooseInitrds_ok ((hft k).trans hf) (fun p hp => (hft p).trans (hs p hp)) hc
  · refine ⟨by rw [ht], fun p hp => ?_, .inl ht⟩
    obtain ⟨-, image, -, hi⟩ := isFile_iff.mp (hfs p hp)
    simp [hi]
  · rw [hi, ht]
    refine ⟨?_, by simp, .inr ⟨rfl, image, rfl⟩⟩
    obtain ⟨name, -, hk, -⟩ := isFile_iff.mp hf
    obtain ⟨-, l, hl⟩ := resolve_of_fileName env.os hk
    refine Function.update_of_ne (fun he => hn ?_) _ _
    rw [hl, generatedInitrd, resolve_child _ _ (by decide)] at he
    obtain ⟨-, he⟩ := List.append_inj' he rfl
    rw [hk, List.singleton_inj.mp he]

theorem resolve_entryDirectory {version : Str} (hv : validName version = true) :
    resolve env.os (entryDirectory c version) =
      resolve env.os c.bootRoot ++ [c.entryToken, version] := by
  rw [entryDirectory, resolve_child _ _ (validName_ne_parentDir hv),
    resolve_child _ _ (validName_ne_parentDir c.validToken)]
  simp

def entryCopies (os : Os) (c : Context) (version : Str) (kernelImage : Path)
    (initrds : List Path) : List (Location × Location) :=
  (resolve os kernelImage, resolve os (entryDirectory c version) ++ ["linux".toList]) ::
    initrdCopies os (resolve os (entryDirectory c version)) initrds

theorem installEntry_ok {version : Str} {kernelImage : Path} {initrds : List Path}
    (h : installEntry env c version kernelImage initrds t = .ok u t') :
    ∃ names t₂, List.Forall₂ (fun name p => Path.fileName p = some name) names initrds ∧
      (textOf t (resolve env.os kernelImage)).isSome ∧
      textOf t₂ = copied (textOf t) (entryCopies env.os c version kernelImage initrds) ∧
      textOf t' = Function.update
        (copied (textOf t) (entryCopies env.os c version kernelImage initrds))
        (resolve env.os (entryPath c version))
        (some (loaderEntry env c t₂ version names).text) := by
  obtain ⟨_, t₁, hk, h⟩ := bind_ok.mp h
  obtain ⟨names, t₂, hi, h⟩ := bind_ok.mp h
  obtain ⟨_, t₃, hd, h⟩ := bind_ok.mp h
  obtain ⟨_, _, hg, h⟩ := bind_ok.mp h
  obtain ⟨rfl, rfl⟩ := get_ok.mp hg
  obtain ⟨hsome, hk⟩ := copyImage_text hk
  obtain ⟨hn, hi⟩ := copyInitrds_ok hi
  have hcopied : textOf t₃ =
      copied (textOf t) (entryCopies env.os c version kernelImage initrds) := by
    rw [createDir_text hd, hi, hk, resolve_child _ _ (by decide), entryCopies,
      ← foldl_copyStep (pairwise_initrdCopies ..), List.foldl_cons]
  refine ⟨names, t₃, hn, hsome, hcopied, ?_⟩
  rw [write_text (lift_ok.mp h), hcopied]

end

/-- Programs that leave the files below the boot root alone. -/
structure Quiet (env : Environment) (c : Context) : Prop where
  depmod : ∀ run, env.depmod = some run → ∀ version t t', run version t = .ok t' →
    ∀ q, resolve env.os c.bootRoot <+: q → textOf t' q = textOf t q
  plugins : ∀ run, env.plugins = some run → ∀ operation version image initrds t t',
    run operation version image initrds t = .ok t' →
      ∀ q, resolve env.os c.bootRoot <+: q → textOf t' q = textOf t q

section

variable {env : Environment} {c : Context} {t t' : Tree} {u : Unit}

theorem addModuleIndex_text (hq : Quiet env c) {version : Str}
    (h : addModuleIndex env c version t = .ok u t') {q : Location}
    (hp : resolve env.os c.bootRoot <+: q) : textOf t' q = textOf t q := by
  obtain ⟨s, t₁, hg, h⟩ := bind_ok.mp h
  obtain ⟨rfl, rfl⟩ := get_ok.mp hg
  cases hm : (if env.indexDisabled then none else moduleDirectory env c t version) with
  | none =>
    simp only [hm] at h
    rw [(pure_ok.mp h).2]
  | some directory =>
    cases hd : env.depmod with
    | none =>
      simp only [hm, hd] at h
      rw [(pure_ok.mp h).2]
    | some depmod =>
      simp only [hm, hd] at h
      split at h
      next => exact hq.depmod depmod hd version t t' (lift_ok.mp h) q hp
      next => rw [(pure_ok.mp h).2]

theorem runAdminPlugins_text (hq : Quiet env c) {operation version : Str} {image : Path}
    {initrds : List Path} (h : runAdminPlugins env operation version image initrds t = .ok u t')
    {q : Location} (hp : resolve env.os c.bootRoot <+: q) : textOf t' q = textOf t q := by
  unfold runAdminPlugins at h
  cases hr : env.plugins with
  | none =>
    simp only [hr] at h
    rw [(pure_ok.mp h).2]
  | some run =>
    simp only [hr] at h
    exact hq.plugins run hr operation version image initrds t t' (lift_ok.mp h) q hp

def modulePaths (c : Context) (version : Str) : List Path :=
  ["/usr/lib/modules".toList, "/lib/modules".toList].map fun directory =>
    modulesDir c.root directory version

/-- The module index files that a removal takes away, where these are the directories. -/
def indexTargets (env : Environment) (c : Context) (dirs : Path → Bool) (version : Str) :
    List Location :=
  match (if env.indexDisabled then none else (modulePaths c version).find? dirs) with
  | none => []
  | some directory =>
    if env.keepsIndex && dirs (directory.child "kernel".toList) then []
    else indexFiles.map (fun name => resolve env.os (directory.child name))

/-- The places that a removal takes away. -/
def Removes (env : Environment) (c : Context) (dirs : Path → Bool) (version : Str) (q : Location) :
    Prop :=
  (∃ l ∈ indexTargets env c dirs version, l <+: q) ∨ resolve env.os (entryPath c version) <+: q ∨
    resolve env.os (entryDirectory c version) <+: q ∨
    (c.layout ≠ bls ∧ resolve env.os (flatImage c version) <+: q)

instance (env : Environment) (c : Context) (dirs : Path → Bool) (version : Str) (q : Location) :
    Decidable (Removes env c dirs version q) := inferInstanceAs (Decidable (_ ∨ _))

/-- The copies of an installation without a loader entry. -/
def flatCopies (os : Os) (c : Context) (version : Str) (kernelImage : Path)
    (initrds : List Path) : List (Location × Location) :=
  (resolve os kernelImage, resolve os c.bootRoot ++ ["vmlinuz-".toList ++ version]) ::
    initrdCopies os (resolve os c.bootRoot) initrds

theorem imageName_ne_parentDir (version : Str) : "vmlinuz-".toList ++ version ≠ parentDir := by
  intro h
  have hl := congrArg List.length h
  simp [parentDir] at hl

theorem resolve_flatImage (version : Str) :
    resolve env.os (flatImage c version) =
      resolve env.os c.bootRoot ++ ["vmlinuz-".toList ++ version] :=
  resolve_child _ _ (imageName_ne_parentDir version)

def createdDirectories (c : Context) (version : Str) : List Path :=
  (if makeEntry c then [entryDirectory c version] else []) ++
    [if usesEntry c then entriesDirectory c else c.bootRoot]

/-- The directories after an installation. -/
def dirsAfter (os : Os) (c : Context) (version : Str) (t : Tree) (p : Path) : Bool :=
  isDir os t p ||
    (createdDirectories c version).any fun d => (resolve os p).isPrefixOf (resolve os d)

/-- The files that `depmod` makes, if it is run. -/
def indexMade (env : Environment) (c : Context) (made : List Str) (dirs : Path → Bool)
    (version : Str) : List Location :=
  match (if env.indexDisabled || env.depmod.isNone then none
    else (modulePaths c version).find? dirs) with
  | none => []
  | some directory =>
    if dirs (directory.child "kernel".toList) then
      made.map fun name => resolve env.os (directory.child name)
    else []

def SameModules (c : Context) (version : Str) (dirs dirs' : Path → Bool) : Prop :=
  ∀ p ∈ modulePaths c version, dirs' p = dirs p ∧
    dirs' (p.child "kernel".toList) = dirs (p.child "kernel".toList)

theorem SameModules.find {version : Str} {dirs dirs' : Path → Bool}
    (h : SameModules c version dirs dirs') :
    (modulePaths c version).find? dirs' = (modulePaths c version).find? dirs :=
  List.find?_congr fun p hp => (h p hp).1

theorem SameModules.kernel {version : Str} {dirs dirs' : Path → Bool} {directory : Path}
    (h : SameModules c version dirs dirs')
    (hfound : (modulePaths c version).find? dirs = some directory) :
    dirs' (directory.child "kernel".toList) = dirs (directory.child "kernel".toList) :=
  (h directory (List.mem_of_find?_eq_some hfound)).2

theorem SameModules.trans {version : Str} {dirs dirs' dirs'' : Path → Bool}
    (h : SameModules c version dirs dirs') (h' : SameModules c version dirs' dirs'') :
    SameModules c version dirs dirs'' := fun p hp =>
  ⟨(h' p hp).1.trans (h p hp).1, (h' p hp).2.trans (h p hp).2⟩

section

variable {made : List Str} {own : Str → Location → Prop}

end

end

end FractalD.Kernel.Steps
