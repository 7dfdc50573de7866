import FractalD.Machine.Delimited
import FractalD.Machine.Result
import FractalD.Machine.Utf8
import FractalD.Storage.Services

namespace FractalD.Storage.ServiceNames

open FractalD.Machine.CString FractalD.Machine.Delimited FractalD.Machine.Paths
open FractalD.Machine.Result FractalD.Machine.Text FractalD.Machine.Utf8
open FractalD.Storage.Fstab FractalD.Storage.Services

section

variable {a b : UInt8} {s t : Str} {p q : List Component}

theorem toNat_ofNat : ∀ n < 256, (Char.ofNat n).toNat = n := by decide +kernel

theorem digitChar_inj :
    ∀ m < 16, ∀ n < 16, Nat.digitChar m = Nat.digitChar n → m = n := by decide

theorem escapeByte_dashless : ∀ n < 256, '-' ∉ escapeByte (UInt8.ofNat n) ∧
    escapeByte (UInt8.ofNat n) ≠ [] := by decide +kernel

theorem not_plain_backslash : isPlain 0x5c = false := by decide

theorem escapeByte_start (h : escapeByte a ++ s = escapeByte b ++ t) : a = b := by
  have ha := toNat_ofNat a.toNat a.toNat_lt
  have hb := toNat_ofNat b.toNat b.toNat_lt
  have hslash {c : UInt8} (hc : Char.ofNat c.toNat = '\\') : isPlain c = false := by
    have hnat : c.toNat = 0x5c := by rw [← toNat_ofNat c.toNat c.toNat_lt, hc]; rfl
    rw [← not_plain_backslash, ← UInt8.toNat_inj.mp (show (0x5c : UInt8).toNat = c.toNat from hnat.symm)]
  unfold escapeByte at h
  cases hpa : isPlain a with
  | true =>
    cases hpb : isPlain b with
    | true =>
      simp only [hpa, hpb, if_true, List.singleton_append, List.cons.injEq] at h
      apply UInt8.toNat_inj.mp
      rw [← ha, ← hb, h.1]
    | false =>
      simp only [hpa, hpb, if_true, Bool.false_eq_true, if_false, List.cons_append,
        List.cons.injEq] at h
      rw [hslash h.1] at hpa
      cases hpa
  | false =>
    cases hpb : isPlain b with
    | true =>
      simp only [hpa, hpb, if_true, Bool.false_eq_true, if_false, List.cons_append,
        List.cons.injEq] at h
      rw [hslash h.1.symm] at hpb
      cases hpb
    | false =>
      simp only [hpa, hpb, Bool.false_eq_true, if_false, List.cons_append, List.cons.injEq] at h
      have hla := a.toNat_lt
      have hlb := b.toNat_lt
      have hhigh := digitChar_inj (a.toNat / 16) (by omega) (b.toNat / 16) (by omega) h.2.2.1
      have hlow := digitChar_inj (a.toNat % 16) (by omega) (b.toNat % 16) (by omega) h.2.2.2.1
      apply UInt8.toNat_inj.mp
      omega

theorem escapeBytes_inj {l m : List UInt8} (h : l.flatMap escapeByte = m.flatMap escapeByte) :
    l = m := by
  have hne (b : UInt8) (s : Str) : escapeByte b ++ s ≠ [] := by
    have := (escapeByte_dashless b.toNat b.toNat_lt).2
    rw [UInt8.ofNat_toNat] at this
    simp [this]
  induction l generalizing m with
  | nil =>
    cases m with
    | nil => rfl
    | cons b m => exact absurd h.symm (hne b _)
  | cons a l ih =>
    cases m with
    | nil => exact absurd h (hne a _)
    | cons b m =>
      rw [List.flatMap_cons, List.flatMap_cons] at h
      obtain rfl := escapeByte_start h
      rw [ih (List.append_cancel_left h)]

theorem escapeComponent_inj (h : escapeComponent s = escapeComponent t) : s = t :=
  utf8_inj (escapeBytes_inj h)

theorem escapeComponent_dashless (hs : s ≠ []) :
    escapeComponent s ≠ [] ∧ '-' ∉ escapeComponent s := by
  constructor
  · intro h
    exact hs (escapeComponent_inj (t := []) h)
  · intro h
    obtain ⟨b, -, hb⟩ := List.mem_flatMap.mp h
    have := (escapeByte_dashless b.toNat b.toNat_lt).1
    rw [UInt8.ofNat_toNat] at this
    exact this hb

/-- The names of a path, in order, without the steps up. -/
def plainNames (path : List Component) : List Str := path.filterMap Component.name?

/-- Names of services that are made of escaped parts are told by the parts. -/
theorem joinEscaped_inj {l m : List Str} (hl : ∀ s ∈ l, s ≠ []) (hm : ∀ s ∈ m, s ≠ []) :
    join ['-'] (l.map escapeComponent) = join ['-'] (m.map escapeComponent) ↔ l = m := by
  have hplain {l : List Str} (hl : ∀ s ∈ l, s ≠ []) :
      ∀ f ∈ l.map escapeComponent, f ≠ [] ∧ '-' ∉ f := by
    intro f hf
    obtain ⟨s, hs, rfl⟩ := List.mem_map.mp hf
    exact escapeComponent_dashless (hl s hs)
  constructor
  · intro h
    exact List.map_injective_iff.mpr (fun _ _ => escapeComponent_inj)
      (join_inj (hplain hl) (hplain hm) h)
  · rintro rfl
    rfl

theorem pathParts_ne_nil : ∀ part ∈ pathParts s, part ≠ [] := by
  intro part hpart
  simpa using (List.mem_filter.mp hpart).2

theorem laterComponent_normal {part name : Str} (h : laterComponent part = some (.normal name)) :
    name = part := by
  unfold laterComponent at h
  split at h
  · cases h
  · split at h
    · cases Option.some.inj h
    · cases Option.some.inj h
      rfl

theorem mem_pathParts_of_normal {name : Str} (h : .normal name ∈ components s) :
    name ∈ pathParts s := by
  have hlater {l : List Str} (hl : .normal name ∈ l.filterMap laterComponent) : name ∈ l := by
    obtain ⟨part, hpart, hn⟩ := List.mem_filterMap.mp hl
    exact laterComponent_normal hn ▸ hpart
  unfold components at h
  split at h
  · exact hlater ((List.mem_cons.mp h).resolve_left fun he => by cases he)
  · cases hparts : pathParts s with
    | nil =>
      rw [hparts] at h
      cases h
    | cons part parts =>
      rw [hparts] at h
      obtain h | h := List.mem_append.mp h
      · have hfirst : laterComponent part = some (.normal name) := by
          split at h
          · simp at h
          · exact Option.mem_toList.mp h
        exact laterComponent_normal hfirst ▸ List.mem_cons_self
      · exact List.mem_cons_of_mem _ (hlater h)

theorem plainNames_ne_nil : ∀ name ∈ plainNames (components s), name ≠ [] := by
  intro name hname
  obtain ⟨c, hc, hn⟩ := List.mem_filterMap.mp hname
  have hc' : c = .normal name := by
    cases c with
    | normal n => exact congrArg _ (Option.some.inj hn)
    | rootDir | curDir | parentDir => cases hn
  exact pathParts_ne_nil name (mem_pathParts_of_normal (hc' ▸ hc))

theorem mountServiceName_inj :
    Fstab.mountServiceName (components s) = Fstab.mountServiceName (components t) ↔
      plainNames (components s) = plainNames (components t) := by
  unfold Fstab.mountServiceName
  rw [List.append_cancel_left_eq]
  exact joinEscaped_inj plainNames_ne_nil plainNames_ne_nil

theorem swapServiceName_inj {x y : FstabEntry} :
    x.swapServiceName = y.swapServiceName ↔ pathParts x.source = pathParts y.source := by
  unfold FstabEntry.swapServiceName
  rw [List.append_cancel_left_eq]
  exact joinEscaped_inj pathParts_ne_nil pathParts_ne_nil

end

theorem nodup_map_congr {α β γ : Type} {f : α → β} {g : α → γ} {l : List α}
    (h : ∀ x y, f x = f y ↔ g x = g y) : (l.map f).Nodup ↔ (l.map g).Nodup := by
  rw [List.Nodup, List.Nodup, List.pairwise_map, List.pairwise_map]
  exact List.Pairwise.iff fun x y => not_congr (h x y)

theorem nodup_names (mounts swaps : List FstabEntry) :
    (storagePrepareService :: (mounts.map FstabEntry.mountServiceName ++
      swaps.map FstabEntry.swapServiceName ++ [storageProfile])).Nodup ↔
        (mounts.map FstabEntry.mountServiceName).Nodup ∧
          (swaps.map FstabEntry.swapServiceName).Nodup := by
  have hmount {name : Str} (h : name ∈ mounts.map FstabEntry.mountServiceName) :
      ∃ rest, name = 'm' :: rest := by
    obtain ⟨entry, -, rfl⟩ := List.mem_map.mp h
    exact ⟨_, rfl⟩
  have hswap {name : Str} (h : name ∈ swaps.map FstabEntry.swapServiceName) :
      ∃ rest, name = 's' :: 'w' :: rest := by
    obtain ⟨entry, -, rfl⟩ := List.mem_map.mp h
    exact ⟨_, rfl⟩
  have hprepare : storagePrepareService ∉ mounts.map FstabEntry.mountServiceName ++
      swaps.map FstabEntry.swapServiceName ++ [storageProfile] := by
    intro h
    rw [List.append_assoc, List.mem_append, List.mem_append, List.mem_singleton] at h
    obtain h | h | h := h
    · obtain ⟨rest, hr⟩ := hmount h
      cases hr
    · obtain ⟨rest, hr⟩ := hswap h
      cases hr
    · revert h
      decide
  have hprofile : ∀ name ∈ mounts.map FstabEntry.mountServiceName ++
      swaps.map FstabEntry.swapServiceName, name ≠ storageProfile := by
    rintro name h rfl
    obtain h | h := List.mem_append.mp h
    · obtain ⟨rest, hr⟩ := hmount h
      cases hr
    · obtain ⟨rest, hr⟩ := hswap h
      cases hr
  have hkinds : ∀ x ∈ mounts.map FstabEntry.mountServiceName,
      ∀ y ∈ swaps.map FstabEntry.swapServiceName, x ≠ y := by
    rintro x hx y hy rfl
    obtain ⟨rest, rfl⟩ := hmount hx
    obtain ⟨rest', hr⟩ := hswap hy
    cases hr
  rw [List.nodup_cons, List.nodup_append, List.nodup_append]
  constructor
  · rintro ⟨-, ⟨hm, hs, -⟩, -⟩
    exact ⟨hm, hs⟩
  · rintro ⟨hm, hs⟩
    refine ⟨hprepare, ⟨hm, hs, hkinds⟩, List.nodup_singleton _, fun name hname other ho => ?_⟩
    rw [List.mem_singleton] at ho
    exact ho ▸ hprofile name hname

theorem generateServices_nodup {entries : List FstabEntry} {services : List GeneratedService}
    (h : generateServices entries = .ok services) :
    (services.map (·.name)).Nodup ↔
      ((activeMounts entries).map FstabEntry.mountServiceName).Nodup ∧
        ((activeSwaps entries).map FstabEntry.swapServiceName).Nodup := by
  obtain ⟨targets, -, h⟩ := bind_eq_ok.mp h
  dsimp only at h
  have hmounts := List.perm_insertionSort (mountBefore · ·) (activeMounts entries)
  have hswaps := List.perm_insertionSort (swapBefore · ·) (activeSwaps entries)
  rw [← (hmounts.map FstabEntry.mountServiceName).nodup_iff,
    ← (hswaps.map FstabEntry.swapServiceName).nodup_iff]
  by_cases hempty : (activeMounts entries).insertionSort (mountBefore · ·) = [] ∧
      (activeSwaps entries).insertionSort (swapBefore · ·) = []
  · rw [if_pos hempty] at h
    obtain rfl := pure_eq_ok.mp h
    simp [hempty.1, hempty.2]
  · rw [if_neg hempty] at h
    obtain rfl := pure_eq_ok.mp h
    have hsuffix : Function.Injective fun name : Str => name ++ ".svc".toList :=
      fun _ _ => List.append_cancel_right
    rw [← nodup_names]
    refine ((List.perm_insertionSort _ _).map _).nodup_iff.trans
      (Iff.trans ?_ (List.nodup_map_iff hsuffix))
    simp [svcFile, Function.comp_def]

/-- The services of a table have names of their own exactly when no two swap entries name
one file and no two mounts lie on one path but for its steps up. -/
theorem services_nodup_iff (entries : List FstabEntry) (services : List GeneratedService)
    (hservices : generateServices entries = .ok services) :
    ((services.map (·.name)).Nodup ↔
      ((activeMounts entries).map fun entry => plainNames (components entry.target)).Nodup ∧
        ((activeSwaps entries).map fun entry => pathParts entry.source).Nodup) ∧
      ∀ p q : Str, Fstab.mountServiceName (components p) = Fstab.mountServiceName (components q) ↔
        plainNames (components p) = plainNames (components q) := by
  refine ⟨?_, fun p q => mountServiceName_inj⟩
  rw [generateServices_nodup hservices]
  exact and_congr (nodup_map_congr fun x y => mountServiceName_inj)
    (nodup_map_congr fun x y => swapServiceName_inj)

/-- A table with one swap file and one directory. -/
def plainEntries : List FstabEntry :=
  [⟨"/swapfile".toList, "none".toList, "swap".toList, ["sw".toList], 0, 0, 1⟩,
    ⟨"/dev/vda".toList, "/srv".toList, "ext4".toList, ["rw".toList], 0, 0, 2⟩]

def servicesOf (entries : List FstabEntry) : List GeneratedService :=
  match generateServices entries with
  | .ok services => services
  | .error _ => []

theorem servicesOf_ok {entries : List FstabEntry} (h : (generateServices entries).isOk = true) :
    generateServices entries = .ok (servicesOf entries) := by
  unfold servicesOf
  cases hs : generateServices entries with
  | ok services => rfl
  | error e =>
    rw [hs] at h
    cases h

theorem plainTable_nodup : ((servicesOf plainEntries).map (·.name)).Nodup :=
  (services_nodup_iff plainEntries (servicesOf plainEntries) (servicesOf_ok (by decide))).1.mpr (by decide)

def swapTwice : Str := "/swapfile none swap sw\n/swapfile none swap sw\n".toList

def swapEntries : List FstabEntry :=
  [⟨"/swapfile".toList, "none".toList, "swap".toList, ["sw".toList], 0, 0, 1⟩,
    ⟨"/swapfile".toList, "none".toList, "swap".toList, ["sw".toList], 0, 0, 2⟩]

/-- Two services of one name for a file, and one name for two directories. -/
theorem swapTwice_names :
    (∃ entries services, parseFstab swapTwice = .ok entries ∧
      generateServices entries = .ok services ∧ ¬ (services.map (·.name)).Nodup) ∧
      components "/srv/../data".toList ≠ components "/srv/data".toList ∧
      Fstab.mountServiceName (components "/srv/../data".toList) =
        Fstab.mountServiceName (components "/srv/data".toList) := by
  refine ⟨⟨swapEntries, servicesOf swapEntries, by decide,
    servicesOf_ok (by decide), ?_⟩, by decide, by decide⟩
  decide

end FractalD.Storage.ServiceNames
