import FractalD.Machine.Wire

namespace FractalD.Machine.Delimited

open FractalD.Machine.CString FractalD.Machine.Text FractalD.Machine.Wire

section

variable {c x : Char} {s f : Str} {fields : List Str} {n : Nat}

theorem join_cons (hne : fields ≠ []) : join [c] (f :: fields) = f ++ c :: join [c] fields := by
  cases fields with
  | nil => exact absurd rfl hne
  | cons g fields => rw [join, List.intercalate_cons_cons, List.append_assoc]; rfl

theorem join_concat :
    join [c] (fields ++ [f]) = join [c] fields ++ (if fields.length ≠ 0 then [c] else []) ++ f := by
  induction fields with
  | nil => simp [join]
  | cons g fields ih =>
    rw [List.cons_append, join_cons (by simp), ih]
    cases fields with
    | nil => simp [join]
    | cons h fields => rw [join_cons (List.cons_ne_nil h fields)]; simp

/-- Fields that are not empty and hold no separator are told by the line of them. -/
theorem join_inj {other : List Str} (h : ∀ f ∈ fields, f ≠ [] ∧ c ∉ f)
    (ho : ∀ f ∈ other, f ≠ [] ∧ c ∉ f) (he : join [c] fields = join [c] other) : fields = other := by
  have hnil {l : List Str} (hl : ∀ f ∈ l, f ≠ [] ∧ c ∉ f) (hj : join [c] l = []) : l = [] := by
    cases l with
    | nil => rfl
    | cons f l =>
      have hf := (hl f List.mem_cons_self).1
      cases l with
      | nil => exact absurd (List.intercalate_singleton.symm.trans hj) hf
      | cons g l =>
        rw [join_cons (List.cons_ne_nil g l)] at hj
        simp at hj
  by_cases hf : fields = []
  · rw [hf] at he
    rw [hf, hnil ho he.symm]
  · by_cases hg : other = []
    · rw [hg] at he
      exact absurd (hnil h he) hf
    · rw [← List.splitOn_intercalate c (fun f hm => (h f hm).2) hf,
        ← List.splitOn_intercalate c (fun f hm => (ho f hm).2) hg]
      exact congrArg (List.splitOn c) he

theorem length_splitOn (c : Char) (s : Str) : (s.splitOn c).length = s.count c + 1 := by
  induction s with
  | nil => rfl
  | cons a s ih =>
    rw [List.splitOn_cons_eq_if_modifyHead, List.count_cons]
    split
    next => rw [List.length_cons, ih]
    next => rw [List.length_modifyHead, ih, Nat.add_zero]

theorem splitOn_concat (hx : x ≠ c) (s : Str) : ∃ before last,
    s.splitOn c = before ++ [last] ∧ (s ++ [x]).splitOn c = before ++ [last ++ [x]] := by
  induction s with
  | nil =>
    refine ⟨[], [], rfl, ?_⟩
    rw [List.nil_append, List.splitOn_cons_eq_if_modifyHead, if_neg (by simpa using hx)]
    rfl
  | cons a s ih =>
    obtain ⟨before, last, hs, hend⟩ := ih
    rw [List.cons_append, List.splitOn_cons_eq_if_modifyHead, List.splitOn_cons_eq_if_modifyHead,
      hs, hend]
    split
    · exact ⟨[] :: before, last, rfl, rfl⟩
    · cases before with
      | nil => exact ⟨[], a :: last, rfl, rfl⟩
      | cons first before => exact ⟨(a :: first) :: before, last, rfl, rfl⟩

/-- The fields of a line are those without its carriage return, except for the last one. -/
theorem splitOn_unreturned {i : Nat} (hc : c ≠ '\r') (h : (s.splitOn c)[i]? = some f) (hf : '\r' ∉ f) :
    ((unreturned s).splitOn c)[i]? = some f := by
  obtain hs | hs := unreturned_cases s
  · rwa [hs]
  · obtain ⟨before, last, hbefore, hend⟩ := splitOn_concat (Ne.symm hc) (unreturned s)
    rw [hs, hend] at h
    rw [hbefore]
    by_cases hi : i < before.length
    · rwa [List.getElem?_append_left hi] at h ⊢
    · rw [List.getElem?_append_right (by omega)] at h
      have hlast := List.mem_of_getElem? h
      rw [List.mem_singleton] at hlast
      exact absurd (hlast ▸ List.mem_append_right last List.mem_cons_self) hf

theorem splitOn_join_cons (hf : c ∉ f) (hne : fields ≠ []) :
    (join [c] (f :: fields)).splitOn c = f :: (join [c] fields).splitOn c := by
  rw [join_cons hne, List.splitOn_append_cons_self_of_not_mem hf]

theorem join_append {other : List Str} (hne : fields ≠ []) (hother : other ≠ []) :
    join [c] (fields ++ other) = join [c] fields ++ c :: join [c] other := by
  induction fields with
  | nil => exact absurd rfl hne
  | cons f fields ih =>
    by_cases hnil : fields = []
    · subst hnil
      rw [List.singleton_append, join_cons hother, join_singleton]
    · rw [List.cons_append, join_cons (by simp [hnil]), ih hnil, join_cons hnil, List.append_assoc]
      rfl

theorem count_join (hne : fields ≠ []) :
    (join [c] fields).count c + 1 = (fields.map (·.count c)).sum + fields.length := by
  induction fields with
  | nil => exact absurd rfl hne
  | cons f fields ih =>
    by_cases hnil : fields = []
    · subst hnil
      simp [join_singleton]
    · rw [join_cons hnil, List.count_append, List.count_cons_self, List.map_cons, List.sum_cons,
        List.length_cons]
      have := ih hnil
      omega

theorem mem_join (hx : x ≠ c) : x ∈ join [c] fields ↔ ∃ f ∈ fields, x ∈ f := by
  induction fields with
  | nil => simp [join]
  | cons f fields ih =>
    by_cases hnil : fields = []
    · subst hnil
      simp [join_singleton]
    · rw [join_cons hnil, List.mem_append, List.mem_cons, ih]
      simp [hx]

theorem getLast_join_iff (hx : x ≠ c) :
    (join [c] fields).getLast? = some x ↔ ∃ f ∈ fields.getLast?, f.getLast? = some x := by
  induction fields with
  | nil => simp [join]
  | cons f fields ih =>
    by_cases hnil : fields = []
    · subst hnil
      simp [join_singleton]
    · rw [join_cons hnil, List.getLast?_append_of_ne_nil _ (List.cons_ne_nil _ _)]
      rw [List.getLast?_cons_of_ne_nil hnil, ← ih]
      by_cases hjoin : join [c] fields = []
      · simp [hjoin, Ne.symm hx]
      · rw [List.getLast?_cons_of_ne_nil hjoin]

/-- A line with a number of fields that is read back from a file as it is. -/
structure IsRecord (c : Char) (n : Nat) (line : Str) : Prop where
  fields : (line.splitOn c).length = n
  oneLine : OneLine line

instance (c : Char) (n : Nat) (line : Str) : Decidable (IsRecord c n line) :=
  decidable_of_iff ((line.splitOn c).length = n ∧ '\n' ∉ line ∧ line.getLast? ≠ some '\r')
    ⟨fun h => ⟨h.1, h.2⟩, fun h => ⟨h.fields, h.oneLine⟩⟩

/-- A line made of fields is a record of them if none holds a separator. -/
theorem isRecord_join (hn : fields.length = n) (hpos : 0 < n) (hline : c ≠ '\n')
    (hreturn : c ≠ '\r') :
    IsRecord c n (join [c] fields) ↔ (∀ f ∈ fields, c ∉ f ∧ '\n' ∉ f) ∧
      ∀ f ∈ fields.getLast?, f.getLast? ≠ some '\r' := by
  have hne : fields ≠ [] := List.ne_nil_of_length_pos (hn ▸ hpos)
  have hcount := count_join (c := c) hne
  have hfields : ((join [c] fields).splitOn c).length = n ↔ ∀ f ∈ fields, c ∉ f := by
    rw [length_splitOn, hcount, hn, Nat.add_eq_right, List.sum_eq_zero_iff_forall_eq_nat]
    simp only [List.mem_map, forall_exists_index, and_imp, forall_apply_eq_imp_iff₂,
      List.count_eq_zero]
  have hnewline : '\n' ∉ join [c] fields ↔ ∀ f ∈ fields, '\n' ∉ f := by
    rw [mem_join (Ne.symm hline)]
    simp
  have hlast : (join [c] fields).getLast? ≠ some '\r' ↔
      ∀ f ∈ fields.getLast?, f.getLast? ≠ some '\r' := by
    rw [Ne, getLast_join_iff (Ne.symm hreturn)]
    simp
  constructor
  · rintro ⟨hc, hn, hr⟩
    exact ⟨fun f hf => ⟨hfields.mp hc f hf, hnewline.mp hn f hf⟩, hlast.mp hr⟩
  · rintro ⟨hfree, hr⟩
    exact ⟨hfields.mpr fun f hf => (hfree f hf).1, hnewline.mpr fun f hf => (hfree f hf).2,
      hlast.mpr hr⟩

end

end FractalD.Machine.Delimited
