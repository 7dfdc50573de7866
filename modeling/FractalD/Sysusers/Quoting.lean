import FractalD.Machine.Delimited
import FractalD.Sysusers.Directives

namespace FractalD.Sysusers.Quoting

open FractalD.Machine.CString FractalD.Machine.Delimited FractalD.Machine.Text
open FractalD.Sysusers.Directives

/-- How a field can be written between quotation marks. -/
inductive Spelling (quote : Char) : Str → Str → Prop
  | nil : Spelling quote [] []
  | plain {c : Char} {field text : Str} (hquote : c ≠ quote) (hescape : c ≠ '\\')
      (rest : Spelling quote field text) : Spelling quote (c :: field) (c :: text)
  | escaped (c : Char) {field text : Str} (rest : Spelling quote field text) :
      Spelling quote (unescapeChar c :: field) ('\\' :: c :: text)

/-- How a field can be written, with the quotation marks. -/
inductive Quoted : Str → Str → Prop
  | intro {quote : Char} {field text : Str} (hquote : quote = '\'' ∨ quote = '"')
      (spelling : Spelling quote field text) : Quoted field (quote :: (text ++ [quote]))

/-- Lines of fields in quotation marks, with blanks between them. -/
inductive QuotedLine : List Str → Str → Prop
  | nil : QuotedLine [] []
  | single {field text : Str} (quoted : Quoted field text) : QuotedLine [field] text
  | cons {field text blanks line : Str} {fields : List Str} (quoted : Quoted field text)
      (hne : blanks ≠ []) (hblanks : ∀ c ∈ blanks, isAsciiWhitespace c = true)
      (rest : QuotedLine fields line) : QuotedLine (field :: fields) (text ++ (blanks ++ line))

/-- A field between double quotation marks, on one line. -/
def quote (field : Str) : Str :=
  '"' :: (field.flatMap (fun c =>
    if c = '"' ∨ c = '\\' then ['\\', c]
    else if c = '\n' then ['\\', 'n']
    else if c = '\r' then ['\\', 'r']
    else [c]) ++ ['"'])

section

variable {q : Char} {field text line rest : Str} {fields : List Str}

theorem quoted_quote (field : Str) : Quoted field (quote field) := by
  refine .intro (.inr rfl) ?_
  induction field with
  | nil => exact .nil
  | cons c field ih =>
    rw [List.flatMap_cons]
    by_cases hc : c = '"' ∨ c = '\\'
    · have hsame : unescapeChar c = c := by
        rcases hc with rfl | rfl <;> rfl
      have hspelling := Spelling.escaped c ih
      rw [hsame] at hspelling
      rw [if_pos hc]
      exact hspelling
    rw [if_neg hc]
    by_cases hn : c = '\n'
    · subst hn
      exact .escaped 'n' ih
    rw [if_neg hn]
    by_cases hr : c = '\r'
    · subst hr
      exact .escaped 'r' ih
    rw [if_neg hr]
    obtain ⟨hquote, hescape⟩ := not_or.mp hc
    exact .plain hquote hescape ih

theorem quotedLine_quote (fields : List Str) :
    QuotedLine fields (join [' '] (fields.map quote)) := by
  induction fields with
  | nil => exact .nil
  | cons field fields ih =>
    cases fields with
    | nil =>
      rw [List.map_singleton, join, List.intercalate_singleton]
      exact .single (quoted_quote field)
    | cons next fields =>
      rw [List.map_cons, join_cons (by simp)]
      exact .cons (quoted_quote field) (List.cons_ne_nil ' ' [])
        (List.forall_mem_singleton.mpr rfl) ih

theorem scan_spelling (h : Spelling q field text) (hescape : q ≠ '\\') (done : List Str)
    (current rest : Str) :
    Splitting.scan ⟨done, current, some q, false⟩ (text ++ q :: rest) =
      Splitting.scan ⟨done, current ++ field, none, false⟩ rest := by
  induction h generalizing current with
  | nil =>
    rw [List.nil_append, Splitting.scan, if_neg Bool.false_ne_true, if_neg hescape]
    simp
  | @plain c field text hquote hne _ ih =>
    rw [List.cons_append, Splitting.scan, if_neg Bool.false_ne_true, if_neg hne]
    dsimp only
    rw [if_neg hquote, Splitting.push, ih, List.append_assoc, List.singleton_append]
  | @escaped c field text _ ih =>
    rw [List.cons_append, List.cons_append, Splitting.scan, if_neg Bool.false_ne_true, if_pos rfl,
      Splitting.scan, if_pos rfl, Splitting.push, ih, List.append_assoc, List.singleton_append]

theorem scan_quoted (h : Quoted field text) (done : List Str) (current rest : Str) :
    Splitting.scan ⟨done, current, none, false⟩ (text ++ rest) =
      Splitting.scan ⟨done, current ++ field, none, false⟩ rest := by
  cases h with
  | @intro q field text hquote spelling =>
    have hescape : q ≠ '\\' := by
      rcases hquote with rfl | rfl <;> decide
    rw [List.cons_append, Splitting.scan, if_neg Bool.false_ne_true, if_neg hescape]
    dsimp only
    rw [if_pos hquote, List.append_assoc, List.singleton_append]
    exact scan_spelling spelling hescape done current rest

theorem scan_blank {c : Char} (hc : isAsciiWhitespace c = true) (done : List Str)
    (current rest : Str) :
    Splitting.scan ⟨done, current, none, false⟩ (c :: rest) =
      (Splitting.endField ⟨done, current, none, false⟩).scan rest := by
  have hother : ∀ d, isAsciiWhitespace d = false → c ≠ d := by
    rintro d hd rfl
    rw [hc] at hd
    cases hd
  rw [Splitting.scan, if_neg Bool.false_ne_true, if_neg (hother _ (by decide))]
  dsimp only
  rw [if_neg (not_or.mpr ⟨hother _ (by decide), hother _ (by decide)⟩),
    if_neg (hother _ (by decide)), if_pos hc]

theorem endField_filter (done : List Str) (current : Str) :
    Splitting.endField ⟨done, current, none, false⟩ =
      ⟨done ++ [current].filter (· ≠ []), [], none, false⟩ := by
  by_cases hcurrent : current = [] <;> simp [Splitting.endField, hcurrent]

theorem scan_blanks {blanks : Str} (hne : blanks ≠ [])
    (hblanks : ∀ c ∈ blanks, isAsciiWhitespace c = true) (done : List Str) (current rest : Str) :
    Splitting.scan ⟨done, current, none, false⟩ (blanks ++ rest) =
      Splitting.scan ⟨done ++ [current].filter (· ≠ []), [], none, false⟩ rest := by
  induction blanks generalizing done current with
  | nil => exact absurd rfl hne
  | cons c blanks ih =>
    obtain ⟨hc, hblanks⟩ := List.forall_mem_cons.mp hblanks
    rw [List.cons_append, scan_blank hc, endField_filter]
    by_cases hnil : blanks = []
    · rw [hnil, List.nil_append]
    · rw [ih hnil hblanks]
      simp

theorem scan_line (h : QuotedLine fields line) (done : List Str) :
    ∃ ended current, Splitting.scan ⟨done, [], none, false⟩ line = ⟨ended, current, none, false⟩ ∧
      ended ++ [current].filter (· ≠ []) = done ++ fields.filter (· ≠ []) := by
  induction h generalizing done with
  | nil => exact ⟨done, [], rfl, by simp⟩
  | @single field text quoted =>
    refine ⟨done, field, ?_, rfl⟩
    have hscan := scan_quoted quoted done [] []
    rwa [List.append_nil, List.nil_append, Splitting.scan] at hscan
  | @cons field text blanks line fields quoted hne hblanks _ ih =>
    obtain ⟨ended, current, hscan, hfields⟩ := ih (done ++ [field].filter (· ≠ []))
    refine ⟨ended, current, ?_, ?_⟩
    · rw [scan_quoted quoted, List.nil_append, scan_blanks hne hblanks, hscan]
    · rw [hfields, List.append_assoc, ← List.filter_append, List.singleton_append]

theorem splitFields_quoted (h : QuotedLine fields line) :
    splitFields line = .ok (fields.filter (· ≠ [])) := by
  obtain ⟨ended, current, hscan, hfields⟩ := scan_line h []
  have hstart : Splitting.start.scan line = ⟨ended, current, none, false⟩ := hscan
  unfold splitFields
  rw [hstart]
  dsimp only
  rw [if_neg Bool.false_ne_true, if_neg (by simp), endField_filter]
  exact congrArg Except.ok hfields

/-- A line of quoted fields is split into them exactly if none is empty. -/
theorem splitFields_quoted_iff (h : QuotedLine fields line) :
    splitFields line = .ok fields ↔ ∀ field ∈ fields, field ≠ [] := by
  rw [splitFields_quoted h, Except.ok.injEq, List.filter_eq_self]
  simp

/-- The fields of a user without a description. -/
def undescribed : List Str := ["demo".toList, "-".toList, [], "/srv/demo".toList]

theorem undescribed_quoted :
    splitFields (join [' '] (undescribed.map quote)) = .ok undescribed ↔
      ∀ field ∈ undescribed, field ≠ [] :=
  splitFields_quoted_iff (quotedLine_quote undescribed)

/-- An empty description is dropped, and the home comes in its place. -/
theorem undescribed_shifts :
    QuotedLine undescribed (join [' '] (undescribed.map quote)) ∧
      splitFields (join [' '] (undescribed.map quote)) =
        .ok ["demo".toList, "-".toList, "/srv/demo".toList] ∧
      splitFields (join [' '] (undescribed.map quote)) ≠ .ok undescribed :=
  ⟨quotedLine_quote undescribed, by decide +kernel, by decide +kernel⟩

end

end FractalD.Sysusers.Quoting
