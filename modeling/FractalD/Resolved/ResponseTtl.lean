import FractalD.Resolved.CacheSafety

namespace FractalD.Resolved.ResponseTtl

open FractalD.Machine.Dns FractalD.Resolved.Cache FractalD.Resolved.CacheSafety

/-- The number at a place of a packet, if all of it is there. -/
def u16At (p : Packet) (i : Nat) : Option Nat := u16From (fun i => p[i]?) i

def u32At (p : Packet) (i : Nat) : Option Nat := u32From (fun i => p[i]?) i

/-- Read past records. Nothing comes of reading outside the packet. -/
def readTtlsChecked (response : Packet) :
    Nat → Nat × Option Nat → Option (Option (Nat × Option Nat))
  | 0, read => some (some read)
  | count + 1, (offset, minimum) =>
    match skipName response offset 0 with
    | none => some none
    | some offset =>
      if offset + 10 > response.length then some none
      else do
        let ttl ← u32At response (offset + 4)
        let next := offset + 10 + (← u16At response (offset + 8))
        if next > response.length then some none
        else readTtlsChecked response count (next, some (minimum.elim ttl (min · ttl)))

def readSection (response : Packet) (read : Option (Nat × Option Nat)) (count : Nat) :
    Option (Option (Nat × Option Nat)) :=
  match read with
  | none => some none
  | some read => readTtlsChecked response count read

def responseTtlChecked (response : Packet) (questionEnd : Nat) : Option (Option Nat) :=
  if response.length < 12 ∨ questionEnd > response.length then some none
  else do
    let counts := [← u16At response 6, ← u16At response 8, ← u16At response 10]
    let read ← counts.foldlM (readSection response) (some (questionEnd, none))
    pure (read.bind Prod.snd)

/-- Records from one place to another, each with the places where its name begins and ends. -/
inductive RecordsBetween (p : Packet) : Nat → List (Nat × Nat) → Nat → Prop
  | nil (o : Nat) : RecordsBetween p o [] o
  | cons {o e f g : Nat} {rs : List (Nat × Nat)} (record : RecordAt p o e f)
      (rest : RecordsBetween p f rs g) : RecordsBetween p o ((o, e) :: rs) g

/-- A response with some records that repeats the question of a query. -/
structure Message (query response : Packet) (questionEnd : Nat) (rs : List (Nat × Nat)) : Prop where
  header : 12 ≤ response.length
  query : validateQuery query = some questionEnd
  question : QuestionsAt response (u16 response 4) 12 questionEnd
  records : ∃ f, RecordsBetween response questionEnd rs f
  count : rs.length = u16 response 6 + u16 response 8 + u16 response 10

/-- A record that is no resource but an extension of the message. -/
def IsOpt (p : Packet) (r : Nat × Nat) : Prop := u16 p r.2 = 41

instance (p : Packet) (r : Nat × Nat) : Decidable (IsOpt p r) := inferInstanceAs (Decidable (_ = _))

def ttl (p : Packet) (r : Nat × Nat) : Nat := u32 p (r.2 + 4)

/-- The least time to live of the records that are resources. -/
def leastTtl (p : Packet) (rs : List (Nat × Nat)) : Option Nat :=
  ((rs.filter fun r => ¬ IsOpt p r).map (ttl p)).min?

/-- A name has a number of labels before a pointer. -/
inductive PointerAfter (p : Packet) : Nat → Nat → Prop
  | here {o : Nat} {b : UInt8} (hb : p[o]? = some b) (hp : b &&& 0xc0 = 0xc0) : PointerAfter p 0 o
  | label {n o : Nat} {b : UInt8} (hb : p[o]? = some b) (hl : b &&& 0xc0 = 0) (hne : b ≠ 0)
      (rest : PointerAfter p n (o + 1 + b.toNat)) : PointerAfter p (n + 1) o

/-- The name of a record has too many labels before a pointer. -/
def Refused (p : Packet) (r : Nat × Nat) : Prop := ∃ n, 16 < n ∧ PointerAfter p n r.1

/-- No name is refused and no extension has a lower number for its flags than a resource has for its
time to live, or there are only extensions and one of them is refused. -/
def Undisturbed (p : Packet) (rs : List (Nat × Nat)) : Prop :=
  ((∃ r ∈ rs, Refused p r) → ∀ r ∈ rs, IsOpt p r) ∧
    ((∀ r ∈ rs, ¬ Refused p r) → ∀ r ∈ rs, IsOpt p r → ∃ r' ∈ rs, ¬ IsOpt p r' ∧ ttl p r' ≤ ttl p r)

section

variable {p query : Packet} {o e f i n count : Nat} {rs : List (Nat × Nat)}

theorem u16At_some (h : i + 1 < p.length) : u16At p i = some (u16 p i) := by
  have hlow : p[i + 1]? = some (p[i + 1]) := List.getElem?_eq_getElem h
  have hhigh : p[i]? = some (p[i]) := List.getElem?_eq_getElem (by omega)
  rw [u16, List.getD_eq_getElem?_getD, List.getD_eq_getElem?_getD, u16At, u16From, hlow,
    hhigh]
  rfl

theorem u32At_some (h : i + 3 < p.length) : u32At p i = some (u32 p i) := by
  change (u16At p i >>= fun high => u16At p (i + 2) >>= fun low => some (high * 2 ^ 16 + low)) = _
  rw [u16At_some (by omega), u16At_some (by omega)]
  rfl

theorem readTtlsChecked_eq (read : Nat × Option Nat) :
    readTtlsChecked p count read = some (readTtls p count read) := by
  induction count generalizing read with
  | zero => rfl
  | succ count ih =>
    obtain ⟨offset, minimum⟩ := read
    rw [readTtlsChecked, readTtls]
    cases skipName p offset 0 with
    | none => rfl
    | some stop =>
      dsimp only
      by_cases hinside : stop + 10 > p.length
      · rw [if_pos hinside, if_pos hinside]
      · rw [if_neg hinside, if_neg hinside, u32At_some (by omega), u16At_some (by omega)]
        dsimp only [Option.bind_eq_bind, Option.bind_some]
        split
        · rfl
        · exact ih _

theorem readSections_eq (counts : List Nat) (read : Option (Nat × Option Nat)) :
    counts.foldlM (readSection p) read =
      some (read.bind fun read => counts.foldlM (fun read count => readTtls p count read) read) := by
  induction counts generalizing read with
  | nil => cases read <;> rfl
  | cons count counts ih =>
    rw [List.foldlM_cons]
    cases read with
    | none => exact ih none
    | some read =>
      rw [readSection, readTtlsChecked_eq, Option.bind_eq_bind, Option.bind_some, ih,
        Option.bind_some, List.foldlM_cons]
      rfl

theorem responseTtlChecked_eq (response : Packet) (questionEnd : Nat) :
    responseTtlChecked response questionEnd = some (responseTtl response questionEnd) := by
  rw [responseTtlChecked, responseTtl]
  split
  · rfl
  next hlength =>
    rw [u16At_some (by omega), u16At_some (by omega), u16At_some (by omega)]
    have hsections := readSections_eq (p := response)
      [u16 response 6, u16 response 8, u16 response 10] (some (questionEnd, none))
    simp only [Option.bind_eq_bind, Option.bind_some, hsections]
    cases [u16 response 6, u16 response 8, u16 response 10].foldlM
      (fun read count => readTtls response count read) (questionEnd, none) with
    | none => rfl
    | some read => rfl

set_option maxRecDepth 2000 in
theorem label_short : ∀ n < 256, UInt8.ofNat n &&& 0xc0 = 0 → ¬ UInt8.ofNat n > 63 := by decide

/-- A name is read to its end, unless it has too many labels before a pointer. -/
theorem skipName_eq (h : NameAt p o e) (jumps : Nat) :
    ((∀ n, PointerAfter p n o → jumps + n ≤ 16) → skipName p o jumps = some e) ∧
      ∀ n, PointerAfter p n o → 16 < jumps + n → skipName p o jumps = none := by
  induction h generalizing jumps with
  | @root o h =>
    refine ⟨fun _ => ?_, fun n hn hmany => ?_⟩
    · rw [skipName, h]
      rfl
    · cases hn with
      | here hb hp =>
        cases h.symm.trans hb
        exact absurd hp (by decide)
      | label hb _ hne =>
        cases h.symm.trans hb
        exact absurd rfl hne
  | @pointer o b c hb hp hc =>
    refine ⟨fun hfew => ?_, fun n hn hmany => ?_⟩
    · have hjumps := hfew 0 (.here hb hp)
      rw [skipName, hb]
      dsimp only
      rw [if_pos hp, if_neg]
      rw [hc, not_or]
      exact ⟨nofun, by omega⟩
    · cases hn with
      | here =>
        rw [skipName, hb]
        dsimp only
        rw [if_pos hp, if_pos (.inr (by omega))]
      | label hb' hl =>
        cases hb.symm.trans hb'
        exact absurd (hp.symm.trans hl) (by decide)
  | @label o e b hb hl hne hend rest ih =>
    have hlong : ¬ (b &&& 0xc0 ≠ 0 ∨ b > 63) := by
      have hshort := label_short b.toNat b.toNat_lt
      rw [UInt8.ofNat_toNat] at hshort
      exact not_or.mpr ⟨not_not.mpr hl, hshort hl⟩
    have hskip : skipName p o jumps = skipName p (o + 1 + b.toNat) (jumps + 1) := by
      rw [skipName, hb]
      dsimp only
      rw [if_neg (fun hp => absurd (hp.symm.trans hl) (by decide)), if_neg hlong, if_neg hne,
        dif_neg (by omega)]
    rw [hskip]
    refine ⟨fun hfew => (ih (jumps + 1)).1 fun n hn => ?_, fun n hn hmany => ?_⟩
    · have := hfew (n + 1) (.label hb hl hne hn)
      omega
    · cases hn with
      | here hb' hp =>
        cases hb.symm.trans hb'
        exact absurd (hp.symm.trans hl) (by decide)
      | @label n _ _ hb' _ _ hrest =>
        cases hb.symm.trans hb'
        exact (ih (jumps + 1)).2 n hrest (by omega)

theorem skipName_some (h : NameAt p o e) (hfew : ¬ Refused p (o, e)) : skipName p o 0 = some e :=
  (skipName_eq h 0).1 fun n hn => by
    by_contra hmany
    exact hfew ⟨n, by omega, hn⟩

theorem skipName_none (h : NameAt p o e) (hmany : Refused p (o, e)) : skipName p o 0 = none := by
  obtain ⟨n, hmany, hn⟩ := hmany
  exact (skipName_eq h 0).2 n hn (by omega)

def keepLeast (minimum : Option Nat) (ttl : Nat) : Option Nat := some (minimum.elim ttl (min · ttl))

theorem foldl_keepLeast (l : List Nat) : l.foldl keepLeast none = l.min? := by
  have hsome : ∀ (l : List Nat) (m : Nat), l.foldl keepLeast (some m) = some (l.foldl min m) := by
    intro l
    induction l with
    | nil => exact fun m => rfl
    | cons t l ih => exact fun m => ih (min m t)
  cases l with
  | nil => rfl
  | cons t l => exact hsome l t

theorem readTtls_records (h : RecordsBetween p o rs f) (hfew : ∀ r ∈ rs, ¬ Refused p r)
    (minimum : Option Nat) : readTtls p rs.length (o, minimum) =
      some (f, (rs.map (ttl p)).foldl keepLeast minimum) := by
  induction h generalizing minimum with
  | nil => rfl
  | @cons o e f g rs record rest ih =>
    obtain ⟨hr, hrs⟩ := List.forall_mem_cons.mp hfew
    have hinside := record.inside
    have hfinish := record.finish
    rw [List.length_cons, readTtls, skipName_some record.name hr]
    dsimp only
    rw [if_neg (by omega), if_neg (by omega), ← hfinish]
    exact ih hrs _

theorem readTtls_refused (h : RecordsBetween p o rs f) (hmany : ∃ r ∈ rs, Refused p r)
    (minimum : Option Nat) : readTtls p rs.length (o, minimum) = none := by
  induction h generalizing minimum with
  | nil =>
    obtain ⟨r, hr, -⟩ := hmany
    cases hr
  | @cons o e f g rs record rest ih =>
    rw [List.length_cons, readTtls]
    by_cases hr : Refused p (o, e)
    · rw [skipName_none record.name hr]
    · have hinside := record.inside
      have hfinish := record.finish
      rw [skipName_some record.name hr]
      dsimp only
      rw [if_neg (by omega), if_neg (by omega), ← hfinish]
      refine ih ?_ _
      obtain ⟨r, hmem, hrefused⟩ := hmany
      obtain rfl | hmem := List.mem_cons.mp hmem
      · exact absurd hrefused hr
      · exact ⟨r, hmem, hrefused⟩

theorem readTtls_add (a b : Nat) (read : Nat × Option Nat) :
    readTtls p (a + b) read = (readTtls p a read).bind (readTtls p b) := by
  induction a generalizing read with
  | zero => rw [Nat.zero_add, readTtls, Option.bind_some]
  | succ a ih =>
    obtain ⟨offset, minimum⟩ := read
    rw [Nat.succ_add, readTtls, readTtls]
    cases skipName p offset 0 with
    | none => rfl
    | some stop =>
      dsimp only
      split
      · rfl
      · split
        · rfl
        · exact ih _

theorem responseTtl_eq {response : Packet} {questionEnd : Nat} (h : 12 ≤ response.length)
    (hend : questionEnd ≤ response.length) : responseTtl response questionEnd =
      (readTtls response (u16 response 6 + u16 response 8 + u16 response 10) (questionEnd, none)).bind
        Prod.snd := by
  rw [responseTtl, if_neg (by omega), readTtls_add, readTtls_add]
  simp only [List.foldlM_cons, List.foldlM_nil, Option.bind_eq_bind, Option.pure_def]
  cases readTtls response (u16 response 6) (questionEnd, none) with
  | none => rfl
  | some answers =>
    rw [Option.bind_some, Option.bind_some]
    cases readTtls response (u16 response 8) answers with
    | none => rfl
    | some authority =>
      rw [Option.bind_some, Option.bind_some]
      cases readTtls response (u16 response 10) authority with
      | none => rfl
      | some read => rfl

variable {response : Packet} {questionEnd : Nat}

theorem Message.inside (h : Message query response questionEnd rs) : questionEnd ≤ response.length :=
  h.question.inside h.header

theorem responseTtl_records (h : Message query response questionEnd rs)
    (hfew : ∀ r ∈ rs, ¬ Refused response r) :
    responseTtl response questionEnd = (rs.map (ttl response)).min? := by
  obtain ⟨f, hrecords⟩ := h.records
  rw [responseTtl_eq h.header h.inside, ← h.count, readTtls_records hrecords hfew, Option.bind_some,
    foldl_keepLeast]

theorem responseTtl_refused (h : Message query response questionEnd rs)
    (hmany : ∃ r ∈ rs, Refused response r) : responseTtl response questionEnd = none := by
  obtain ⟨f, hrecords⟩ := h.records
  rw [responseTtl_eq h.header h.inside, ← h.count, readTtls_refused hrecords hmany, Option.bind_none]

theorem leastTtl_none : leastTtl p rs = none ↔ ∀ r ∈ rs, IsOpt p r := by
  rw [leastTtl, List.min?_eq_none_iff, List.map_eq_nil_iff, List.filter_eq_nil_iff]
  simp

/-- The least of all numbers is that of a resource exactly if no extension has a lower one. -/
theorem min_eq_leastTtl : (rs.map (ttl p)).min? = leastTtl p rs ↔
    ∀ r ∈ rs, IsOpt p r → ∃ r' ∈ rs, ¬ IsOpt p r' ∧ ttl p r' ≤ ttl p r := by
  constructor
  · intro h r hr _
    cases hleast : leastTtl p rs with
    | none =>
      rw [hleast, List.min?_eq_none_iff, List.map_eq_nil_iff] at h
      rw [h] at hr
      cases hr
    | some least =>
      rw [hleast] at h
      obtain ⟨r', hr', hleast'⟩ := List.mem_map.mp (List.min?_mem hleast)
      obtain ⟨hmem, hopt⟩ := List.mem_filter.mp hr'
      refine ⟨r', hmem, of_decide_eq_true hopt, ?_⟩
      rw [hleast']
      exact (List.min?_eq_some_iff.mp h).2 _ (List.mem_map_of_mem hr)
  · intro h
    cases hleast : leastTtl p rs with
    | none =>
      have hall := leastTtl_none.mp hleast
      rw [List.min?_eq_none_iff, List.map_eq_nil_iff, List.eq_nil_iff_forall_not_mem]
      intro r hr
      obtain ⟨r', hr', hopt, -⟩ := h r hr (hall r hr)
      exact hopt (hall r' hr')
    | some least =>
      obtain ⟨hmem, hle⟩ := List.min?_eq_some_iff.mp hleast
      obtain ⟨r, hr, rfl⟩ := List.mem_map.mp hmem
      refine List.min?_eq_some_iff.mpr ⟨List.mem_map_of_mem (List.mem_of_mem_filter hr), ?_⟩
      have hresource : ∀ r' ∈ rs, ¬ IsOpt p r' → ttl p r ≤ ttl p r' := fun r' hr' hopt =>
        hle _ (List.mem_map_of_mem (List.mem_filter.mpr ⟨hr', decide_eq_true hopt⟩))
      intro t ht
      obtain ⟨r', hr', rfl⟩ := List.mem_map.mp ht
      by_cases hopt : IsOpt p r'
      · obtain ⟨other, hother, hresources, hless⟩ := h r' hr' hopt
        exact Nat.le_trans (hresource other hother hresources) hless
      · exact hresource r' hr' hopt

/-- Nothing is read outside of any packet. What a well-formed response is kept for is the least time
to live of its resources exactly if neither an extension nor a long name disturbs it. -/
theorem responseTtl_iff (response : Packet) (questionEnd : Nat) :
    responseTtlChecked response questionEnd = some (responseTtl response questionEnd) ∧
      ∀ query rs, Message query response questionEnd rs →
        (responseTtl response questionEnd = leastTtl response rs ↔ Undisturbed response rs) := by
  refine ⟨responseTtlChecked_eq response questionEnd, fun query rs h => ?_⟩
  by_cases hmany : ∃ r ∈ rs, Refused response r
  · rw [responseTtl_refused h hmany, eq_comm, leastTtl_none]
    refine ⟨fun hall => ⟨fun _ => hall, fun hfew => ?_⟩, fun hall => hall.1 hmany⟩
    obtain ⟨r, hr, hrefused⟩ := hmany
    exact absurd hrefused (hfew r hr)
  · have hfew : ∀ r ∈ rs, ¬ Refused response r := fun r hr hrefused => hmany ⟨r, hr, hrefused⟩
    rw [responseTtl_records h hfew, min_eq_leastTtl]
    exact ⟨fun hall => ⟨fun hrefused => absurd hrefused hmany, fun _ => hall⟩,
      fun hall => hall.2 hfew⟩

theorem not_refused_root (h : p[o]? = some 0) : ¬ Refused p (o, e) := by
  rintro ⟨n, -, hn⟩
  cases hn with
  | here hb hp =>
    cases h.symm.trans hb
    exact absurd hp (by decide)
  | label hb _ hne =>
    cases h.symm.trans hb
    exact absurd rfl hne

end

def rootQuestion : Packet := [0, 0, 1, 0, 1]

def rootQuery : Packet := [0, 1, 1, 0, 0, 1, 0, 0, 0, 0, 0, 0] ++ rootQuestion

/-- An address that may be kept for five minutes. -/
def rootAnswer : Packet := [0, 0, 1, 0, 1, 0, 0, 1, 44, 0, 4, 127, 0, 0, 1]

def plainResponse : Packet := [0, 1, 129, 128, 0, 1, 0, 1, 0, 0, 0, 0] ++ rootQuestion ++ rootAnswer

def extendedResponse : Packet := [0, 1, 129, 128, 0, 1, 0, 1, 0, 0, 0, 1] ++ rootQuestion ++
  rootAnswer ++ [0, 0, 41, 4, 208, 0, 0, 0, 0, 0, 0]

theorem rootQuery_valid : validateQuery rootQuery = some 17 := by
  rw [validateQuery, if_neg (by decide), skipName_some (.root rfl) (not_refused_root rfl)]
  rfl

theorem plainResponse_message : Message rootQuery plainResponse 17 [(17, 18)] where
  header := by decide
  query := rootQuery_valid
  question := .cons (.root rfl) (by decide) (.nil 17)
  records := ⟨32, .cons ⟨.root rfl, rfl, by decide⟩ (.nil 32)⟩
  count := rfl

theorem plainResponse_undisturbed : responseTtl plainResponse 17 = leastTtl plainResponse [(17, 18)] ↔
    Undisturbed plainResponse [(17, 18)] :=
  (responseTtl_iff _ _).2 _ _ plainResponse_message

theorem extendedResponse_message :
    Message rootQuery extendedResponse 17 [(17, 18), (32, 33)] where
  header := by decide
  query := rootQuery_valid
  question := .cons (.root rfl) (by decide) (.nil 17)
  records := ⟨43, .cons ⟨.root rfl, rfl, by decide⟩ (.cons ⟨.root rfl, rfl, by decide⟩ (.nil 43))⟩
  count := rfl

/-- The flags of the extension are taken for a time to live. -/
theorem flags_shorten_ttl : Message rootQuery extendedResponse 17 [(17, 18), (32, 33)] ∧
    responseTtl extendedResponse 17 = some 0 ∧
    leastTtl extendedResponse [(17, 18), (32, 33)] = some 300 := by
  have hfew : ∀ r ∈ [(17, 18), (32, 33)], ¬ Refused extendedResponse r := by
    simp only [List.forall_mem_cons]
    exact ⟨not_refused_root rfl, not_refused_root rfl, by simp⟩
  refine ⟨extendedResponse_message, ?_, by decide⟩
  rw [responseTtl_records extendedResponse_message hfew]
  decide

end FractalD.Resolved.ResponseTtl
