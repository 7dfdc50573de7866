import FractalD.Machine.Result
import FractalD.Resolved.Answers

namespace FractalD.Resolved.AnswerSafety

open FractalD.Machine.CString FractalD.Machine.Dns FractalD.Machine.Result FractalD.Machine.Text
open FractalD.Resolved.Answers

variable {α β : Type} {p : α → Prop} {q : β → Prop}

/-- A function does not panic, and what it returns is as it should be. -/
def Reads (r : Parsed α) (p : α → Prop) : Prop := r ≠ .error .panic ∧ ∀ a, r = .ok a → p a

theorem reads_fail (text : String) : Reads (fail text) p := by
  constructor
  · intro h
    cases h
  · intro a h
    cases h

theorem reads_pure {a : α} (h : p a) : Reads (pure a) p := by
  constructor
  · intro h
    cases h
  · intro b hb
    cases hb
    exact h

theorem Reads.bind {r : Parsed α} {f : α → Parsed β} (hr : Reads r p) (hf : ∀ a, p a → Reads (f a) q) :
    Reads (r >>= f) q := by
  cases r with
  | error e =>
    refine ⟨fun h => hr.1 ?_, fun b h => ?_⟩
    · cases h
      rfl
    · cases h
  | ok a => exact hf a (hr.2 a rfl)

theorem Reads.mono {r : Parsed α} {p' : α → Prop} (h : Reads r p) (hp : ∀ a, p a → p' a) : Reads r p' :=
  ⟨h.1, fun a ha => hp a (h.2 a ha)⟩

theorem reads_byteAt {packet : Packet} {i : Nat} (h : i < packet.length) :
    Reads (byteAt packet i) fun b => b = packet.getD i 0 := by
  rw [byteAt, List.getElem?_eq_getElem h]
  exact reads_pure (by rw [List.getD, List.getElem?_eq_getElem h, Option.getD_some])

theorem reads_u16At {packet : Packet} {i : Nat} (h : i + 1 < packet.length) :
    Reads (u16At packet i) fun n => n = u16 packet i := by
  unfold u16At u16From
  apply (reads_byteAt (by omega)).bind
  rintro _ rfl
  apply (reads_byteAt h).bind
  rintro _ rfl
  exact reads_pure rfl

theorem reads_u32At {packet : Packet} {i : Nat} (h : i + 3 < packet.length) :
    Reads (u32At packet i) fun n => n = u32 packet i := by
  unfold u32At u32From
  apply (reads_u16At (by omega)).bind
  rintro _ rfl
  apply (reads_u16At (by omega)).bind
  rintro _ rfl
  exact reads_pure rfl

theorem reads_labels (packet : Packet) (depth offset : Nat) (labels : List Str) :
    Reads (readLabels packet depth offset labels) fun r => NameAt packet offset r.2 := by
  fun_induction readLabels packet depth offset labels with
  | case1 => exact reads_fail _
  | case2 => exact reads_fail _
  | case3 => exact reads_fail _
  | case4 depth offset labels length hlength hpointer second hsecond pointer hdeep ih =>
    apply ih.bind
    intro r _
    exact reads_pure (NameAt.pointer hlength hpointer hsecond)
  | case5 => exact reads_fail _
  | case6 depth offset labels hlength => exact reads_pure (NameAt.root hlength)
  | case7 => exact reads_fail _
  | case8 => exact reads_fail _
  | case9 depth offset labels length hlength hpointer hlong hne stop hstop label hlabel ih =>
    rw [not_or, not_not] at hlong
    obtain ⟨-, hinside, -⟩ := slice_some hlabel
    obtain rfl := checkedAdd_some hstop
    apply ih.mono
    intro r hr
    exact NameAt.label hlength hlong.1 hne hinside hr

theorem reads_name (packet : Packet) (start depth : Nat) :
    Reads (readName packet start depth) fun r => NameAt packet start r.2 := by
  rw [readName]
  split
  · exact reads_fail _
  · exact reads_labels packet depth start []

theorem reads_rdata (packet : Packet) (start length recordType : Nat) :
    Reads (formatRdata packet start length recordType) fun _ => True := by
  rw [formatRdata]
  split
  · exact reads_fail _
  next stop hstop =>
    obtain rfl := checkedAdd_some hstop
    split
    · exact reads_fail _
    next data hdata =>
      have hlength : data.length = length := by
        rw [(slice_some hdata).2.2]
        omega
      split
      next hv4 =>
        apply (reads_byteAt (by omega)).bind
        intro a _
        apply (reads_byteAt (by omega)).bind
        intro b _
        apply (reads_byteAt (by omega)).bind
        intro c _
        apply (reads_byteAt (by omega)).bind
        intro d _
        exact reads_pure trivial
      split
      next hv6 =>
        rw [if_neg (by omega)]
        exact reads_pure trivial
      split
      · exact (reads_name packet start 0).bind fun r _ => reads_pure trivial
      split
      · exact reads_pure trivial
      · exact reads_pure trivial

theorem reads_questions (packet : Packet) (questions offset : Nat) :
    Reads (readQuestions packet questions offset) fun stop => QuestionsAt packet questions offset stop := by
  induction questions generalizing offset with
  | zero => exact reads_pure (QuestionsAt.nil offset)
  | succ questions ih =>
    apply (reads_name packet offset 0).bind
    rintro ⟨name, stop⟩ hname
    simp only
    split
    · exact reads_fail _
    next next hnext =>
      obtain rfl := checkedAdd_some hnext
      split
      · exact reads_fail _
      next hinside =>
        apply (ih (stop + 4)).mono
        intro last hlast
        exact QuestionsAt.cons hname (by omega) hlast

/-- What an answer says of the record whose name stands between two places. -/
structure Describes (packet : Packet) (start nameEnd : Nat) (answer : DnsAnswer) : Prop where
  name : readName packet start 0 = .ok (answer.name, nameEnd)
  recordType : answer.recordType = u16 packet nameEnd
  dnsClass : answer.dnsClass = u16 packet (nameEnd + 2)
  ttl : answer.ttl = u32 packet (nameEnd + 4)
  data : formatRdata packet (nameEnd + 10) (u16 packet (nameEnd + 8)) answer.recordType =
    .ok answer.data

/-- Answers that stand in a packet one after the other. -/
inductive AnswersAt (packet : Packet) : Nat → List DnsAnswer → Nat → Prop
  | nil (o : Nat) : AnswersAt packet o [] o
  | cons {o e f g : Nat} {answer : DnsAnswer} {answers : List DnsAnswer} (record : RecordAt packet o e f)
      (describes : Describes packet o e answer) (rest : AnswersAt packet f answers g) :
      AnswersAt packet o (answer :: answers) g

theorem Reads.eq {r : Parsed α} (h : Reads r p) : Reads r fun a => p a ∧ r = .ok a :=
  ⟨h.1, fun a ha => ⟨h.2 a ha, ha⟩⟩

theorem reads_answer (packet : Packet) (offset : Nat) :
    Reads (readAnswer packet offset) fun r => ∃ e, RecordAt packet offset e r.2 ∧
      Describes packet offset e r.1 := by
  apply (reads_name packet offset 0).eq.bind
  rintro ⟨name, nameEnd⟩ ⟨hname, hread⟩
  simp only
  split
  · exact reads_fail _
  next hheader =>
    apply (reads_u16At (by omega)).bind
    rintro _ rfl
    apply (reads_u16At (by omega)).bind
    rintro _ rfl
    apply (reads_u32At (by omega)).bind
    rintro _ rfl
    apply (reads_u16At (by omega)).bind
    rintro _ rfl
    split
    · exact reads_fail _
    next dataEnd hend =>
      obtain rfl := checkedAdd_some hend
      split
      · exact reads_fail _
      next hinside =>
        apply (reads_rdata packet _ _ _).eq.bind
        rintro data ⟨-, hdata⟩
        exact reads_pure ⟨nameEnd, ⟨hname, rfl, by omega⟩, ⟨hread, rfl, rfl, rfl, hdata⟩⟩

theorem reads_answers (packet : Packet) (count offset : Nat) :
    Reads (readAnswers packet count offset) fun answers => answers.length = count ∧
      ∃ last, AnswersAt packet offset answers last := by
  induction count generalizing offset with
  | zero => exact reads_pure ⟨rfl, offset, AnswersAt.nil offset⟩
  | succ count ih =>
    apply (reads_answer packet offset).bind
    rintro ⟨answer, next⟩ ⟨e, hrecord, hdescribes⟩
    apply (ih next).bind
    rintro answers ⟨hcount, last, hanswers⟩
    exact reads_pure ⟨by rw [List.length_cons, hcount], last, .cons hrecord hdescribes hanswers⟩

theorem reads_parse (packet : Packet) :
    Reads (parseAnswers packet) fun answers => 12 ≤ packet.length ∧ answers.length = u16 packet 6 ∧
      ∃ o last, QuestionsAt packet (u16 packet 4) 12 o ∧ AnswersAt packet o answers last := by
  rw [parseAnswers]
  split
  · exact reads_fail _
  next hlength =>
    apply (reads_byteAt (by omega)).bind
    intro flags _
    simp only
    split
    · constructor
      · intro h
        cases h
      · intro a h
        cases h
    · apply (reads_u16At (by omega)).bind
      rintro _ rfl
      apply (reads_questions packet _ 12).bind
      intro o ho
      apply (reads_u16At (by omega)).bind
      rintro _ rfl
      apply (reads_answers packet _ o).mono
      rintro answers ⟨hcount, last, hlast⟩
      exact ⟨by omega, hcount, o, last, ho, hlast⟩

theorem AnswersAt.inside {packet : Packet} {o f : Nat} {answers : List DnsAnswer}
    (h : AnswersAt packet o answers f) (ho : o ≤ packet.length) : f ≤ packet.length := by
  induction h with
  | nil => exact ho
  | cons record describes rest ih => exact ih record.inside

/-- A packet is parsed without an index past its end. The questions and answers that are read are
as many as it announces, and each lies inside it. -/
theorem parse_is_safe (packet : Packet) : parseAnswers packet ≠ .error .panic ∧
    ∀ answers, parseAnswers packet = .ok answers → answers.length = u16 packet 6 ∧
      ∃ o last, QuestionsAt packet (u16 packet 4) 12 o ∧ AnswersAt packet o answers last ∧
        last ≤ packet.length := by
  have hreads := reads_parse packet
  refine ⟨hreads.1, fun answers h => ?_⟩
  obtain ⟨hlength, hcount, o, last, hquestions, hanswers⟩ := hreads.2 answers h
  exact ⟨hcount, o, last, hquestions, hanswers, hanswers.inside (hquestions.inside hlength)⟩

end FractalD.Resolved.AnswerSafety
