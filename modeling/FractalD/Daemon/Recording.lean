import FractalD.Daemon.Journal

namespace FractalD.Daemon.Recording

open FractalD.Core.Record FractalD.Core.Spec FractalD.Daemon.Journal FractalD.Daemon.Loop
open FractalD.Machine.CString FractalD.Machine.EventRuns FractalD.Machine.Text FractalD.Machine.Wire
open FractalD.Machine.Effect hiding final

section

variable {e : Change}

/-- Characters that end no line. -/
def Inside (s : Str) : Prop := ∀ c ∈ s, c ≠ '\n' ∧ c ≠ '\r'

instance : DecidablePred Inside := fun s => List.decidableBAll _ s

theorem Inside.append {s t : Str} (hs : Inside s) (ht : Inside t) : Inside (s ++ t) := by
  intro c hc
  exact (List.mem_append.mp hc).elim (hs c) (ht c)

theorem inside_printUnsigned (n : Nat) : Inside (printUnsigned n) := by
  intro c hc
  have hd := isDigit_of_mem_printUnsigned hc
  constructor
  · rintro rfl
    cases hd
  · rintro rfl
    cases hd

theorem inside_printSigned (n : Int) : Inside (printSigned n) := by
  unfold printSigned
  split
  · exact List.forall_mem_cons.mpr ⟨by decide, inside_printUnsigned _⟩
  · exact inside_printUnsigned _

theorem inside_name (o : Observed) : Inside o.snapshot.name := by
  intro c hc
  have hu := o.usable
  simp only [unusableName, Bool.or_eq_false_iff, List.any_eq_false] at hu
  have hspace := hu.1.1.1 c hc
  constructor
  · rintro rfl
    exact hspace rfl
  · rintro rfl
    exact hspace rfl

theorem inside_state (s : ServiceState) : Inside (stateName s) := by
  cases s <;> decide

theorem inside_exit (reason : Option ExitReason) : Inside (reason.elim ['-'] exitText) := by
  cases reason with
  | none => exact List.forall_mem_singleton.mpr (by decide)
  | some reason =>
    have hlabel (label : Str) (h : Inside label) (n : Int) :
        Inside (label ++ printSigned n) := Inside.append h (inside_printSigned n)
    cases reason with
    | exited code => exact hlabel _ (by decide) code
    | signaled signal => exact hlabel _ (by decide) signal
    | coreDumped signal => exact hlabel _ (by decide) signal

theorem inside_eventFields (e : Change) : Inside (eventFields e) := by
  have hpid : Inside (e.observed.snapshot.pid.elim ['-'] printUnsigned) := by
    cases e.observed.snapshot.pid with
    | none => exact List.forall_mem_singleton.mpr (by decide)
    | some pid => exact inside_printUnsigned pid
  have hlabel (s : Str) {label : Str} (hs : Inside s) (h : Inside label) :
      Inside (s ++ label) := hs.append h
  unfold eventFields
  apply Inside.append _ (inside_exit _)
  apply hlabel _ _ (by decide)
  apply Inside.append _ (inside_printUnsigned _)
  apply hlabel _ _ (by decide)
  apply Inside.append _ (inside_printUnsigned _)
  apply hlabel _ _ (by decide)
  apply Inside.append _ hpid
  apply hlabel _ _ (by decide)
  apply Inside.append _ (inside_state _)
  apply hlabel _ _ (by decide)
  apply Inside.append _ (inside_name _)
  apply hlabel _ _ (by decide)
  apply Inside.append _ (inside_printUnsigned _)
  exact show Inside "time_ms=".toList by decide

theorem inside_eventLine (e : Change) : Inside (eventLine e) := by
  have hnumber : Inside ("seq=".toList ++ printUnsigned e.sequence) :=
    Inside.append (show Inside "seq=".toList by decide) (inside_printUnsigned _)
  exact hnumber.append (List.forall_mem_cons.mpr ⟨by decide, inside_eventFields e⟩)

theorem oneLine_eventLine (e : Change) : OneLine (eventLine e) := by
  constructor
  · intro h
    exact (inside_eventLine e _ h).1 rfl
  · intro h
    exact (inside_eventLine e _ (List.mem_of_getLast? h)).2 rfl

theorem eventSequence_eventLine (h : e.sequence ≤ ulongMax) :
    eventSequence (eventLine e) = some e.sequence := by
  have hsolid : Solid ("seq=".toList ++ printUnsigned e.sequence) :=
    Solid.append (by decide) (solid_printUnsigned _)
  have hne : "seq=".toList ++ printUnsigned e.sequence ≠ [] :=
    List.append_ne_nil_of_right_ne_nil _ (printUnsigned_ne_nil _)
  have hhead : (splitWhitespace (eventLine e)).head? =
      some ("seq=".toList ++ printUnsigned e.sequence) := by
    rw [eventLine, splitWhitespace_cons hsolid hne rfl, List.head?_cons]
  simp only [eventSequence, hhead, removePrefix_append, parseU64_printUnsigned h,
    Option.bind_eq_bind, Option.bind_some]

/-- The log that has been written for some events. -/
def render (es : List Change) : Str := es.flatMap formatEvent

theorem render_append (es fs : List Change) : render (es ++ fs) = render es ++ render fs :=
  List.flatMap_append

theorem textLines_render (es : List Change) : textLines (render es) = es.map eventLine := by
  have hrender : render es = (es.map eventLine).flatMap (· ++ ['\n']) := by
    rw [List.flatMap_map]
    rfl
  rw [hrender, textLines_ended_iff]
  intro line hline
  obtain ⟨e, -, rfl⟩ := List.mem_map.mp hline
  exact oneLine_eventLine e

theorem render_ended (es : List Change) : render es = [] ∨ (render es).getLast? = some '\n' := by
  obtain rfl | ⟨fs, e, rfl⟩ := List.eq_nil_or_concat es
  · exact .inl rfl
  · right
    rw [List.concat_eq_append, render_append]
    simp [render, formatEvent]

end

/-- No number has reached the greatest. -/
def Bounded (written : List Change) : Prop := ∀ e ∈ written, e.sequence < u64Max

instance : DecidablePred Bounded := fun written =>
  inferInstanceAs (Decidable (∀ e ∈ written, e.sequence < u64Max))

/-- The log holds the given changes, which are the last that were written to it. -/
structure Kept (events : Option Str) (written kept : List Change) : Prop where
  isLast : kept <:+ written
  contents : events.getD [] = render kept
  nonempty : written ≠ [] → kept ≠ []

structure Ordered (events : Option Str) (written : List Change) : Prop where
  ascending : written.Pairwise fun a b => a.sequence < b.sequence
  kept : ∃ kept, Kept events written kept

/-- What holds of a journal between two operations. -/
structure Recorded (l : Log) : Prop where
  ordered : Bounded l.disk.written → Ordered l.disk.events l.disk.written
  fresh : Bounded l.disk.written → ∀ e ∈ l.disk.written, e.sequence < l.journal.nextSequence
  limit : l.journal.nextSequence ≤ u64Max
  positive : 1 ≤ l.journal.maxEvents

/-- What holds of it before a change with the number it has just used is written. -/
structure Ready (e : Change) (l : Log) : Prop where
  ordered : Bounded l.disk.written → Ordered l.disk.events l.disk.written
  above : Bounded l.disk.written → ∀ w ∈ l.disk.written, w.sequence < e.sequence
  upto : e.sequence ≤ l.journal.nextSequence
  below : e.sequence < u64Max → e.sequence < l.journal.nextSequence
  limit : l.journal.nextSequence ≤ u64Max
  positive : 1 ≤ l.journal.maxEvents

theorem Ready.recorded {e : Change} {l : Log} (h : Ready e l) : Recorded l where
  ordered := h.ordered
  fresh hb w hw := Nat.lt_of_lt_of_le (h.above hb w hw) h.upto
  limit := h.limit
  positive := h.positive

theorem Kept.lines {d : Disk} {kept : List Change} (h : Kept d.events d.written kept) :
    linesOf d = kept.map eventLine := by
  rw [linesOf, h.contents, textLines_render]

/-- A condition that does not depend on how many calls there were. -/
def Stable (p : Log → Prop) : Prop :=
  ∀ l n, p l → p { l with disk := { l.disk with calls := n } }

section

variable {p e : Log → Prop}

theorem call_leads (hp : Stable p) : Leads p call (fun _ => p) e := by
  intro l hl
  exact hp l _ hl

theorem orThrow_leads (hp : Stable p) (he : ∀ l, p l → e l) (describe : EventJournal → Str) :
    Leads p (orThrow describe) (fun _ => p) e := by
  apply leads_bind (call_leads hp)
  intro answer
  cases answer with
  | done => exact leads_pure fun _ hl => hl
  | failed exists' error =>
    intro l hl
    exact he l hl

theorem readEvents_leads (hp : Stable p) (he : ∀ l, p l → e l) (describe : EventJournal → Str) :
    Leads p (readEvents describe) (fun a l => p l ∧ a = l.disk.events) e := by
  apply leads_bind (orThrow_leads hp he describe)
  intro _ l hl
  exact ⟨hl, rfl⟩

theorem updateDisk_leads {q : Log → Prop} {f : Disk → Disk}
    (h : ∀ l, p l → q { l with disk := f l.disk }) : Leads p (updateDisk f) (fun _ => q) e := by
  intro l hl
  exact h l hl

theorem updateJournal_leads {q : Log → Prop} {f : EventJournal → EventJournal}
    (h : ∀ l, p l → q { l with journal := f l.journal }) :
    Leads p (updateJournal f) (fun _ => q) e := by
  intro l hl
  exact h l hl

end

/-- The state that a change is about to be written in. -/
def Due (e : Change) (written : List Change) (next : Nat) (l : Log) : Prop :=
  Ready e l ∧ l.disk.written = written ∧ next ≤ l.journal.nextSequence

theorem due_stable (e : Change) (written : List Change) (next : Nat) : Stable (Due e written next) := by
  rintro l n ⟨h, hw⟩
  exact ⟨⟨h.ordered, h.above, h.upto, h.below, h.limit, h.positive⟩, hw⟩

/-- Whatever is in the log, where nothing depends on it or it stays. -/
theorem Due.rewrite {e : Change} {written : List Change} {next : Nat} {l : Log} {events : Option Str}
    (h : Due e written next l) (hsame : Bounded l.disk.written → events.getD [] = l.disk.events.getD []) :
    Due e written next { l with disk := { l.disk with events := events } } := by
  obtain ⟨h, hw⟩ := h
  refine ⟨⟨fun hb => ?_, h.above, h.upto, h.below, h.limit, h.positive⟩, hw⟩
  obtain ⟨hascending, kept, hkept⟩ := h.ordered hb
  exact ⟨hascending, kept, hkept.isLast, (hsame hb).trans hkept.contents, hkept.nonempty⟩

theorem Due.no_separator {e : Change} {written : List Change} {next : Nat} {l : Log} {contents : Str}
    (h : Due e written next l) (hc : contents = l.disk.events.getD [])
    (hsep : contents ≠ [] ∧ contents.getLast? ≠ some '\n') : ¬ Bounded l.disk.written := by
  intro hb
  obtain ⟨-, kept, hkept⟩ := h.1.ordered hb
  rw [hc, hkept.contents] at hsep
  obtain hnil | hlast := render_ended kept
  · exact hsep.1 hnil
  · exact hsep.2 hlast

theorem Due.written {e : Change} {written : List Change} {next : Nat} {l : Log} (h : Due e written next l) :
    Recorded { l with disk :=
      { write (formatEvent e) l.disk with written := l.disk.written ++ [e] } } := by
  obtain ⟨h, -⟩ := h
  have hbefore (hb : ∀ w ∈ l.disk.written ++ [e], w.sequence < u64Max) :
      Bounded l.disk.written ∧ e.sequence < u64Max :=
    ⟨fun w hw => hb w (List.mem_append_left _ hw), hb e (by simp)⟩
  refine ⟨fun hb => ?_, fun hb w hw => ?_, h.limit, h.positive⟩
  · obtain ⟨hbounded, -⟩ := hbefore hb
    obtain ⟨hascending, kept, hkept⟩ := h.ordered hbounded
    refine ⟨?_, kept ++ [e], ?_, ?_, fun _ => by simp⟩
    · apply List.pairwise_append.mpr ⟨hascending, List.pairwise_singleton _ _, _⟩
      intro a ha b hb
      obtain rfl := List.mem_singleton.mp hb
      exact h.above hbounded a ha
    · obtain ⟨front, hfront⟩ := hkept.isLast
      exact ⟨front, by rw [← hfront, List.append_assoc]⟩
    · change l.disk.events.getD [] ++ formatEvent e = _
      rw [hkept.contents, render_append]
      simp [render]
  · obtain ⟨hbounded, hlt⟩ := hbefore hb
    obtain hw | hw := List.mem_append.mp hw
    · exact Nat.lt_of_lt_of_le (h.above hbounded w hw) h.upto
    · obtain rfl := List.mem_singleton.mp hw
      exact h.below hlt

def Wrote (written : List Change) (next : Nat) (l : Log) : Prop :=
  Recorded l ∧ l.disk.written = written ∧ next ≤ l.journal.nextSequence

theorem wrote_stable (written : List Change) (next : Nat) : Stable (Wrote written next) := by
  rintro l n ⟨h, hw⟩
  exact ⟨⟨h.ordered, h.fresh, h.limit, h.positive⟩, hw⟩

theorem append_leads (e : Change) (written : List Change) (next : Nat) :
    Leads (Due e written next) (append e) (fun _ => Wrote (written ++ [e]) next) Recorded := by
  have hdue := due_stable e written next
  have hwrote := wrote_stable (written ++ [e]) next
  have hrecorded (l : Log) (h : Due e written next l) : Recorded l := h.1.recorded
  apply leads_bind (readEvents_leads hdue hrecorded _)
  intro contents
  have hread : Stable fun l => Due e written next l ∧ contents = l.disk.events :=
    fun l n h => ⟨hdue l n h.1, h.2⟩
  apply leads_bind (orThrow_leads hread (fun l h => h.1.1.recorded) _)
  intro _
  apply leads_bind (updateDisk_leads
    (q := fun l => Due e written next l ∧ contents.getD [] = l.disk.events.getD []) _)
  · intro _
    apply leads_bind (q := fun _ => Due e written next)
    · apply leads_ite
      · intro hsep
        apply leads_bind (q := fun _ l => Due e written next l ∧ ¬ Bounded l.disk.written)
        · apply leads_pre (p := fun l => Due e written next l ∧ ¬ Bounded l.disk.written)
          · intro l h
            exact ⟨h.1, h.1.no_separator h.2 hsep⟩
          · exact orThrow_leads (fun l n h => ⟨hdue l n h.1, h.2⟩) (fun l h => h.1.1.recorded) _
        · intro _
          apply updateDisk_leads
          intro l h
          exact h.1.rewrite fun hb => absurd hb h.2
      · intro _
        exact leads_pure fun l h => h.1
    · intro _
      apply leads_bind (orThrow_leads hdue hrecorded _)
      intro _
      apply leads_bind (updateDisk_leads (q := Wrote (written ++ [e]) next) _)
      · intro _
        apply leads_bind (orThrow_leads hwrote (fun l h => h.1) _)
        intro _
        apply updateJournal_leads
        rintro l ⟨h, hw⟩
        exact ⟨⟨h.ordered, h.fresh, h.limit, h.positive⟩, hw⟩
      · rintro l h
        exact ⟨h.written, by rw [← h.2.1], h.2.2⟩
  · rintro l ⟨h, rfl⟩
    have hsame : (some (l.disk.events.getD [] ++ [])).getD [] = l.disk.events.getD [] :=
      List.append_nil _
    exact ⟨h.rewrite fun _ => hsame, hsame.symm⟩

/-- Two logs that hold the same and go on with the same number. -/
structure Like (before l : Log) : Prop where
  next : l.journal.nextSequence = before.journal.nextSequence
  maxEvents : l.journal.maxEvents = before.journal.maxEvents
  events : l.disk.events = before.disk.events
  written : l.disk.written = before.disk.written

theorem like_stable (before : Log) : Stable (Like before) := by
  intro l n h
  exact ⟨h.next, h.maxEvents, h.events, h.written⟩

theorem Like.recorded {before l : Log} (h : Like before l) (hb : Recorded before) : Recorded l := by
  refine ⟨?_, ?_, ?_, ?_⟩
  · rw [h.events, h.written]
    exact hb.ordered
  · rw [h.written, h.next]
    exact hb.fresh
  · rw [h.next]
    exact hb.limit
  · rw [h.maxEvents]
    exact hb.positive

/-- The file that is to replace the log holds a text. -/
def Copied (before : Log) (text : Str) (l : Log) : Prop := Like before l ∧ l.disk.temporary = text

theorem createTemporary_leads (before : Log) (attempts attempt : Nat) :
    Leads (Like before) (createTemporary attempts attempt) (fun _ => Copied before []) (Like before) := by
  induction attempts generalizing attempt with
  | zero => exact leads_throw fun _ hl => hl
  | succ attempts ih =>
    apply leads_bind (call_leads (like_stable before))
    intro answer
    cases answer with
    | done =>
      apply updateDisk_leads
      intro l h
      exact ⟨⟨h.next, h.maxEvents, h.events, h.written⟩, rfl⟩
    | failed alreadyExists error =>
      cases alreadyExists with
      | true => exact ih (attempt + 1)
      | false =>
        intro l h
        exact h

theorem writeTemporary_leads (before : Log) (text added : Str) :
    Leads (Copied before text) (writeTemporary added) (fun _ => Copied before (text ++ added))
      (Like before) := by
  have hstable : Stable (Copied before text) := fun l n h => ⟨like_stable before l n h.1, h.2⟩
  apply leads_bind (orThrow_leads hstable (fun l h => h.1) _)
  intro _
  apply updateDisk_leads
  rintro l ⟨h, htext⟩
  exact ⟨⟨h.next, h.maxEvents, h.events, h.written⟩, by rw [← htext]⟩

theorem writeLines_leads (before : Log) (text : Str) (lines : List Str) :
    Leads (Copied before text) (lines.forM writeLine)
      (fun _ => Copied before (text ++ lines.flatMap (· ++ ['\n']))) (Like before) := by
  induction lines generalizing text with
  | nil =>
    apply leads_pure
    intro l h
    rwa [List.flatMap_nil, List.append_nil]
  | cons line lines ih =>
    rw [List.forM]
    have hline : Leads (Copied before text) (writeLine line)
        (fun _ => Copied before (text ++ line ++ ['\n'])) (Like before) := by
      apply leads_bind (writeTemporary_leads before text line)
      intro _
      exact writeTemporary_leads before (text ++ line) ['\n']
    apply leads_bind hline
    intro _
    have htext : text ++ (line :: lines).flatMap (· ++ ['\n']) =
        text ++ line ++ ['\n'] ++ lines.flatMap (· ++ ['\n']) := by
      simp only [List.flatMap_cons, List.append_assoc]
    rw [htext]
    exact ih (text ++ line ++ ['\n'])

/-- The log has been cut to its last lines, or is short enough. -/
structure Compacted (before l : Log) : Prop where
  next : l.journal.nextSequence = before.journal.nextSequence
  maxEvents : l.journal.maxEvents = before.journal.maxEvents
  written : l.disk.written = before.disk.written
  events : l.disk.events = before.disk.events ∧
      (linesOf before.disk).length ≤ before.journal.maxEvents ∨
    l.disk.events = some (((linesOf before.disk).drop
      ((linesOf before.disk).length - before.journal.maxEvents)).flatMap (· ++ ['\n']))

theorem get_leads {p e : Log → Prop} : Leads p (get : Op Log) (fun a l => p l ∧ a = l) e := by
  intro l hl
  exact ⟨hl, rfl⟩

theorem compact_leads (before : Log) :
    Leads (Like before) (compact (linesOf before.disk)) (fun _ => Compacted before) (Like before) := by
  apply leads_bind get_leads
  intro a
  apply leads_pre (p := fun l => Like before l ∧ a.journal.maxEvents = before.journal.maxEvents)
  · rintro l ⟨h, rfl⟩
    exact ⟨h, h.maxEvents⟩
  rintro l ⟨hl, ha⟩
  rw [ha]
  revert l
  change Leads (Like before) _ _ _
  apply leads_bind (createTemporary_leads before 100 0)
  intro _
  apply leads_bind (q := fun _ => Compacted before)
  · apply leads_bind (writeLines_leads before [] _)
    intro _
    have hstable (text : Str) : Stable (Copied before text) :=
      fun l n h => ⟨like_stable before l n h.1, h.2⟩
    apply leads_bind (orThrow_leads (hstable _) (fun l h => h.1) _)
    intro _
    apply leads_bind (orThrow_leads (hstable _) (fun l h => h.1) _)
    intro _
    apply updateDisk_leads
    rintro l ⟨h, htext⟩
    exact ⟨h.next, h.maxEvents, h.written, .inr (congrArg some htext)⟩
  · intro _
    apply updateJournal_leads
    intro l h
    exact ⟨h.next, h.maxEvents, h.written, h.events⟩

theorem compactContents_leads {before : Log} {contents : Str}
    (hlines : textLines contents = linesOf before.disk) :
    Leads (Like before) (compactContents contents) (fun _ => Compacted before) (Like before) := by
  unfold compactContents
  rw [hlines]
  apply leads_bind (q := fun _ => Like before)
  · apply updateJournal_leads
    intro l h
    exact ⟨h.next, h.maxEvents, h.events, h.written⟩
  intro _
  apply leads_bind get_leads
  intro a
  apply leads_pre (p := fun l => Like before l ∧ a.journal.maxEvents = before.journal.maxEvents)
  · rintro l ⟨h, rfl⟩
    exact ⟨h, h.maxEvents⟩
  rintro l ⟨hl, ha⟩
  rw [ha]
  revert l
  change Leads (Like before) _ _ _
  apply leads_bind (q := fun _ => Like before)
  · apply leads_bind (call_leads (like_stable before))
    intro answer
    cases answer with
    | done => exact leads_pure fun _ h => h
    | failed => exact leads_pure fun _ h => h
  intro tooMany
  apply leads_ite
  · intro _
    exact compact_leads before
  · intro hfew
    apply leads_pure
    intro l h
    obtain ⟨hfew, -⟩ := not_or.mp hfew
    exact ⟨h.next, h.maxEvents, h.written, .inl ⟨h.events, Nat.le_of_not_lt hfew⟩⟩

theorem compactIfNeeded_leads (before : Log) :
    Leads (Like before) compactIfNeeded (fun _ => Compacted before) (Like before) := by
  apply leads_bind (readEvents_leads (like_stable before) (fun _ h => h) _)
  intro contents
  by_cases hc : contents = before.disk.events
  · subst hc
    apply leads_pre (p := Like before) fun l h => h.1
    cases hevents : before.disk.events with
    | none =>
      apply updateJournal_leads
      intro l h
      refine ⟨h.next, h.maxEvents, h.written, .inl ⟨h.events, ?_⟩⟩
      have hlines : linesOf before.disk = [] := by
        rw [linesOf, hevents]
        rfl
      rw [hlines]
      exact Nat.zero_le _
    | some contents =>
      apply compactContents_leads
      rw [linesOf, hevents]
      rfl
  · rintro l ⟨h, hl⟩
    exact absurd (hl.trans h.events) hc

theorem Compacted.recorded {before l : Log} (h : Compacted before l) (hb : Recorded before) :
    Recorded l ∧ (Bounded l.disk.written → (linesOf l.disk).length ≤ l.journal.maxEvents) := by
  have hkept (hbounded : Bounded l.disk.written) : Ordered l.disk.events l.disk.written ∧
      (linesOf l.disk).length ≤ l.journal.maxEvents := by
    rw [h.written] at hbounded ⊢
    obtain ⟨hascending, kept, hkept⟩ := hb.ordered hbounded
    obtain ⟨hevents, hlength⟩ | hevents := h.events
    · rw [linesOf, hevents, h.maxEvents]
      exact ⟨⟨hascending, kept, hkept⟩, hlength⟩
    · have hcut : l.disk.events = some (render (kept.drop (kept.length - before.journal.maxEvents))) := by
        rw [hevents, hkept.lines, List.length_map, ← List.map_drop, List.flatMap_map]
        rfl
      refine ⟨⟨hascending, kept.drop (kept.length - before.journal.maxEvents),
        (List.drop_suffix _ _).trans hkept.isLast, ?_, ?_⟩, ?_⟩
      · rw [hcut]
        rfl
      · intro hne hnil
        have hpos := List.length_pos_iff.mpr (hkept.nonempty hne)
        have hmax := hb.positive
        have hlength := List.drop_eq_nil_iff.mp hnil
        omega
      · rw [linesOf, hcut, h.maxEvents, Option.getD_some, textLines_render, List.length_map,
          List.length_drop]
        omega
  refine ⟨⟨fun hbounded => (hkept hbounded).1, ?_, ?_, ?_⟩, fun hbounded => (hkept hbounded).2⟩
  · rw [h.written, h.next]
    exact hb.fresh
  · rw [h.next]
    exact hb.limit
  · rw [h.maxEvents]
    exact hb.positive

/-- The changes that were written since, with numbers that were not used before. -/
structure Since (before : Log) (events : List Str) (l : Log) (es : List Change) : Prop where
  written : l.disk.written = before.disk.written ++ es
  events : events = es.map formatEvent
  later : ∀ e ∈ es, before.journal.nextSequence ≤ e.sequence

/-- The lines that have been returned are those of what was written since. -/
structure Observing (before : Log) (events : List Str) (l : Log) : Prop where
  recorded : Recorded l
  next : before.journal.nextSequence ≤ l.journal.nextSequence
  since : ∃ es, Since before events l es

theorem observeOne_leads (before : Log) (events : List Str) (o : Observed) :
    Leads (Observing before events) (observeOne events o) (Observing before) Recorded := by
  apply leads_bind get_leads
  intro a
  apply leads_ite
  · intro _
    apply leads_pure
    intro l h
    exact h.1
  · intro _
    let Numbered (l : Log) : Prop :=
      (∀ e : Change, e.sequence = a.journal.nextSequence → Ready e l) ∧
        before.journal.nextSequence ≤ a.journal.nextSequence ∧
        a.journal.nextSequence ≤ l.journal.nextSequence ∧ ∃ es, Since before events l es
    apply leads_bind (q := fun _ => Numbered)
    · apply updateJournal_leads
      rintro l ⟨⟨h, hnext, es, hes⟩, rfl⟩
      have hlimit := h.limit
      have hle : a.journal.nextSequence ≤ min (a.journal.nextSequence + 1) u64Max :=
        le_min (Nat.le_succ _) hlimit
      refine ⟨fun e he => ⟨h.ordered, ?_, ?_, ?_, Nat.min_le_right _ _, h.positive⟩, hnext, hle, es,
        hes.written, hes.events, hes.later⟩
      · intro hb w hw
        rw [he]
        exact h.fresh hb w hw
      · rw [he]
        exact hle
      · intro hlt
        rw [he] at hlt ⊢
        exact lt_min (Nat.lt_succ_self _) hlt
    intro _
    apply leads_bind get_leads
    intro b l hl
    obtain ⟨⟨hready, hfrom, hle, es, hes⟩, -⟩ := hl
    refine ends_bind (append_leads _ (before.disk.written ++ es) a.journal.nextSequence l
      ⟨hready _ rfl, hes.written, hle⟩) ?_
    intro _ t ht
    obtain ⟨h, hwritten, hnext⟩ := ht
    refine ⟨⟨h.ordered, h.fresh, h.limit, h.positive⟩, Nat.le_trans hfrom hnext, _,
      hwritten.trans (List.append_assoc _ _ _), ?_, ?_⟩
    · rw [List.map_append, ← hes.events]
      rfl
    · intro e he
      obtain he | he := List.mem_append.mp he
      · exact hes.later e he
      · obtain rfl := List.mem_singleton.mp he
        exact hfrom

/-- What recording the changes of some services does. -/
structure Noted (before : Log) (events : List Str) (l : Log) : Prop where
  recorded : Recorded l
  next : before.journal.nextSequence ≤ l.journal.nextSequence
  since : ∃ es, Since before events l es
  bound : Bounded l.disk.written → (linesOf l.disk).length ≤ l.journal.maxEvents

theorem observe_leads {before : Log} (hb : Recorded before) (snapshots : List Observed) :
    Ends (Noted before) (fun _ => Recorded) (observe snapshots before) := by
  have hstart : Observing before [] before :=
    ⟨hb, Nat.le_refl _, [], (List.append_nil _).symm, rfl, by simp⟩
  refine ends_bind (leads_foldlM (observeOne_leads before) snapshots [] before hstart) ?_
  intro events l hl
  obtain ⟨h, hnext, es, hes⟩ := hl
  have hcompact : Ends (fun _ => Compacted l) (fun _ => Like l) (compactIfNeeded l) :=
    compactIfNeeded_leads l l ⟨rfl, rfl, rfl, rfl⟩
  refine ends_bind (ends_mono (fun _ _ ht => ht) (fun _ t ht => ht.recorded h) hcompact) ?_
  intro _ t ht
  obtain ⟨hrecorded, hbound⟩ := ht.recorded h
  exact ⟨hrecorded, ht.next ▸ hnext, ⟨es, ht.written.trans hes.written, hes.events, hes.later⟩, hbound⟩

theorem foldl_higher {es : List Change} (hb : Bounded es) (next : Nat) :
    next ≤ (es.map eventLine).foldl higher next ∧
      ∀ e ∈ es, e.sequence < (es.map eventLine).foldl higher next := by
  induction es generalizing next with
  | nil => exact ⟨Nat.le_refl _, fun e he => by cases he⟩
  | cons e es ih =>
    obtain ⟨he, hes⟩ := List.forall_mem_cons.mp hb
    have hle : e.sequence ≤ ulongMax := Nat.le_of_lt he
    have hnext : higher next (eventLine e) = max next (e.sequence + 1) := by
      rw [higher, eventSequence_eventLine hle]
      exact congrArg (max next) (Nat.min_eq_left he)
    obtain ⟨hge, hall⟩ := ih hes (max next (e.sequence + 1))
    rw [List.map_cons, List.foldl_cons, hnext]
    refine ⟨Nat.le_trans (Nat.le_max_left _ _) hge, List.forall_mem_cons.mpr ⟨?_, hall⟩⟩
    exact Nat.lt_of_lt_of_le (Nat.lt_succ_self _) (Nat.le_trans (Nat.le_max_right _ _) hge)

theorem foldl_higher_le (lines : List Str) {next : Nat} (h : next ≤ u64Max) :
    lines.foldl higher next ≤ u64Max := by
  induction lines generalizing next with
  | nil => exact h
  | cons line lines ih =>
    apply ih
    unfold higher
    split
    · exact max_le h (Nat.min_le_right _ _)
    · exact h

theorem Ordered.below_next {d : Disk} (h : Ordered d.events d.written) (hb : Bounded d.written) :
    ∀ e ∈ d.written, e.sequence < nextAfter (linesOf d) := by
  obtain ⟨hascending, kept, hkept⟩ := h
  obtain ⟨front, hfront⟩ := hkept.isLast
  have hbounded : Bounded kept := fun e he => hb e (hkept.isLast.subset he)
  have hall := (foldl_higher hbounded 0).2
  intro e he
  rw [nextAfter, hkept.lines]
  rw [← hfront] at he
  obtain hbefore | hin := List.mem_append.mp he
  · obtain ⟨last, rest, rfl⟩ := List.exists_cons_of_ne_nil
      (hkept.nonempty (List.ne_nil_of_mem (hfront ▸ List.mem_append_left kept hbefore)))
    rw [← hfront] at hascending
    have hlt := (List.pairwise_append.mp hascending).2.2 e hbefore last List.mem_cons_self
    exact Nat.lt_trans hlt (hall last List.mem_cons_self)
  · exact hall e hin

theorem maxEventsOf_pos (setting : Option Str) : 1 ≤ maxEventsOf setting := by
  unfold maxEventsOf
  cases setting.bind parseU64 with
  | none => decide
  | some n => exact Nat.le_max_left _ _

theorem readLog_leads : Leads
    (fun l => (Bounded l.disk.written → Ordered l.disk.events l.disk.written) ∧
      1 ≤ l.journal.maxEvents) readLog (fun _ => Recorded)
    (fun l => Bounded l.disk.written → Ordered l.disk.events l.disk.written) := by
  apply leads_bind (orThrow_leads (fun l n h => h) (fun l h => h.1) _)
  intro _
  apply leads_bind (readEvents_leads (fun l n h => h) (fun l h => h.1) _)
  intro contents
  apply leads_bind (q := fun _ => Recorded)
  · apply updateJournal_leads
    rintro l ⟨⟨hordered, hpositive⟩, rfl⟩
    exact ⟨hordered, fun hb => (hordered hb).below_next hb, foldl_higher_le _ (Nat.zero_le _), hpositive⟩
  · intro _ l h
    have hcompact : Ends (fun _ => Compacted l) (fun _ => Like l) (compactIfNeeded l) :=
      compactIfNeeded_leads l l ⟨rfl, rfl, rfl, rfl⟩
    exact ends_mono (fun _ t ht => (ht.recorded h).1) (fun _ t ht => (ht.recorded h).ordered) hcompact

/-- What holds of a disk and of the journal, if there is one, after any operation. -/
structure Intact (s : Site) : Prop where
  ordered : Bounded s.disk.written → Ordered s.disk.events s.disk.written
  recorded : ∀ j ∈ s.journal, Recorded ⟨j, s.disk⟩

theorem intact_after {α : Type} {r : EStateM.Result Str Log α}
    (h : Ends (fun _ => Recorded)
      (fun _ l => Bounded l.disk.written → Ordered l.disk.events l.disk.written) r) :
    Intact (Site.after r) := by
  cases r with
  | ok a l =>
    refine ⟨h.ordered, ?_⟩
    rintro _ ⟨⟩
    exact h
  | error e l =>
    refine ⟨h, ?_⟩
    rintro _ ⟨⟩

theorem intact_run {α : Type} {s : Site} {op : Op α} (hs : Intact s)
    (hop : Leads Recorded op (fun _ => Recorded) Recorded) : Intact (s.run op) := by
  unfold Site.run
  cases hj : s.journal with
  | none => exact hs
  | some j =>
    apply intact_after
    exact ends_mono (fun _ _ h => h) (fun _ _ h => h.ordered) (hop ⟨j, s.disk⟩ (hs.recorded j hj))

theorem operate_keeps (s : Site) (operation : Operation) (h : Intact s) :
    Intact (operate s operation).1 := by
  cases operation with
  | observe snapshots =>
    apply intact_run h
    intro l hl
    exact ends_mono (fun _ _ ht => ht.recorded) (fun _ _ ht => ht)
      (observe_leads hl snapshots)
  | compact =>
    apply intact_run h
    intro l hl
    exact ends_mono (fun _ _ ht => (ht.recorded hl).1) (fun _ _ ht => ht.recorded hl)
      (compactIfNeeded_leads l l ⟨rfl, rfl, rfl, rfl⟩)
  | reopen directory pid setting =>
    apply intact_after
    exact readLog_leads _ ⟨h.ordered, maxEventsOf_pos setting⟩

theorem intact_blank (answers lookups : Nat → Answer) (clock : Nat → Nat) :
    Intact ⟨none, blank answers lookups clock⟩ := by
  refine ⟨fun _ => ⟨List.Pairwise.nil, [], List.suffix_refl _, rfl, fun h => h⟩, ?_⟩
  rintro _ ⟨⟩

theorem Kept.eventsSince {l : Log} {kept : List Change} {since : Nat} {lines : List Str}
    (h : Kept l.disk.events l.disk.written kept) (hb : Bounded l.disk.written)
    (hlines : Journal.eventsSince l since = .ok lines) :
    lines = (kept.filter (since ≤ ·.sequence)).map eventLine := by
  unfold Journal.eventsSince at hlines
  split at hlines
  · cases hlines
  · rw [h.lines, Except.ok.injEq] at hlines
    rw [← hlines, List.filter_map]
    apply congrArg (List.map eventLine)
    apply List.filter_congr
    intro e he
    have hle : e.sequence ≤ ulongMax := Nat.le_of_lt (hb e (h.isLast.subset he))
    simp [eventSequence_eventLine hle]

/-- However operations follow one another from a disk without a log, the numbers of all
events that were ever recorded go up. The log holds the last of them, in order; reading
from a number on gives those from the number on; and an observation leaves no more than
the bound. -/
theorem journal_stays_ordered (answers lookups : Nat → Answer) (clock : Nat → Nat)
    (operations : List Operation) (site : Site)
    (hsite : final operate ⟨none, blank answers lookups clock⟩ operations = site)
    (hb : Bounded site.disk.written) :
    (site.disk.written.Pairwise fun a b => a.sequence < b.sequence) ∧
    ∃ kept, kept <:+ site.disk.written ∧ linesOf site.disk = kept.map eventLine ∧
      (linesOf site.disk).map eventSequence = kept.map (some ·.sequence) ∧
      ∀ j ∈ site.journal,
        (∀ since lines, eventsSince ⟨j, site.disk⟩ since = .ok lines →
          lines = (kept.filter (since ≤ ·.sequence)).map eventLine) ∧
        ∀ snapshots events l, observe snapshots ⟨j, site.disk⟩ = .ok events l →
          Bounded l.disk.written → (linesOf l.disk).length ≤ l.journal.maxEvents := by
  have h : Intact site := hsite ▸ final_keeps operate_keeps (intact_blank answers lookups clock) operations
  obtain ⟨hascending, kept, hkept⟩ := h.ordered hb
  refine ⟨hascending, kept, hkept.isLast, hkept.lines, ?_, fun j hj => ⟨?_, ?_⟩⟩
  · rw [hkept.lines, List.map_map]
    apply List.map_congr_left
    intro e he
    exact eventSequence_eventLine (Nat.le_of_lt (hb e (hkept.isLast.subset he)))
  · intro since lines hlines
    exact Kept.eventsSince (l := ⟨j, site.disk⟩) hkept hb hlines
  · intro snapshots events l hobserve
    have hends := observe_leads (h.recorded j hj) snapshots
    rw [hobserve] at hends
    exact hends.bound

def someService (state : ServiceState) : Observed where
  snapshot := ⟨"shell".toList, state, none, 1, 0, none⟩
  usable := show unusableName "shell".toList = false by decide

def twoDaemons : List Operation :=
  [.reopen "/var/lib/fractald".toList 1 (some "2".toList), .observe [someService .starting],
    .observe [someService .active], .reopen "/var/lib/fractald".toList 2 (some "2".toList),
    .observe [someService .active]]

theorem two_daemons_stay_ordered :
    (final operate ⟨none, blank (fun _ => .done) (fun _ => .done) (fun n => n)⟩
      twoDaemons).disk.written.Pairwise fun a b => a.sequence < b.sequence :=
  (journal_stays_ordered (fun _ => .done) (fun _ => .done) (fun n => n) twoDaemons _ rfl
    (by decide +kernel)).1

end FractalD.Daemon.Recording
