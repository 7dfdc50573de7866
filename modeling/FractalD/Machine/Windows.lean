import Mathlib.Data.List.NodupEquivFin
import Mathlib.Data.List.TakeWhile

namespace FractalD.Machine.Windows

section

variable {n d b t : Nat} {l : List Nat}

/-- Each time and the n-th one after it are a distance apart. -/
def Spaced (n d : Nat) (l : List Nat) : Prop :=
  ∀ i a b, l[i]? = some a → l[i + n]? = some b → a + d ≤ b

theorem spaced_nil : Spaced n d [] := fun _ _ _ h => nomatch h

/-- A time can be added if it is far enough from the n-th one before it. -/
theorem spaced_concat (hn : 0 < n) (h : Spaced n d l)
    (hb : ∀ i a, i + n = l.length → l[i]? = some a → a + d ≤ b) : Spaced n d (l ++ [b]) := by
  intro i x y hx hy
  have hlt : i + n < (l ++ [b]).length := (List.getElem?_eq_some_iff.mp hy).1
  rw [List.length_append, List.length_singleton] at hlt
  have hi : i < l.length := by omega
  rw [List.getElem?_append_left hi] at hx
  by_cases hin : i + n < l.length
  · rw [List.getElem?_append_left hin] at hy
    exact h i x y hx hy
  · have hlast : i + n = l.length := by omega
    rw [hlast, List.getElem?_concat_length] at hy
    cases hy
    exact hb i x hlast hx

theorem length_window (hl : l.Pairwise (· ≤ ·)) (h : Spaced n d l) (t : Nat) :
    (l.filter fun a => t ≤ a ∧ a < t + d).length ≤ n := by
  by_contra hmore
  obtain ⟨f, hf⟩ := List.sublist_iff_exists_orderEmbedding_getElem?_eq.mp
    (List.filter_sublist (l := l) (p := fun a => t ≤ a ∧ a < t + d))
  generalize hw : (l.filter fun a => t ≤ a ∧ a < t + d) = w at hmore hf
  have hin : ∀ a ∈ w, t ≤ a ∧ a < t + d := by
    intro a ha
    rw [← hw] at ha
    exact of_decide_eq_true (List.mem_filter.mp ha).2
  have hn : n < w.length := Nat.not_le.mp hmore
  have h0 : 0 < w.length := Nat.lt_of_le_of_lt (Nat.zero_le n) hn
  obtain ⟨hz, hzl⟩ := List.getElem?_eq_some_iff.mp
    ((hf n).symm.trans (List.getElem?_eq_getElem hn))
  have hle : f 0 + n ≤ f n := by
    have := f.strictMono.add_le_nat n 0
    rwa [Nat.add_zero, Nat.add_comm] at this
  have hy : f 0 + n < l.length := Nat.lt_of_le_of_lt hle hz
  have hspace := h (f 0) _ _ ((hf 0).symm.trans (List.getElem?_eq_getElem h0))
    (List.getElem?_eq_getElem hy)
  have hlast : l[f 0 + n] ≤ w[n] := by
    rw [← hzl]
    obtain heq | hlt := Nat.eq_or_lt_of_le hle
    · simp only [heq, le_refl]
    · exact List.pairwise_iff_getElem.mp hl _ _ hy hz hlt
  have hfirst := (hin _ (List.getElem_mem h0)).1
  have hend := (hin _ (List.getElem_mem hn)).2
  omega

end

/-- Accept a time unless there are n of those that were accepted less than a distance before. -/
def offer (n d : Nat) (queue : List Nat) (now : Nat) : List Nat × Bool :=
  let kept := queue.dropWhile fun a => d ≤ now - a
  if n ≤ kept.length then (kept, false) else (kept ++ [now], true)

/-- The times that were accepted. -/
def admitted (log : List (Nat × Bool)) : List Nat := (log.filter (·.2)).map (·.1)

/-- What a limiter has accepted and rejected, and the times that it has kept. -/
structure Limits (n d : Nat) (log : List (Nat × Bool)) (queue : List Nat) : Prop where
  ordered : (log.map (·.1)).Pairwise (· ≤ ·)
  kept : ∃ expired, admitted log = expired ++ queue ∧ ∀ a ∈ expired, ∃ c ∈ log, a + d ≤ c.1
  bound : queue.length ≤ n
  spaced : Spaced n d (admitted log)
  rejected : ∀ before now after, log = before ++ (now, false) :: after →
    n ≤ ((admitted before).filter fun a => now < a + d).length

section

variable {n d now : Nat} {log : List (Nat × Bool)} {queue : List Nat}

theorem limits_nil : Limits n d [] [] where
  ordered := .nil
  kept := ⟨[], rfl, fun _ h => absurd h List.not_mem_nil⟩
  bound := Nat.zero_le n
  spaced := spaced_nil
  rejected before now after h := by simp at h

theorem admitted_concat (log : List (Nat × Bool)) (now : Nat) (accepted : Bool) :
    admitted (log ++ [(now, accepted)]) = admitted log ++ if accepted then [now] else [] := by
  cases accepted <;> simp [admitted]

theorem Limits.sorted (h : Limits n d log queue) : (admitted log).Pairwise (· ≤ ·) :=
  h.ordered.sublist (List.filter_sublist.map _)

theorem Limits.queue_sorted (h : Limits n d log queue) : queue.Pairwise (· ≤ ·) := by
  obtain ⟨expired, hsplit, -⟩ := h.kept
  have hsorted := h.sorted
  rw [hsplit] at hsorted
  exact (List.pairwise_append.mp hsorted).2.1

theorem le_of_mem_admitted {a : Nat} (hnow : ∀ c ∈ log, c.1 ≤ now) (ha : a ∈ admitted log) :
    a ≤ now := by
  obtain ⟨c, hc, rfl⟩ := List.mem_map.mp ha
  exact hnow c (List.mem_filter.mp hc).1

theorem Limits.rejected_concat (h : Limits n d log queue) {accepted : Bool}
    (hlast : accepted = false → n ≤ ((admitted log).filter fun a => now < a + d).length) :
    ∀ before time after, log ++ [(now, accepted)] = before ++ (time, false) :: after →
      n ≤ ((admitted before).filter fun a => time < a + d).length := by
  intro before time after heq
  obtain rfl | ⟨after, c, rfl⟩ := List.eq_nil_or_concat after
  · obtain ⟨rfl, hc⟩ := List.append_inj' heq rfl
    cases hc
    exact hlast rfl
  · rw [List.concat_eq_append, ← List.cons_append, ← List.append_assoc] at heq
    exact h.rejected before time after (List.append_inj' heq rfl).1

/-- In order, all that is kept lies within the distance. -/
theorem recent_of_kept (hq : queue.Pairwise (· ≤ ·)) :
    ∀ a ∈ queue.dropWhile fun a => d ≤ now - a, now < a + d := by
  have hsorted := hq.sublist (List.dropWhile_sublist fun a => decide (d ≤ now - a))
  intro a ha
  cases hk : queue.dropWhile fun a => decide (d ≤ now - a) with
  | nil =>
    rw [hk] at ha
    exact absurd ha List.not_mem_nil
  | cons x kept =>
    have hx : ¬ d ≤ now - x := by
      have hhead := List.head?_dropWhile_not (fun a => decide (d ≤ now - a)) queue
      rw [hk] at hhead
      simpa using hhead
    rw [hk] at ha hsorted
    obtain rfl | ha := List.mem_cons.mp ha
    · omega
    · have hle := (List.pairwise_cons.mp hsorted).1 a ha
      omega

theorem Limits.offer (h : Limits n d log queue) (hn : 0 < n) (hnow : ∀ c ∈ log, c.1 ≤ now) :
    Limits n d (log ++ [(now, (Windows.offer n d queue now).2)]) (Windows.offer n d queue now).1 := by
  obtain ⟨expired, hsplit, hexpired⟩ := h.kept
  let kept := queue.dropWhile fun a => d ≤ now - a
  let dropped := queue.takeWhile fun a => d ≤ now - a
  have hqueue : queue = dropped ++ kept := (List.takeWhile_append_dropWhile).symm
  have hsplit' : admitted log = (expired ++ dropped) ++ kept := by
    rw [hsplit, hqueue, List.append_assoc]
  have hgone : ∀ a ∈ expired ++ dropped, a + d ≤ now := by
    intro a ha
    obtain ha | ha := List.mem_append.mp ha
    · obtain ⟨c, hc, hac⟩ := hexpired a ha
      exact hac.trans (hnow c hc)
    · have hmem : a ∈ admitted log := by
        rw [hsplit', List.append_assoc]
        exact List.mem_append_right _ (List.mem_append_left _ ha)
      have hle := le_of_mem_admitted hnow hmem
      have hold : decide (d ≤ now - a) = true :=
        List.mem_takeWhile_imp (p := fun a => decide (d ≤ now - a)) ha
      rw [decide_eq_true_eq] at hold
      omega
  have hordered : ∀ accepted : Bool,
      ((log ++ [(now, accepted)]).map (·.1)).Pairwise (· ≤ ·) := by
    intro accepted
    rw [List.map_append, List.pairwise_append]
    refine ⟨h.ordered, List.pairwise_singleton _ _, fun a ha b hb => ?_⟩
    obtain ⟨c, hc, rfl⟩ := List.mem_map.mp ha
    cases List.mem_singleton.mp hb
    exact hnow c hc
  have hlate : ∀ accepted : Bool, ∀ a ∈ expired ++ dropped,
      ∃ c ∈ log ++ [(now, accepted)], a + d ≤ c.1 :=
    fun accepted a ha => ⟨(now, accepted), by simp, hgone a ha⟩
  by_cases hfull : n ≤ kept.length
  · have hoffer : Windows.offer n d queue now = (kept, false) := if_pos hfull
    rw [hoffer]
    refine ⟨hordered false, ⟨expired ++ dropped, ?_, hlate false⟩, ?_, ?_, ?_⟩
    · rw [admitted_concat]
      simpa using hsplit'
    · exact (List.dropWhile_sublist _).length_le.trans h.bound
    · rw [admitted_concat]
      simpa using h.spaced
    · refine h.rejected_concat fun _ => ?_
      have hrecent : kept.filter (fun a => now < a + d) = kept :=
        List.filter_eq_self.mpr fun a ha => decide_eq_true (recent_of_kept h.queue_sorted a ha)
      rw [hsplit', List.filter_append, List.length_append, hrecent]
      omega
  · have hoffer : Windows.offer n d queue now = (kept ++ [now], true) := if_neg hfull
    rw [hoffer]
    refine ⟨hordered true, ⟨expired ++ dropped, ?_, hlate true⟩, ?_, ?_, ?_⟩
    · rw [admitted_concat, hsplit', if_pos rfl, List.append_assoc]
    · rw [List.length_append, List.length_singleton]
      omega
    · rw [admitted_concat, if_pos rfl]
      refine spaced_concat hn h.spaced fun i a hi ha => hgone a ?_
      rw [hsplit', List.length_append] at hi
      rw [hsplit', List.getElem?_append_left (by omega)] at ha
      exact List.mem_of_getElem? ha
    · exact h.rejected_concat fun hfalse => nomatch hfalse

end

end FractalD.Machine.Windows
