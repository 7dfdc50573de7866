import FractalD.Machine.FileRemoval
import FractalD.Tmpfiles.Executor
import FractalD.Tmpfiles.Expansion

namespace FractalD.Tmpfiles.Journal

open FractalD.Machine.CString FractalD.Machine.FileTree FractalD.Machine.PathWalk
open FractalD.Machine.FileCalls FractalD.Machine.FileRemoval FractalD.Machine.Effect
open FractalD.Platform FractalD.Tmpfiles.Globs FractalD.Tmpfiles.Rules FractalD.Tmpfiles.Executor
open FractalD.Tmpfiles.Expansion

def fresh (t : Node) : World := ⟨t, [], [], []⟩

/-- What a computation does to a tree, call by call. -/
def changes (x : Exec PUnit) (t : Node) : List Change := (final x (fresh t)).journal

/-- A node that a call takes away. -/
def Gone (c : Change) (l : Location) : Prop := c.before.lookup l ≠ none ∧ c.after.lookup l = none

/-- The tree meets one condition, and each call that has been made another. -/
def Journaled (inv : Node → Prop) (p : Change → Prop) (w : World) : Prop :=
  inv w.tree ∧ ∀ c ∈ w.journal, p c

variable {i : World → Prop} {α : Type}

theorem journaled_changes {inv : Node → Prop} {p : Change → Prop} {x : Exec PUnit} {t : Node}
    (h : Ends (fun _ => Journaled inv p) (fun _ => Journaled inv p) (x (fresh t))) :
    ∀ c ∈ changes x t, p c :=
  (ends_final h : Journaled inv p (final x (fresh t))).2

theorem journaled_fresh {inv : Node → Prop} {p : Change → Prop} {t : Node} (ht : inv t) :
    Journaled inv p (fresh t) := ⟨ht, fun _ hc => absurd hc List.not_mem_nil⟩

theorem journaled_record {inv : Node → Prop} {p : Change → Prop} {operation : Operation}
    {path : Path} {after : Node} {w : World} (hw : Journaled inv p w) (hinv : inv after)
    (hp : p ⟨operation, path, w.tree, after⟩) : Journaled inv p (record operation path after w) := by
  refine ⟨hinv, fun c hc => ?_⟩
  rcases List.mem_append.mp hc with hc | hc
  · exact hw.2 c hc
  · rw [List.mem_singleton.mp hc]
    exact hp

theorem preserves_reading (f : Node → Except Errno α) : Preserves i (reading f) := by
  intro w hw
  unfold reading
  cases f w.tree with
  | ok a => exact hw
  | error e => exact hw

theorem preserves_query (f : Node → α) : Preserves i (query f) := fun _ hw => hw

theorem query_bind {β : Type} (f : Node → α) (g : α → Exec β) (w : World) :
    (query f >>= g) w = g (f w.tree) w := rfl

theorem final_perform (operation : Operation) (p : Path) (call : Call) (w : World) :
    final (perform operation p call) w = record operation p (final call w.tree) w := by
  cases hc : call w.tree with
  | ok u t => simp only [final, perform, hc]
  | error e t => simp only [final, perform, hc]

theorem ends_of_final {σ ε : Type} {j : σ → Prop} {x : EStateM ε σ α} {s : σ} (h : j (final x s)) :
    Ends (fun _ => j) (fun _ => j) (x s) := by
  unfold final at h
  cases hx : x s with
  | ok a t =>
    rw [hx] at h
    exact h
  | error e t =>
    rw [hx] at h
    exact h

theorem ends_alone {σ ε : Type} {j : σ → Prop} {x : EStateM ε σ α} {s : σ}
    (h : Ends (fun _ => j) (fun _ => j) (x s)) :
    Ends (fun _ => j) (fun _ => j) ((x >>= fun _ => pure PUnit.unit) s) :=
  ends_bind h fun _ _ h => h

theorem preserves_perform {operation : Operation} {p : Path} {call : Call}
    (h : ∀ w, i w → i (record operation p (final call w.tree) w)) :
    Preserves i (perform operation p call) := by
  intro w hw
  apply ends_of_final
  rw [final_perform]
  exact h w hw

theorem final_ioMessage (os : Os) (x : Io α) (w : World) : final (ioMessage os x) w = final x w := by
  unfold final ioMessage EStateM.adaptExcept
  cases x w <;> rfl

theorem preserves_ioMessage {os : Os} {x : Io α} (hx : Preserves i x) :
    Preserves i (ioMessage os x) := by
  intro w hw
  apply ends_of_final
  rw [final_ioMessage]
  exact ends_final (hx w hw)

/-- What is announced does not matter to a condition on the tree and the calls. -/
def Silent (i : World → Prop) : Prop := ∀ w announced, i w → i { w with announced := announced }

theorem silent_journaled (inv : Node → Prop) (p : Change → Prop) : Silent (Journaled inv p) :=
  fun _ _ hw => hw

theorem preserves_announce (hi : Silent i) (options : Options) (operation : String) (p : Path) :
    Preserves i (announce options operation p) := by
  intro w hw
  change i (if options.dryRun = true then _ else w)
  split
  · exact hi w _ hw
  · exact hw

theorem ends_removing (hi : Silent i) {options : Options} {os : Os} {operation : String}
    {p : Path} {x : Io PUnit} {w : World} (hw : i w)
    (hx : options.dryRun = false → Ends (fun _ => i) (fun _ => i) (x w)) :
    Ends (fun _ => i) (fun _ => i) (removing options os operation p x w) := by
  cases hdry : options.dryRun with
  | true =>
    apply ends_bind (preserves_announce hi options operation p w hw)
    intro _ w' hw'
    rw [hdry]
    exact hw'
  | false =>
    have hr : removing options os operation p x w = ioMessage os x w := by
      simp only [removing, announce, hdry, Bool.false_eq_true, if_false]
      rfl
    rw [hr]
    apply ends_of_final
    rw [final_ioMessage]
    exact ends_final (hx hdry)

/-- What one removal does to the tree: it takes a leaf, or it is a recursive one of a
directory. -/
def Removes (os : Os) (recursive : Bool) (p : Path) (t after : Node) : Prop :=
  TakesLeaf os.cwd p t after ∨
  recursive = true ∧ after = final (removeDirAll os.cwd (os.stamp p) p) t ∧
    ∃ n, lstat os.cwd p t = .ok n ∧ n.isDir

theorem final_removeOne (os : Os) (recursive : Bool) (p : Path) (w : World) :
    final (removeOne os recursive p) w = w ∨
    ∃ operation after, final (removeOne os recursive p) w = record operation p after w ∧
      Removes os recursive p w.tree after := by
  cases hl : lstat os.cwd p w.tree with
  | error e =>
    refine .inl ?_
    by_cases he : e = eNoEnt <;> simp [final, removeOne, hl, he]
  | ok n =>
    refine .inr ?_
    by_cases hdir : n.isDir
    · cases recursive with
      | true =>
        have hr : removeOne os true p w =
            perform .removeDirAll p (removeDirAll os.cwd (os.stamp p) p) w := by
          simp [removeOne, hl, hdir]
        refine ⟨.removeDirAll, _, ?_, .inr ⟨rfl, rfl, n, hl, hdir⟩⟩
        rw [final, hr]
        exact final_perform _ _ _ w
      | false =>
        have hr : removeOne os false p w =
            perform .removeDir p (removeDir os.cwd (os.stamp p) p) w := by
          simp [removeOne, hl, hdir]
        refine ⟨.removeDir, _, ?_, .inl (removeDir_takesLeaf os.cwd (os.stamp p) p w.tree)⟩
        rw [final, hr]
        exact final_perform _ _ _ w
    · have hr : removeOne os recursive p w =
          perform .removeFile p (removeFile os.cwd (os.stamp p) p) w := by
        simp [removeOne, hl, hdir]
      refine ⟨.removeFile, _, ?_, .inl (removeFile_takesLeaf os.cwd (os.stamp p) p w.tree)⟩
      rw [final, hr]
      exact final_perform _ _ _ w

theorem preserves_removeOne {os : Os} {recursive : Bool} {p : Path}
    (h : ∀ w operation after, i w → Removes os recursive p w.tree after →
      i (record operation p after w)) : Preserves i (removeOne os recursive p) := by
  intro w hw
  apply ends_of_final
  rcases final_removeOne os recursive p w with hf | ⟨operation, after, hf, hr⟩
  · rw [hf]
    exact hw
  · rw [hf]
    exact h w operation after hw hr

/-- The paths that `remove_matches` removes. -/
def removalPaths (os : Os) (p : Path) (t : Node) : Except Errno (List Path) :=
  if hasWildcard p then expandGlob os.cwd os.arrange t p else .ok [p]

theorem removalPaths_matched {os : Os} {p : Path} {t : Node} {ms : List Path}
    (h : removalPaths os p t = .ok ms) :
    ∀ m ∈ ms, Matched p m := by
  unfold removalPaths at h
  split at h
  · exact expandGlob_matched h
  · cases h
    intro m hm
    rw [List.mem_singleton.mp hm]
    exact matched_refl p

theorem removeMatches_eq (os : Os) (p : Path) (recursive : Bool) :
    removeMatches os p recursive =
      reading (removalPaths os p) >>= fun paths => paths.forM (removeOne os recursive) := by
  unfold removeMatches removalPaths
  by_cases hw : hasWildcard p
  · simp only [hw, if_true]
  · simp only [hw, Bool.false_eq_true, if_false]
    funext w
    change _ = ((removeOne os recursive p >>= fun _ => pure ⟨⟩) : Io PUnit) w
    rw [bind_pure]

theorem ends_removeMatches {os : Os} {p : Path} {recursive : Bool} {w : World} (hw : i w)
    (h : ∀ paths, removalPaths os p w.tree = .ok paths → ∀ m ∈ paths,
      Preserves i (removeOne os recursive m)) :
    Ends (fun _ => i) (fun _ => i) (removeMatches os p recursive w) := by
  rw [removeMatches_eq]
  cases hp : removalPaths os p w.tree with
  | error e =>
    have hr : reading (removalPaths os p) w = .error e w := by simp [reading, hp]
    rw [bind_of_error hr]
    exact hw
  | ok paths =>
    have hr : reading (removalPaths os p) w = .ok paths w := by simp [reading, hp]
    rw [bind_of_ok hr]
    exact ends_forM (fun m hm s => h paths hp m hm s) hw

/-- What a recursive removal of a node makes of the tree. -/
def removed (os : Os) (p : Path) (n : Node) (t : Node) : Node :=
  if n.isDir then final (removeDirAll os.cwd (os.stamp p) p) t
  else final (removeFile os.cwd (os.stamp p) p) t

/-- A computation that is begun by recording a call has recorded it in the end. -/
def Records (c : Change) (r : EStateM.Result Errno World PUnit) : Prop :=
  Ends (fun _ w => c ∈ w.journal) (fun _ w => c ∈ w.journal) r

theorem mem_changes {c : Change} {x : Exec PUnit} {t : Node}
    (h : Ends (fun _ w => c ∈ w.journal) (fun _ w => c ∈ w.journal) (x (fresh t))) :
    c ∈ changes x t := (ends_final h : c ∈ (final x (fresh t)).journal)

theorem records_perform (operation : Operation) (p : Path) (call : Call) (w : World) :
    Records ⟨operation, p, w.tree, final call w.tree⟩ (perform operation p call w) := by
  apply ends_of_final
  rw [final_perform]
  exact List.mem_append_right _ (List.mem_singleton_self _)

theorem records_removeFile {os : Os} {p : Path} {w : World} {n : Node} {recursive : Bool}
    (hn : lstat os.cwd p w.tree = .ok n) (hdir : n.isDir = false) :
    Records ⟨.removeFile, p, w.tree, final (removeFile os.cwd (os.stamp p) p) w.tree⟩
      (removeOne os recursive p w) := by
  have hr : removeOne os recursive p w =
      perform .removeFile p (removeFile os.cwd (os.stamp p) p) w := by simp [removeOne, hn, hdir]
  rw [hr]
  exact records_perform _ _ _ _

theorem records_removeOne {os : Os} {p : Path} {w : World} {n : Node}
    (hn : lstat os.cwd p w.tree = .ok n) :
    ∃ operation, Records ⟨operation, p, w.tree, removed os p n w.tree⟩ (removeOne os true p w) := by
  unfold removed
  cases hdir : n.isDir with
  | true =>
    have hr : removeOne os true p w =
        perform .removeDirAll p (removeDirAll os.cwd (os.stamp p) p) w := by
      simp [removeOne, hn, hdir]
    rw [hr]
    exact ⟨_, records_perform _ _ _ _⟩
  | false => exact ⟨_, records_removeFile hn hdir⟩

theorem keeps_removeOne (c : Change) (os : Os) (recursive : Bool) (p : Path) :
    Preserves (fun w => c ∈ w.journal) (removeOne os recursive p) :=
  preserves_removeOne fun _ _ _ hc _ => List.mem_append_left _ hc

theorem records_removeMatches {os : Os} {p m : Path} {rest : List Path} {w : World}
    {recursive : Bool} {c : Change} (hp : removalPaths os p w.tree = .ok (m :: rest))
    (h : Records c (removeOne os recursive m w)) : Records c (removeMatches os p recursive w) := by
  have hr : reading (removalPaths os p) w = .ok (m :: rest) w := by simp [reading, hp]
  rw [removeMatches_eq, Records, bind_of_ok hr]
  exact ends_bind h fun _ w' hw' => preserves_forM (keeps_removeOne _ os recursive) rest w' hw'

theorem records_removing {options : Options} {os : Os} {operation : String} {p : Path}
    {x : Io PUnit} {w : World} {c : Change} (hdry : options.dryRun = false) (h : Records c (x w)) :
    Ends (fun _ w => c ∈ w.journal) (fun _ w => c ∈ w.journal)
      (removing options os operation p x w) := by
  have hr : removing options os operation p x w = ioMessage os x w := by
    simp only [removing, announce, hdry, Bool.false_eq_true, if_false]
    rfl
  rw [hr]
  apply ends_of_final
  rw [final_ioMessage]
  exact ends_final h

theorem readDir_ok {os : Os} {p : Path} {t : Node} {entries : List Name} :
    readDir os.cwd p t = .ok entries ↔
      ∃ a es, stat os.cwd p t = .ok (.dir a es) ∧ es.map Prod.fst = entries := by
  unfold readDir
  cases stat os.cwd p t with
  | error e => simp
  | ok n => cases n <;> simp [Node.isDir, Node.entries]

theorem clean_dir {options : Options} {os : Os} {rule : Rule} {p : Path} {age : Nat} {w : World}
    {entries : List Name} (hage : rule.age = some age)
    (hr : readDir os.cwd p w.tree = .ok entries) :
    clean options os rule p w =
      (os.arrange.order p entries).forM (fun c => cleanOne options os age (p.child c)) w := by
  obtain ⟨a, es, hs, -⟩ := readDir_ok.mp hr
  have hdir : pathIsDir os.cwd p w.tree = true := by simp [pathIsDir, hs, Node.isDir]
  have hread : ioMessage os (reading (readDir os.cwd p)) w = .ok entries w := by
    simp [ioMessage, EStateM.adaptExcept, reading, hr]
  unfold clean
  rw [hage]
  dsimp only
  rw [query_bind, if_pos hdir, bind_of_ok hread]

theorem clean_other {options : Options} {os : Os} {rule : Rule} {p : Path} {age : Nat} {w : World}
    (hage : rule.age = some age) (hdir : pathIsDir os.cwd p w.tree = false) :
    clean options os rule p w = cleanOne options os age p w := by
  unfold clean
  rw [hage]
  dsimp only
  rw [query_bind, hdir]
  rfl

theorem cleanOne_old {options : Options} {os : Os} {p : Path} {age : Nat} {w : World}
    (h : olderThan os p age w.tree = true) :
    cleanOne options os age p w = removing options os "clean" p (removeOne os true p) w := by
  unfold cleanOne
  rw [query_bind, if_pos h]

theorem keeps_cleanOne (c : Change) (options : Options) (os : Os) (age : Nat) (p : Path) :
    Preserves (fun w => c ∈ w.journal) (cleanOne options os age p) := by
  apply preserves_bind (preserves_query _)
  intro old
  refine preserves_ite (fun _ w hw => ?_) fun _ => preserves_pure _
  exact ends_removing (fun _ _ hc => hc) hw fun _ => keeps_removeOne c os true p w hw

/-- An old entry that the directory lists first is removed from the tree as it stands. -/
theorem mem_changes_clean (os : Os) {options : Options} {rule : Rule} {p : Path} {age : Nat}
    {t : Node} {entries rest : List Name} {c : Name} {n : Node} (hdry : options.dryRun = false)
    (hage : rule.age = some age) (hr : readDir os.cwd p t = .ok entries)
    (horder : os.arrange.order p entries = c :: rest)
    (hold : olderThan os (p.child c) age t = true) (hn : lstat os.cwd (p.child c) t = .ok n) :
    ∃ operation, (⟨operation, p.child c, t, removed os (p.child c) n t⟩ : Change) ∈
      changes (clean options os rule p) t := by
  obtain ⟨operation, h⟩ := records_removeOne (w := fresh t) hn
  refine ⟨operation, mem_changes ?_⟩
  rw [clean_dir (w := fresh t) hage hr, horder]
  refine ends_bind ?_ fun _ w hw =>
    preserves_forM (fun c => keeps_cleanOne _ options os age (p.child c)) rest w hw
  change Ends _ _ (cleanOne options os age (p.child c) (fresh t))
  rw [cleanOne_old (w := fresh t) hold]
  exact records_removing hdry h

end FractalD.Tmpfiles.Journal
