import FractalD.Tmpfiles.Journal

namespace FractalD.Tmpfiles.Operands

open FractalD.Machine.CString FractalD.Machine.FileTree FractalD.Machine.PathWalk
open FractalD.Machine.FileCalls FractalD.Machine.Effect
open FractalD.Platform FractalD.Tmpfiles.Globs FractalD.Tmpfiles.Rules FractalD.Tmpfiles.Executor
open FractalD.Tmpfiles.Journal

/-- All calls that have been made are of a kind, with their paths. -/
def Recorded (ok : Operation → Path → Prop) (w : World) : Prop :=
  ∀ c ∈ w.journal, ok c.operation c.path

def descend (p : Path) (ns : List Name) : Path := ns.foldl Path.child p

/-- Any call is allowed on a path and below it. -/
def Below (ok : Operation → Path → Prop) (p : Path) : Prop :=
  ∀ operation ns, ok operation (descend p ns)

/-- The directory that holds it may be made as well. -/
structure Permits (ok : Operation → Path → Prop) (p : Path) : Prop where
  below : Below ok p
  parent : ∀ q, p.parent = some q → ok .makeDirs q

section

variable {ok : Operation → Path → Prop} {options : Options} {os : Os} {rule : Rule} {p : Path}
variable {α : Type}

theorem Below.self (h : Below ok p) (operation : Operation) : ok operation p := h operation []

theorem Below.child (h : Below ok p) (c : Name) : Below ok (p.child c) :=
  fun operation ns => h operation (c :: ns)

theorem silent_recorded : Silent (Recorded ok) := fun _ _ hw => hw

theorem recorded_record {operation : Operation} {after : Node} {w : World} (hw : Recorded ok w)
    (h : ok operation p) : Recorded ok (record operation p after w) := by
  intro c hc
  rcases List.mem_append.mp hc with hc | hc
  · exact hw c hc
  · rw [List.mem_singleton.mp hc]
    exact h

theorem recorded_perform {operation : Operation} {call : Call} (h : ok operation p) :
    Preserves (Recorded ok) (perform operation p call) :=
  preserves_perform fun _ hw => recorded_record hw h

theorem recorded_call {operation : Operation} {call : Call} (h : ok operation p) :
    Preserves (Recorded ok) (ioMessage os (perform operation p call)) :=
  preserves_ioMessage (recorded_perform h)

theorem recorded_announce (operation : String) :
    Preserves (Recorded ok) (announce options operation p) :=
  preserves_announce silent_recorded options operation p

theorem recorded_chownPath {user group : Option Str} (h : Below ok p) :
    Preserves (Recorded ok) (chownPath os p user group) := by
  unfold chownPath
  refine preserves_bind (preserves_reading _) fun ids => preserves_bind (preserves_reading _) fun gid => ?_
  exact preserves_ite (fun _ => preserves_pure _) fun _ =>
    preserves_ite (fun _ => preserves_pure _) fun _ => recorded_perform (h.self _)

theorem recorded_gracefully {x : Io PUnit} (hx : Preserves (Recorded ok) x) :
    Preserves (Recorded ok) (gracefully options os x) := by
  intro w hw
  have h := hx w hw
  unfold gracefully
  cases hr : x w with
  | ok u w' =>
    rw [hr] at h
    exact h
  | error e w' =>
    rw [hr] at h
    dsimp only
    split <;> exact h

theorem recorded_applyOwner (h : Below ok p) :
    Preserves (Recorded ok) (applyOwner options os rule p) := by
  unfold applyOwner
  refine preserves_ite (fun _ => preserves_pure _) fun _ => ?_
  refine preserves_ite (fun _ => preserves_throw _) fun _ => ?_
  refine preserves_ite (fun _ => preserves_throw _) fun _ => ?_
  exact preserves_ite (fun _ => preserves_throw _) fun _ =>
    recorded_gracefully (recorded_chownPath h)

theorem recorded_applyMode (h : Below ok p) :
    Preserves (Recorded ok) (applyMode os rule p) := by
  unfold applyMode
  cases rule.mode with
  | none => exact preserves_pure _
  | some mode =>
    exact preserves_bind (preserves_ioMessage (preserves_reading _)) fun _ =>
      recorded_call (h.self _)

theorem recorded_applyMetadata {recursive : Bool} {depth : Nat} (h : Below ok p) :
    Preserves (Recorded ok) (applyMetadata options os rule recursive depth p) := by
  induction depth generalizing p recursive with
  | zero => exact preserves_ite (fun _ => preserves_pure _) fun _ => preserves_throw _
  | succ depth ih =>
    unfold applyMetadata
    refine preserves_bind (recorded_applyMode h) fun _ =>
      preserves_bind (recorded_applyOwner h) fun _ =>
      preserves_bind (preserves_query _) fun dir => ?_
    refine preserves_ite (fun _ => ?_) fun _ => preserves_pure _
    exact preserves_bind (preserves_ioMessage (preserves_reading _)) fun names =>
      preserves_forM (fun c => ih (h.child c)) _

theorem recorded_makeParent (h : Permits ok p) : Preserves (Recorded ok) (makeParent os p) := by
  unfold makeParent
  cases hp : p.parent with
  | none => exact preserves_pure _
  | some parent => exact recorded_call (h.parent parent hp)

/-- What is done, in steps, unless this is a dry run. -/
theorem recorded_announced {operation : String} {x : Exec PUnit}
    (hx : Preserves (Recorded ok) x) :
    Preserves (Recorded ok) (announce options operation p >>= fun _ =>
      if options.dryRun = true then pure PUnit.unit else x) := by
  refine preserves_bind (recorded_announce _) fun _ => ?_
  exact preserves_ite (fun _ => preserves_pure _) fun _ => hx

theorem recorded_createDirectory (h : Below ok p) :
    Preserves (Recorded ok) (createDirectory options os rule p) :=
  recorded_announced (preserves_bind (recorded_call (h.self _)) fun _ => recorded_applyMetadata h)

theorem recorded_adjustDirectory (h : Below ok p) :
    Preserves (Recorded ok) (adjustDirectory options os rule p) :=
  preserves_bind (preserves_query _) fun _ =>
    preserves_ite (fun _ => recorded_announced (recorded_applyMetadata h)) fun _ => preserves_pure _

theorem recorded_createFile (h : Permits ok p) :
    Preserves (Recorded ok) (createFile options os rule p) := by
  apply recorded_announced
  refine preserves_bind (recorded_makeParent h) fun _ => ?_
  refine preserves_bind (recorded_call (h.below.self _)) fun _ => ?_
  cases rule.argument with
  | none => exact recorded_applyMetadata h.below
  | some argument =>
    exact preserves_bind (recorded_call (h.below.self _)) fun _ => recorded_applyMetadata h.below

theorem recorded_writeFile (h : Below ok p) :
    Preserves (Recorded ok) (writeFile options os rule p) :=
  recorded_announced (preserves_bind (recorded_call (h.self _)) fun _ => recorded_call (h.self _))

theorem recorded_createFifo (h : Below ok p) :
    Preserves (Recorded ok) (createFifo options os rule p) :=
  recorded_announced (preserves_bind (recorded_call (h.self _)) fun _ => recorded_applyMetadata h)

theorem recorded_removeOne {recursive : Bool} (h : Below ok p) :
    Preserves (Recorded ok) (removeOne os recursive p) :=
  preserves_removeOne fun _ operation _ hw _ => recorded_record hw (h.self operation)

theorem recorded_createLink (h : Permits ok p) :
    Preserves (Recorded ok) (createLink options os rule p) := by
  unfold createLink
  cases rule.argument with
  | none => exact preserves_throw _
  | some target =>
    dsimp only
    apply recorded_announced
    refine preserves_bind (preserves_query _) fun _ => ?_
    have hlink : Preserves (Recorded ok) (makeParent os p >>= fun _ =>
        ioMessage os (perform .symlink p (makeLink (.parse target) os.cwd (os.stamp p) p))) :=
      preserves_bind (recorded_makeParent h) fun _ => recorded_call (h.below.self _)
    refine preserves_ite (fun _ => ?_) fun _ => hlink
    refine preserves_ite (fun _ => ?_) fun _ => preserves_pure _
    exact preserves_bind (preserves_ioMessage (recorded_removeOne h.below)) fun _ => hlink

theorem recorded_copy (h : Permits ok p) : Preserves (Recorded ok) (copy options os rule p) := by
  unfold copy
  cases rule.argument with
  | none => exact preserves_throw _
  | some source =>
    dsimp only
    cases resolvePath options (expandSpecifiers os.specifiers source) with
    | error message => exact preserves_throw message
    | ok source =>
      dsimp only
      apply recorded_announced
      refine preserves_bind (recorded_makeParent h) fun _ => ?_
      exact preserves_bind (recorded_call (h.below.self _)) fun _ => recorded_applyMetadata h.below

theorem recorded_adjustMetadata (h : Below ok p) :
    Preserves (Recorded ok) (adjustMetadata options os rule p) :=
  preserves_bind (recorded_announce _) fun _ => preserves_bind (preserves_query _) fun _ =>
    preserves_ite (fun _ => recorded_applyMetadata h) fun _ => preserves_pure _

theorem recorded_removing {operation : String} {x : Io PUnit}
    (hx : options.dryRun = false → Preserves (Recorded ok) x) :
    Preserves (Recorded ok) (removing options os operation p x) := fun w hw =>
  ends_removing silent_recorded hw fun hdry => hx hdry w hw

/-- The calls on what the pattern finds are allowed. -/
def Finds (ok : Operation → Path → Prop) (options : Options) (os : Os) (p : Path) : Prop :=
  options.dryRun = false → ∀ recursive, Preserves (Recorded ok) (removeMatches os p recursive)

theorem recorded_removeContents (h : Below ok p) :
    Preserves (Recorded ok) (removeContents os p) := by
  intro w hw
  unfold removeContents
  cases readDir os.cwd p w.tree with
  | error e =>
    dsimp only
    split <;> exact hw
  | ok entries => exact preserves_forM (fun c => recorded_removeOne (h.child c)) _ w hw

theorem recorded_cleanOne {age : Nat} (h : Below ok p) :
    Preserves (Recorded ok) (cleanOne options os age p) :=
  preserves_bind (preserves_query _) fun _ =>
    preserves_ite (fun _ => recorded_removing fun _ => recorded_removeOne h) fun _ => preserves_pure _

theorem recorded_clean (h : Below ok p) : Preserves (Recorded ok) (clean options os rule p) := by
  unfold clean
  cases rule.age with
  | none => exact preserves_pure _
  | some age =>
    refine preserves_bind (preserves_query _) fun _ => preserves_ite (fun _ => ?_) fun _ =>
      recorded_cleanOne h
    exact preserves_bind (preserves_ioMessage (preserves_reading _)) fun _ =>
      preserves_forM (fun c => recorded_cleanOne (h.child c)) _

/-- The kinds whose path is a pattern when the action is taken. -/
def globbing (rule : Rule) : Action → Prop
  | .create => rule.kind ∈ ['r', 'R']
  | .remove => rule.kind ∈ ['R', 'r']
  | .purge => rule.kind ∈ ['d', 'D', 'e', 'v', 'q', 'Q', 'f', 'F', 'L', 'p', 'C', 'w']
  | .clean | .catConfig | .tldr => False

theorem recorded_create (h : Permits ok p) (hfinds : globbing rule .create → Finds ok options os p) :
    Preserves (Recorded ok) (create options os rule p) := by
  unfold create
  refine preserves_ite (fun _ => recorded_createDirectory h.below) fun _ => ?_
  refine preserves_ite (fun _ => recorded_adjustDirectory h.below) fun _ => ?_
  refine preserves_ite (fun _ => recorded_createFile h) fun _ => ?_
  refine preserves_ite (fun _ => recorded_writeFile h.below) fun _ => ?_
  refine preserves_ite (fun _ => recorded_createFifo h.below) fun _ => ?_
  refine preserves_ite (fun _ => recorded_createLink h) fun _ => ?_
  refine preserves_ite (fun _ => recorded_copy h) fun _ => ?_
  refine preserves_ite (fun _ => recorded_adjustMetadata h.below) fun _ => ?_
  exact preserves_ite (fun hkind => recorded_removing fun hdry => hfinds hkind hdry _)
    fun _ => preserves_pure _

theorem recorded_remove (h : Below ok p) (hfinds : globbing rule .remove → Finds ok options os p) :
    Preserves (Recorded ok) (remove options os rule p) := by
  unfold remove
  refine preserves_ite (fun hkind => recorded_removing fun hdry => ?_) fun _ => preserves_pure _
  refine preserves_ite (fun _ => recorded_removeContents h) fun hD => ?_
  exact hfinds (List.mem_of_ne_of_mem hD hkind) hdry true

theorem recorded_purge (hfinds : globbing rule .purge → Finds ok options os p) :
    Preserves (Recorded ok) (purge options os rule p) :=
  preserves_ite (fun hkind => recorded_removing fun hdry => hfinds hkind hdry _)
    fun _ => preserves_pure _

/-- Every call is on a path that is allowed, if that holds of what patterns find. -/
theorem recorded_act {action : Action} (h : Permits ok p)
    (hfinds : globbing rule action → Finds ok options os p) :
    Preserves (Recorded ok) (act options os rule action p) := by
  cases action with
  | create => exact recorded_create h hfinds
  | clean => exact recorded_clean h.below
  | remove => exact recorded_remove h.below hfinds
  | purge => exact recorded_purge hfinds
  | catConfig | tldr => exact preserves_pure _

end

end FractalD.Tmpfiles.Operands
