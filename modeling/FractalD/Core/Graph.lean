import FractalD.Core.Spec

namespace FractalD.Core.Graph

open FractalD.Core.Spec FractalD.Machine.CString FractalD.Machine.OrderedMap
open FractalD.Machine.Text

/-- The services by name, and the directories that their mount paths refer to. -/
structure DependencyGraph where
  services : BTreeMap Str ServiceSpec
  directories : Directories

/-- The errors of the planner. `panicked` is an `expect` or a subtraction that
does not hold. -/
inductive GraphError
  | duplicateService (name : Str)
  | emptyRoot
  | missingRoot (name : Str)
  | missingRequired (service dependency : Str)
  | cycle (names : List Str)
  | panicked
  deriving DecidableEq, Repr

/-- The text of an error, given how strings are quoted. -/
def GraphError.display (debug : Str → Str) : GraphError → Str
  | .duplicateService name => "DuplicateService(".toList ++ debug name ++ ")".toList
  | .emptyRoot => "EmptyRoot".toList
  | .missingRoot name => "MissingRoot(".toList ++ debug name ++ ")".toList
  | .missingRequired service dependency =>
    "MissingRequired \x7b service: ".toList ++ debug service ++ ", dependency: ".toList ++
      debug dependency ++ " \x7d".toList
  | .cycle names =>
    "Cycle([".toList ++ join ", ".toList (names.map debug) ++ "])".toList
  | .panicked => []

def normalizeAbsolutePath (path : Str) : Option (List Str) :=
  match path with
  | '/' :: _ =>
    some <| (path.splitOnP (· = '/')).foldl
      (fun components part =>
        if part = [] ∨ part = ['.'] then components
        else if part = ['.', '.'] then components.dropLast
        else components ++ [part]) []
  | _ => none

/-- The dependents of each service, and for each how many it has to wait for. -/
structure OrderingGraph where
  edges : BTreeMap Str (BTreeSet Str)
  indegree : BTreeMap Str Nat

def addEdge (g : OrderingGraph) (before after : Str) : OrderingGraph :=
  match g.edges.get before with
  | none => g
  | some dependents =>
    if dependents.contains after then g
    else
      ⟨g.edges.insert before (dependents.add after),
        g.indegree.insert after ((g.indegree.get after).getD 0 + 1)⟩

namespace DependencyGraph

section

variable (g : DependencyGraph)

def add (spec : ServiceSpec) : Except GraphError DependencyGraph :=
  if g.services.contains spec.name then .error (.duplicateService spec.name)
  else .ok { g with services := g.services.insert spec.name spec }

def mountsOf (name : Str) (requested : List (List Str)) : List Str :=
  (g.services.filterKeys fun mountName mount =>
    mountName ≠ name && mount.serviceType = .mount &&
      (mount.mountWhere.bind normalizeAbsolutePath).any fun point =>
        requested.any (point.isPrefixOf ·)).keys

def expandedMounts (service : ServiceSpec) (paths : List Str) : List (List Str) :=
  (paths.map (expandMountPath g.directories service.name)).filterMap normalizeAbsolutePath

def mountDependencies (name : Str) : List Str :=
  match g.services.get name with
  | none => []
  | some service =>
    let own :=
      if service.serviceType = .mount then service.mountWhere.bind normalizeAbsolutePath else none
    g.mountsOf name (g.expandedMounts service service.requiresMountsFor ++ own.toList)

def wantedMountDependencies (name : Str) : List Str :=
  match g.services.get name with
  | none => []
  | some service => g.mountsOf name (g.expandedMounts service service.wantsMountsFor)

def named (name : Str) (list : DependencySet → List Str) : List Str :=
  match g.services.get name with
  | none => []
  | some service => list service.dependencies

def requiredDependencies (name : Str) : BTreeSet Str :=
  ofList (g.named name (·.requires) ++ g.named name (·.bindsTo) ++ g.mountDependencies name)

def wantedDependencies (name : Str) : BTreeSet Str :=
  ofList (g.named name (·.wants) ++ g.wantedMountDependencies name)

def conflictDependencies (name : Str) : BTreeSet Str := ofList (g.named name (·.conflicts))

/-- The services that a service pulls in when it is started. -/
def pulls (name : Str) : List Str :=
  (g.requiredDependencies name).keys ++
    (ofList (g.named name (·.wants))).keys.filter (g.services.contains ·) ++
    g.wantedMountDependencies name

def firstMissing (name : Str) : Option Str :=
  (g.requiredDependencies name).keys.find? fun dependency => !g.services.contains dependency

/-- Visit what is pending, and all that it leads to. No service is expanded
twice, so that the given number of steps is never used up. -/
def closure (next : Str → List Str) :
    Nat → List Str → BTreeSet Str → Except GraphError (BTreeSet Str)
  | 0, _, selected => .ok selected
  | _ + 1, [], selected => .ok selected
  | fuel + 1, name :: pending, selected =>
    if selected.contains name then closure next fuel pending selected
    else
      match g.firstMissing name with
      | some dependency => .error (.missingRequired name dependency)
      | none => closure next fuel (pending ++ next name) (selected.add name)

/-- One step for the root, and one for each service that is pulled in. -/
def closureSteps (next : Str → List Str) : Nat :=
  (g.services.keys.map fun name => (next name).length).sum + 2

def closureOf (next : Str → List Str) (root : Str) : Except GraphError (BTreeSet Str) :=
  if root = [] then .error .emptyRoot
  else if !g.services.contains root then .error (.missingRoot root)
  else g.closure next (g.closureSteps next) [root] empty

def requiredClosure (root : Str) : Except GraphError (BTreeSet Str) :=
  g.closureOf (fun name => (g.requiredDependencies name).keys) root

def selectStartClosure (root : Str) : Except GraphError (BTreeSet Str) := g.closureOf g.pulls root

def predecessors (name : Str) : List Str :=
  (g.requiredDependencies name).keys ++ (g.wantedDependencies name).keys ++
    g.named name (·.after)

/-- Order a service after and before those that it refers to. -/
def addEdges (selected : BTreeSet Str) (o : OrderingGraph) (name : Str) : OrderingGraph :=
  let among (names : List Str) := names.filter (selected.contains ·)
  let o := (among (g.predecessors name)).foldl (fun o dependency => addEdge o dependency name) o
  let o := (among (g.named name (·.before))).foldl
    (fun o dependency => addEdge o name dependency) o
  (among (g.named name (·.requisite))).foldl (fun o dependency => addEdge o dependency name) o

def orderingGraph (selected : BTreeSet Str) : OrderingGraph :=
  selected.keys.foldl (g.addEdges selected)
    ⟨selected.map fun _ => empty, selected.map fun _ => 0⟩

end

/-- The services that need not wait. -/
def readyOf (indegree : BTreeMap Str Nat) : BTreeSet Str := indegree.filterKeys fun _ n => n = 0

/-- Take a name from the dependencies of its dependents, of which those without
further dependencies become ready. -/
def release (dependents : List Str) (indegree : BTreeMap Str Nat) (ready : BTreeSet Str) :
    Except GraphError (BTreeMap Str Nat × BTreeSet Str) :=
  dependents.foldlM (fun (indegree, ready) dependent =>
    match indegree.get dependent with
    | some (degree + 1) =>
      .ok (indegree.insert dependent degree, if degree = 0 then ready.add dependent else ready)
    | _ => .error .panicked) (indegree, ready)

/-- Take the first ready service until there is none. -/
def sortReady (edges : BTreeMap Str (BTreeSet Str)) :
    Nat → BTreeMap Str Nat → BTreeSet Str → List Str →
      Except GraphError (BTreeMap Str Nat × List Str)
  | 0, indegree, _, order => .ok (indegree, order)
  | steps + 1, indegree, ready, order =>
    match ready.keys with
    | [] => .ok (indegree, order)
    | name :: _ =>
      match edges.get name with
      | none => .error .panicked
      | some dependents => do
        let (indegree, ready) ← release dependents.keys indegree (ready.erase name)
        sortReady edges steps indegree ready (order ++ [name])

section

variable (g : DependencyGraph)

def topologicalOrder (selected : BTreeSet Str) : Except GraphError (List Str) := do
  let o := g.orderingGraph selected
  let (indegree, order) ←
    sortReady o.edges (selected.keys.length + 1) o.indegree (readyOf o.indegree) []
  if order.length ≠ selected.keys.length then
    throw (.cycle (selected.keys.filter fun name => indegree.get name ≠ some 0))
  pure order

def planStart (root : Str) : Except GraphError (List Str) := do
  g.topologicalOrder (← g.selectStartClosure root)

def planStop (root : Str) : Except GraphError (List Str) := do
  return (← g.planStart root).reverse

def planAllStart : Except GraphError (List Str) := g.topologicalOrder (ofList g.services.keys)

def planAllStop : Except GraphError (List Str) := do return (← g.planAllStart).reverse

end

/-- Let the last service that waits go without waiting. -/
def relax (edges : BTreeMap Str (BTreeSet Str)) (indegree : BTreeMap Str Nat) :
    Except GraphError (Str × BTreeMap Str (BTreeSet Str) × BTreeMap Str Nat) :=
  match (indegree.filterKeys fun _ n => 0 < n).keys.getLast? with
  | none => .error .panicked
  | some name => do
    let waiting := (edges.filterKeys fun _ dependents => dependents.contains name).keys
    let indegree ← waiting.foldlM (fun indegree _ =>
      match indegree.get name with
      | some (degree + 1) => .ok (indegree.insert name degree)
      | _ => .error .panicked) indegree
    pure (name, edges.map (·.erase name), indegree)

def sortRelaxing :
    Nat → BTreeMap Str (BTreeSet Str) → BTreeMap Str Nat → BTreeSet Str → List Str →
      Except GraphError (List Str)
  | 0, _, _, _, order => .ok order
  | steps + 1, edges, indegree, ready, order => do
    let (name, edges, indegree) ←
      match ready.keys with
      | name :: _ => pure (name, edges, indegree)
      | [] => relax edges indegree
    match edges.get name with
    | none => throw .panicked
    | some dependents => do
      let (indegree, ready) ← release dependents.keys indegree (ready.erase name)
      sortRelaxing steps (edges.insert name empty) indegree ready (order ++ [name])

/-- The order in which all services are stopped even if they wait for each other. -/
def planAllStopBestEffort (g : DependencyGraph) : Except GraphError (List Str) := do
  let selected := ofList g.services.keys
  let o := g.orderingGraph selected
  let order ←
    sortRelaxing selected.keys.length o.edges o.indegree (readyOf o.indegree) []
  pure order.reverse

end DependencyGraph

end FractalD.Core.Graph
