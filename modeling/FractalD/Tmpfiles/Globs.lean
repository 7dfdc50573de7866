import FractalD.Machine.Result
import FractalD.Machine.PathWalk

namespace FractalD.Tmpfiles.Globs

open FractalD.Machine.CString FractalD.Machine.FileTree FractalD.Machine.PathWalk
open FractalD.Platform

def star : UInt8 := 0x2a
def question : UInt8 := 0x3f

def bytes (s : Str) : List UInt8 := s.flatMap String.utf8EncodeChar

/-- Mark the positions that the character reaches from one that has been reached. -/
def mark (value : List UInt8) (states : List Bool) (character : UInt8) (next : List Bool)
    (index : Nat) : List Bool :=
  if states.getD index false = false then next
  else if character = star then next.mapIdx fun i state => state || decide (index ≤ i)
  else if index < value.length ∧ (character = question ∨ value[index]? = some character) then
    next.set (index + 1) true
  else next

/-- What one character of the pattern makes of the positions in the value that the
characters before it can reach. -/
def wildcardStep (value : List UInt8) (states : List Bool) (character : UInt8) : List Bool :=
  (List.range (value.length + 1)).foldl (mark value states character)
    (List.replicate (value.length + 1) false)

def wildcardMatch (pattern value : Str) : Bool :=
  let value := bytes value
  let states := (List.replicate (value.length + 1) false).set 0 true
  ((bytes pattern).foldl (wildcardStep value) states).getD value.length false

def wild (s : Str) : Bool := (bytes s).any fun b => b = star ∨ b = question

def hasWildcard (p : Path) : Bool := p.names.any fun n => wild n.text

/-- The order in which directories list their entries. -/
structure Arrangement where
  order : Path → List Name → List Name
  perm : ∀ p names, (order p names).Perm names

def Arrangement.plain : Arrangement := ⟨fun _ names => names, fun _ names => .refl names⟩

/-- What one component of the pattern makes of one of the paths found so far. -/
def expandBase (cwd : Location) (arrange : Arrangement) (t : Node) (pattern : Name) (base : Path) :
    Except Errno (List Path) :=
  if wild pattern.text then
    match readDir cwd base t with
    | .ok entries =>
      .ok (((arrange.order base entries).filter fun n => wildcardMatch pattern.text n.text).map
        base.child)
    | .error e => if e = eNoEnt then .ok [] else .error e
  else .ok [base.child pattern]

def expandStep (cwd : Location) (arrange : Arrangement) (t : Node) (current : List Path)
    (pattern : Name) : Except Errno (List Path) :=
  List.flatten <$> current.mapM (expandBase cwd arrange t pattern)

def expandGlob (cwd : Location) (arrange : Arrangement) (t : Node) (p : Path) :
    Except Errno (List Path) :=
  p.names.foldlM (expandStep cwd arrange t) [⟨true, [], false⟩]

example : wildcardMatch "*.s?".toList "demo.so".toList ∧
    ¬ wildcardMatch "?.conf".toList "é.conf".toList := by decide +kernel

end FractalD.Tmpfiles.Globs
