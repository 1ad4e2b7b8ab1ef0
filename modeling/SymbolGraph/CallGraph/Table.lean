import SymbolGraph.CallGraph.Basic
import SymbolGraph.Ordered.KeySet

/-!
# The functions a name can mean

A `NodeTable` holds the functions of a project, the import bindings of each file and the names that
files pass on from elsewhere. It answers which function a name in a file stands for.
-/
namespace SymbolGraph

/-- The greatest number of steps in a chain of re-exports that is followed. -/
def maxForwardDepth : Nat := 16

/-- An exported name that stands for another name, usually of another file. Both names are the star
for a star re-export. -/
structure Forward where
  name : String
  source : String
  sourceName : String
  deriving DecidableEq, Repr, Inhabited

structure NodeTable where
  ids : KeySet := .empty
  byFile : KeyMap (List FunctionNode) := .empty
  bindings : KeyMap Bindings := .empty
  forwards : KeyMap (List Forward) := .empty
  files : KeySet := .empty
  deriving Inhabited

namespace NodeTable

def addNode (t : NodeTable) (f : FunctionNode) : NodeTable :=
  { t with
    ids := t.ids.insert f.id
    byFile := t.byFile.upsert f.file [] (· ++ [f]) }

/-- The table of the given functions, in their order within each file. -/
def ofNodes (nodes : List FunctionNode) : NodeTable := nodes.foldl addNode {}

/-- Registers project files, those without functions included. -/
def withFiles (t : NodeTable) (files : List String) : NodeTable :=
  { t with files := t.files.insertAll files }

def setBindings (t : NodeTable) (file : String) (bindings : Bindings) : NodeTable :=
  { t with bindings := t.bindings.insert file bindings }

/-- Records that `file` exports `name` as `sourceName` of `source`. -/
def addForward (t : NodeTable) (file name source sourceName : String) : NodeTable :=
  { t with forwards := t.forwards.upsert file [] (· ++ [⟨name, source, sourceName⟩]) }

def forwardsOf (t : NodeTable) (file : String) : List Forward := (t.forwards.get? file).getD []
def functionsOf (t : NodeTable) (file : String) : List FunctionNode := (t.byFile.get? file).getD []

def binding? (t : NodeTable) (file name : String) : Option Binding :=
  (t.bindings.get? file).bind (·.get? name)

/-- The id of the function declared as `name` in `file`. -/
def idIn? (t : NodeTable) (file name : String) : Option String :=
  let id := symbolKey file name
  if t.ids.contains id then some id else none

/-- Tries `next` on the forwards in order until one leads to a function; visited pairs are passed
on from one to the next. -/
def firstThrough (next : Forward → List (String × String) → Option String × List (String × String)) :
    List Forward → List (String × String) → Option String × List (String × String)
  | [], visited => (none, visited)
  | f :: rest, visited => match next f visited with
    | (some id, visited) => (some id, visited)
    | (none, visited) => firstThrough next rest visited

/-- Follows a name to the function it stands for, with at most `steps` pairs on the way. -/
def follow (t : NodeTable) : Nat → String → String → List (String × String) →
    Option String × List (String × String)
  | 0, _, _, visited => (none, visited)
  | steps + 1, file, name, visited =>
    if visited.contains (file, name) then (none, visited)
    else
      let visited := (file, name) :: visited
      let forwards := t.forwardsOf file
      match forwards.find? (·.name == name) with
      | some f =>
        -- a whole module passed on under a name is no function
        if f.sourceName == starName then (none, visited)
        else t.follow steps f.source f.sourceName visited
      | none => match t.idIn? file name with
        | some id => (some id, visited)
        | none =>
          if name == defaultName then (none, visited)
          else firstThrough (fun f visited => t.follow steps f.source name visited)
            (forwards.filter (·.name == starName)) visited

/-- The function that `file` exports as `name`, through aliases, named and star re-exports. -/
def exportedId? (t : NodeTable) (file name : String) : Option String :=
  (t.follow (maxForwardDepth + 1) file name []).1

/-- The earliest of the smallest elements under a key. -/
def leastBy (key : FunctionNode → Nat × Nat) : List FunctionNode → Option FunctionNode
  | [] => none
  | f :: rest => match leastBy key rest with
    | none => some f
    | some g =>
      let (a, b) := (key f, key g)
      if b.1 < a.1 || (b.1 == a.1 && b.2 < a.2) then some g else some f

/-- The function of the file with exactly this name, those at the top level first. -/
def local? (t : NodeTable) (file name : String) : Option String :=
  (leastBy (fun f => ((if f.isMethod || f.isNested then 1 else 0), f.id.utf8ByteSize))
    ((t.functionsOf file).filter (·.name == name))).map (·.id)

/-- The first method of the file whose last name is `name`. -/
def method? (t : NodeTable) (file name : String) : Option String :=
  ((t.functionsOf file).find? fun f => f.isMethod && f.shortName == name).map (·.id)

/-- The function that an imported name stands for. -/
def imported? (t : NodeTable) (file name : String) : Option String := do
  let b ← t.binding? file name
  if b.isNamespace then none
  t.exportedId? (← b.target) b.name

/-- The function that a member of an imported namespace stands for. -/
def namespaceMember? (t : NodeTable) (file space member : String) : Option String := do
  let b ← t.binding? file space
  if !b.isNamespace then none
  t.exportedId? (← b.target) member

/-- The first method or nested function of the file whose last name is `name`. -/
def member? (t : NodeTable) (file name : String) : Option String :=
  ((t.functionsOf file).find? fun f => (f.isMethod || f.isNested) && f.shortName == name).map (·.id)

end NodeTable
end SymbolGraph
