import SymbolGraph.CallGraph.Basic
import SymbolGraph.Graph.Digraph
import SymbolGraph.Ordered.KeySet
import SymbolGraph.Timestamp

/-!
# Call graphs

The functions of a project with the calls between them. The indexes of callees and callers repeat the
edges in a form that is quick to follow.
-/
namespace SymbolGraph

/-- The version of the stored form. -/
def graphVersion : Nat := 1

/-- Counts over a graph. -/
structure Stats where
  functions : Nat
  pureFunctions : Nat
  impureFunctions : Nat
  unknownFunctions : Nat
  exportedFunctions : Nat
  edges : Nat
  deriving DecidableEq, Repr, Inhabited

def Stats.compute (nodes : KeyMap FunctionNode) (edges : List Call) : Stats :=
  let count (p : FunctionNode → Bool) : Nat := (nodes.values.filter p).length
  { functions := nodes.size
    pureFunctions := count (·.purity == .pure)
    impureFunctions := count (·.purity == .impure)
    unknownFunctions := count (·.purity == .unknown)
    exportedFunctions := count (·.isExported)
    edges := edges.length }

structure CallGraph where
  version : Nat
  generatedAt : Timestamp
  rootDir : String
  nodes : KeyMap FunctionNode
  /-- In strictly ascending order. -/
  edges : List Call
  files : List String
  stats : Stats
  callees : KeyMap (List String)
  callers : KeyMap (List String)
  deriving DecidableEq, Inhabited

namespace CallGraph

/-- The edges as a map from one of their ends to the other ends, in the order of the edges. -/
def indexBy (key value : Call → String) (edges : List Call) : KeyMap (List String) :=
  edges.foldl (fun index e => index.upsert (key e) [] (· ++ [value e])) .empty

/-- A graph with the indexes of its edges. -/
def withIndexes (version : Nat) (generatedAt : Timestamp) (rootDir : String)
    (nodes : KeyMap FunctionNode) (edges : List Call) (files : List String) (stats : Stats) :
    CallGraph :=
  { version, generatedAt, rootDir, nodes, edges, files, stats
    callees := indexBy (·.caller) (·.callee) edges
    callers := indexBy (·.callee) (·.caller) edges }

/-- The graph of the given functions. Calls of a function to itself and calls from or to unknown
functions do not count. -/
def assemble (generatedAt : Timestamp) (rootDir : String) (nodes : KeyMap FunctionNode)
    (calls : List Call) (files : List String) : CallGraph :=
  let edges := Call.sorted (calls.filter fun c =>
    c.caller != c.callee && nodes.contains c.caller && nodes.contains c.callee)
  withIndexes graphVersion generatedAt rootDir nodes edges (KeySet.ofList files).toList
    (Stats.compute nodes edges)

def calleesOf (g : CallGraph) (id : String) : List String := (g.callees.get? id).getD []
def callersOf (g : CallGraph) (id : String) : List String := (g.callers.get? id).getD []
def node? (g : CallGraph) (id : String) : Option FunctionNode := g.nodes.get? id

/-- The functions of a file. -/
def functionsIn (g : CallGraph) (file : String) : List FunctionNode :=
  g.nodes.values.filter (·.file == file)

/-- Whether a function is declared in a file. -/
def isIn (g : CallGraph) (file id : String) : Bool := (g.node? id).any (·.file == file)

/-! ## Traversals -/

/-- Which way edges are followed. -/
inductive Direction
  | callees
  | callers
  deriving DecidableEq, Repr, Inhabited

def toward (g : CallGraph) : Direction → Digraph
  | .callees => ⟨g.callees⟩
  | .callers => ⟨g.callers⟩

/-- The functions with the calls followed one way. -/
def view (g : CallGraph) (d : Direction) : View := ⟨g.toward d, g.nodes.contains⟩

/-- The functions that can be reached, the nearest first; none from an unknown function. -/
def breadthFirst (g : CallGraph) (d : Direction) (start : String) : List String :=
  (g.view d).breadthFirst start

/-- The functions that can be reached, in the order of a depth-first search. -/
def depthFirst (g : CallGraph) (d : Direction) (start : String) : List String :=
  (g.view d).depthFirst start

/-- The functions that can be reached from those of the roots that are known. -/
def reachable (g : CallGraph) (d : Direction) (roots : List String) : KeySet :=
  (g.view d).reachable roots

/-- A shortest chain of calls between two functions. -/
def shortestPath? (g : CallGraph) (source goal : String) : Option (List String) :=
  if g.nodes.contains source && g.nodes.contains goal then
    (g.toward .callees).shortestPath? source goal
  else none

/-! ## Drawing -/

private def dotQuoted (s : String) : String :=
  "\"" ++ Text.expandChars (fun c =>
    if c = '\\' then some "\\\\" else if c = '"' then some "\\\"" else none) s ++ "\""

/-- Long names are cut. -/
def dotLabel (name : String) : String := if 24 < name.length then Text.take 21 name ++ "..." else name

def dotColor : Purity → String
  | .impure => "salmon"
  | .pure => "palegreen"
  | .unknown => "white"

/-- The graph as a drawing in the DOT language. -/
def dot (g : CallGraph) : String :=
  let node (id : String) (f : FunctionNode) : String :=
    "    " ++ dotQuoted id ++ " [label=" ++ dotQuoted (dotLabel f.name) ++ " style=" ++
      (if f.isExported then "\"filled,bold\"" else "filled") ++ " fillcolor=" ++ dotColor f.purity ++
      "];\n"
  let edge (e : Call) : String := "    " ++ dotQuoted e.caller ++ " -> " ++ dotQuoted e.callee ++ ";\n"
  "digraph CallGraph \x7b\n    rankdir=LR;\n    node [shape=box, fontname=\"monospace\"];\n\n" ++
    String.join (g.nodes.toList.map fun (id, f) => node id f) ++ "\n" ++
    String.join (g.edges.map edge) ++ "\x7d\n"

end CallGraph
end SymbolGraph
