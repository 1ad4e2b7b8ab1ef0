import SymbolGraph.Ordered.Distinct
import SymbolGraph.Ordered.KeyMap
import SymbolGraph.Ordered.KeySet

/-!
# Directed graphs

A finite directed graph is given by the successors of each node in their order. The traversals visit
every node that can be reached, each once.
-/
namespace SymbolGraph

structure Digraph where
  successors : KeyMap (List String)
  deriving Inhabited

namespace Digraph

def next (g : Digraph) (a : String) : List String := (g.successors.get? a).getD []
def edgeCount (g : Digraph) : Nat := g.successors.values.flatten.length

/-- The graph without the edges to nodes that are not kept. -/
def restrict (g : Digraph) (keep : String → Bool) : Digraph :=
  ⟨g.successors.map fun _ targets => targets.filter keep⟩

/-- Those of the nodes that have not been seen, each once. -/
def fresh (seen l : List String) : List String := firstOfEach id seen l

/-- Visits the queue in order; what a visited node leads to joins the end of the queue. -/
def breadthFrom (g : Digraph) : Nat → List String → List String → List String
  | 0, _, _ => []
  | _ + 1, [], _ => []
  | fuel + 1, a :: queue, seen =>
    let found := fresh seen (g.next a)
    a :: g.breadthFrom fuel (queue ++ found) (found ++ seen)

/-- The nodes that can be reached from the roots, the nearest first. -/
def breadthFirst (g : Digraph) (roots : List String) : List String :=
  let start := fresh [] roots
  g.breadthFrom (start.length + g.edgeCount + 1) start start

/-- Visits the top of the stack unless it has been visited; what it leads to goes on top. -/
def depthFrom (g : Digraph) : Nat → List String → List String → List String
  | 0, _, _ => []
  | _ + 1, [], _ => []
  | fuel + 1, a :: stack, seen =>
    if seen.contains a then g.depthFrom fuel stack seen
    else
      let seen := a :: seen
      a :: g.depthFrom fuel ((g.next a).filter (!seen.contains ·) ++ stack) seen

/-- The nodes that can be reached from `start` in the order of first arrival of a depth-first search. -/
def depthFirst (g : Digraph) (start : String) : List String :=
  g.depthFrom (g.edgeCount + 2) [start] []

/-- Extends the paths of the queue, which are kept with their last node first, until one reaches the
goal. -/
def pathFrom (g : Digraph) (goal : String) : Nat → List (List String) → List String →
    Option (List String)
  | 0, _, _ => none
  | _ + 1, [], _ => none
  | fuel + 1, path :: queue, seen =>
    let targets := ((path.head?).map g.next).getD []
    if targets.contains goal then some (goal :: path).reverse
    else
      let found := fresh seen targets
      g.pathFrom goal fuel (queue ++ found.map (· :: path)) (found ++ seen)

/-- A shortest path, both ends included. -/
def shortestPath? (g : Digraph) (source goal : String) : Option (List String) :=
  if source == goal then some [source] else g.pathFrom goal (g.edgeCount + 2) [[source]] [source]

end Digraph

/-! ## Views -/

/-- What a search sees: the edges it follows and the nodes at which it may start. -/
structure View where
  graph : Digraph
  contains : String → Bool

namespace View

/-- The nodes that can be reached, the nearest first; none from where there is no node. -/
def breadthFirst (v : View) (start : String) : List String :=
  if v.contains start then v.graph.breadthFirst [start] else []

/-- The nodes that can be reached, in the order of a depth-first search. -/
def depthFirst (v : View) (start : String) : List String :=
  if v.contains start then v.graph.depthFirst start else []

/-- The nodes that can be reached from those of the roots that are nodes. -/
def reachable (v : View) (roots : List String) : KeySet :=
  .ofList (v.graph.breadthFirst (roots.filter v.contains))

end View
end SymbolGraph
