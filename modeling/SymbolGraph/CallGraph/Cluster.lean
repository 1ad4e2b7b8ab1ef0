import SymbolGraph.CallGraph.Graph

/-!
# Clusters

A cluster is a set of two or more functions that are connected by calls, whatever their direction.
-/
namespace SymbolGraph

structure Cluster where
  members : List String
  files : List String
  deriving DecidableEq, Repr, Inhabited

namespace CallGraph

/-- The graph in which every call leads both ways. -/
def undirected (g : CallGraph) : Digraph :=
  ⟨indexBy (·.caller) (·.callee) (g.edges ++ g.edges.map fun e => ⟨e.callee, e.caller⟩)⟩

/-- What a search from `id` finds that has not been seen by the searches before. -/
def found (both : Digraph) (seen : List String) (id : String) : List String :=
  both.breadthFrom (both.edgeCount + 2) [id] (id :: seen)

/-- The sets of connected functions, in the order of their first members. -/
def components (both : Digraph) : List String → List String → List KeySet
  | _, [] => []
  | seen, id :: rest =>
    if seen.contains id then components both seen rest
    else
      let reached := found both seen id
      .ofList reached :: components both (reached ++ seen) rest

def clusterOf (g : CallGraph) (members : KeySet) : Cluster :=
  { members := members.toList
    files := (KeySet.ofList (members.toList.filterMap fun id => (g.node? id).map (·.file))).toList }

/-- Larger clusters come first, then the order of the members decides. -/
def clusterBefore (a b : Cluster) : Bool :=
  b.members.length < a.members.length ||
    (a.members.length == b.members.length && !decide (b.members < a.members))

def clusters (g : CallGraph) : List Cluster :=
  let found := (components g.undirected [] g.nodes.keys).filter (2 ≤ ·.size)
  (found.map g.clusterOf).mergeSort clusterBefore

end CallGraph
end SymbolGraph
