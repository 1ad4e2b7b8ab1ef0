import SymbolGraph.CallGraph.Graph

/-!
# Hubs

Functions that take part in unusually many calls.
-/
namespace SymbolGraph

structure Hub where
  id : String
  degree : Nat
  deriving DecidableEq, Repr, Inhabited

namespace CallGraph

/-- The number of calls to and from every function. -/
def degrees (g : CallGraph) : KeyMap Nat :=
  g.edges.foldl (fun m e => (m.upsert e.caller 0 (· + 1)).upsert e.callee 0 (· + 1))
    (g.nodes.map fun _ _ => 0)

/-- The functions with more calls than the threshold, those with most calls first. -/
def hubs (g : CallGraph) (threshold : Nat) : List Hub :=
  let found := (g.degrees.toList.filter fun (_, degree) => threshold < degree).map
    fun (id, degree) => Hub.mk id degree
  found.mergeSort fun a b => b.degree < a.degree || (a.degree == b.degree && a.id ≤ b.id)

end CallGraph
end SymbolGraph
