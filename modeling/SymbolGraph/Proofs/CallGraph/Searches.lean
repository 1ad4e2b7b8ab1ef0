import SymbolGraph.CallGraph.Extraction
import SymbolGraph.Proofs.CallGraph.Adjacency
import SymbolGraph.Proofs.Traversal.DepthFirst
import SymbolGraph.Proofs.Traversal.Layers

/-!
# Searches in call graphs

Searches see a call graph with the calls followed one way, or a set of functions with the calls to its
members. In each of these views the searches visit exactly what can be reached from a node along the
neighbours, each once; breadth-first by distance, depth-first in the order of the recursive search.
-/
namespace SymbolGraph

/-- A list of what can be reached from `start`, each once and `start` in front. -/
structure Digraph.ListsReachable (g : Digraph) (start : String) (order : List String) : Prop where
  head : order.head? = some start
  nodup : order.Nodup
  mem_iff : ∀ b, b ∈ order ↔ g.Reaches start b

namespace View

/-- No search sets out where there is no node. From a node both searches list what can be reached, the
breadth-first search by the distance, and a search from several roots finds what can be reached from those
that are nodes. -/
structure SearchesReachable (v : View) : Prop where
  outside : ∀ start, v.contains start = false → v.breadthFirst start = [] ∧ v.depthFirst start = []
  breadth : ∀ start, v.contains start = true → v.graph.ListsReachable start (v.breadthFirst start)
  depth : ∀ start, v.contains start = true → v.graph.ListsReachable start (v.depthFirst start)
  nearest_first : ∀ start, v.contains start = true →
    (v.breadthFirst start).Pairwise fun a b => v.graph.distance start a ≤ v.graph.distance start b
  mem_reachable : ∀ roots b, b ∈ v.reachable roots ↔
    ∃ a ∈ roots, v.contains a = true ∧ v.graph.Reaches a b

theorem searchesReachable (v : View) : v.SearchesReachable where
  outside start h := by simp [breadthFirst, depthFirst, h]
  breadth start h := by
    rw [breadthFirst, if_pos h]
    exact ⟨v.graph.head?_breadthFirst start, v.graph.breadthFirst_nodup start,
      fun b => by simp [Digraph.mem_breadthFirst]⟩
  depth start h := by
    rw [depthFirst, if_pos h]
    exact ⟨v.graph.head?_depthFirst start, v.graph.depthFirst_nodup start, fun b => Digraph.mem_depthFirst⟩
  nearest_first start h := by
    rw [breadthFirst, if_pos h]
    exact v.graph.breadthFirst_pairwise_distance start
  mem_reachable roots b := by
    simp [reachable, Digraph.mem_breadthFirst, and_assoc]

/-- What can be reached from a node is a node. -/
def Closed (v : View) : Prop :=
  ∀ a b, v.contains a = true → v.graph.Reaches a b → v.contains b = true

theorem closed_of_next {v : View} (h : ∀ a, ∀ b ∈ v.graph.next a, v.contains b = true) : v.Closed := by
  intro a b ha hab
  induction hab with
  | refl => exact ha
  | tail _ edge _ => exact h _ _ edge

/-- The depth-first search from a node lists the nodes in the order of the recursive search, which puts out
a node on the first arrival and then arrives at its neighbours in order, skipping those put out already. -/
theorem depthFirst_eq_recursive (v : View) (start : String) :
    v.depthFirst start = (if v.contains start then v.graph.arrive [] start else []) ∧
      ∀ out a, v.graph.arrive out a =
        if a ∈ out then out else (v.graph.next a).foldl v.graph.arrive (out ++ [a]) := by
  refine ⟨?_, v.graph.arrive_eq⟩
  rw [depthFirst, v.graph.depthFirst_eq_arrive]

end View

namespace CallGraph

theorem closed_view_assemble (generatedAt : Timestamp) (rootDir : String) (nodes : KeyMap FunctionNode)
    (calls : List Call) (files : List String) (d : Direction) :
    ((assemble generatedAt rootDir nodes calls files).view d).Closed := by
  have mirrored := mirrored_assemble generatedAt rootDir nodes calls files
  refine View.closed_of_next fun a b hb => ?_
  cases d with
  | callees => exact (mem_edges_assemble.1 ((mirrored.mem_calleesOf a b).1 hb)).2.2.2
  | callers => exact (mem_edges_assemble.1 ((mirrored.mem_callersOf b a).1 hb)).2.2.1

theorem next_within (g : CallGraph) (allowed : List String) (a : String) :
    (g.within allowed).graph.next a = (g.calleesOf a).filter allowed.contains :=
  Digraph.next_restrict _ _ a

theorem closed_within (g : CallGraph) (allowed : List String) : (g.within allowed).Closed := by
  refine View.closed_of_next fun a b hb => ?_
  rw [next_within] at hb
  exact (List.mem_filter.1 hb).2

/-- In every call graph, along callees and along callers, and within every set of functions, the searches
visit what can be reached along the neighbours. In assembled graphs and within sets of functions all of
it are nodes; in a loaded graph an edge may lead to a function that is not there. -/
theorem searches_visit_reachable :
    (∀ g : CallGraph, (∀ d, (g.view d).SearchesReachable) ∧
      (g.view .callees).graph.next = g.calleesOf ∧ (g.view .callers).graph.next = g.callersOf) ∧
    (∀ (g : CallGraph) (allowed : List String), (g.within allowed).SearchesReachable ∧
      (g.within allowed).Closed ∧
      ∀ a, (g.within allowed).graph.next a = (g.calleesOf a).filter allowed.contains) ∧
    ∀ (generatedAt : Timestamp) (rootDir : String) (nodes : KeyMap FunctionNode) (calls : List Call)
      (files : List String) (d : Direction),
      ((assemble generatedAt rootDir nodes calls files).view d).Closed :=
  ⟨fun g => ⟨fun d => (g.view d).searchesReachable, rfl, rfl⟩,
    fun g allowed => ⟨(g.within allowed).searchesReachable, g.closed_within allowed, g.next_within allowed⟩,
    closed_view_assemble⟩

/-- Two ways to a node, and a way back to the start. -/
example :
    let v : View := ⟨⟨.ofList [("a", ["b", "c"]), ("b", ["d"]), ("c", ["d"]), ("d", ["a"])]⟩, (· ≠ "x")⟩
    v.breadthFirst "a" = ["a", "b", "c", "d"] ∧ v.depthFirst "a" = ["a", "b", "d", "c"] ∧
      v.reachable ["x", "d"] = .ofList ["a", "b", "c", "d"] := by
  decide +kernel

end CallGraph
end SymbolGraph
