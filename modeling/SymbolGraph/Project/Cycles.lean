import SymbolGraph.Graph.Digraph
import SymbolGraph.Ordered.KeySet

/-!
# Import cycles

A depth-first search that keeps the path from its root. A step back to a file of the path closes a
cycle, which is kept once for each set of members.
-/
namespace SymbolGraph

/-- A graph of files: for each file the files it leads to. -/
abbrev FileGraph := KeyMap KeySet

namespace FileGraph

def digraph (g : FileGraph) : Digraph := ⟨g.map fun _ targets => targets.toList⟩

/-- The files with an entry or an edge to them. -/
def nodes (g : FileGraph) : KeySet := .ofList (g.keys ++ g.values.flatMap KeySet.toList)

def edgeCount (g : FileGraph) : Nat := g.digraph.edgeCount

/-- What a search for cycles has seen and found, the latest first. -/
structure CycleSearch where
  visited : List String := []
  cycles : List (List String) := []

namespace CycleSearch

/-- Keeps a cycle unless one with the same members is known. -/
def add (s : CycleSearch) (cycle : List String) : CycleSearch :=
  if s.cycles.any fun c => KeySet.ofList c == KeySet.ofList cycle then s
  else { s with cycles := cycle :: s.cycles }

end CycleSearch

/-- The part of a path from `file` on. Paths are kept with their last file first. -/
def cycleFrom (file : String) (path : List String) : List String :=
  (path.takeWhile (· ≠ file) ++ [file]).reverse

/-- Searches from a file that is not on the path. -/
def searchFrom (g : Digraph) : Nat → List String → String → CycleSearch → CycleSearch
  | 0, _, _, s => s
  | fuel + 1, path, file, s =>
    let path := file :: path
    (g.next file).foldl (fun s next =>
      if path.contains next then s.add (cycleFrom next path)
      else if s.visited.contains next then s
      else searchFrom g fuel path next s) { s with visited := file :: s.visited }

/-- The order of lists of texts: the first difference decides, and a list comes after its beginnings. -/
def atMost : List String → List String → Bool
  | [], _ => true
  | _ :: _, [] => false
  | a :: as, b :: bs => a < b || (a == b && atMost as bs)

/-- The import cycles in ascending order, each from the file by which the search came to it. -/
def cycles (g : FileGraph) : List (List String) :=
  let nodes := g.nodes.toList
  let found := nodes.foldl (fun s file =>
    if s.visited.contains file then s else searchFrom g.digraph (nodes.length + 1) [] file s) {}
  found.cycles.mergeSort atMost

end FileGraph
end SymbolGraph
