import SymbolGraph.Project.Cycles

/-!
# Dependents

The files that are affected by a change, found by going from imported files to their importers.
-/
namespace SymbolGraph.FileGraph

/-- The importers of a file, given the graph from imported files to importers. -/
def importersOf (reverse : FileGraph) (file : String) : List String :=
  ((reverse.get? file).map KeySet.toList).getD []

/-- The files other than `file` that are in `start` or depend on one of them without passing through
`file`. -/
def dependents (reverse : FileGraph) (start : List String) (file : String) : List String :=
  let others := (· != file)
  (KeySet.ofList ((reverse.digraph.restrict others).breadthFirst (start.filter others))).toList

/-- The files that import a file, directly or through others, without the file itself. -/
def impact (reverse : FileGraph) (file : String) : List String :=
  reverse.dependents (reverse.importersOf file) file

end SymbolGraph.FileGraph
