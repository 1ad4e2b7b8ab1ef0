import SymbolGraph.CallGraph.Graph

/-!
# Comparing call graphs

A graph is equivalent to a baseline if it has all functions of the baseline with the same signatures.
Further functions are reported and do no harm.
-/
namespace SymbolGraph

structure SignatureChange where
  id : String
  before : Option String
  after : Option String
  deriving DecidableEq, Repr, Inhabited

structure GraphDiff where
  removed : List String
  signatureChanges : List SignatureChange
  added : List String
  deriving DecidableEq, Repr, Inhabited

namespace GraphDiff

def isEquivalent (d : GraphDiff) : Bool := d.removed.isEmpty && d.signatureChanges.isEmpty

private def counted (n : Nat) (what : String) : List String :=
  if n == 0 then [] else [toString n ++ " " ++ what]

def summary (d : GraphDiff) : String :=
  if d.isEquivalent && d.added.isEmpty then "No structural changes"
  else Text.joinWith ", " (counted d.removed.length "function(s) removed" ++
    counted d.signatureChanges.length "signature change(s)" ++
    counted d.added.length "function(s) added")

end GraphDiff

/-- What a candidate lacks, changes and adds compared with a baseline. -/
def compareGraphs (baseline candidate : CallGraph) : GraphDiff :=
  { removed := baseline.nodes.keys.filter (!candidate.nodes.contains ·)
    signatureChanges := baseline.nodes.toList.filterMap fun (id, before) => do
      let after ← candidate.nodes.get? id
      if after.signature == before.signature then none
      else some ⟨id, before.signature, after.signature⟩
    added := candidate.nodes.keys.filter (!baseline.nodes.contains ·) }

end SymbolGraph
