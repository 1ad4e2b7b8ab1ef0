import SymbolGraph.CallGraph.Graph
import SymbolGraph.Config
import SymbolGraph.Decimal.Binary

/-!
# Groups that could move

A group is what one free function reaches by calls to free functions of its file. It is proposed to
move to a file of its own if it is neither too small nor most of the file.
-/
namespace SymbolGraph

structure ExtractionCandidate where
  file : String
  functions : List String
  /-- Calls between members of the group. -/
  internalEdges : Nat
  /-- Other functions of the file that call the group or are called by it. -/
  externalDependencies : Nat
  score : Float
  deriving Inhabited

namespace CallGraph

/-- The free functions of a file. -/
def movable (g : CallGraph) (file : String) : List String :=
  ((g.functionsIn file).map (·.id)).filter fun id => (g.node? id).any FunctionNode.isRelocatable

/-- A set of functions with the calls to its members. -/
def within (g : CallGraph) (allowed : List String) : View :=
  ⟨(g.toward .callees).restrict allowed.contains, allowed.contains⟩

/-- What a function reaches by calls within a set of functions. -/
def groupOf (g : CallGraph) (allowed : List String) (start : String) : List String :=
  ((g.within allowed).reachable [start]).toList

/-- Whether a group is large enough and leaves enough of its file behind. -/
def fits (t : Thresholds) (fileSize groupSize : Nat) : Bool :=
  t.minGroupSize ≤ groupSize &&
    !decide (t.maxFileFraction * Float.ofNat fileSize ≤ Float.ofNat groupSize)

/-- The functions of the file outside of a group that call it or are called by it. -/
def neighbours (g : CallGraph) (file : String) (group : List String) : KeySet :=
  .ofList <| g.edges.filterMap fun e =>
    match group.contains e.caller, group.contains e.callee with
    | true, false => if g.isIn file e.callee then some e.callee else none
    | false, true => if g.isIn file e.caller then some e.caller else none
    | _, _ => none

def candidateOf (g : CallGraph) (file : String) (group : List String) : ExtractionCandidate :=
  let internalEdges :=
    (g.edges.filter fun e => group.contains e.caller && group.contains e.callee).length
  let externalDependencies := (g.neighbours file group).size
  { file, functions := group, internalEdges, externalDependencies
    score := Float.ofNat internalEdges / Float.ofNat (externalDependencies + 1) }

/-- The groups of a file that fit, in the order of the functions they start from. -/
def groupsIn (g : CallGraph) (t : Thresholds) (file : String) : List (List String) :=
  let allowed := g.movable file
  (allowed.map (g.groupOf allowed)).filter fun group =>
    fits t (g.functionsIn file).length group.length

/-- Higher scores first, then larger groups, then by file and members. -/
def candidateBefore (a b : ExtractionCandidate) : Bool :=
  let (x, y) := (Decimal.totalOrderKey a.score, Decimal.totalOrderKey b.score)
  let (m, n) := (a.functions.length, b.functions.length)
  y < x || (x == y && (n < m || (m == n && (a.file < b.file ||
    (a.file == b.file && !decide (b.functions < a.functions))))))

/-- The groups of all files that fit. A group that several functions reach counts once. -/
def distinctGroups (g : CallGraph) (t : Thresholds) : List (String × List String) :=
  let files := (KeySet.ofList (g.nodes.values.map (·.file))).toList
  firstOfEach (·.2) [] (files.flatMap fun file => (g.groupsIn t file).map fun group => (file, group))

/-- The best candidates of all files. -/
def extractionCandidates (g : CallGraph) (t : Thresholds) : List ExtractionCandidate :=
  (((g.distinctGroups t).map fun (file, group) => g.candidateOf file group).mergeSort
    candidateBefore).take t.maxCandidates

end CallGraph
end SymbolGraph
