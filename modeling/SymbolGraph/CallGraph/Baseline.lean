import SymbolGraph.CallGraph.Build
import SymbolGraph.CallGraph.Diff
import SymbolGraph.CallGraph.Snapshot
import SymbolGraph.FileTree.Sources

/-!
# Checking against a baseline

A call graph is stored as the gold standard of a project. Later the project, or the project with one
file replaced, is compared with it.
-/
namespace SymbolGraph

def goldStandardFile : String := "gold-standard.json"

def Config.goldStandardPath (c : Config) : String := Path.under c.stateDir goldStandardFile

/-- The texts of the source files of a project; one that cannot be read is empty. -/
def Config.sources (c : Config) (tree : FileTree) : Except AnalysisError Sources := do
  return .ofList ((← c.sourceFiles tree).map fun path =>
    (path, (tree.readText (Path.under c.rootDir path)).toOption.getD ""))

namespace CallGraph

/-- The call graph of the project as it stands. -/
def ofProject (now : Timestamp) (c : Config) (tree : FileTree) : Except AnalysisError CallGraph := do
  return .ofSources now c (← c.sources tree)

/-- Stores the present call graph as the baseline. -/
def saveBaseline (now : Timestamp) (c : Config) (tree : FileTree) :
    Except AnalysisError (CallGraph × FileTree) := do
  let g ← ofProject now c tree
  return (g, ← tree.saveFile c.stateDir goldStandardFile g.serialize)

/-- The stored baseline; none if it is missing, damaged or of another version. -/
def baseline? (c : Config) (tree : FileTree) : Option CallGraph :=
  (tree.readText c.goldStandardPath).toOption.bind deserialize?

def baseline (c : Config) (tree : FileTree) : Except AnalysisError CallGraph :=
  match baseline? c tree with
  | some g => .ok g
  | none => .error (.goldStandardMissing c.goldStandardPath)

/-- Compares the project as it stands with its baseline. -/
def verify (now : Timestamp) (c : Config) (tree : FileTree) : Except AnalysisError GraphDiff := do
  let baseline ← baseline c tree
  return compareGraphs baseline (← ofProject now c tree)

/-- The path of a file relative to the project, however it is written. -/
def relativePath (c : Config) (path : String) : String :=
  if Text.startsWith "/" path then Path.relativeTo c.rootDir path
  else Text.dropAllStart "./" (Path.normalize path)

/-- The baseline with one file replaced. What the file calls is found with the names of all files as
they stand. -/
def withFile (now : Timestamp) (c : Config) (sources : Sources) (baseline : CallGraph)
    (file content : String) : CallGraph :=
  let kept := baseline.nodes.filter fun _ f => f.file != file
  let keptCalls := baseline.edges.filter fun e =>
    (baseline.node? e.caller).any fun f => f.file != file
  let nodes := (functionsOfFile file content).foldl (fun m f => m.insertNew f.id f) kept
  let table := tableOfSources c nodes (sources.insert file content)
  .assemble now baseline.rootDir nodes (keptCalls ++ callsOfFile table file content)
    (file :: baseline.files)

/-- Compares the baseline with itself after a proposed change of one file. -/
def verifyFile (now : Timestamp) (c : Config) (tree : FileTree) (path content : String) :
    Except AnalysisError GraphDiff := do
  let baseline ← baseline c tree
  return compareGraphs baseline
    (withFile now c (← c.sources tree) baseline (relativePath c path) content)

end CallGraph
end SymbolGraph
