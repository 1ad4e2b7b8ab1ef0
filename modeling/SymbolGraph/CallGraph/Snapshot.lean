import SymbolGraph.CallGraph.Graph
import SymbolGraph.CallGraph.Json
import SymbolGraph.Json.Printer
import SymbolGraph.Json.Reader

/-!
# Stored call graphs

A graph is stored as indented JSON with its functions in the order of their ids. Reading sorts the
edges again and builds the indexes anew.
-/
namespace SymbolGraph
open Json

def Stats.toJson (s : Stats) : Json :=
  .object [("totalFunctions", .nat s.functions), ("pureFunctions", .nat s.pureFunctions),
    ("impureFunctions", .nat s.impureFunctions), ("unknownFunctions", .nat s.unknownFunctions),
    ("exportedFunctions", .nat s.exportedFunctions), ("totalEdges", .nat s.edges)]

def Stats.ofJson? (j : Json) : Option Stats := do
  match ← fields? ["totalFunctions", "pureFunctions", "impureFunctions", "unknownFunctions",
      "exportedFunctions", "totalEdges"] j with
  | [functions, pureFunctions, impureFunctions, unknownFunctions, exportedFunctions, edges] =>
    return {
      functions := ← required word? functions
      pureFunctions := ← required word? pureFunctions
      impureFunctions := ← required word? impureFunctions
      unknownFunctions := ← required word? unknownFunctions
      exportedFunctions := ← required word? exportedFunctions
      edges := ← required word? edges }
  | _ => none

/-- The stored parts of a graph, with functions and edges in any order and number. -/
structure Snapshot where
  version : Nat
  generatedAt : Timestamp
  rootDir : String
  nodes : List FunctionNode
  edges : List Call
  files : List String
  stats : Stats
  deriving DecidableEq, Inhabited

/-- The graph of stored parts. Of several functions with one id the last counts; edges stay whatever
they join. -/
def Snapshot.graph (s : Snapshot) : CallGraph :=
  .withIndexes s.version s.generatedAt s.rootDir (.ofList (s.nodes.map fun f => (f.id, f)))
    (Call.sorted s.edges) s.files s.stats

namespace CallGraph

def toJson (g : CallGraph) : Json :=
  .object [("version", .nat g.version), ("generatedAt", .string g.generatedAt.text),
    ("rootDir", .string g.rootDir), ("nodes", .array (g.nodes.values.map FunctionNode.toJson)),
    ("edges", .array (g.edges.map Call.toJson)), ("files", strings g.files),
    ("stats", g.stats.toJson)]

/-- The graph that a JSON value describes, of whatever version. -/
def ofJson? (j : Json) : Option CallGraph := do
  match ← fields? ["version", "generatedAt", "rootDir", "nodes", "edges", "files", "stats"] j with
  | [version, generatedAt, rootDir, nodes, edges, files, stats] =>
    let nodes ← required (listOf FunctionNode.ofJson?) nodes
    return Snapshot.graph {
      version := ← required (natBelow? (Nat.pow 2 32)) version
      generatedAt := ← required (fun j => j.string?.bind Timestamp.read?) generatedAt
      rootDir := ← required string? rootDir
      nodes
      edges := ← required (listOf Call.ofJson?) edges
      files := ← required (listOf string?) files
      stats := ← required Stats.ofJson? stats }
  | _ => none

/-- The stored form of a graph. -/
def serialize (g : CallGraph) : String := g.toJson.pretty

/-- The graph of a stored form; none if the text is damaged or of another version. -/
def deserialize? (text : String) : Option CallGraph := do
  let g ← ofJson? (← Json.read? text)
  if g.version == graphVersion then some g else none

end CallGraph
end SymbolGraph
