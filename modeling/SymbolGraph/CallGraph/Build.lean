import SymbolGraph.CallGraph.Graph
import SymbolGraph.CallGraph.Purity
import SymbolGraph.Config
import SymbolGraph.Language

/-!
# Building call graphs

The functions of all files come first, then what their names can mean, then the calls, and the purity
that follows from them. A file that cannot be read as a program has no functions, bindings or calls.
-/
namespace SymbolGraph

/-- The functions of one file. -/
def functionsOfFile (path content : String) : List FunctionNode :=
  match Language.ofPath? Language.all path with
  | some l => (l.functions path content).toOption.getD []
  | none => []

/-- The functions of all files; of several with one id the first counts. -/
def functionsOfSources (sources : Sources) : KeyMap FunctionNode :=
  .ofListFirst ((sources.toList.flatMap fun (path, content) => functionsOfFile path content).map
    fun f => (f.id, f))

/-- Where an exported name is declared if that is under another name or in another file. -/
def forwardOf? (l : Language) (r : Resolver) (path : String) (e : Export) : Option Forward :=
  if e.isReExport then do
    let source ← l.resolve? r (← e.origin) path
    return ⟨e.name, source, e.sourceName⟩
  else if e.sourceName != e.name then some ⟨e.name, path, e.sourceName⟩
  else none

/-- Adds the bindings and forwards of one file. -/
def addFileNames (r : Resolver) (table : NodeTable) (file : String × String) : NodeTable :=
  let (path, content) := file
  match Language.ofPath? Language.all path with
  | none => table
  | some l => match l.facts path content with
    | .error _ => table
    | .ok facts =>
      let facts := l.resolveFacts r facts
      let table := (facts.exports.filterMap (forwardOf? l r path)).foldl (fun table f =>
        table.addForward path f.name f.source f.sourceName) table
      table.setBindings path facts.bindings

/-- What the names of all files can mean. -/
def tableOfSources (c : Config) (nodes : KeyMap FunctionNode) (sources : Sources) : NodeTable :=
  sources.toList.foldl (addFileNames (c.resolver sources.keys))
    ((NodeTable.ofNodes nodes.values).withFiles sources.keys)

/-- The calls of one file. -/
def callsOfFile (table : NodeTable) (path content : String) : List Call :=
  match Language.ofPath? Language.all path with
  | some l => (l.calls path content table).toOption.getD []
  | none => []

/-- The patterns of side effects for a file. -/
def effectsOfFile (path : String) : List Effect :=
  ((Language.ofPath? Language.all path).map Language.effects).getD []

/-- The call graph of a project. -/
def CallGraph.ofSources (now : Timestamp) (c : Config) (sources : Sources) : CallGraph :=
  let nodes := functionsOfSources sources
  let table := tableOfSources c nodes sources
  let calls := sources.toList.flatMap fun (path, content) => callsOfFile table path content
  let nodes := inferPurity effectsOfFile sources calls nodes
  .assemble now c.rootDir nodes calls sources.keys

end SymbolGraph
