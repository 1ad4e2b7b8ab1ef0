import SymbolGraph.Project.ReExports
import SymbolGraph.Project.Usages

/-!
# Building project analyses

An analysis is built in passes over the files: each file on its own, then the imports, the re-exports,
the usages, and what follows from all of them. An import may name a symbol that only appears when the
star re-exports are expanded; its importer waits for it until then.
-/
namespace SymbolGraph

/-- Facts with every specifier resolved, those of re-exports included. -/
def resolvedFacts (r : Resolver) (path : String) (facts : Facts) : Facts :=
  match Language.ofPath? Language.all path with
  | none => facts
  | some l =>
    let facts := l.resolveFacts r facts
    { facts with
      exports := facts.exports.map fun e =>
        if e.isReExport then { e with origin := e.origin.bind (l.resolve? r · path) } else e }

/-- A file seen on its own. -/
def FileAnalysis.ofSource (r : Resolver) (f : SourceFile) : FileAnalysis :=
  let facts := resolvedFacts r f.path f.facts
  { path := f.path, contentHash := f.contentHash, exports := facts.exports, imports := facts.imports
    bindings := facts.bindings, fromCache := f.fromCache, fault := f.fault }

/-- A file's imports that lead to another file, with that file. -/
def FileAnalysis.outgoing (f : FileAnalysis) : List (String × Import) :=
  f.imports.filterMap fun i => do
    let target ← i.target
    if target == f.path then none else some (target, i)

/-- The symbols that a file imports by name, with what their traces record of it. -/
def FileAnalysis.importedSymbols (f : FileAnalysis) : List (String × Importer) :=
  (f.outgoing.filter fun (_, i) => i.targetsSymbol && !i.isReExport).map fun (target, i) =>
    (symbolKey target i.name, { file := f.path, boundAs := i.boundAs, line := i.line })

/-- Collects the values of each key in their order. -/
def KeyMap.group (pairs : List (String × α)) : KeyMap (List α) :=
  pairs.foldl (fun m p => m.upsert p.1 [] (· ++ [p.2])) .empty

/-- The exports by name. -/
def ProjectAnalysis.exportIndex (files : KeyMap FileAnalysis) : KeyMap (List Export) :=
  .group ((files.values.flatMap fun f => f.exports.filter (!·.isStar)).map fun e => (e.name, e))

/-- What the passes have found so far. -/
structure AnalysisBuilder where
  files : KeyMap FileAnalysis := .empty
  contents : KeyMap String := .empty
  importGraph : FileGraph := .empty
  reverseGraph : FileGraph := .empty
  traces : KeyMap Trace := .empty
  reExportLinks : KeyMap KeySet := .empty
  /-- The importers of symbols that have no trace yet. -/
  pending : KeyMap (List Importer) := .empty

namespace AnalysisBuilder

/-- Opens the trace of an exported symbol that has none yet. -/
def openTrace (b : AnalysisBuilder) (e : Export) : AnalysisBuilder :=
  { b with traces := b.traces.insertNew e.key { file := e.file, name := e.name } }

/-- Takes in a file as it is on its own, with a trace for each symbol that it exports. -/
def addFile (r : Resolver) (b : AnalysisBuilder) (s : SourceFile) : AnalysisBuilder :=
  let f := FileAnalysis.ofSource r s
  let b := (f.exports.filter (!·.isStar)).foldl openTrace b
  { b with contents := b.contents.insert s.path s.content, files := b.files.insert s.path f }

/-- The first pass. -/
def addFiles (r : Resolver) (sources : List SourceFile) (b : AnalysisBuilder) : AnalysisBuilder :=
  sources.foldl (addFile r) b

/-- Notes in both graphs that `file` imports `target`. -/
def addEdge (b : AnalysisBuilder) (file target : String) : AnalysisBuilder :=
  { b with
    importGraph := b.importGraph.upsert file .empty (·.insert target)
    reverseGraph := b.reverseGraph.upsert target .empty (·.insert file) }

/-- Adds an importer to the trace of the key. If there is none yet, the importer waits for it. -/
def addImporter (b : AnalysisBuilder) (p : String × Importer) : AnalysisBuilder :=
  if b.traces.contains p.1 then { b with traces := b.traces.modify p.1 (·.addImporter p.2) }
  else { b with pending := b.pending.upsert p.1 [] (· ++ [p.2]) }

/-- Adds an import that leads to another file: the edge, and the importer of what it names. -/
def addImport (file : String) (b : AnalysisBuilder) (p : String × Import) : AnalysisBuilder :=
  let b := b.addEdge file p.1
  if p.2.targetsSymbol && !p.2.isReExport then
    b.addImporter (symbolKey p.1 p.2.name, { file, boundAs := p.2.boundAs, line := p.2.line })
  else b

/-- Adds what a file imports. A file that imports nothing is in the import graph, too. -/
def addImports (b : AnalysisBuilder) (f : FileAnalysis) : AnalysisBuilder :=
  f.outgoing.foldl (addImport f.path) { b with importGraph := b.importGraph.upsert f.path .empty id }

/-- The second pass. -/
def linkImports (b : AnalysisBuilder) : AnalysisBuilder := b.files.values.foldl addImports b

/-- Adds an export for which a star re-export stands. The importers that wait for the symbol go to its
trace. -/
def addStarExport (b : AnalysisBuilder) (e : Export) : AnalysisBuilder :=
  let waiting := (b.pending.get? e.key).getD []
  { b with
    traces := b.traces.upsert e.key { file := e.file, name := e.name } (waiting.foldl Trace.addImporter)
    pending := b.pending.erase e.key
    files := b.files.modify e.file fun f => { f with exports := f.exports ++ [e] } }

/-- The third pass. What re-exports stand for is found in the exports as the files declare them. -/
def resolveReExports (b : AnalysisBuilder) : AnalysisBuilder :=
  let table : ExportTable := b.files.map fun _ f => f.exports
  let b := { b with files := b.files.map fun _ f => { f with exports := f.exports.map table.fill } }
  let b := (table.expansions.values.flatMap fun added => added.map (·.2)).foldl addStarExport b
  { b with reExportLinks := table.links }

/-- Adds a usage to the trace of the key, if there is one. -/
def addUsage (b : AnalysisBuilder) (p : String × Usage) : AnalysisBuilder :=
  { b with traces := b.traces.modify p.1 fun t => { t with usages := t.usages ++ [p.2] } }

/-- The fourth pass. -/
def traceUsages (b : AnalysisBuilder) : AnalysisBuilder :=
  (b.files.toList.flatMap fun (path, f) => f.usages ((b.contents.get? path).getD "")).foldl addUsage b

/-- The last pass. -/
def finish (rootDir : String) (b : AnalysisBuilder) : ProjectAnalysis :=
  { rootDir
    files := b.files
    exports := ProjectAnalysis.exportIndex b.files
    importGraph := b.importGraph
    reverseGraph := b.reverseGraph
    traces := b.traces.map fun _ t =>
      { t with
        usageCount := t.usages.length
        dependents := b.reverseGraph.dependents (t.importers.map (·.file)) t.file }
    reExportLinks := b.reExportLinks
    cycles := b.importGraph.cycles }

end AnalysisBuilder

namespace ProjectAnalysis

/-- The files in the order of their paths, each path once. -/
def inOrder (sources : List SourceFile) : KeyMap SourceFile := .ofList (sources.map fun s => (s.path, s))

/-- The analysis of a project with the given files. -/
def ofFiles (c : Config) (paths : List String) (sources : List SourceFile) : ProjectAnalysis :=
  let b : AnalysisBuilder := .addFiles (c.resolver paths) (inOrder sources).values {}
  b.linkImports.resolveReExports.traceUsages.finish c.rootDir

end ProjectAnalysis
end SymbolGraph
