import SymbolGraph.CallGraph.Report
import SymbolGraph.Project.Breaking
import SymbolGraph.Project.Unused
import SymbolGraph.Symbol.Json

/-!
# Reports on projects

What the analysis of a project found, as text and as JSON.
-/
namespace SymbolGraph
open Text Json

/-! ## Text -/

def ProjectSummary.render (s : ProjectSummary) : String :=
  linesText [toString s.files ++ " files, " ++ toString s.exports ++ " exports, " ++
    toString s.imports ++ " imports, " ++ toString s.cycles ++ " cycles (" ++
    toString s.cacheHits ++ " cached)"]

def UnusedExport.render (u : UnusedExport) : String :=
  let e := u.symbol
  "- " ++ e.file ++ ":" ++ toString e.line ++ " " ++ e.kind.text ++ " " ++ e.name ++ " (" ++
    u.kind.reason ++ ")"

def renderUnused (unused : List UnusedExport) : String :=
  if unused.isEmpty then linesText ["No unused exports found."]
  else linesText (countHeading "UNUSED EXPORTS" unused.length :: unused.map UnusedExport.render)

/-- A cycle with its first file again at the end. -/
def renderCycle (cycle : List String) : String :=
  "- " ++ joinWith " -> " (cycle ++ cycle.take 1)

def renderCycles (cycles : List (List String)) : String :=
  if cycles.isEmpty then linesText ["No circular dependencies found."]
  else linesText (countHeading "CIRCULAR DEPENDENCIES" cycles.length :: cycles.map renderCycle)

def renderImpact (file : String) (dependents : List String) : String :=
  if dependents.isEmpty then linesText ["No files depend on " ++ file ++ "."]
  else linesText
    (countHeading ("FILES AFFECTED BY " ++ file) dependents.length :: dependents.map ("- " ++ ·))

/-! ## JSON -/

def FileGraph.toJson (g : FileGraph) : Json := KeyMap.toJson (fun s => strings s.toList) g

def FileAnalysis.toJson (f : FileAnalysis) : Json :=
  members [("path", some (.string f.path)), ("contentHash", some (.string f.contentHash)),
    ("exports", some (.array (f.exports.map Export.toJson))),
    ("imports", some (.array (f.imports.map Import.toJson))),
    ("localSymbols", some (f.bindings.toJson Binding.toJson)),
    ("fromCache", some (.bool f.fromCache)),
    ("error", f.fault.map fun fault => .string fault.message)]

def cyclesJson (cycles : List (List String)) : Json := .array (cycles.map strings)

def ProjectAnalysis.toJson (a : ProjectAnalysis) : Json :=
  .object [("rootDir", .string a.rootDir), ("files", a.files.toJson FileAnalysis.toJson),
    ("exports", a.exports.toJson fun l => .array (l.map Export.toJson)),
    ("importGraph", a.importGraph.toJson), ("reverseGraph", a.reverseGraph.toJson),
    ("symbolTraces", a.traces.toJson Trace.toJson),
    ("reExportLinks", FileGraph.toJson a.reExportLinks),
    ("circularDependencies", cyclesJson a.cycles)]

def ProjectSummary.toJson (s : ProjectSummary) : Json :=
  .object [("files", .nat s.files), ("exports", .nat s.exports), ("imports", .nat s.imports),
    ("cycles", .nat s.cycles), ("cache_hits", .nat s.cacheHits)]

def UnusedExport.toJson (u : UnusedExport) : Json :=
  .object [("export", u.symbol.toJson), ("reason", .string u.kind.reason),
    ("kind", .string u.kind.text)]

def BreakingChange.toJson (c : BreakingChange) : Json :=
  .object [("kind", .string c.kind.text), ("file", .string c.file), ("name", .string c.name),
    ("before", .ofOption .string c.before), ("after", .ofOption .string c.after),
    ("message", .string c.message)]

end SymbolGraph
