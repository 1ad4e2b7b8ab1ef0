import SymbolGraph.Json.Record
import SymbolGraph.Symbol.Trace

/-!
# JSON form of symbols

Absent optional fields are left out of the written form. The reading functions accept what the
record rules of `Json.Record` allow.
-/
namespace SymbolGraph
open Json

def ExportKind.ofJson? : Json → Option ExportKind :=
  choice? (ExportKind.all.map fun k => (k.text, k))

def Export.toJson (e : Export) : Json :=
  members [("name", some (.string e.name)), ("kind", some (.string e.kind.text)),
    ("filePath", some (.string e.file)), ("line", some (.nat e.line)),
    ("isDefault", some (.bool e.isDefault)), ("isReExport", some (.bool e.isReExport)),
    ("originalSource", e.origin.map .string), ("originalName", e.originName.map .string),
    ("signature", e.signature.map .string)]

def Export.ofJson? (j : Json) : Option Export := do
  match ← fields? ["name", "kind", "filePath", "line", "isDefault", "isReExport", "originalSource",
      "originalName", "signature"] j with
  | [name, kind, file, line, isDefault, isReExport, origin, originName, signature] =>
    return {
      name := ← required string? name
      kind := ← required ExportKind.ofJson? kind
      file := ← required string? file
      line := ← required word? line
      isDefault := ← required bool? isDefault
      isReExport := ← required bool? isReExport
      origin := ← optional none (nullable string?) origin
      originName := ← optional none (nullable string?) originName
      signature := ← optional none (nullable string?) signature }
  | _ => none

def Import.toJson (i : Import) : Json :=
  members [("name", some (.string i.name)), ("alias", i.boundAs.map .string),
    ("source", some (.string i.specifier)), ("filePath", some (.string i.file)),
    ("line", some (.nat i.line)), ("isDefault", some (.bool i.isDefault)),
    ("isNamespace", some (.bool i.isNamespace)), ("isReExport", some (.bool i.isReExport)),
    ("resolvedPath", i.target.map .string)]

def Import.ofJson? (j : Json) : Option Import := do
  match ← fields? ["name", "alias", "source", "filePath", "line", "isDefault", "isNamespace",
      "isReExport", "resolvedPath"] j with
  | [name, boundAs, specifier, file, line, isDefault, isNamespace, isReExport, target] =>
    return {
      name := ← required string? name
      boundAs := ← optional none (nullable string?) boundAs
      specifier := ← required string? specifier
      file := ← required string? file
      line := ← required word? line
      isDefault := ← required bool? isDefault
      isNamespace := ← optional false bool? isNamespace
      isReExport := ← optional false bool? isReExport
      target := ← optional none (nullable string?) target }
  | _ => none

def Binding.toJson (b : Binding) : Json :=
  members [("specifier", some (.string b.specifier)), ("source", b.target.map .string),
    ("originalName", some (.string b.name)), ("isNamespace", some (.bool b.isNamespace))]

def Binding.ofJson? (j : Json) : Option Binding := do
  match ← fields? ["specifier", "source", "originalName", "isNamespace"] j with
  | [specifier, target, name, isNamespace] =>
    return {
      specifier := ← required string? specifier
      target := ← optional none (nullable string?) target
      name := ← required string? name
      isNamespace := ← optional false bool? isNamespace }
  | _ => none

/-- A map with the values written by `f`. -/
def KeyMap.toJson (f : α → Json) (m : KeyMap α) : Json := .object (m.entries.map fun p => (p.1, f p.2))

def Facts.toJson (facts : Facts) : Json :=
  .object [("exports", .array (facts.exports.map Export.toJson)),
    ("imports", .array (facts.imports.map Import.toJson)),
    ("localSymbols", facts.bindings.toJson Binding.toJson)]

def Facts.ofJson? (j : Json) : Option Facts := do
  match ← fields? ["exports", "imports", "localSymbols"] j with
  | [exports, imports, bindings] =>
    return {
      exports := ← required (listOf Export.ofJson?) exports
      imports := ← required (listOf Import.ofJson?) imports
      bindings := ← required (mapOf Binding.ofJson?) bindings }
  | _ => none

def Usage.toJson (u : Usage) : Json :=
  .object [("filePath", .string u.file), ("line", .nat u.line), ("context", .string u.context),
    ("usageType", .string u.usageType.text)]

def Importer.toJson (i : Importer) : Json :=
  members [("file", some (.string i.file)), ("alias", i.boundAs.map .string), ("line", some (.nat i.line))]

def Trace.toJson (t : Trace) : Json :=
  .object [("symbol", .string t.key), ("filePath", .string t.file), ("name", .string t.name),
    ("importedBy", .array (t.importers.map Importer.toJson)),
    ("usages", .array (t.usages.map Usage.toJson)), ("dependents", strings t.dependents),
    ("usageCount", .nat t.usageCount)]

end SymbolGraph
