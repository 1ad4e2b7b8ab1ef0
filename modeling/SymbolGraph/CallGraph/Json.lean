import SymbolGraph.CallGraph.Basic
import SymbolGraph.Json.Record

/-!
# JSON form of functions and calls
-/
namespace SymbolGraph
open Json

def Purity.ofJson? : Json → Option Purity :=
  choice? ([Purity.pure, .impure, .unknown].map fun p => (p.text, p))

def FunctionNode.toJson (f : FunctionNode) : Json :=
  members [("id", some (.string f.id)), ("name", some (.string f.name)),
    ("filePath", some (.string f.file)), ("line", some (.nat f.line)),
    ("endLine", some (.nat f.endLine)), ("isExported", some (.bool f.isExported)),
    ("isMethod", some (.bool f.isMethod)), ("isNested", some (.bool f.isNested)),
    ("purity", some (.string f.purity.text)), ("impurityReasons", some (strings f.reasons)),
    ("signature", f.signature.map .string)]

def FunctionNode.ofJson? (j : Json) : Option FunctionNode := do
  match ← fields? ["id", "name", "filePath", "line", "endLine", "isExported", "isMethod", "isNested",
      "purity", "impurityReasons", "signature"] j with
  | [id, name, file, line, endLine, isExported, isMethod, isNested, purity, reasons, signature] =>
    return {
      id := ← required string? id
      name := ← required string? name
      file := ← required string? file
      line := ← required word? line
      endLine := ← required word? endLine
      isExported := ← required bool? isExported
      isMethod := ← required bool? isMethod
      isNested := ← required bool? isNested
      purity := ← required Purity.ofJson? purity
      reasons := ← optional [] (listOf string?) reasons
      signature := ← optional none (nullable string?) signature }
  | _ => none

def Call.toJson (c : Call) : Json :=
  .object [("from", .string c.caller), ("to", .string c.callee)]

def Call.ofJson? (j : Json) : Option Call := do
  match ← fields? ["from", "to"] j with
  | [caller, callee] => return ⟨← required string? caller, ← required string? callee⟩
  | _ => none

end SymbolGraph
