import SymbolGraph.Language
import SymbolGraph.Project.Analysis

/-!
# Usages of exported symbols

A reference to an imported name is a usage of the symbol in the file it comes from. A reference to a
declaration of the same file is a usage of every symbol under which the declaration is exported.
-/
namespace SymbolGraph.FileAnalysis

/-- For each declaration the names under which the file exports it. -/
def exportedNames (f : FileAnalysis) : KeyMap (List String) :=
  (f.exports.filter fun e => !e.isReExport && !e.isStar).foldl
    (fun m e => m.upsert e.sourceName [] (· ++ [e.name])) .empty

/-- The key of the symbol that an imported name stands for. A namespace stands for a symbol only
together with a member. -/
def importedKey? (f : FileAnalysis) (name : String) (member : Option String) : Option String := do
  let b ← f.bindings.get? name
  let source ← b.target
  if b.isNamespace then return symbolKey source (← member) else return symbolKey source b.name

/-- The keys of the symbols that a reference in the file uses. -/
def usedKeys (f : FileAnalysis) (r : Reference) : List String :=
  match r.target with
  | .imported name member => (f.importedKey? name member).toList
  | .sameFile name => ((f.exportedNames.get? name).getD []).map (symbolKey f.path)

/-- The usages that a file makes of exported symbols, each with the key of its symbol. -/
def usages (f : FileAnalysis) (content : String) : List (String × Usage) :=
  match Language.ofPath? Language.all f.path with
  | none => []
  | some l =>
    if content.isEmpty then []
    else match l.references f.path content f.bindings (.ofList f.exportedNames.keys) with
      | .error _ => []
      | .ok found => found.flatMap fun r => (f.usedKeys r).map fun key => (key, r.toUsage f.path)

end SymbolGraph.FileAnalysis
