import SymbolGraph.Crate.Calls
import SymbolGraph.Crate.Effects
import SymbolGraph.Crate.References
import SymbolGraph.Error
import SymbolGraph.Path
import SymbolGraph.Resolver
import SymbolGraph.Script.Calls
import SymbolGraph.Script.Effects
import SymbolGraph.Script.Facts
import SymbolGraph.Script.Grammar
import SymbolGraph.Script.References

/-!
# The languages that can be read
-/
namespace SymbolGraph

inductive Language
  /-- TypeScript and JavaScript. -/
  | script
  /-- Rust. -/
  | crate
  deriving DecidableEq, Repr, Inhabited

namespace Language

def name : Language → String
  | .script => "typescript"
  | .crate => "rust"

def all : List Language := [.script, .crate]

/-- The file extensions of a language, in ascending order. -/
def extensions : Language → List String
  | .script => ["cjs", "js", "jsx", "mjs", "ts", "tsx"]
  | .crate => ["rs"]

/-- The language of a file, among those enabled. -/
def ofPath? (enabled : List Language) (path : String) : Option Language := do
  let ext ← Path.extension? path
  enabled.find? fun l => l.extensions.contains ext

/-- The tree of a Rust file. -/
def parseCrate (path content : String) : Except AnalysisError Crate.Parsed :=
  match Crate.parse? content with
  | some parsed => .ok parsed
  | none => .error (.parse path "the text is no Rust file" none)

/-- The exports, imports and bindings of a file. -/
def facts (l : Language) (path content : String) : Except AnalysisError Facts :=
  match l with
  | .script => .ok (Script.factsOf path (Script.parseFile path content))
  | .crate => do return (← parseCrate path content).facts path

/-- The facts of a file of any kind; a file of no enabled language says nothing. -/
def factsOf (enabled : List Language) (path content : String) : Except AnalysisError Facts :=
  match ofPath? enabled path with
  | some l => l.facts path content
  | none => .ok {}

/-- The project file that a specifier written in the file `source` stands for. -/
def resolve? (l : Language) (r : Resolver) (specifier source : String) : Option String :=
  match l with
  | .script => r.script? specifier source
  | .crate => (r.modules.resolve? source (Crate.pathSegments specifier)).map (·.1)

/-- The module that a use declaration names as a whole, with its file. -/
def usedModule? (r : Resolver) (i : Import) : Option (String × String) := do
  if !i.targetsSymbol || i.isReExport then none
  let path := if i.specifier == "" then i.name else i.specifier ++ "::" ++ i.name
  let (file, rest) ← r.modules.resolve? i.file (Crate.pathSegments path)
  if rest.isEmpty then return (path, file) else none

/-- An import with the file it leads to. In Rust an import of a module itself turns out to be a
namespace import. -/
def resolveImport (l : Language) (r : Resolver) (i : Import) : Import :=
  let plain := { i with target := l.resolve? r i.specifier i.file }
  match l with
  | .script => plain
  | .crate => match usedModule? r i with
    | some (path, file) =>
      { i with
        name := starName, boundAs := some i.localName, specifier := path, isNamespace := true
        target := some file }
    | none => plain

/-- Gives the binding of an import what is known about the import. -/
def bindResolved (bindings : Bindings) (i : Import) : Bindings :=
  if i.isReExport then bindings
  else bindings.modify i.localName fun _ =>
    { specifier := i.specifier, target := i.target, name := i.name, isNamespace := i.isNamespace }

/-- Facts with all imports resolved and the bindings pointing where the imports lead. -/
def resolveFacts (l : Language) (r : Resolver) (facts : Facts) : Facts :=
  let imports := facts.imports.map (l.resolveImport r)
  { facts with imports, bindings := imports.foldl bindResolved facts.bindings }

/-- The patterns that show side effects. -/
def effects : Language → List Effect
  | .script => Script.effects
  | .crate => Crate.effects

/-- The references of a file to imports and to names of its own, in the order found. -/
def references (l : Language) (path content : String) (bindings : Bindings) (sameFile : KeySet) :
    Except AnalysisError (List Reference) :=
  match l with
  | .script => .ok (Script.references ⟨content, bindings, sameFile⟩ (Script.parseFile path content))
  | .crate => do
    return Crate.references ⟨content, bindings, sameFile⟩ (← parseCrate path content).root

/-- The usages of one name in a file. -/
def usagesOf (l : Language) (path content symbol : String) (bindings : Bindings) :
    Except AnalysisError (List Usage) := do
  let found ← l.references path content bindings (.ofList [symbol])
  return (found.filter (·.localName == symbol)).map (·.toUsage path)

/-- The functions of a file, their purity unknown. -/
def functions (l : Language) (path content : String) : Except AnalysisError (List FunctionNode) :=
  match l with
  | .script => .ok (Script.functions path (Script.parseFile path content))
  | .crate => do return (← parseCrate path content).functions path

/-- The calls that a file makes to functions of the table. -/
def calls (l : Language) (path content : String) (table : NodeTable) :
    Except AnalysisError (List Call) :=
  match l with
  | .script => .ok (Script.calls path table (Script.parseFile path content))
  | .crate => do return (← parseCrate path content).calls path table

end Language
end SymbolGraph
