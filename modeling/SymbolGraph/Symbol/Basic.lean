import SymbolGraph.Ordered.KeyMap

/-!
# Symbols of a project

Exports, imports and the bindings that imports make in a file. A symbol is identified by its key
`file:name`, which stays the same for a whole run.
-/
namespace SymbolGraph

/-- The name of star re-exports, namespace imports and imports for effect. -/
def starName : String := "*"

/-- The name under which default exports are recorded. -/
def defaultName : String := "default"

/-- The key of the symbol `name` of `file`. -/
def symbolKey (file name : String) : String := file ++ ":" ++ name

inductive ExportKind
  | function
  | classType
  | variable
  | type
  | interface
  | enum
  | const
  | unknown
  deriving DecidableEq, Repr, Inhabited

namespace ExportKind

def text : ExportKind → String
  | .function => "function"
  | .classType => "class"
  | .variable => "variable"
  | .type => "type"
  | .interface => "interface"
  | .enum => "enum"
  | .const => "const"
  | .unknown => "unknown"

def all : List ExportKind :=
  [.function, .classType, .variable, .type, .interface, .enum, .const, .unknown]

/-- The kind of that name; `unknown` for any other text. -/
def ofText (s : String) : ExportKind := (all.find? fun k => k.text == s).getD .unknown

/-- Types and interfaces leave no trace in a running program. -/
def hasRuntimeUsage : ExportKind → Bool
  | .type => false
  | .interface => false
  | _ => true

end ExportKind

/-- A name that a file makes available to other files. -/
structure Export where
  name : String
  kind : ExportKind
  file : String
  line : Nat
  isDefault : Bool := false
  isReExport : Bool := false
  /-- Where a re-export takes the name from: the specifier as written, later the file it names. -/
  origin : Option String := none
  /-- The name at the origin, where it differs or is known. -/
  originName : Option String := none
  signature : Option String := none
  deriving DecidableEq, Repr, Inhabited

namespace Export

/-- A star re-export stands for many names and is no symbol itself. -/
def isStar (e : Export) : Bool := e.name == starName

/-- The name of the symbol in the file it is taken from. -/
def sourceName (e : Export) : String := e.originName.getD e.name

def key (e : Export) : String := symbolKey e.file e.name

end Export

/-- One imported name, a namespace import or an import for effect. -/
structure Import where
  name : String
  /-- The name that the import gives to the symbol, if it is another one. -/
  boundAs : Option String := none
  /-- The specifier as written. -/
  specifier : String
  file : String
  line : Nat
  isDefault : Bool := false
  isNamespace : Bool := false
  /-- The import comes from an export statement. -/
  isReExport : Bool := false
  /-- The project file that the specifier names. -/
  target : Option String := none
  deriving DecidableEq, Repr, Inhabited

namespace Import

/-- The name that the import binds in its file. -/
def localName (i : Import) : String := i.boundAs.getD i.name

/-- Whether the import names one symbol of its target. -/
def targetsSymbol (i : Import) : Bool := !i.isNamespace && i.name != starName && i.name != ""

end Import

/-- What a name bound by an import stands for. -/
structure Binding where
  specifier : String
  /-- The project file, absent for names from outside the project. -/
  target : Option String := none
  /-- The name in the target. -/
  name : String
  isNamespace : Bool := false
  deriving DecidableEq, Repr, Inhabited

/-- The import bindings of one file by local name. -/
abbrev Bindings := KeyMap Binding

/-- What one file says about symbols, seen on its own. -/
structure Facts where
  exports : List Export := []
  imports : List Import := []
  bindings : Bindings := .empty
  deriving DecidableEq, Repr, Inhabited

namespace Facts

/-- Adds an import and the binding that it makes. -/
def bindImport (facts : Facts) (i : Import) : Facts :=
  { facts with
    imports := facts.imports ++ [i]
    bindings := facts.bindings.insert i.localName
      { specifier := i.specifier, name := i.name, isNamespace := i.isNamespace } }

def addImport (facts : Facts) (i : Import) : Facts := { facts with imports := facts.imports ++ [i] }
def addExport (facts : Facts) (e : Export) : Facts := { facts with exports := facts.exports ++ [e] }

end Facts
end SymbolGraph
