import SymbolGraph.Symbol.Basic

/-!
# Usages and traces

A trace collects what the project does with one exported symbol: who imports it, where it is used
and which files depend on it.
-/
namespace SymbolGraph

inductive UsageType
  | call
  | reference
  | type
  | jsx
  | namespace
  deriving DecidableEq, Repr, Inhabited

def UsageType.text : UsageType → String
  | .call => "call"
  | .reference => "reference"
  | .type => "type"
  | .jsx => "jsx"
  | .namespace => "namespace"

/-- A place where an exported symbol is used. -/
structure Usage where
  file : String
  line : Nat
  context : String
  usageType : UsageType
  deriving DecidableEq, Repr, Inhabited

/-- What a reference in a file stands for. -/
inductive ReferenceTarget
  /-- A name bound by an import, with the member where the name is a namespace. -/
  | imported (name : String) (member : Option String)
  /-- A declaration at the top of the same file. -/
  | sameFile (name : String)
  deriving DecidableEq, Repr, Inhabited

structure Reference where
  target : ReferenceTarget
  line : Nat
  context : String
  usageType : UsageType
  deriving DecidableEq, Repr, Inhabited

namespace Reference

/-- The name with which the reference is written. -/
def localName (r : Reference) : String :=
  match r.target with
  | .imported name _ => name
  | .sameFile name => name

def toUsage (r : Reference) (file : String) : Usage :=
  { file, line := r.line, context := r.context, usageType := r.usageType }

end Reference

/-- A file that imports a traced symbol. -/
structure Importer where
  file : String
  boundAs : Option String := none
  line : Nat
  deriving DecidableEq, Repr, Inhabited

structure Trace where
  file : String
  name : String
  importers : List Importer := []
  usages : List Usage := []
  /-- The files that depend on the symbol, directly or through others. -/
  dependents : List String := []
  usageCount : Nat := 0
  deriving DecidableEq, Repr, Inhabited

namespace Trace

def key (t : Trace) : String := symbolKey t.file t.name

/-- An importer counts once per file and line. -/
def addImporter (t : Trace) (i : Importer) : Trace :=
  if t.importers.any fun j => j.file == i.file && j.line == i.line then t
  else { t with importers := t.importers ++ [i] }

def isImported (t : Trace) : Bool := !t.importers.isEmpty
def isUsed (t : Trace) : Bool := !t.usages.isEmpty

end Trace
end SymbolGraph
