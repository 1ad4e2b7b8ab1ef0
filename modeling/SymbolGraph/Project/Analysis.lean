import SymbolGraph.Project.Dependents
import SymbolGraph.Project.SourceFile
import SymbolGraph.Symbol.Trace

/-!
# Project analyses

What is known about the symbols of a project: the facts of each file, who imports and uses each
exported symbol, and how the files depend on each other.
-/
namespace SymbolGraph

structure FileAnalysis where
  path : String
  contentHash : String := ""
  exports : List Export := []
  imports : List Import := []
  bindings : Bindings := .empty
  fromCache : Bool := false
  fault : Option SourceFault := none
  deriving DecidableEq, Repr, Inhabited

structure ProjectAnalysis where
  rootDir : String
  files : KeyMap FileAnalysis := .empty
  /-- The exports by name, star re-exports aside. -/
  exports : KeyMap (List Export) := .empty
  /-- For each file the files it imports. -/
  importGraph : FileGraph := .empty
  /-- For each imported file its importers. -/
  reverseGraph : FileGraph := .empty
  /-- The trace of each exported symbol by its key. -/
  traces : KeyMap Trace := .empty
  /-- For the key of a symbol the keys of those that re-export it. -/
  reExportLinks : KeyMap KeySet := .empty
  cycles : List (List String) := []
  deriving DecidableEq, Repr, Inhabited

/-- The size of a project in numbers. -/
structure ProjectSummary where
  files : Nat
  exports : Nat
  imports : Nat
  cycles : Nat
  cacheHits : Nat
  deriving DecidableEq, Repr, Inhabited

namespace ProjectAnalysis

def trace? (a : ProjectAnalysis) (file name : String) : Option Trace :=
  a.traces.get? (symbolKey file name)

def importersOf (a : ProjectAnalysis) (file : String) : List String :=
  a.reverseGraph.importersOf file

def exportsOf (a : ProjectAnalysis) (file : String) : List Export :=
  ((a.files.get? file).map (·.exports)).getD []

/-- The files that a change of a file can affect. -/
def impact (a : ProjectAnalysis) (file : String) : List String := a.reverseGraph.impact file

def summary (a : ProjectAnalysis) : ProjectSummary :=
  let files := a.files.values
  { files := files.length
    exports := (files.flatMap fun f => f.exports.filter (!·.isStar)).length
    imports := (files.flatMap fun f => f.imports).length
    cycles := a.cycles.length
    cacheHits := (files.filter (·.fromCache)).length }

end ProjectAnalysis
end SymbolGraph
