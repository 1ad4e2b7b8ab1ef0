import SymbolGraph.Project.Analysis
import SymbolGraph.Project.EntryPoints

/-!
# Unused exports

An export is live if it is used, or if a name by which it is re-exported, directly or through others,
is imported or used. What is imported and never used still counts as used if it is only a type.
Exports of entry points may be used from outside and are reported only on demand.
-/
namespace SymbolGraph

inductive UnusedKind
  | neverUsed
  | importedNotUsed
  | entryPoint
  deriving DecidableEq, Repr, Inhabited

namespace UnusedKind

def text : UnusedKind → String
  | .neverUsed => "never-used"
  | .importedNotUsed => "imported-not-used"
  | .entryPoint => "entry-point"

def reason : UnusedKind → String
  | .neverUsed => "Never imported or used"
  | .importedNotUsed => "Imported but never actually used"
  | .entryPoint => "Entry point - may be used externally"

end UnusedKind

structure UnusedExport where
  symbol : Export
  kind : UnusedKind
  deriving DecidableEq, Repr, Inhabited

namespace ProjectAnalysis

def isImported (a : ProjectAnalysis) (key : String) : Bool := (a.traces.get? key).any Trace.isImported
def isUsed (a : ProjectAnalysis) (key : String) : Bool := (a.traces.get? key).any Trace.isUsed

/-- The symbols other than `key` that re-export it, directly or through others. -/
def reExporters (a : ProjectAnalysis) (key : String) : List String :=
  ((FileGraph.digraph a.reExportLinks).breadthFirst [key]).filter (· != key)

/-- Whether a symbol is imported or used under another name. -/
def isLiveThroughOthers (a : ProjectAnalysis) (key : String) : Bool :=
  (a.reExporters key).any fun k => a.isImported k || a.isUsed k

/-- Why an export is unused, seen without regard to entry points. -/
def classify (a : ProjectAnalysis) (e : Export) : Option UnusedKind :=
  if a.isUsed e.key || a.isLiveThroughOthers e.key then none
  else if !a.isImported e.key then some .neverUsed
  else if e.kind.hasRuntimeUsage then some .importedNotUsed
  else none

/-- Reports are in order of file, line and name. -/
def reportedBefore (u v : UnusedExport) : Bool :=
  let (a, b) := (u.symbol, v.symbol)
  a.file < b.file || (a.file == b.file && (a.line < b.line || (a.line == b.line && a.name ≤ b.name)))

/-- The unused exports of a file. -/
def unusedIn (a : ProjectAnalysis) (isEntryPoint strict : Bool) (f : FileAnalysis) :
    List UnusedExport :=
  if isEntryPoint && !strict then []
  else (f.exports.filter (!·.isStar)).filterMap fun e =>
    (a.classify e).map fun kind => ⟨e, if isEntryPoint then .entryPoint else kind⟩

/-- The unused exports of a project; those of entry points only if `strict`. -/
def unused (a : ProjectAnalysis) (entry : EntryPoints) (strict : Bool) : List UnusedExport :=
  (a.files.toList.flatMap fun (path, f) => a.unusedIn (entry.covers path) strict f).mergeSort
    reportedBefore

end ProjectAnalysis
end SymbolGraph
