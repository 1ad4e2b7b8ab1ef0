import SymbolGraph.Project.Analysis

/-!
# Breaking changes

Changes of exports that can break the files that import them. New exports break nothing.
-/
namespace SymbolGraph

inductive ChangeKind
  | removed
  | kindChanged
  | signatureChanged
  deriving DecidableEq, Repr, Inhabited

def ChangeKind.text : ChangeKind → String
  | .removed => "removed"
  | .kindChanged => "kind-changed"
  | .signatureChanged => "signature-changed"

structure BreakingChange where
  kind : ChangeKind
  file : String
  name : String
  before : Option String := none
  after : Option String := none
  deriving DecidableEq, Repr, Inhabited

def BreakingChange.message (c : BreakingChange) : String :=
  match c.kind with
  | .removed => "Export '" ++ c.name ++ "' was removed from " ++ c.file
  | .kindChanged => "Export '" ++ c.name ++ "' in " ++ c.file ++ " changed from " ++
      c.before.getD "" ++ " to " ++ c.after.getD ""
  | .signatureChanged => "Signature of '" ++ c.name ++ "' in " ++ c.file ++ " changed"

/-- How an export differs from its earlier form. A change of kind hides one of signature, and a
signature that is unknown does not count. -/
def Export.changeTo (before : Export) : Option Export → Option BreakingChange
  | none => some
    { kind := .removed, file := before.file, name := before.name, before := some before.kind.text }
  | some after =>
    if before.kind ≠ after.kind then some
      { kind := .kindChanged, file := before.file, name := before.name
        before := some before.kind.text, after := some after.kind.text }
    else match before.signature, after.signature with
      | some old, some new =>
        if old = new then none
        else some
          { kind := .signatureChanged, file := before.file, name := before.name, before := some old
            after := some new }
      | _, _ => none

/-- The exports by key; of several with one key the last counts. -/
def exportsByKey (exports : List Export) : KeyMap Export :=
  .ofList ((exports.filter (!·.isStar)).map fun e => (e.key, e))

/-- The breaking changes from `old` to `new`, in the order of `old`. -/
def compareExports (old new : List Export) : List BreakingChange :=
  let byKey := exportsByKey new
  (old.filter (!·.isStar)).filterMap fun e => e.changeTo (byKey.get? e.key)

def ProjectAnalysis.allExports (a : ProjectAnalysis) : List Export := a.files.values.flatMap (·.exports)

/-- The breaking changes from one analysis of a project to a later one. -/
def compareAnalyses (old new : ProjectAnalysis) : List BreakingChange :=
  compareExports old.allExports new.allExports

end SymbolGraph
