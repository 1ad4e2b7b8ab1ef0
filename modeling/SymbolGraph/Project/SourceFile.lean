import SymbolGraph.Digest
import SymbolGraph.FileTree.Basic
import SymbolGraph.Symbol.Basic

/-!
# Source files as read

A file that cannot be read, or is no program of its language, still takes part in an analysis; it has
no facts and carries the reason.
-/
namespace SymbolGraph

/-- Why a file has no facts. -/
inductive SourceFault
  | unreadable (fault : FileFault)
  | refused (error : AnalysisError)
  deriving DecidableEq, Repr, Inhabited

def SourceFault.message : SourceFault → String
  | .unreadable fault => fault.message
  | .refused error => error.message

/-- A source file with what it says about symbols. -/
structure SourceFile where
  path : String
  /-- The text, empty for a file that cannot be read. -/
  content : String := ""
  contentHash : String := ""
  facts : Facts := {}
  /-- The facts come from an earlier run. -/
  fromCache : Bool := false
  fault : Option SourceFault := none
  deriving DecidableEq, Repr, Inhabited

def contentHash (content : String) : String := Digest.ofBytes content.toUTF8

/-- Reads one file. `known` gives the facts of a path and content hash where they are known, `parse`
the facts of a text. -/
def SourceFile.load (known : String → String → Option Facts)
    (parse : String → String → Except AnalysisError Facts) (tree : FileTree) (root path : String) :
    SourceFile :=
  match tree.readText (Path.under root path) with
  | .error fault => { path, fault := some (.unreadable fault) }
  | .ok content =>
    let hash := SymbolGraph.contentHash content
    match known path hash with
    | some facts => { path, content, contentHash := hash, facts, fromCache := true }
    | none => match parse path content with
      | .ok facts => { path, content, contentHash := hash, facts }
      | .error e => { path, content, contentHash := hash, fault := some (.refused e) }

end SymbolGraph
