import SymbolGraph.Config
import SymbolGraph.Json.Printer
import SymbolGraph.Json.Reader
import SymbolGraph.Project.SourceFile
import SymbolGraph.Symbol.Json
import SymbolGraph.Timestamp

/-!
# Facts of earlier runs

The facts of a file depend on its path and content alone, so they are kept under the path together with
a hash of the content. Only files that could be read and parsed are kept.
-/
namespace SymbolGraph
open Json

/-- The version of the stored form. -/
def cacheVersion : Nat := 1

/-- The version of the program. -/
def toolVersion : String := "0.1.0"

def cacheFile : String := "cache.json"

/-- The greatest size in bytes with which a cache is stored. -/
def maxCacheSize : Nat := 50000000

structure CachedFile where
  contentHash : String
  facts : Facts
  deriving DecidableEq, Repr, Inhabited

namespace CachedFile

def toJson (f : CachedFile) : Json :=
  .object [("contentHash", .string f.contentHash), ("facts", f.facts.toJson)]

def ofJson? (j : Json) : Option CachedFile := do
  match ← fields? ["contentHash", "facts"] j with
  | [hash, facts] =>
    return { contentHash := ← required string? hash, facts := ← required Facts.ofJson? facts }
  | _ => none

end CachedFile

structure Cache where
  version : Nat := cacheVersion
  toolVersion : String := SymbolGraph.toolVersion
  createdAt : Timestamp
  files : KeyMap CachedFile := .empty
  deriving DecidableEq, Repr, Inhabited

namespace Cache

/-- The part of a version in front of the first dot. -/
def majorOf (version : String) : String := String.ofList (version.toList.takeWhile (· ≠ '.'))

/-- Whether the facts mean the same as those of this program. -/
def isCompatible (c : Cache) : Bool :=
  c.version == cacheVersion && majorOf c.toolVersion == majorOf SymbolGraph.toolVersion

/-- The facts of a file with that content. -/
def lookup? (c : Cache) (path hash : String) : Option Facts :=
  ((c.files.get? path).filter fun f => f.contentHash == hash).map (·.facts)

/-- What is worth keeping of the files of a run. -/
def ofSources (now : Timestamp) (sources : List SourceFile) : Cache :=
  { createdAt := now
    files := .ofList ((sources.filter (·.fault.isNone)).map fun f =>
      (f.path, ⟨f.contentHash, f.facts⟩)) }

/-! ## Stored form -/

def toJson (c : Cache) : Json :=
  .object [("version", .nat c.version), ("toolVersion", .string c.toolVersion),
    ("createdAt", .string c.createdAt.text), ("files", c.files.toJson CachedFile.toJson)]

def ofJson? (j : Json) : Option Cache := do
  match ← fields? ["version", "toolVersion", "createdAt", "files"] j with
  | [version, toolVersion, createdAt, files] =>
    return {
      version := ← required (natBelow? (Nat.pow 2 32)) version
      toolVersion := ← required string? toolVersion
      createdAt := ← required (fun j => j.string?.bind Timestamp.read?) createdAt
      files := ← required (mapOf CachedFile.ofJson?) files }
  | _ => none

/-- The cache that is stored in a state directory, of any version; none if it is missing or damaged. -/
def stored? (stateDir : String) (tree : FileTree) : Option Cache :=
  (tree.readText (Path.under stateDir cacheFile)).toOption.bind fun content =>
    (Json.read? content).bind ofJson?

/-- The cache in a state directory; none if it is missing, damaged or of no use. One that is of no use
is removed. -/
def load (stateDir : String) (tree : FileTree) : Option Cache × FileTree :=
  match stored? stateDir tree with
  | none => (none, tree)
  | some c =>
    if c.isCompatible then (some c, tree) else (none, tree.remove (Path.under stateDir cacheFile))

/-- Stores a cache. A tree in which it cannot be stored stays as it is; a cache that is too large is not
stored and takes the old one away. -/
def save (c : Cache) (stateDir : String) (tree : FileTree) : FileTree :=
  let text := c.toJson.compact
  if maxCacheSize < text.utf8ByteSize then tree.removeFile (Path.under stateDir cacheFile)
  else match tree.saveFile stateDir cacheFile text with
    | .ok tree => tree
    | .error _ => tree

end Cache
end SymbolGraph
