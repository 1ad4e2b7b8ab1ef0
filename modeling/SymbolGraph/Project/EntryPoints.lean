import SymbolGraph.Config
import SymbolGraph.FileTree.Basic
import SymbolGraph.Glob
import SymbolGraph.Json.Reader
import SymbolGraph.Ordered.KeyMap
import SymbolGraph.Ordered.KeySet

/-!
# Entry points

The files that may be used from outside the project: those that a pattern names, those with a
conventional name and those that the package manifest names.
-/
namespace SymbolGraph

structure EntryPoints where
  patterns : List Glob := []
  /-- The targets of the manifest without their extensions. -/
  manifestTargets : KeySet := .empty
  deriving Inhabited

namespace EntryPoints

def manifestFile : String := "package.json"

/-- The fields of a manifest that name files. -/
def manifestFields : List String := ["main", "module", "bin", "exports"]

def conventionalStems : List String := ["index", "main"]

mutual

/-- The texts in a JSON value. Of members with one name only the last counts. -/
def textsIn : Json → List String
  | .string s => [s]
  | .array items => textsInItems items
  | .object members => textsInMembers members
  | _ => []

def textsInItems : List Json → List String
  | [] => []
  | j :: rest => textsIn j ++ textsInItems rest

def textsInMembers : List (String × Json) → List String
  | [] => []
  | (name, j) :: rest =>
    (if rest.any (·.1 == name) then [] else textsIn j) ++ textsInMembers rest

end

/-- A file as a manifest writes it, in the form in which files are compared. -/
def targetOf (written : String) : String :=
  Path.withoutExtension (Text.dropAllStart "./" (Path.normalize written))

/-- The files that a manifest names. A text that is no JSON names none. -/
def targetsOf (manifest : String) : KeySet :=
  match Json.readAny? manifest with
  | none => .empty
  | some j => .ofList ((manifestFields.filterMap j.getLast?).flatMap fun field =>
      (textsIn field).map targetOf)

/-- The entry points of a project. -/
def load (c : Config) (tree : FileTree) : Except AnalysisError EntryPoints := do
  let patterns ← Glob.parseAll "entry point" c.entryPoints
  let manifestTargets := match tree.readText (Path.under c.rootDir manifestFile) with
    | .ok text => targetsOf text
    | .error _ => .empty
  return { patterns, manifestTargets }

/-- Whether the name or folder of a file makes it an entry point by convention. -/
def isConventional (file : String) : Bool :=
  let name := Path.fileName file
  conventionalStems.contains (Path.stem name) ||
    (Text.endsWith ".rs" file &&
      (name == "main.rs" || name == "lib.rs" || Text.containsText "src/bin/" file))

def covers (e : EntryPoints) (file : String) : Bool :=
  e.patterns.any (·.covers file) || isConventional file ||
    e.manifestTargets.contains (Path.withoutExtension file)

end EntryPoints
end SymbolGraph
