import SymbolGraph.Config
import SymbolGraph.FileTree.Basic
import SymbolGraph.Glob
import SymbolGraph.Language

/-!
# Source files of a project

The files below a folder that have one of the wanted extensions, by their paths relative to the
folder. Folders of packages, builds and tools are not entered, nor are folders that a pattern names.
-/
namespace SymbolGraph

/-- Folders that are never entered. -/
def excludedFolders : List String :=
  ["node_modules", ".git", "target", "dist", "build", stateDirName]

/-- Which files are wanted below a folder. -/
structure SourceFilter where
  extensions : List String
  ignored : String → Bool

namespace SourceFilter

/-- Whether a folder with that name and relative path is entered. -/
def enters (f : SourceFilter) (name path : String) : Bool :=
  !excludedFolders.contains name && !f.ignored path

/-- Whether a file with that relative path is wanted. -/
def wants (f : SourceFilter) (path : String) : Bool :=
  (Path.extension? path).any f.extensions.contains && !f.ignored path

end SourceFilter

namespace FileTree

/-- The relative path of an entry of the folder at `dir`, with forward slashes. -/
def childPath (dir name : String) : String :=
  if dir = "" then Path.normalize name else dir ++ "/" ++ Path.normalize name

mutual

/-- The wanted files of a tree at a relative path. -/
def wanted (f : SourceFilter) (path : String) : FileTree → List String
  | .file _ => if f.wants path then [path] else []
  | .folder entries => wantedIn f path entries

def wantedIn (f : SourceFilter) (dir : String) : List (String × FileTree) → List String
  | [] => []
  | (name, child) :: rest =>
    (if child.isFolder && !f.enters name (childPath dir name) then []
      else child.wanted f (childPath dir name)) ++ wantedIn f dir rest

end

/-- The files below the folder `root` that have one of the extensions and are not ignored, in ascending
order. -/
def sourceFiles (tree : FileTree) (root : String) (extensions ignore : List String) :
    Except AnalysisError (List String) :=
  match tree.find root with
  | .ok (.folder entries) => do
    let patterns ← Glob.parseAll "ignore" ignore
    let f : SourceFilter := { extensions, ignored := fun path => patterns.any (·.covers path) }
    return (wantedIn f "" entries).mergeSort fun a b => decide (a ≤ b)
  | _ => .error (.invalidArgument ("not a directory: " ++ root))

end FileTree

/-- The extensions of all languages. -/
def sourceExtensions : List String := Language.all.flatMap Language.extensions

/-- The source files of a project. -/
def Config.sourceFiles (c : Config) (tree : FileTree) : Except AnalysisError (List String) :=
  tree.sourceFiles c.rootDir sourceExtensions c.ignore

end SymbolGraph
