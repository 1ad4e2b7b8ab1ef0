import SymbolGraph.Path

/-!
# Module paths of Rust files

A file stands for a module of its crate: `core/src/api/mod.rs` is the module `api` of the crate in
`core`. Paths written in a file are resolved against the modules of the known files.
-/
namespace SymbolGraph.Crate
open Text

/-- The position of a file in its crate. -/
structure ModulePath where
  /-- The directory that holds `src`. -/
  crateDir : String
  /-- The names of the modules from the root of the crate on. -/
  segments : List String
  deriving DecidableEq, Repr, Inhabited

namespace ModulePath

/-- The module of a file. Outside of `src` every file is the root of its own crate. -/
def ofFile (path : String) : ModulePath :=
  let parts := (split '/' path).filter (· != "")
  match parts.reverse.findIdx? (· == "src") with
  | none =>
    let name := dropAllEnd ".rs" (Path.fileName path)
    { crateDir := joinWith "/" parts.dropLast
      segments := if name == "lib" || name == "main" || name == "mod" then [] else [name] }
  | some fromEnd =>
    let below := parts.drop (parts.length - fromEnd)
    { crateDir := joinWith "/" (parts.take (parts.length - fromEnd - 1))
      segments := (below.filter fun p => p != "mod.rs" && p != "lib.rs" && p != "main.rs").map
        fun p => (dropEnd? ".rs" p).getD p }

/-- The path from the root of the crate as it is written in a file. -/
def cratePath (m : ModulePath) : String := joinWith "::" ("crate" :: m.segments)

/-- The module around; the root is its own parent. -/
def parent (m : ModulePath) : ModulePath := { m with segments := m.segments.dropLast }

end ModulePath

/-- The known modules with their files; the first file of a module stands for it. -/
structure ModuleIndex where
  modules : List (ModulePath × String) := []
  deriving Inhabited

namespace ModuleIndex

def fileOf? (index : ModuleIndex) (m : ModulePath) : Option String :=
  (index.modules.find? (·.1 == m)).map (·.2)

def contains (index : ModuleIndex) (m : ModulePath) : Bool := (index.fileOf? m).isSome

def add (index : ModuleIndex) (file : String) : ModuleIndex :=
  let m := ModulePath.ofFile file
  if index.contains m then index else ⟨index.modules ++ [(m, file)]⟩

/-- The modules of the Rust files among the given ones. -/
def ofFiles (files : List String) : ModuleIndex := (files.filter (endsWith ".rs")).foldl add {}

def size (index : ModuleIndex) : Nat := index.modules.length

/-- The file of the longest known module among the starts of `segments`, with its length. -/
def longest? (index : ModuleIndex) (crateDir : String) (segments : List String) :
    Option (String × Nat) :=
  (List.range (segments.length + 1)).reverse.findSome? fun n =>
    (index.fileOf? ⟨crateDir, segments.take n⟩).map fun file => (file, n)

/-- Steps to the parent for every leading `super`. -/
def climb (m : ModulePath) : List String → List String
  | [] => m.segments
  | s :: rest => if s == "super" then climb m.parent rest else m.segments ++ s :: rest

/-- The segments from the root of the crate that a path means in a module. Without a keyword in front
it starts with a child of that module or of the root; other paths lead outside of the crate. -/
def absolute? (index : ModuleIndex) (m : ModulePath) : List String → Option (List String)
  | [] => none
  | first :: rest =>
    if first == "crate" then some rest
    else if first == "self" then some (m.segments ++ rest)
    else if first == "super" then some (climb m (first :: rest))
    else if index.contains ⟨m.crateDir, m.segments ++ [first]⟩ then some (m.segments ++ first :: rest)
    else if index.contains ⟨m.crateDir, [first]⟩ then some (first :: rest)
    else none

end ModuleIndex

/-- The pieces between double colons. -/
def splitColons : List Char → List (List Char)
  | ':' :: ':' :: rest => [] :: splitColons rest
  | c :: rest => match splitColons rest with
    | piece :: more => (c :: piece) :: more
    | [] => [[c]]
  | [] => [[]]

/-- The segments of a written path; empty ones do not count. -/
def pathSegments (path : String) : List String :=
  ((splitColons path.toList).filter (!·.isEmpty)).map String.ofList

/-- The file that a path written in the file `source` leads to, with the segments behind its module. -/
def ModuleIndex.resolve? (index : ModuleIndex) (source : String) (segments : List String) :
    Option (String × List String) := do
  let m := ModulePath.ofFile source
  let segments ← index.absolute? m segments
  let (file, n) ← index.longest? m.crateDir segments
  return (file, segments.drop n)

end SymbolGraph.Crate
