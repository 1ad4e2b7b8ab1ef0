import SymbolGraph.Error
import SymbolGraph.Path

/-!
# Trees of files

The part of a file system that an analysis sees, as a value: reading looks a path up and writing gives
a new tree. The faults have the texts that a Linux system gives them.
-/
namespace SymbolGraph

inductive FileFault
  | notFound
  | notDirectory
  | isDirectory
  | alreadyExists
  | invalidText
  deriving DecidableEq, Repr, Inhabited

def FileFault.message : FileFault → String
  | .notFound => "No such file or directory (os error 2)"
  | .notDirectory => "Not a directory (os error 20)"
  | .isDirectory => "Is a directory (os error 21)"
  | .alreadyExists => "File exists (os error 17)"
  | .invalidText => "stream did not contain valid UTF-8"

inductive FileTree
  | file (content : ByteArray)
  | folder (entries : List (String × FileTree))
  deriving Inhabited

namespace FileTree

def isFolder : FileTree → Bool
  | .folder _ => true
  | .file _ => false

/-- Goes into the folder of that name, back out, or stays where it is. -/
def walk (place : List String) (segment : String) : List String :=
  if segment = "" ∨ segment = "." then place
  else if segment = ".." then place.dropLast
  else place ++ [segment]

/-- The names on the way to a path. -/
def placeOf (path : String) : List String := (Text.split '/' path).foldl walk []

/-! ## Looking up -/

/-- What stands at a place. -/
def get : List String → FileTree → Except FileFault FileTree
  | [], tree => .ok tree
  | name :: rest, .folder entries => match entries.lookup name with
    | some child => get rest child
    | none => .error .notFound
  | _ :: _, .file _ => .error .notDirectory

/-- What stands at a path; the empty path leads nowhere. -/
def find (tree : FileTree) (path : String) : Except FileFault FileTree :=
  if path = "" then .error .notFound else tree.get (placeOf path)

def contains (tree : FileTree) (path : String) : Bool := (tree.find path).toOption.isSome
def isFolderAt (tree : FileTree) (path : String) : Bool := (tree.find path).toOption.any isFolder

def readBytes (tree : FileTree) (path : String) : Except FileFault ByteArray := do
  match ← tree.find path with
  | .file content => .ok content
  | .folder _ => .error .isDirectory

def readText (tree : FileTree) (path : String) : Except FileFault String := do
  match String.fromUTF8? (← tree.readBytes path) with
  | some text => .ok text
  | none => .error .invalidText

/-! ## Changing -/

/-- The entries with `child` under `name`. -/
def setEntry (name : String) (child : FileTree) : List (String × FileTree) → List (String × FileTree)
  | [] => [(name, child)]
  | (other, tree) :: rest =>
    if other = name then (name, child) :: rest else (other, tree) :: setEntry name child rest

/-- The tree with `new` at a place; folders that are missing on the way are made. -/
def put (new : FileTree) : List String → FileTree → Except FileFault FileTree
  | [], _ => .ok new
  | name :: rest, .folder entries => do
    let child ← put new rest ((entries.lookup name).getD (.folder []))
    return .folder (setEntry name child entries)
  | _ :: _, .file _ => .error .notDirectory

/-- Writes a file, in place of any other file there. -/
def writeFile (tree : FileTree) (path : String) (content : ByteArray) : Except FileFault FileTree :=
  if tree.isFolderAt path then .error .isDirectory else put (.file content) (placeOf path) tree

/-- Makes a folder unless there is one. -/
def makeFolder (tree : FileTree) (path : String) : Except FileFault FileTree :=
  match tree.find path with
  | .ok (.folder _) => .ok tree
  | .ok (.file _) => .error .alreadyExists
  | .error _ => put (.folder []) (placeOf path) tree

/-- The tree without what stands at a place. -/
def removeAt : List String → FileTree → FileTree
  | [name], .folder entries => .folder (entries.filter fun e => e.1 != name)
  | name :: rest, .folder entries => match entries.lookup name with
    | some child => .folder (setEntry name (removeAt rest child) entries)
    | none => .folder entries
  | _, tree => tree

def remove (tree : FileTree) (path : String) : FileTree := tree.removeAt (placeOf path)

/-- The tree without the file at a path; a folder there stays. -/
def removeFile (tree : FileTree) (path : String) : FileTree :=
  if tree.isFolderAt path then tree else tree.remove path

/-- Puts a file into a folder that is made if need be. -/
def saveFile (tree : FileTree) (dir name : String) (content : String) :
    Except AnalysisError FileTree := do
  let tree ← (tree.makeFolder dir).mapError fun fault => .io dir fault.message
  let path := Path.under dir name
  (tree.writeFile path content.toUTF8).mapError fun fault => .io path fault.message

end FileTree
end SymbolGraph
