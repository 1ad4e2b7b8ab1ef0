import SymbolGraph.Text.Split

/-!
# Project paths

A file is identified by its path relative to the project root, with forward slashes. The empty path
is the root itself.
-/
namespace SymbolGraph.Path
open Text

/-- Backslashes become slashes. -/
def normalize (path : String) : String := replaceChar '\\' '/' path

/-- The directory part, empty for a file at the root. -/
def parent (path : String) : String :=
  match lastIndexOf? '/' path with
  | some i => take i path
  | none => ""

def fileName (path : String) : String :=
  match lastIndexOf? '/' path with
  | some i => drop (i + 1) path
  | none => path

/-- The position of the dot before the extension; a leading dot does not start one. -/
def dotIndex? (name : String) : Option Nat :=
  match lastIndexOf? '.' name with
  | some 0 => none
  | other => other

/-- The file name without its last extension. -/
def stem (path : String) : String :=
  let name := fileName path
  match dotIndex? name with
  | some i => take i name
  | none => name

/-- The last extension, without its dot. -/
def extension? (path : String) : Option String :=
  let name := fileName path
  (dotIndex? name).map fun i => drop (i + 1) name

/-- The path without its last extension. -/
def withoutExtension (path : String) : String :=
  let name := fileName path
  match dotIndex? name with
  | some i => take (path.length - name.length + i) path
  | none => path

/-- One step of walking a relative path: empty and `.` segments stay, `..` goes up. -/
def step (segments : List String) (segment : String) : Option (List String) :=
  if segment = "" ∨ segment = "." then some segments
  else if segment = ".." then
    if segments.isEmpty then none else some segments.dropLast
  else some (segments ++ [segment])

def segments (dir : String) : List String := (split '/' dir).filter (· ≠ "")

/-- `rel` seen from `dir`; none if it climbs above the root. -/
def join? (dir rel : String) : Option String :=
  ((split '/' rel).foldlM step (segments dir)).map (joinWith "/")

/-- The parts of a path as the file system reads them: repeated slashes and inner `.` do not count. -/
inductive Component
  | root
  | here
  | named (name : String)
  deriving DecidableEq, Repr

/-- The first part of `cs` and the text behind it. -/
def nextNamed : Nat → List Char → Option (String × List Char)
  | 0, _ => none
  | fuel + 1, cs =>
    if cs.isEmpty then none
    else
      let piece := cs.takeWhile (· ≠ '/')
      let rest := (cs.dropWhile (· ≠ '/')).drop 1
      if piece.isEmpty || piece == ['.'] then nextNamed fuel rest
      else some (String.ofList piece, rest)

def startsHere (cs : List Char) : Bool := cs == ['.'] || ['.', '/'].isPrefixOf cs

def componentsFrom : Nat → List Char → List Component
  | 0, _ => []
  | fuel + 1, cs => match nextNamed (fuel + 1) cs with
    | some (name, rest) => .named name :: componentsFrom fuel rest
    | none => []

def components (path : String) : List Component :=
  match path.toList with
  | '/' :: rest => .root :: componentsFrom path.length rest
  | cs => if startsHere cs then .here :: componentsFrom path.length (cs.drop 1)
    else componentsFrom path.length cs

/-- Drops leading slashes and `.` segments. -/
def trimLeft : Nat → List Char → List Char
  | 0, cs => cs
  | fuel + 1, cs =>
    let piece := cs.takeWhile (· ≠ '/')
    if cs.isEmpty then cs
    else if piece.isEmpty || piece == ['.'] then trimLeft fuel ((cs.dropWhile (· ≠ '/')).drop 1)
    else cs

/-- Drops trailing slashes and `.` segments behind the first `kept` characters. -/
def trimRight (kept : Nat) : Nat → List Char → List Char
  | 0, cs => cs
  | fuel + 1, cs =>
    if cs.length ≤ kept then cs
    else
      let body := cs.drop kept
      let last := (body.reverse.takeWhile (· ≠ '/')).reverse
      if last.isEmpty || last == ['.'] then
        let extra := if body.contains '/' then 1 else 0
        trimRight kept fuel (cs.take (cs.length - (last.length + extra)))
      else cs

/-- The text behind the first `n` parts. -/
def dropComponents : Nat → List Char → List Char
  | 0, cs => cs
  | n + 1, cs => match nextNamed (cs.length + 1) cs with
    | some (_, rest) => dropComponents n rest
    | none => []

/-- The text of `path` behind the parts of `root`, if its parts start with those of `root`. -/
def stripRoot? (root path : String) : Option String :=
  let rootParts := components root
  let cs := path.toList
  if rootParts.isPrefixOf (components path) then
    if rootParts.isEmpty then
      let kept := if cs.head? = some '/' || startsHere cs then 1 else 0
      some (String.ofList (trimRight kept cs.length cs))
    else
      let special := cs.head? = some '/' || startsHere cs
      let body := if special then cs.drop 1 else cs
      let count := if special then rootParts.length - 1 else rootParts.length
      let rest := dropComponents count body
      some (String.ofList (trimRight 0 rest.length (trimLeft (rest.length + 1) rest)))
  else none

/-- `path` relative to `root`, with forward slashes; a path outside `root` stays whole. -/
def relativeTo (root path : String) : String :=
  normalize ((stripRoot? root path).getD path)

/-- `child` under `dir`, with one slash between them. -/
def under (dir child : String) : String :=
  if dir = "" then child
  else if endsWith "/" dir then dir ++ child
  else dir ++ "/" ++ child

end SymbolGraph.Path
