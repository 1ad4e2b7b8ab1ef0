import SymbolGraph.Config
import SymbolGraph.Crate.ModulePath
import SymbolGraph.Ordered.KeyMap
import SymbolGraph.Ordered.KeySet

/-!
# Import specifiers

A specifier stands for a project file or for something outside the project. Only known files are ever
found; the file system is not asked.
-/
namespace SymbolGraph
open Text

/-- Endings that a specifier may leave out, in the order in which they are tried. -/
def resolvedEndings : List String := [".ts", ".tsx", ".js", ".jsx", ".mjs", ".cjs", ".d.ts"]

/-- Endings that may be written for another one. -/
def writtenEndings : List (String × String) :=
  [(".js", ".ts"), (".js", ".tsx"), (".jsx", ".tsx"), (".mjs", ".mts"), (".cjs", ".cts")]

/-- What specifiers are resolved against. -/
structure Resolver where
  /-- Starts of specifiers with the directories they stand for, longer starts first. -/
  aliases : List (String × List String) := []
  baseDir : Option String := none
  files : KeySet := .empty
  deriving Inhabited

namespace Resolver

def trimStars (s : String) : String := trimEnd (· == '*') s

/-- Longer starts come first, equally long ones in order of their text. -/
def aliasBefore (a b : String × List String) : Bool :=
  b.1.utf8ByteSize < a.1.utf8ByteSize || (a.1.utf8ByteSize == b.1.utf8ByteSize && a.1 ≤ b.1)

/-- A resolver for the given aliases, whose trailing stars do not count. -/
def make (aliases : KeyMap (List String)) (baseDir : Option String) (files : List String) : Resolver :=
  { aliases := (aliases.toList.map fun (start, targets) =>
      (trimStars start, targets.map trimStars)).mergeSort aliasBefore
    baseDir := baseDir.map (trimBoth (· == '/'))
    files := .ofList files }

def modules (r : Resolver) : Crate.ModuleIndex := .ofFiles r.files.toList

/-- The files that a path may stand for, in order: the file itself, one whose ending was written
differently, one with an ending left out, and the index of a directory. -/
def candidates (base : String) : List String :=
  [base] ++
  writtenEndings.filterMap (fun (written, actual) => (dropEnd? written base).map (· ++ actual)) ++
  resolvedEndings.map (base ++ ·) ++ resolvedEndings.map (base ++ "/index" ++ ·)

/-- The first known file that a path stands for. -/
def firstExisting? (r : Resolver) (base : String) : Option String :=
  let base := trimEnd (· == '/') base
  if base == "" then none else (candidates base).find? r.files.contains

/-- The file that a specifier reaches through an alias target. -/
def throughTarget? (r : Resolver) (rest target : String) : Option String := do
  r.firstExisting? (← if rest == "" then Path.join? "" target
    else Path.join? (trimEnd (· == '/') target) rest)

def throughAlias? (r : Resolver) (specifier : String) : Option String :=
  r.aliases.findSome? fun (start, targets) => do
    let rest ← dropStart? start specifier
    targets.findSome? (r.throughTarget? rest)

def isRelative (specifier : String) : Bool :=
  startsWith "./" specifier || startsWith "../" specifier || specifier == "." || specifier == ".."

/-- The file that a script means by a specifier: relative to itself, from the root, through an alias,
or below the base directory. -/
def script? (r : Resolver) (specifier source : String) : Option String :=
  if isRelative specifier then (Path.join? (Path.parent source) specifier).bind r.firstExisting?
  else if startsWith "/" specifier then r.firstExisting? (trimStart (· == '/') specifier)
  else r.throughAlias? specifier <|> do
    r.firstExisting? (← Path.join? (← r.baseDir) specifier)

end Resolver
/-- The resolver for the specifiers of a project with the given files. -/
def Config.resolver (c : Config) (files : List String) : Resolver :=
  Resolver.make c.aliases c.baseDir files

end SymbolGraph
