import SymbolGraph.Crate.Grammar.Items

/-!
# The grammar of Rust

`parse?` reads the text of a Rust file into its syntax tree and refuses what is no Rust file.
-/
namespace SymbolGraph.Crate

/-- One step of the grammar, given how to read the rules below. -/
def Rule.parse (self : Self) : Rule → Parse Node
  | .item => Parse.item self
  | .block inner => Parse.block self inner
  | .expression structs => Parse.expression self structs
  | .unary structs => Parse.unary self structs
  | .comparison => Parse.comparison self
  | .rangeEnd structs => Parse.rangeEnd self structs
  | .ifExpression => Parse.ifExpression self
  | .statementExpression => Parse.statementExpression self
  | .pattern => Parse.pattern self
  | .patterns => Parse.patterns self
  | .type plus => Parse.type self plus
  | .bound => Parse.bound self
  | .useTree => Parse.useTree self
  | .useGroupTree => Parse.useGroupTree self

/-- Reads a rule with at most `depth` rules inside each other. -/
def Rule.run : Nat → Rule → Parse Node
  | 0, _ => Parse.fail
  | depth + 1, rule => rule.parse (Rule.run depth)

/-- A whole file: attributes of the file, then items. -/
def file (depth : Nat) : Parse Node := Parse.phrase .file do
  let attrs ← Parse.innerAttributes (Rule.run depth)
  return attrs ++ (← Parse.untilEnd (Rule.run depth .item))

/-- The text without a byte order mark and without a first line that names an interpreter. The line
break of that line stays, so that lines keep their numbers. -/
def programText (content : String) : String :=
  let cs := content.toList
  let cs := if cs.head? == some '\ufeff' then cs.tail else cs
  let isInterpreter := cs.take 2 == ['#', '!'] && ((cs.drop 2).dropWhile isGap).head? != some '['
  String.ofList (if isInterpreter then cs.dropWhile (· != '\n') else cs)

/-- A file that was read: its whole text, the part of it that is Rust, and the tree of that part. -/
structure Parsed where
  content : String
  program : Source
  root : Node

/-- The syntax tree of a file; none for a text that is no Rust file. -/
def parse? (content : String) : Option Parsed := do
  let program := Source.ofString (programText content)
  let ts ← tokens? program
  match file (8 * (program.size + 16)) ⟨ts, default⟩ with
  | some (root, ⟨[], _⟩) => some ⟨content, program, root⟩
  | _ => none

end SymbolGraph.Crate
