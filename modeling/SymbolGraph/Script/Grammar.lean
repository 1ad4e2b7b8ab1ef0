import SymbolGraph.Path
import SymbolGraph.Script.Grammar.Statements

/-!
# The grammar of scripts

`parse` reads a text of TypeScript or JavaScript into its syntax tree. Text that no statement can
start with is passed over, so that every text has a tree.
-/
namespace SymbolGraph.Script

/-- One step of the grammar, given how to read the rules below. -/
def Rule.parse (self : Self) : Rule → Parse Node
  | .statement => Parse.statement self
  | .block => Parse.block self
  | .expressions noIn => Parse.expressions self noIn
  | .expression noIn => Parse.expression self noIn
  | .unary => Parse.unary self
  | .leftHand => Parse.leftHand self
  | .pattern => Parse.pattern self
  | .type => Parse.type self
  | .element => Parse.element self
  | .arguments => Parse.arguments self
  | .constructor => Parse.constructorTarget self
  | .decorator => Parse.decorator self

/-- Reads a rule with at most `depth` rules inside each other. -/
def Rule.run : Nat → Rule → Parse Node
  | 0, _ => Parse.fail
  | depth + 1, rule => rule.parse (Rule.run depth)

/-- The first line of a script that names its interpreter. -/
def hashBang : Parse Node := do
  let src ← Parse.source
  Parse.guard (src.standsAt 0 ['#', '!'])
  Parse.leaf .hashBang 0 (src.skipWhile (fun c => !isLineEnd c) 0)

/-- Passes over the rest of a line that no statement explains. -/
def skipLine : Parse Node := do
  Parse.trivia
  let src ← Parse.source
  let i ← Parse.position
  Parse.guard (i < src.size)
  Parse.leaf .error i (max (i + 1) (src.skipWhile (fun c => !isLineEnd c) i))

/-- All statements of a text. -/
def program : Parse Node := do
  let src ← Parse.source
  let front ← Parse.optional (do return [← hashBang])
  let body ← Parse.many (Rule.run (64 * (src.size + 16)) .statement <|> skipLine)
  Parse.trivia
  let start := ((front ++ body).head?.map (·.span.start)).getD (← Parse.position)
  return .node .program none (src.slice start src.size) (spanOf src start src.size) (front ++ body)

mutual

/-- Puts a comment among the children of the innermost node around it. -/
def insertComment (comment : Node) : Node → Node
  | .node kind role text span children =>
    .node kind role text span (insertAmong comment children)

def insertAmong (comment : Node) : List Node → List Node
  | [] => [comment]
  | t :: rest =>
    if comment.span.stop ≤ t.span.start then comment :: t :: rest
    else if t.span.start ≤ comment.span.start && comment.span.stop ≤ t.span.stop then
      if t.children.isEmpty then t :: rest else insertComment comment t :: rest
    else t :: insertAmong comment rest

end

/-- The syntax tree of a text. -/
def parse (dialect : Dialect) (text : String) : Node :=
  let src := Source.ofString text
  match program ⟨src, dialect, true⟩ ⟨0, []⟩ with
  | some (tree, cursor) =>
    let comments := cursor.comments.reverse.map fun span =>
      (.node .comment none (src.slice span.start span.stop) span [] : Node)
    comments.foldl (fun t c => insertComment c t) tree
  | none => .node .program none text (spanOf src 0 src.size) []

/-- Files that end in `.ts` are plain scripts, all others may hold markup. -/
def dialectOf (path : String) : Dialect :=
  if Path.extension? path == some "ts" then .plain else .markup

def parseFile (path text : String) : Node := parse (dialectOf path) text

end SymbolGraph.Script
