import SymbolGraph.Script.Kind
import SymbolGraph.Tree.Source

/-!
# Reading tokens of a script

Tokens are read on demand at a cursor, because what a slash, an angle bracket or a backquote means
depends on the grammar around it. Blanks and comments in front of a token are skipped; the comments
are remembered for the tree.
-/
namespace SymbolGraph.Script

/-- Plain scripts have type assertions in angle brackets, scripts with markup have elements. -/
inductive Dialect
  | plain
  | markup
  deriving DecidableEq, Repr, Inhabited

structure Env where
  source : Source
  dialect : Dialect
  /-- Whether a colon behind parentheses may start the result type of an arrow function. -/
  typedArrows : Bool := true

structure Cursor where
  pos : Nat
  /-- The comments passed so far, the latest first. -/
  comments : List Span := []

abbrev Parse := ReaderT Env (StateT Cursor Option)

/-- Blank characters between tokens. -/
def isSpace (c : Char) : Bool :=
  let n := c.toNat
  (9 ≤ n && n ≤ 13) || n == 0x20 || n == 0xA0 || n == 0x1680 || (0x2000 ≤ n && n ≤ 0x200B) ||
  n == 0x2028 || n == 0x2029 || n == 0x202F || n == 0x205F || n == 0x2060 || n == 0x3000 ||
  n == 0xFEFF

def isLineEnd (c : Char) : Bool :=
  c == '\n' || c == '\r' || c.toNat == 0x2028 || c.toNat == 0x2029

/-- Any character that is no blank, digit, control or punctuation character may start a name. -/
def isNameStart (c : Char) : Bool :=
  !(c.toNat < 0x20 || isSpace c || c.isDigit || ":;`\"'@#.,|^&<=>+-*/\\%?!~()[]\x7b\x7d".toList.contains c)

def isNamePart (c : Char) : Bool := isNameStart c || c.isDigit

/-- The offset behind a name at `i`, or `i` itself. -/
def nameEnd (src : Source) (i : Nat) : Nat :=
  match src.get? i with
  | some c =>
    if isNameStart c then src.skipWhile isNamePart i
    else if c == '\\' && src.get? (i + 1) == some 'u' then
      src.skipWhile (fun c => isNamePart c || c == '\\' || c == '\x7b' || c == '\x7d') i
    else i
  | none => i

/-- The offset behind the end of a block comment whose body starts at `i`. -/
def blockCommentEnd (src : Source) : Nat → Nat → Nat
  | 0, i => i
  | fuel + 1, i =>
    if src.get? i == some '*' && src.get? (i + 1) == some '/' then i + 2
    else if i < src.size then blockCommentEnd src fuel (i + 1) else i

def spanOf (src : Source) (start stop : Nat) : Span :=
  ⟨start, stop, src.lineAt start, src.lineAt stop⟩

/-- Passes blanks and comments. -/
def skipTrivia (src : Source) : Nat → Cursor → Cursor
  | 0, cur => cur
  | fuel + 1, cur =>
    let i := src.skipWhile isSpace cur.pos
    if src.get? i == some '/' && src.get? (i + 1) == some '/' then
      let stop := src.skipWhile (fun c => !isLineEnd c) i
      skipTrivia src fuel ⟨stop, spanOf src i stop :: cur.comments⟩
    else if src.get? i == some '/' && src.get? (i + 1) == some '*' then
      let stop := blockCommentEnd src (src.size - i) (i + 2)
      skipTrivia src fuel ⟨stop, spanOf src i stop :: cur.comments⟩
    else { cur with pos := i }

def punctuators : List String :=
  [">>>=", "...", "===", "!==", "**=", "<<=", ">>=", ">>>", "&&=", "||=", "??=", "=>", "==", "!=",
   "<=", ">=", "&&", "||", "??", "?.", "++", "--", "+=", "-=", "*=", "/=", "%=", "&=", "|=", "^=",
   "<<", ">>", "**", "\x7b", "\x7d", "(", ")", "[", "]", ";", ",", "<", ">", "+", "-", "*", "/", "%", "&",
   "|", "^", "!", "~", "?", ":", "=", ".", "@", "#"]

/-- The longest punctuation mark at `i`; a question mark before a decimal is no optional chain. -/
def punctuatorAt (src : Source) (i : Nat) : Option String :=
  match punctuators.find? fun p => src.standsAt i p.toList with
  | some "?." => if (src.get? (i + 2)).any Char.isDigit then some "?" else some "?."
  | other => other

namespace Parse

def fail {α : Type} : Parse α := failure

def source : Parse Source := return (← read).source

def position : Parse Nat := return (← get).pos

def seek (pos : Nat) : Parse Unit := modify fun cur => { cur with pos }

/-- Passes blanks and comments in front of the next token. -/
def trivia : Parse Unit := do
  let src ← source
  modify fun cur => skipTrivia src (src.size + 1 - cur.pos) cur

/-- Runs `p` and puts the cursor back. -/
def peek {α : Type} (p : Parse α) : Parse α := do
  let cur ← get
  let a ← p
  set cur
  return a

/-- Whether `p` succeeds here; the cursor stays. -/
def test {α : Type} (p : Parse α) : Parse Bool := do
  let cur ← get
  let found ← (do let _ ← p; return true) <|> return false
  set cur
  return found

/-- The result of `p`, or none with the cursor where it was. -/
def attempt {α : Type} (p : Parse α) : Parse (Option α) :=
  (some <$> p) <|> return none

/-- The children of `p` if it succeeds, else none. -/
def optional (p : Parse (List Node)) : Parse (List Node) := p <|> return []

def guard (b : Bool) : Parse Unit := if b then return () else fail

/-- A node without children from `start` up to `stop`; the cursor moves behind it. -/
def leaf (kind : Kind) (start stop : Nat) : Parse Node := do
  let src ← source
  seek stop
  return .node kind none (src.slice start stop) (spanOf src start stop) []

/-- A node over the given children. -/
def phrase (kind : Kind) (children : List Node) : Parse Node := do
  let src ← source
  let pos ← position
  let start := (children.head?.map (·.span.start)).getD pos
  let stop := (children.getLast?.map (·.span.stop)).getD pos
  return .node kind none (src.slice start stop) (spanOf src start stop) children

/-- The character of the next token. -/
def nextChar : Parse (Option Char) := do
  trivia
  return (← source).get? (← position)

/-- The name or keyword that comes next, empty if there is none. -/
def nextWord : Parse String := do
  trivia
  let src ← source
  let i ← position
  return src.slice i (nameEnd src i)

/-- The punctuation mark that comes next. -/
def nextMark : Parse (Option String) := do
  trivia
  return punctuatorAt (← source) (← position)

def peekWord : Parse String := peek nextWord
def peekMark : Parse (Option String) := peek nextMark
def peekChar : Parse (Option Char) := peek nextChar

/-- A given keyword. -/
def word (spelling : String) : Parse Node := do
  let w ← nextWord
  guard (w == spelling)
  let i ← position
  leaf .token i (i + spelling.length)

/-- A given keyword as a node of its own kind. -/
def wordAs (kind : Kind) (spelling : String) : Parse Node := do
  let w ← nextWord
  guard (w == spelling)
  let i ← position
  leaf kind i (i + spelling.length)

/-- A given punctuation mark, not part of a longer one. -/
def mark (spelling : String) : Parse Node := do
  let m ← nextMark
  guard (m == some spelling)
  let i ← position
  leaf .token i (i + spelling.length)

/-- A given character, whatever longer mark it may start. -/
def char (c : Char) : Parse Node := do
  let d ← nextChar
  guard (d == some c)
  let i ← position
  leaf .token i (i + 1)

/-- One of several marks. -/
def markOf (spellings : List String) : Parse Node := do
  let m ← nextMark
  match m with
  | some m =>
    guard (spellings.contains m)
    let i ← position
    leaf .token i (i + m.length)
  | none => fail

/-- Any name, reserved or not, as a node of the given kind. -/
def anyName (kind : Kind) : Parse Node := do
  trivia
  let src ← source
  let i ← position
  let stop := nameEnd src i
  guard (i < stop)
  leaf kind i stop

/-- Repeats `p` until it fails or stands still. -/
def many {α : Type} (p : Parse α) : Parse (List α) := fun env cur =>
  let rec go : Nat → Cursor → List α → Option (List α × Cursor)
    | 0, cur, acc => some (acc.reverse, cur)
    | fuel + 1, cur, acc => match p env cur with
      | some (a, next) => if cur.pos < next.pos then go fuel next (a :: acc) else some (acc.reverse, cur)
      | none => some (acc.reverse, cur)
  go (env.source.size + 1 - cur.pos) cur []

/-- Items with separators between them, separators included in the result. -/
def separated (sep : Parse Node) (item : Parse Node) : Parse (List Node) := do
  match ← attempt item with
  | none => return []
  | some first =>
    let rest ← many (do return [← sep, ← item])
    return first :: rest.flatten

/-- At least one item. -/
def separated1 (sep : Parse Node) (item : Parse Node) : Parse (List Node) := do
  let items ← separated sep item
  guard !items.isEmpty
  return items

/-- Whether a line ends between the end of the last token and the next one. -/
def lineBreakAhead : Parse Bool := do
  let src ← source
  let here ← position
  let next ← peek (do trivia; position)
  return (src.chars.extract here next).any isLineEnd

/-- The end of a statement where no semicolon is written: before a closing brace, at the end of the
text, or at a line end unless the next line goes on with the phrase. An opening parenthesis or
bracket goes on with an expression, but not with a type. -/
def lineEnd (inExpression : Bool) : Parse Unit := do
  let src ← source
  let broken ← lineBreakAhead
  let i ← peek (do trivia; position)
  match src.get? i with
  | none => return ()
  | some '\x7d' => return ()
  | some c =>
    guard broken
    let next := src.get? (i + 1)
    let continues :=
      if "`,.;*%><=?^|&/".toList.contains c then true
      else if c == '(' || c == '[' then inExpression
      else if c == '+' then next != some '+'
      else if c == '-' then next != some '-'
      else if c == '!' then next == some '='
      else
        let w := src.slice i (nameEnd src i)
        w == "in" || w == "instanceof"
    guard !continues

/-- A semicolon, written or implied. -/
def semicolon (inExpression : Bool) : Parse (List Node) :=
  (do return [← mark ";"]) <|> (do lineEnd inExpression; return [])

end Parse
end SymbolGraph.Script
