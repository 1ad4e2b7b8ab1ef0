import SymbolGraph.Script.Grammar.Modules

/-!
# Statements of scripts
-/
namespace SymbolGraph.Script.Parse

def block (self : Self) : Parse Node := do
  let l ← mark "\x7b"
  let body ← many (self .statement)
  let r ← mark "\x7d"
  phrase .statementBlock (l :: body ++ [r])

def condition (self : Self) : Parse Node := do
  let l ← mark "("
  let value ← self (.expressions false)
  let r ← mark ")"
  phrase .parenthesizedExpression [l, value, r]

def ifStatement (self : Self) : Parse Node := do
  let kw ← word "if"
  let c ← condition self
  let yes ← self .statement
  let no ← optional (do
    let kw ← word "else"
    let s ← self .statement
    return [(← phrase .elseClause [kw, s]).withRole .alternative])
  phrase .ifStatement ([kw, c.withRole .condition, yes.withRole .consequence] ++ no)

def switchCase (self : Self) : Parse Node := do
  match ← peekWord with
  | "default" =>
    let kw ← word "default"
    let colon ← mark ":"
    let body ← many (self .statement)
    phrase .switchDefault ([kw, colon] ++ body.map (Tree.withRole .body))
  | _ =>
    let kw ← word "case"
    let value ← self (.expressions false)
    let colon ← mark ":"
    let body ← many (self .statement)
    phrase .switchCase ([kw, value.withRole .value, colon] ++ body.map (Tree.withRole .body))

def switchStatement (self : Self) : Parse Node := do
  let kw ← word "switch"
  let value ← condition self
  let l ← mark "\x7b"
  let cases ← many (switchCase self)
  let r ← mark "\x7d"
  let body ← phrase .switchBody (l :: cases ++ [r])
  phrase .switchStatement [kw, value.withRole .value, body.withRole .body]

/-- `in` or `of` and what is looped over. -/
def loopSource (self : Self) : Parse (List Node) := do
  let w ← peekWord
  guard (w == "in" || w == "of")
  let op ← word w
  let right ← self (.expressions false)
  return [op.withRole .operator, right.withRole .right]

/-- The part of a loop over a collection between its parentheses. -/
def collectionHeader (self : Self) : Parse (List Node) :=
  (do
    let w ← peekWord
    guard (["const", "let", "var"].contains w)
    let kw ← word w
    let left ← self .pattern
    let value ← optional (initializer self true)
    return [kw.withRole .kind, left.withRole .left] ++ value ++ (← loopSource self))
  <|> (do
    let left ← self .leftHand
    guard (isTarget (patternKind left.kind))
    return (toPattern left).withRole .left :: (← loopSource self))

/-- An expression up to a semicolon, or an empty statement. -/
def clause (self : Self) (role : Role) : Parse (List Node) :=
  (do
    let stop ← mark ";"
    return [(← phrase .emptyStatement [stop]).withRole role])
  <|> (do
    let value ← self (.expressions (role == .initializer))
    return [value.withRole role, ← mark ";"])

/-- The part of a counting loop between its parentheses. -/
def countingHeader (self : Self) : Parse (List Node) := do
  let start ← (do
      let (kind, items) ← declarators self true
      let stop ← mark ";"
      return [(← phrase kind (items ++ [stop])).withRole .initializer])
    <|> clause self .initializer
  let test ← clause self .condition
  let step ← optional (do return [(← self (.expressions false)).withRole .increment])
  return start ++ test ++ step

def forStatement (self : Self) : Parse Node := do
  let kw ← word "for"
  let await_ ← optional (do return [← word "await"])
  let l ← mark "("
  let (kind, header) ← (do return (Kind.forInStatement, (← collectionHeader self) ++ [← mark ")"]))
    <|> (do return (Kind.forStatement, (← countingHeader self) ++ [← mark ")"]))
  let body ← self .statement
  phrase kind ([kw] ++ await_ ++ [l] ++ header ++ [body.withRole .body])

def whileStatement (self : Self) : Parse Node := do
  let kw ← word "while"
  let c ← condition self
  let body ← self .statement
  phrase .whileStatement [kw, c.withRole .condition, body.withRole .body]

def withStatement (self : Self) : Parse Node := do
  let kw ← word "with"
  let object ← condition self
  let body ← self .statement
  phrase .withStatement [kw, object.withRole .object, body.withRole .body]

def doStatement (self : Self) : Parse Node := do
  let kw ← word "do"
  let body ← self .statement
  let while_ ← word "while"
  let c ← condition self
  let stop ← optional (do return [← mark ";"])
  phrase .doStatement ([kw, body.withRole .body, while_, c.withRole .condition] ++ stop)

def catchClause (self : Self) : Parse Node := do
  let kw ← word "catch"
  let parameter ← optional (do
    let l ← mark "("
    let p ← self .pattern
    let type ← optional (do return [(← typeAscription self).withRole .type])
    let r ← mark ")"
    return [l, p.withRole .parameter] ++ type ++ [r])
  let body ← self .block
  phrase .catchClause (kw :: parameter ++ [body.withRole .body])

def tryStatement (self : Self) : Parse Node := do
  let kw ← word "try"
  let body ← self .block
  let handler ← optional (do return [(← catchClause self).withRole .handler])
  let finalizer ← optional (do
    let kw ← word "finally"
    let body ← self .block
    return [(← phrase .finallyClause [kw, body.withRole .body]).withRole .finalizer])
  phrase .tryStatement ([kw, body.withRole .body] ++ handler ++ finalizer)

/-- `return` or `throw`, with a value on the same line. -/
def leaveStatement (self : Self) (kind : Kind) (w : String) : Parse Node := do
  let kw ← word w
  match ← attempt (semicolon true) with
  | some stop => phrase kind (kw :: stop)
  | none =>
    let value ← self (.expressions false)
    phrase kind ([kw, value] ++ (← semicolon true))

/-- `break` or `continue`, with a label on the same line. -/
def jumpStatement (kind : Kind) (w : String) : Parse Node := do
  let kw ← word w
  let label ← optional (do
    guard !(← lineBreakAhead)
    let id ← identifier
    return [.node .statementIdentifier (some .label) id.text id.span []])
  phrase kind (kw :: label ++ (← semicolon true))

def emptyStatement : Parse Node := do phrase .emptyStatement [← mark ";"]

def labeledStatement (self : Self) : Parse Node := do
  let id ← identifier
  let colon ← mark ":"
  let body ← self .statement
  let label : Node := .node .statementIdentifier (some .label) id.text id.span []
  phrase .labeledStatement [label, colon, body.withRole .body]

def expressionStatement (self : Self) : Parse Node := do
  let value ← self (.expressions false)
  phrase .expressionStatement (value :: (← semicolon true))

/-- A namespace that is not exported stands as an expression. -/
def namespaceStatement (self : Self) : Parse Node := do
  let space ← namespaceDeclaration self
  phrase .expressionStatement (space :: (← semicolon true <|> return []))

/-- A statement that starts with a reserved word. -/
def wordStatement (self : Self) (w : String) : Parse Node :=
  if w == "import" then importAlias <|> importStatement self <|> expressionStatement self
  else if w == "export" then exportStatement self
  else if w == "if" then ifStatement self
  else if w == "switch" then switchStatement self
  else if w == "for" then forStatement self
  else if w == "while" then whileStatement self
  else if w == "with" then withStatement self
  else if w == "do" then doStatement self
  else if w == "try" then tryStatement self
  else if w == "return" then leaveStatement self .returnStatement w
  else if w == "throw" then leaveStatement self .throwStatement w
  else if w == "break" then jumpStatement .breakStatement w
  else if w == "continue" then jumpStatement .continueStatement w
  else if w == "debugger" then (do phrase .debuggerStatement ((← word w) :: (← semicolon true)))
  else if w == "namespace" then namespaceStatement self <|> expressionStatement self
  else if ["function", "class", "const", "var"].contains w then declaration self
  else if ["async", "abstract", "let", "interface", "type", "enum", "module", "declare"].contains w then
    declaration self <|> labeledStatement self <|> expressionStatement self
  else labeledStatement self <|> expressionStatement self

def statement (self : Self) : Parse Node := do
  match ← peekChar with
  | some '\x7b' => block self
  | some ';' => emptyStatement
  | some '@' => exportStatement self <|> classDeclaration self
  | some _ => wordStatement self (← peekWord)
  | none => fail

end SymbolGraph.Script.Parse
