import SymbolGraph.Crate.Grammar.Patterns

/-!
# Expressions of Rust
-/
namespace SymbolGraph.Crate.Parse

def expressionList (self : Self) : Parse (List Node) := commaList (self (.expression true))

/-- A block as an expression. -/
def blockExpression (self : Self) : Parse Node :=
  phrase .blockExpression do
    let (attrs, body) ← bodyBlock self
    return attrs ++ [body]

/-! ## Atoms -/

/-- One field of a struct literal; a name alone stands for the variable of that name. -/
def fieldValue (self : Self) : Parse Node := phrase .fieldValue do
  let attrs ← attributes self
  let (n, isNamed) ← member
  if !isNamed || (← test (atMark ":")) then
    mark ":"
    return attrs ++ [← self (.expression true)]
  else
    let p : Node := .node .path none "" n.span [.node .segment none n.text n.span []]
    return attrs ++ [.node .pathExpression none "" n.span [p]]

/-- The fields of a struct literal, with the value that gives the others. -/
def fieldValues (self : Self) : Parse (List Node) := do
  let found ← untilEnd do
    if ← test (atMark "..") then
      mark ".."
      if ← isEmpty then return []
      let base ← self (.expression true)
      guard (← isEmpty)
      return [base]
    else
      let f ← fieldValue self
      if !(← isEmpty) then mark ","
      return [f]
  return found.flatten

/-- An expression that starts with a path: a variable, a macro call or a struct literal. -/
def pathExpression (self : Self) (structs : Bool) : Parse Node := phraseOf do
  let parts ← qualifiedPath self true
  match parts with
  | [p] =>
    if (← test atBang) && isPlainPath p then
      mark "!"
      let (call, hasBraces) ← invocationRest self p
      -- the role tells a call with braces, which may end a statement
      return (.invocationExpression, [if hasBraces then call.withRole .body else call])
    else rest parts
  | _ => rest parts
where
  rest (parts : List Node) : Parse (Kind × List Node) := do
    if structs && (← test atBrace) then
      return (.structExpression, parts ++ (← inside .brace (fieldValues self)))
    else return (.pathExpression, parts)

def parenthesized (self : Self) : Parse Node := phraseOf do
  inside .parenthesis do
    if ← isEmpty then return (.tupleExpression, [])
    let first ← self (.expression true)
    if ← isEmpty then return (.parenthesizedExpression, [first])
    else
      mark ","
      return (.tupleExpression, first :: (← expressionList self))

def arrayExpression (self : Self) : Parse Node := phrase .arrayExpression do
  inside .bracket do
    if ← isEmpty then return []
    let first ← self (.expression true)
    if ← isEmpty then return [first]
    else if ← optionalMark ";" then return [first, ← self (.expression true)]
    else
      mark ","
      return first :: (← expressionList self)

/-- One parameter of a closure. -/
def closureParameter (self : Self) : Parse Node := do
  let attrs ← attributes self
  phraseOf do
    let p ← self .pattern
    if ← optionalMark ":" then return (.typedPattern, attrs ++ [p, ← self (.type true)])
    else return (p.kind, attrs ++ p.children)

def closure (self : Self) (structs : Bool) : Parse Node := phrase .closure do
  let lifetimes ← boundLifetimes self
  let _ ← optionalWord "const"
  let _ ← optionalWord "static"
  let _ ← optionalWord "async"
  let _ ← optionalWord "move"
  mark "|"
  let inputs ← joined "," (atMark "|") (closureParameter self)
  mark "|"
  let front := lifetimes.getD [] ++ inputs.map (Tree.withRole .parameter)
  if ← optionalMark "->" then
    let output ← self (.type true)
    let body ← phrase .blockExpression (return [(← self (.block false)).withRole .body])
    return front ++ [output.withRole .output, body.withRole .body]
  else
    let body ← self (.expression structs)
    return front ++ [body.withRole .body]

/-- `if` with its branches. -/
def ifExpression (self : Self) : Parse Node := phrase .ifExpression do
  word "if"
  let condition ← self (.expression false)
  let yes ← self (.block false)
  let no ← if ← optionalWord "else" then
      if ← test (atWord "if") then pure [← self .ifExpression]
      else
        guard (← test atBrace)
        pure [← phrase .blockExpression (return [(← self (.block false)).withRole .body])]
    else pure []
  return [condition, yes] ++ no

def whileLoop (self : Self) : Parse Node := phrase .loopExpression do
  word "while"
  let condition ← self (.expression false)
  let (attrs, body) ← bodyBlock self
  return attrs ++ [condition, body]

def endlessLoop (self : Self) : Parse Node := phrase .loopExpression do
  word "loop"
  let (attrs, body) ← bodyBlock self
  return attrs ++ [body]

def forLoop (self : Self) : Parse Node := phrase .forLoop do
  word "for"
  let p ← self .patterns
  word "in"
  let source ← self (.expression false)
  let (attrs, body) ← bodyBlock self
  return attrs ++ [source.withRole .value,
    .node .loopBody (some .body) "" body.span [p.withRole .pattern, body]]

/-- Kinds of expressions that need no comma or semicolon behind them. -/
def endsWithBlock : Kind → Bool
  | .ifExpression | .matchExpression | .blockExpression | .loopExpression | .forLoop => true
  | _ => false

def arm (self : Self) : Parse Node := phrase .arm do
  let attrs ← attributes self
  let p ← self .patterns
  let guard_ ← if ← optionalWord "if" then pure [(← self (.expression true)).withRole .guard] else pure []
  mark "=>"
  let body ← self .statementExpression
  if ← isEmpty then pure ()
  else if endsWithBlock body.kind then discard (optionalMark ",")
  else mark ","
  return attrs ++ [p.withRole .pattern] ++ guard_ ++ [body.withRole .body]

def matchExpression (self : Self) : Parse Node := phrase .matchExpression do
  word "match"
  let subject ← self (.expression false)
  let (attrs, arms) ← inside .brace do
    let attrs ← innerAttributes self
    return (attrs, ← untilEnd (arm self))
  return attrs ++ subject :: arms

def letExpression (self : Self) : Parse Node := phrase .letExpression do
  word "let"
  let p ← self .patterns
  mark "="
  let value ← self (.comparison)
  return [value.withRole .value, p.withRole .pattern]

/-- A loop or block behind a label. -/
def labeled (self : Self) : Parse Node := do
  lifetime
  mark ":"
  if ← test (atWord "while") then whileLoop self
  else if ← test (atWord "for") then forLoop self
  else if ← test (atWord "loop") then endlessLoop self
  else
    guard (← test atBrace)
    blockExpression self

/-- Whether an expression may start here. -/
def startsExpression (ts : List Token) : Bool :=
  (atAnyWord ts && !atWord "as" ts) || atParen ts || atBracket ts || atBrace ts || atLiteral ts ||
  (atMark "!" ts && !atMark "!=" ts) ||
  (atMark "-" ts && !atMark "-=" ts && !atMark "->" ts) ||
  (atMark "*" ts && !atMark "*=" ts) || (atMark "|" ts && !atMark "|=" ts) ||
  (atMark "&" ts && !atMark "&=" ts) || atMark ".." ts ||
  (atMark "<" ts && !atMark "<=" ts && !atMark "<<=" ts) || atMark "::" ts || atLifetime ts ||
  atMark "#" ts

/-- `return` and `yield` with the value they give. -/
def valueJump (self : Self) : Parse Node := phrase .jumpExpression do
  skip
  if ← test startsExpression then return [← self (.expression true)] else return []

def breakExpression (self : Self) (structs : Bool) : Parse Node := phrase .jumpExpression do
  word "break"
  if ← test atLifetime then
    guard !(← test fun ts => atMark ":" (ts.drop 1))
    lifetime
  if ← test (fun ts => startsExpression ts && (structs || !atBrace ts)) then
    return [← self (.expression structs)]
  else return []

/-- Whether a closure starts here. -/
def startsClosure (ts : List Token) : Bool :=
  atMark "|" ts || atWord "move" ts ||
  (atWord "for" ts && atMark "<" (ts.drop 1) && (atLifetime (ts.drop 2) || atMark ">" (ts.drop 2))) ||
  (atWord "const" ts && !atBrace (ts.drop 1)) || atWord "static" ts ||
  (atWord "async" ts && (atMark "|" (ts.drop 1) || atWord "move" (ts.drop 1)))

def startsAsyncBlock (ts : List Token) : Bool :=
  atWord "async" ts && (atBrace (ts.drop 1) || (atWord "move" (ts.drop 1) && atBrace (ts.drop 2)))

/-- A block behind a word such as `unsafe`. -/
def wordBlock (self : Self) (w : String) : Parse Node := phrase .blockExpression do
  word w
  let (attrs, body) ← bodyBlock self
  return attrs ++ [body]

/-- Whether the end of a range is left out. -/
def endsRange (structs : Bool) (ts : List Token) : Bool :=
  ts.isEmpty || atMark "," ts || atMark ";" ts || (atMark "." ts && !atMark ".." ts) ||
  atMark "?" ts || atMark "=>" ts || (!structs && atBrace ts) || atMark "=" ts || atMark "+" ts ||
  atMark "/" ts || atMark "%" ts || atMark "^" ts || atMark ">" ts || atMark "<=" ts ||
  atMark "!=" ts || atMark "-=" ts || atMark "*=" ts || atMark "&=" ts || atMark "|=" ts ||
  atMark "<<=" ts || atWord "as" ts

/-- An expression without operators around it. -/
def atom (self : Self) (structs : Bool) : Parse Node := do
  let at_ (w : String) : Parse Bool := test (atWord w)
  if ← test atLiteral then phrase .plainExpression (do literal; return [])
  else if ← test startsAsyncBlock then
    phrase .asyncExpression (do
      skip
      let _ ← optionalWord "move"
      return [(← self (.block false)).withRole .body])
  else if ← test (fun ts => atWord "try" ts && atBrace (ts.drop 1)) then
    phrase .blockExpression (do
      skip
      return [(← self (.block false)).withRole .body])
  else if ← test startsClosure then closure self structs
  else if ← test (fun ts => atName ts || atMark "::" ts || atMark "<" ts ||
      ["self", "Self", "super", "crate"].any (atWord · ts) ||
      (atWord "try" ts && (atMark "!" (ts.drop 1) || atMark "::" (ts.drop 1)))) then
    pathExpression self structs
  else if ← test atParen then parenthesized self
  else if ← at_ "break" then breakExpression self structs
  else if ← at_ "continue" then phrase .jumpExpression (do skip; optionalLifetime; return [])
  else if ← at_ "return" then valueJump self
  else if ← at_ "become" then
    -- the call that takes its place has no meaning here
    phrase .jumpExpression (do skip; discard (self (.expression true)); return [])
  else if ← test atBracket then arrayExpression self
  else if ← at_ "let" then letExpression self
  else if ← at_ "if" then ifExpression self
  else if ← at_ "while" then whileLoop self
  else if ← at_ "for" then forLoop self
  else if ← at_ "loop" then endlessLoop self
  else if ← at_ "match" then matchExpression self
  else if ← at_ "yield" then valueJump self
  else if ← at_ "unsafe" then wordBlock self "unsafe"
  else if ← at_ "const" then wordBlock self "const"
  else if ← test atBrace then blockExpression self
  else if ← test (atMark "..") then
    phrase .rangeExpression (do
      let closed ← rangeMark
      if !closed && (← test (endsRange structs)) then return []
      else return [← self (.rangeEnd structs)])
  else if ← at_ "_" then phrase .plainExpression (do skip; return [])
  else if ← test atLifetime then labeled self
  else fail

/-! ## Accesses and calls -/

/-- Extends a node by a step that starts where it starts. -/
def extendNode (kind : Kind) (first : Node) (children : List Node) : Parse Node := do
  let stop := (← get).last
  return .node kind none "" ⟨first.span.start, stop.stop, first.span.line, stop.endLine⟩ children

/-- A number such as `0.1` behind a dot stands for two accesses. -/
def atFloat : List Token → Bool
  | .literal .float _ _ :: _ => true
  | _ => false

/-- `.name`, `.name(…)`, `.0` or `.await` behind a dot. -/
def memberStep (self : Self) (object : Node) : Parse Node := do
  mark "."
  if ← test atFloat then
    skip
    extendNode .fieldExpression object [object]
  else if ← optionalWord "await" then extendNode .awaitExpression object [object]
  else
    let (n, isNamed) ← member
    let generics ← if isNamed && (← test (atMark "::")) then
        (do mark "::"; some <$> angleArguments self)
      else pure none
    if isNamed && (generics.isSome || (← test atParen)) then
      let args ← inside .parenthesis (expressionList self)
      let front := [object.withRole .receiver, n.withRole .method] ++ generics.getD []
      extendNode .methodCall object (front ++ args.map (Tree.withRole .argument))
    else extendNode .fieldExpression object [object]

/-- One call, access, index or question mark behind an expression. -/
def trailingStep (self : Self) (e : Node) : Parse Node := do
  if ← test atParen then
    let args ← inside .parenthesis (expressionList self)
    extendNode .callExpression e (e.withRole .function :: args.map (Tree.withRole .argument))
  else if ← test (fun ts => atMark "." ts && !atMark ".." ts && e.kind != .rangeExpression) then
    memberStep self e
  else if ← test atBracket then
    let index ← inside .bracket (self (.expression true))
    extendNode .indexExpression e [e, index]
  else if ← test (fun ts => atMark "?" ts && e.kind != .rangeExpression) then
    mark "?"
    extendNode .operatorExpression e [e]
  else fail

/-- Whether an expression goes on with a call, access, index or question mark. -/
def continuesTrailing (e : Node) (ts : List Token) : Bool :=
  atParen ts || atBracket ts ||
  (e.kind != .rangeExpression && ((atMark "." ts && !atMark ".." ts) || atMark "?" ts))

/-- All calls, accesses, indexes and question marks behind an expression. -/
def trailing (self : Self) (first : Node) : Parse Node := fun cur =>
  let rec go : Nat → Node → Cursor → Option (Node × Cursor)
    | 0, e, cur => some (e, cur)
    | fuel + 1, e, cur =>
      if continuesTrailing e cur.rest then
        match trailingStep self e cur with
        | some (e', next) => go fuel e' next
        | none => none
      else some (e, cur)
  go (cur.rest.length + 1) first cur

/-! ## Operators -/

/-- An expression with operators in front of it. -/
def unary (self : Self) (structs : Bool) : Parse Node := do
  let attrs ← attributes self
  if ← test (atMark "&") then
    phrase .operatorExpression (do
      mark "&"
      let isRaw ← test fun ts => atWord "raw" ts && (atWord "mut" (ts.drop 1) || atWord "const" (ts.drop 1))
      if isRaw then skip
      let isMut ← optionalWord "mut"
      if isRaw && !isMut then word "const"
      return attrs ++ [← self (.unary structs)])
  else if ← test (fun ts => atMark "*" ts || atMark "!" ts || atMark "-" ts) then
    phrase .operatorExpression (do
      skip
      return attrs ++ [← self (.unary structs)])
  else return withAttributes attrs (← trailing self (← atom self structs))

/-- How tight operators bind, the loosest first. -/
inductive Precedence
  | assign
  | range
  | or
  | and
  | compare
  | bitOr
  | bitXor
  | bitAnd
  | shift
  | sum
  | product
  | cast
  deriving DecidableEq, Repr

def Precedence.rank : Precedence → Nat
  | .assign => 1
  | .range => 2
  | .or => 3
  | .and => 4
  | .compare => 5
  | .bitOr => 6
  | .bitXor => 7
  | .bitAnd => 8
  | .shift => 9
  | .sum => 10
  | .product => 11
  | .cast => 12

/-- Operators between two operands, longer spellings before shorter ones. -/
def binaryOperators : List (String × Precedence) :=
  [("<<=", .assign), (">>=", .assign), ("+=", .assign), ("-=", .assign), ("*=", .assign),
   ("/=", .assign), ("%=", .assign), ("^=", .assign), ("&=", .assign), ("|=", .assign),
   ("&&", .and), ("||", .or), ("<<", .shift), (">>", .shift), ("==", .compare), ("<=", .compare),
   ("!=", .compare), (">=", .compare), ("+", .sum), ("-", .sum), ("*", .product), ("/", .product),
   ("%", .product), ("^", .bitXor), ("&", .bitAnd), ("|", .bitOr), ("<", .compare), (">", .compare)]

def binaryOperator? (ts : List Token) : Option (String × Precedence) :=
  binaryOperators.find? fun (spelling, _) => atMark spelling ts

/-- A plain assignment sign, no arrow. -/
def atAssign (ts : List Token) : Bool := atMark "=" ts && !atMark "=>" ts

/-- The precedence of the operator that comes next. -/
def nextPrecedence? (ts : List Token) : Option Precedence :=
  match binaryOperator? ts with
  | some (_, p) => some p
  | none =>
    if atAssign ts then some .assign
    else if atMark ".." ts then some .range
    else if atWord "as" ts then some .cast
    else none

/-- A comparison, which cannot be compared again without parentheses. -/
def isComparison (e : Node) : Bool := e.kind == .binaryExpression && e.text == "compare"

def binaryNode (p : Precedence) (left right : Node) : Node :=
  let text := if p == .compare then "compare" else ""
  let kind := if p == .assign then Kind.assignExpression else .binaryExpression
  .node kind none text ⟨left.span.start, right.span.stop, left.span.line, right.span.endLine⟩
    [left, right]

/-- Behind a cast stands nothing that would extend its type. -/
def castEnds (ts : List Token) : Bool :=
  !((atMark "." ts && !atMark ".." ts) || atMark "?" ts || atBracket ts || atParen ts)

mutual

/-- Goes on with an expression by operators that bind at least as tight as `base`. -/
def operatorsFrom (self : Self) (structs : Bool) : Nat → Nat → Node → Parse Node
  | 0, _, _ => fail
  | fuel + 1, base, left => do
    if left.kind == .rangeExpression then return left
    match binaryOperator? (← ahead) with
    | some (spelling, p) =>
      if p.rank < base then return left
      guard !(p == .compare && isComparison left)
      mark spelling
      let right ← rightOperand self structs fuel p
      operatorsFrom self structs fuel base (binaryNode p left right)
    | none =>
      if Precedence.assign.rank ≥ base && (← test atAssign) then
        mark "="
        let right ← rightOperand self structs fuel .assign
        operatorsFrom self structs fuel base (binaryNode .assign left right)
      else if Precedence.range.rank ≥ base && (← test (atMark "..")) then
        let closed ← rangeMark
        let stop ← if !closed && (← test (endsRange structs)) then pure []
          else pure [← rightOperand self structs fuel .range]
        let e ← extendNode .rangeExpression left (left :: stop)
        operatorsFrom self structs fuel base e
      else if Precedence.cast.rank ≥ base && (← test (atWord "as")) then
        word "as"
        let t ← self (.type false)
        guard (← test castEnds)
        let e ← extendNode .castExpression left [left, t]
        operatorsFrom self structs fuel base e
      else return left

/-- The right operand of an operator, with the tighter operators behind it. -/
def rightOperand (self : Self) (structs : Bool) : Nat → Precedence → Parse Node
  | 0, _ => fail
  | fuel + 1, p => do
    let right ← self (.unary structs)
    tighterFrom self structs fuel p right

/-- Goes on with the right operand as long as tighter operators follow. -/
def tighterFrom (self : Self) (structs : Bool) : Nat → Precedence → Node → Parse Node
  | 0, _, _ => fail
  | fuel + 1, p, right => do
    match nextPrecedence? (← ahead) with
    | some q =>
      if p.rank < q.rank || (q == p && p == .assign) then
        let before := (← ahead).length
        let right ← operatorsFrom self structs fuel q.rank right
        if (← ahead).length == before then return right
        else tighterFrom self structs fuel p right
      else return right
    | none => return right

end

/-- A bound on the operators in the tokens ahead. -/
def operatorFuel : Parse Nat := return 4 * ((← ahead).length + 2)

/-- An expression of any form. -/
def expression (self : Self) (structs : Bool) : Parse Node := do
  let left ← self (.unary structs)
  operatorsFrom self structs (← operatorFuel) 0 left

/-- What a pattern is compared with: operators that bind looser than comparisons end it. -/
def comparison (self : Self) : Parse Node := do
  let left ← self (.unary false)
  operatorsFrom self false (← operatorFuel) Precedence.compare.rank left

/-- The end of a range. -/
def rangeEnd (self : Self) (structs : Bool) : Parse Node := do
  rightOperand self structs (← operatorFuel) .range

/-- Whether a statement starts with an expression that ends with its block. -/
def startsBlockLike (ts : List Token) : Bool :=
  atWord "if" ts || atWord "while" ts || (atWord "for" ts && !atMark "<" (ts.drop 1)) ||
  atWord "loop" ts || atWord "match" ts || (atWord "try" ts && atBrace (ts.drop 1)) ||
  atWord "unsafe" ts || (atWord "const" ts && atBrace (ts.drop 1)) || atBrace ts || atLifetime ts

/-- An expression as a statement: one that ends with a block goes on only by an access or a question
mark. -/
def statementExpression (self : Self) : Parse Node := do
  let start ← get
  let attrs ← attributes self
  if ← test startsBlockLike then
    let e ← atom self true
    if ← test (fun ts => (atMark "." ts && !atMark ".." ts) || atMark "?" ts) then
      let e ← trailing self e
      operatorsFrom self true (← operatorFuel) 0 (withAttributes attrs e)
    else return withAttributes attrs e
  else
    -- the attributes belong to the first operand, which reads them itself
    set start
    self (.expression true)

end SymbolGraph.Crate.Parse
