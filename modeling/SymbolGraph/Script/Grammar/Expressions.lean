import SymbolGraph.Script.Grammar.Functions

/-!
# Expressions of scripts
-/
namespace SymbolGraph.Script.Parse

def spreadElement (self : Self) : Parse Node := do
  let dots ← mark "..."
  let value ← self (.expression false)
  phrase .spreadElement [dots, value]

def arguments (self : Self) : Parse Node :=
  bracketed .arguments "(" ")" (spreadElement self <|> self (.expression false))

def array (self : Self) : Parse Node :=
  bracketed .array "[" "]" (spreadElement self <|> self (.expression false))

/-- A member of an object that is no method: a value under a key, or a name alone. -/
def pairOrShorthand (self : Self) : Parse Node :=
  (do
    let key ← propertyName self
    let colon ← mark ":"
    let value ← self (.expression false)
    phrase .pair [key.withRole .key, colon, value.withRole .value])
  <|> (do
    let id ← identifier
    let short (kind : Kind) : Node := .node kind none id.text id.span []
    match ← attempt (mark "=") with
    | some eq =>
      let value ← self (.expression false)
      phrase .objectAssignmentPattern
        [(short .shorthandPropertyIdentifierPattern).withRole .left, eq, value.withRole .right]
    | none => return short .shorthandPropertyIdentifier)

/-- Whether a method rather than a pair comes next. -/
def methodAhead (self : Self) : Parse Bool := test do
  let _ ← memberModifiers ["static", "readonly", "async", "get", "set"]
  let _ ← optional (do return [← mark "*"])
  let _ ← propertyName self
  let c ← peekChar
  guard (c == some '(' || c == some '<')

def objectMember (self : Self) : Parse Node := do
  if (← peekMark) == some "..." then spreadElement self
  else if ← methodAhead self then methodDefinition self
  else pairOrShorthand self

def object (self : Self) : Parse Node := bracketed .object "\x7b" "\x7d" (objectMember self)

/-- The substitutions of a template, up to its closing quote. -/
def templateParts (self : Self) : Parse (List Node) := fun env cur =>
  let rec go : Nat → Cursor → List Node → Option (List Node × Cursor)
    | 0, _, _ => none
    | fuel + 1, cur, acc => match env.source.get? cur.pos with
      | none => none
      | some c =>
        if c == '\x60' then some (acc.reverse, cur)
        else if c == '\\' then go fuel { cur with pos := cur.pos + 2 } acc
        else if c == '$' && env.source.get? (cur.pos + 1) == some '\x7b' then
          let step : Parse Node := do
            let i ← position
            let l ← leaf .token i (i + 2)
            let value ← self (.expressions false)
            let r ← mark "\x7d"
            phrase .templateSubstitution [l, value, r]
          match step env cur with
          | some (t, next) => go fuel next (t :: acc)
          | none => none
        else go fuel { cur with pos := cur.pos + 1 } acc
  go (env.source.size + 1 - cur.pos) cur []

def templateString (self : Self) : Parse Node := do
  let l ← char '\x60'
  let parts ← templateParts self
  let src ← source
  let i ← position
  guard (src.get? i == some '\x60')
  let r ← leaf .token i (i + 1)
  phrase .templateString (l :: parts ++ [r])

def regexLiteral : Parse Node := do
  trivia
  let src ← source
  let i ← position
  match regexEnd src (src.size - i) false (i + 1) with
  | some stop => leaf .regex i stop
  | none => fail

def parenthesized (self : Self) : Parse Node := do
  let l ← mark "("
  let value ← self (.expressions false)
  let type ← optional (do return [(← typeAscription self).withRole .type])
  let r ← mark ")"
  phrase .parenthesizedExpression ([l, value] ++ type ++ [r])

/-- An arrow function if the parentheses are those of its parameters, else a parenthesized
expression. A colon behind them may start the type of the result. -/
def parenthesizedOrArrow (self : Self) : Parse Node := do
  let behind ← markBehindParens
  if behind == some "=>" then arrowFunction self
  else if behind == some ":" && (← read).typedArrows then arrowFunction self <|> parenthesized self
  else parenthesized self

/-- `new` with its class and arguments; accesses bind to the class, calls do not. -/
def newExpression (self : Self) : Parse Node := do
  let kw ← word "new"
  match ← attempt (mark ".") with
  | some dot =>
    let target ← word "target"
    phrase .metaProperty [kw, dot, target]
  | none =>
    let constructor ← self .constructor
    let generics ← optional (do
      let args ← typeArguments self
      let c ← peekChar
      guard (c == some '(')
      return [args.withRole .typeArguments])
    let args ← optional (do return [(← self .arguments).withRole .arguments])
    phrase .newExpression (kw :: constructor.withRole .constructor :: generics ++ args)

/-- `import(…)` is called, `import.meta` is a value of its own. -/
def importExpression : Parse Node := do
  let kw ← wordAs .importWord "import"
  match ← attempt (mark ".") with
  | some dot =>
    let name ← anyName .token
    phrase .metaProperty [kw, dot, name]
  | none =>
    let c ← peekChar
    guard (c == some '(')
    return kw

/-- A function, an arrow function or a variable that starts with `async`. -/
def asyncExpression (self : Self) : Parse Node := do
  let next ← peek (do let _ ← word "async"; nextWord)
  let broken ← peek (do let _ ← word "async"; lineBreakAhead)
  if next == "function" && !broken then functionExpression self
  else
    let behind ← peek (do let _ ← word "async"; markBehindParens <|> return none)
    if behind == some "=>" || behind == some ":" then arrowFunction self <|> identifier
    else if next != "" && !broken then shortArrowFunction self <|> identifier
    else arrowFunctionAfterGenerics <|> identifier
where
  arrowFunctionAfterGenerics : Parse Node := do
    let c ← peek (do let _ ← word "async"; nextChar)
    guard (c == some '<')
    arrowFunction self

/-- A variable, or an arrow function of one parameter. -/
def nameOrArrow (self : Self) : Parse Node := do
  let arrow ← test (do let _ ← identifier; mark "=>")
  if arrow then shortArrowFunction self else identifier

/-- An expression that starts with a word. -/
def wordExpression (self : Self) (w : String) : Parse Node :=
  if w == "function" then functionExpression self
  else if w == "async" then asyncExpression self
  else if w == "class" then classExpression self
  else if w == "new" then newExpression self
  else if w == "this" then wordAs .this w
  else if w == "super" then wordAs .super w
  else if w == "true" then wordAs .trueLiteral w
  else if w == "false" then wordAs .falseLiteral w
  else if w == "null" then wordAs .nullLiteral w
  else if w == "undefined" then wordAs .undefinedLiteral w
  else if w == "import" then importExpression
  else nameOrArrow self

/-- An expression that starts with an angle bracket: markup, or a function with type parameters. -/
def angleExpression (self : Self) : Parse Node := do
  match (← read).dialect with
  | .markup => self .element <|> arrowFunction self
  | .plain => arrowFunction self

def privateName : Parse Node := do
  let _ ← peek (mark "#")
  trivia
  let src ← source
  let i ← position
  let stop := nameEnd src (i + 1)
  guard (i + 1 < stop)
  leaf .privatePropertyIdentifier i stop

def primary (self : Self) : Parse Node := do
  match ← peekChar with
  | some '(' => parenthesizedOrArrow self
  | some '[' => array self
  | some '\x7b' => object self
  | some '\x60' => templateString self
  | some '/' => regexLiteral
  | some '<' => angleExpression self
  | some '@' => classExpression self
  | some '#' => privateName
  | some c =>
    if c == '"' || c == '\'' then stringLiteral
    else if c.isDigit || c == '.' then numberLiteral
    else wordExpression self (← peekWord)
  | none => fail

/-- The name behind a dot. -/
def memberName : Parse Node := privateName <|> anyName .propertyIdentifier

def subscriptRest (self : Self) : Parse (List Node) := do
  let l ← mark "["
  let index ← self (.expressions false)
  let r ← mark "]"
  return [l, index.withRole .index, r]

/-- `.name` or `[index]` behind an expression. -/
def accessStep (self : Self) (object : Node) : Parse Node :=
  (do
    let dot ← mark "."
    let property ← memberName
    phrase .memberExpression [object.withRole .object, dot, property.withRole .property])
  <|> (do
    let rest ← subscriptRest self
    phrase .subscriptExpression (object.withRole .object :: rest))

/-- `?.` with the access or call behind it. -/
def chainStep (self : Self) (object : Node) : Parse Node := do
  let sign ← mark "?."
  let chain ← phrase .optionalChain [sign]
  match ← peekChar with
  | some '[' =>
    let rest ← subscriptRest self
    phrase .subscriptExpression (object.withRole .object :: chain.withRole .optionalChain :: rest)
  | some '(' =>
    let args ← self .arguments
    phrase .callExpression [object.withRole .function, chain, args.withRole .arguments]
  | some '<' =>
    let generics ← typeArguments self
    let args ← self .arguments
    phrase .callExpression
      [object.withRole .function, chain, generics.withRole .typeArguments, args.withRole .arguments]
  | _ =>
    let property ← memberName
    phrase .memberExpression
      [object.withRole .object, chain.withRole .optionalChain, property.withRole .property]

/-- Whether type arguments may end before the character that comes next: nothing that starts an
expression may follow on the same line. -/
def endsTypeArguments : Parse Bool := do
  if ← lineBreakAhead then return true
  match ← peekChar with
  | none => return true
  | some c => return ")]\x7d,;:?.=&|".toList.contains c

/-- Type arguments behind an expression, with a call if there is one. -/
def genericStep (self : Self) (function : Node) : Parse Node := do
  let generics ← typeArguments self
  match ← peekChar with
  | some '(' =>
    let args ← self .arguments
    phrase .callExpression
      [function.withRole .function, generics.withRole .typeArguments, args.withRole .arguments]
  | some '\x60' =>
    let template ← templateString self
    phrase .callExpression
      [function.withRole .function, generics.withRole .typeArguments, template.withRole .arguments]
  | _ =>
    guard (← endsTypeArguments)
    phrase .instantiationExpression [function.withRole .function, generics.withRole .typeArguments]

/-- A call, a tagged template, an assertion that a value is there, or type arguments. -/
def callStep (self : Self) (function : Node) : Parse Node := do
  match ← peekChar with
  | some '(' =>
    let args ← self .arguments
    phrase .callExpression [function.withRole .function, args.withRole .arguments]
  | some '\x60' =>
    let template ← templateString self
    phrase .callExpression [function.withRole .function, template.withRole .arguments]
  | some '!' =>
    guard !(← lineBreakAhead)
    let sign ← mark "!"
    phrase .nonNullExpression [function, sign]
  | some '<' => genericStep self function
  | _ => fail

/-- Applies `step` as often as it goes. -/
def extend (step : Node → Parse Node) (first : Node) : Parse Node := fun env cur =>
  let rec go : Nat → Node → Cursor → Node × Cursor
    | 0, t, cur => (t, cur)
    | fuel + 1, t, cur => match step t env cur with
      | some (t', next) => go fuel t' next
      | none => (t, cur)
  some (go (env.source.size + 1 - cur.pos) first cur)

/-- A primary expression with its accesses and calls. -/
def leftHand (self : Self) : Parse Node := do
  let first ← primary self
  if first.kind == .arrowFunction then return first
  extend (fun t => accessStep self t <|> chainStep self t <|> callStep self t) first

/-- What stands behind `new`: a primary expression with accesses only. -/
def constructorTarget (self : Self) : Parse Node := do
  let first ← primary self
  extend (fun t => accessStep self t) first

def prefixOperators : List String := ["!", "~", "-", "+"]

def typeAssertion (self : Self) : Parse Node := do
  let generics ← typeArguments self
  let value ← self .unary
  phrase .typeAssertion [generics, value]

/-- An expression with the operator `++` or `--` behind it, if there is one. -/
def updated (self : Self) : Parse Node := do
  let value ← leftHand self
  let broken ← lineBreakAhead
  if broken then return value
  match ← attempt (markOf ["++", "--"]) with
  | some op => phrase .updateExpression [value.withRole .argument, op.withRole .operator]
  | none => return value

/-- An operator in front of its argument. -/
def operated (self : Self) (kind : Kind) (op : Node) : Parse Node := do
  let value ← self .unary
  phrase kind [op.withRole .operator, value.withRole .argument]

/-- A word that is an operator rather than a name. -/
def operatorWord (self : Self) (w : String) : Parse Node := do
  let op ← word w
  if w == "await" then
    let value ← self .unary
    phrase .awaitExpression [op, value]
  else operated self .unaryExpression op

def unary (self : Self) : Parse Node := do
  match ← peekMark with
  | some m =>
    if prefixOperators.contains m then operated self .unaryExpression (← mark m)
    else if m == "++" || m == "--" then operated self .updateExpression (← mark m)
    else if m == "<" && (← read).dialect == .plain then updated self <|> typeAssertion self
    else updated self
  | none =>
    let w ← peekWord
    if ["typeof", "void", "delete"].contains w then operatorWord self w
    else if w == "await" then operatorWord self w <|> updated self
    else updated self

/-- Binary operators by precedence, the tightest first. -/
def binaryLevels : List (List String) :=
  [["**"], ["*", "/", "%"], ["+", "-"], ["<<", ">>", ">>>"],
   ["<", "<=", ">", ">=", "in", "instanceof", "as", "satisfies"],
   ["==", "!=", "===", "!=="], ["&"], ["^"], ["|"], ["&&"], ["||"], ["??"]]

/-- The binary operator that comes next. -/
def binaryOperator (noIn : Bool) : Parse Node := do
  match ← peekMark with
  | some m =>
    guard (binaryLevels.any (·.contains m))
    mark m
  | none =>
    let w ← peekWord
    guard (w == "instanceof" || (w == "in" && !noIn) || w == "as" || w == "satisfies")
    guard (!(w == "as" || w == "satisfies") || !(← lineBreakAhead))
    word w

/-- An operator and its right operand, which is a type behind `as` and `satisfies`. -/
def binaryRest (self : Self) (noIn : Bool) : Parse (Node × Node) := do
  let op ← binaryOperator noIn
  let right ← if op.text == "as" || op.text == "satisfies" then self .type else self .unary
  return (op, right)

def binaryPhrase (left op right : Node) : Parse Node :=
  if op.text == "as" then phrase .asExpression [left, op, right]
  else if op.text == "satisfies" then phrase .satisfiesExpression [left, op, right]
  else phrase .binaryExpression
    [left.withRole .left, op.withRole .operator, right.withRole .right]

/-- Joins neighbours by the operators of one level, from the left. -/
def joinLevel (level : List String) : Node → List (Node × Node) → Parse (Node × List (Node × Node))
  | left, [] => return (left, [])
  | left, (op, right) :: rest => do
    if level.contains op.text then joinLevel level (← binaryPhrase left op right) rest
    else
      let (right, rest) ← joinLevel level right rest
      return (left, (op, right) :: rest)

/-- Operands joined by binary operators. -/
def binary (self : Self) (noIn : Bool) : Parse Node := do
  let first ← self .unary
  if first.kind == .arrowFunction then return first
  let rest ← many (binaryRest self noIn)
  let (result, _) ← binaryLevels.foldlM (fun (left, rest) level => joinLevel level left rest)
    (first, rest)
  return result

def ternaryRest (self : Self) (noIn : Bool) (condition : Node) : Parse Node := do
  let q ← mark "?"
  let yes ← self (.expression false)
  let colon ← mark ":"
  let no ← self (.expression noIn)
  phrase .ternaryExpression [condition.withRole .condition, q, yes.withRole .consequence, colon,
    no.withRole .alternative]

/-- A condition with its two outcomes. The colon belongs to the condition if taking it for the
type of a function's result leaves none. -/
def ternary (self : Self) (noIn : Bool) : Parse Node := do
  let condition ← binary self noIn
  if (← peekMark) != some "?" || condition.kind == .arrowFunction then return condition
  ternaryRest self noIn condition
    <|> withReader (fun env => { env with typedArrows := false }) (ternaryRest self noIn condition)
    <|> return condition

def assignmentOperators : List String :=
  ["+=", "-=", "*=", "/=", "%=", "^=", "&=", "|=", ">>=", ">>>=", "<<=", "**=", "&&=", "||=", "??="]

def yieldExpression (self : Self) (noIn : Bool) : Parse Node := do
  let kw ← word "yield"
  let star ← optional (do return [← mark "*"])
  let value ← optional (do
    guard !(← lineBreakAhead)
    return [← self (.expression noIn)])
  phrase .yieldExpression (kw :: star ++ value)

/-- An expression without commas. -/
def expression (self : Self) (noIn : Bool) : Parse Node := do
  if (← peekWord) == "yield" then yieldExpression self noIn
  else
    let left ← ternary self noIn
    match ← peekMark with
    | some m =>
      if m == "=" && isTarget (patternKind left.kind) then
        let op ← mark m
        let right ← self (.expression noIn)
        phrase .assignmentExpression [(toPattern left).withRole .left, op, right.withRole .right]
      else if assignmentOperators.contains m && isTarget left.kind then
        let op ← mark m
        let right ← self (.expression noIn)
        phrase .augmentedAssignmentExpression
          [left.withRole .left, op.withRole .operator, right.withRole .right]
      else return left
    | none => return left

/-- Expressions separated by commas. -/
def expressions (self : Self) (noIn : Bool) : Parse Node := do
  let items ← separated1 (mark ",") (self (.expression noIn))
  match items with
  | [one] => return one
  | _ => phrase .sequenceExpression items

end SymbolGraph.Script.Parse
