import SymbolGraph.Script.Grammar.Types

/-!
# Patterns, functions and classes of scripts
-/
namespace SymbolGraph.Script.Parse

/-- A pattern with the value it takes when nothing else is given. -/
def patternWithDefault (self : Self) : Parse Node := do
  let p ← self .pattern
  match ← attempt (mark "=") with
  | some eq =>
    let value ← self (.expression false)
    phrase .assignmentPattern [p.withRole .left, eq, value.withRole .right]
  | none => return p

def restPattern (self : Self) : Parse Node := do
  let dots ← mark "..."
  let p ← self .pattern
  phrase .restPattern [dots, p]

/-- A shorthand name in an object pattern, with its default if it has one. -/
def shorthandPattern (self : Self) : Parse Node := do
  let id ← identifier
  let short : Node := .node .shorthandPropertyIdentifierPattern none id.text id.span []
  match ← attempt (mark "=") with
  | some eq =>
    let value ← self (.expression false)
    phrase .objectAssignmentPattern [short.withRole .left, eq, value.withRole .right]
  | none => return short

def objectPatternMember (self : Self) : Parse Node :=
  restPattern self
  <|> (do
    let key ← propertyName self
    let colon ← mark ":"
    let value ← patternWithDefault self
    phrase .pairPattern [key.withRole .key, colon, value.withRole .value])
  <|> shorthandPattern self

/-- What a declaration binds. -/
def pattern (self : Self) : Parse Node := do
  match ← peekChar with
  | some '\x7b' => bracketed .objectPattern "\x7b" "\x7d" (objectPatternMember self)
  | some '[' => bracketed .arrayPattern "[" "]" (patternWithDefault self)
  | some '.' => restPattern self
  | _ => identifier

/-- Whether values can be assigned to expressions of this kind. -/
def isTarget : Kind → Bool
  | .identifier | .memberExpression | .subscriptExpression | .nonNullExpression
  | .parenthesizedExpression | .objectPattern | .arrayPattern | .undefinedLiteral => true
  | _ => false

/-- The kind that an expression of the given kind has on the left of an assignment. -/
def patternKind : Kind → Kind
  | .array => .arrayPattern
  | .object => .objectPattern
  | .pair => .pairPattern
  | .shorthandPropertyIdentifier => .shorthandPropertyIdentifierPattern
  | .spreadElement => .restPattern
  | .assignmentExpression => .assignmentPattern
  | k => k

/-- Only the parts that receive values change their kind: values in objects, items of arrays, the
left sides of defaults. -/
def receives (parent : Kind) (role : Option Role) : Bool :=
  match parent with
  | .array | .object | .spreadElement => true
  | .pair => role == some .value
  | .assignmentExpression => role == some .left
  | _ => false

mutual

/-- Reads an expression on the left of an assignment as a pattern. -/
def toPattern : Node → Node
  | .node kind role text span children =>
    .node (patternKind kind) role text span (toPatterns kind children)

def toPatterns (parent : Kind) : List Node → List Node
  | [] => []
  | t :: rest => (if receives parent t.role then toPattern t else t) :: toPatterns parent rest

end

/-- `function`, marked `async` or as a generator, with its keyword tokens. -/
def functionWords : Parse (List Node × Bool) := do
  let async ← optional (do
    let t ← word "async"
    guard !(← lineBreakAhead)
    return [t])
  let kw ← word "function"
  let star ← optional (do return [← mark "*"])
  return (async ++ [kw] ++ star, !star.isEmpty)

def functionExpression (self : Self) : Parse Node := do
  let (words, isGenerator) ← functionWords
  let name ← optional (do return [(← identifier).withRole .name])
  let signature ← callSignature self
  let body ← self .block
  phrase (if isGenerator then .generatorFunction else .functionExpression)
    (words ++ name ++ signature ++ [body.withRole .body])

/-- A function with a body, or its signature alone. -/
def functionDeclaration (self : Self) : Parse Node := do
  let (words, isGenerator) ← functionWords
  let name ← identifier
  let signature ← callSignature self
  let front := words ++ [name.withRole .name] ++ signature
  match ← peekChar with
  | some '\x7b' =>
    let body ← self .block
    phrase (if isGenerator then .generatorFunctionDeclaration else .functionDeclaration)
      (front ++ [body.withRole .body])
  | _ =>
    guard !isGenerator
    let stop ← semicolon false
    phrase .functionSignature (front ++ stop)

/-- `=>` and the body of an arrow function. -/
def arrowBody (self : Self) : Parse (List Node) := do
  let arrow ← mark "=>"
  let body ← match ← peekChar with
    | some '\x7b' => self .block
    | _ => self (.expression false)
  return [arrow, body.withRole .body]

def asyncWord : Parse (List Node) := optional do
  let t ← word "async"
  guard !(← lineBreakAhead)
  let c ← peekChar
  guard (c.any fun c => c == '(' || c == '<' || isNameStart c)
  return [t]

/-- An arrow function with its parameters in parentheses. -/
def arrowFunction (self : Self) : Parse Node := do
  let async ← asyncWord
  let signature ← callSignature self
  let body ← arrowBody self
  phrase .arrowFunction (async ++ signature ++ body)

/-- An arrow function of one parameter without parentheses. -/
def shortArrowFunction (self : Self) : Parse Node := do
  let async ← asyncWord
  let name ← identifier
  let body ← arrowBody self
  phrase .arrowFunction (async ++ [name.withRole .parameter] ++ body)

/-- The words in front of a class member. -/
def memberWords : List String :=
  ["declare", "static", "readonly", "abstract", "async", "get", "set", "accessor"]

/-- A method with a body, in a class or an object. -/
def methodDefinition (self : Self) : Parse Node := do
  let modifiers ← memberModifiers ["static", "readonly", "async", "get", "set"]
  let star ← optional (do return [← mark "*"])
  let name ← propertyName self
  let optionalMark ← optional (do return [← mark "?"])
  let signature ← callSignature self
  let body ← self .block
  phrase .methodDefinition
    (modifiers ++ star ++ [name.withRole .name] ++ optionalMark ++ signature ++ [body.withRole .body])

/-- `@` and a name, an access or a call. -/
def decorator (self : Self) : Parse Node := do
  let sign ← mark "@"
  match ← peekChar with
  | some '(' =>
    let l ← mark "("
    let value ← self (.expressions false)
    let r ← mark ")"
    let p ← phrase .parenthesizedExpression [l, value, r]
    phrase .decorator [sign, p]
  | _ =>
    let first ← identifier
    let rest ← many (do
      let dot ← mark "."
      let property ← anyName .propertyIdentifier
      return (dot, property))
    let subject ← nestedNames .memberExpression .memberExpression first rest
    match ← attempt (do
      let generics ← optional (do return [(← typeArguments self).withRole .typeArguments])
      let args ← self .arguments
      return generics ++ [args.withRole .arguments]) with
    | some args =>
      let call ← phrase .callExpression (subject.withRole .function :: args)
      phrase .decorator [sign, call]
    | none => phrase .decorator [sign, subject]

def staticBlock (self : Self) : Parse Node := do
  let kw ← word "static"
  let body ← self .block
  phrase .classStaticBlock [kw, body.withRole .body]

/-- The end of a member: a semicolon, a comma or the end of its line. -/
def memberEnd : Parse (List Node) := (do return [← mark ","]) <|> semicolon false

/-- A field, or a method without a body. -/
def fieldOrSignature (self : Self) : Parse (List Node) := do
  let modifiers ← memberModifiers memberWords
  let star ← optional (do return [← mark "*"])
  let name ← propertyName self
  let sign ← optional (do return [← markOf ["?", "!"]])
  let front := modifiers ++ star ++ [name.withRole .name] ++ sign
  match ← peekChar with
  | some c =>
    if c == '(' || c == '<' then
      let signature ← callSignature self
      let isAbstract := modifiers.any (isToken · "abstract")
      let member ← phrase (if isAbstract then .abstractMethodSignature else .methodSignature)
        (front ++ signature)
      return member :: (← memberEnd)
    else
      let type ← optional (do return [(← typeAscription self).withRole .type])
      let value ← optional (initializer self false)
      let member ← phrase .publicFieldDefinition (front ++ type ++ value)
      return member :: (← memberEnd)
  | none => fail

def classMember (self : Self) : Parse (List Node) :=
  (do return [← mark ";"])
  <|> (do return [← decorator self])
  <|> (do return [← staticBlock self])
  <|> (do
    let member ← methodDefinition self
    return member :: (← optional (do return [← mark ";"])))
  <|> (do
    let member ← indexSignature self
    return member :: (← memberEnd))
  <|> fieldOrSignature self

def classBody (self : Self) : Parse Node := do
  let l ← mark "\x7b"
  let members ← many (classMember self)
  let r ← mark "\x7d"
  phrase .classBody (l :: members.flatten ++ [r])

def extendsClause (self : Self) : Parse Node := do
  let kw ← word "extends"
  let values ← separated1 (mark ",") (do
    let value ← self .leftHand
    return value.withRole .value)
  let generics ← optional (do return [(← typeArguments self).withRole .typeArguments])
  phrase .extendsClause (kw :: values ++ generics)

def implementsClause (self : Self) : Parse Node := do
  let kw ← word "implements"
  let types ← separated1 (mark ",") (self .type)
  phrase .implementsClause (kw :: types)

def classHeritage (self : Self) : Parse (List Node) := do
  let parents ← optional (do return [← extendsClause self])
  let interfaces ← optional (do return [← implementsClause self])
  if parents.isEmpty && interfaces.isEmpty then return []
  return [← phrase .classHeritage (parents ++ interfaces)]

/-- The part of a class behind its name. -/
def classRest (self : Self) : Parse (List Node) := do
  let generics ← optional (do return [(← typeParameters self).withRole .typeParameters])
  let heritage ← classHeritage self
  let body ← classBody self
  return generics ++ heritage ++ [body.withRole .body]

def className : Parse (List Node) := do
  let w ← peekWord
  guard (w != "extends" && w != "implements")
  return [(← typeName).withRole .name]

def classExpression (self : Self) : Parse Node := do
  let decorators ← many (decorator self)
  let kw ← word "class"
  let name ← optional className
  let rest ← classRest self
  phrase .classExpression (decorators.map (Tree.withRole .decorator) ++ [kw] ++ name ++ rest)

def classDeclaration (self : Self) : Parse Node := do
  let decorators ← many (decorator self)
  let abstract_ ← optional (do return [← word "abstract"])
  let kw ← word "class"
  let name ← className
  let rest ← classRest self
  phrase (if abstract_.isEmpty then .classDeclaration else .abstractClassDeclaration)
    (decorators.map (Tree.withRole .decorator) ++ abstract_ ++ [kw] ++ name ++ rest)

end SymbolGraph.Script.Parse
