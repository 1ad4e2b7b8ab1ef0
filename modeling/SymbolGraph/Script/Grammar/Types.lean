import SymbolGraph.Script.Grammar.Rule

/-!
# Types, parameters and signatures of scripts
-/
namespace SymbolGraph.Script.Parse

def typeName : Parse Node := do
  let id ← identifier
  return .node .typeIdentifier id.role id.text id.span []

/-- `:` and a type. -/
def typeAscription (self : Self) : Parse Node := do
  let colon ← mark ":"
  let t ← self .type
  phrase .typeAscription [colon, t]

def typeArguments (self : Self) : Parse Node := do
  let l ← char '<'
  let items ← commaList (self .type)
  guard !items.isEmpty
  let r ← char '>'
  phrase .typeArguments (l :: items ++ [r])

def typeParameter (self : Self) : Parse Node := do
  let modifiers ← many (do
    let w ← peekWord
    guard (["const", "in", "out"].contains w)
    let t ← word w
    guard (← memberNameAhead)
    return t)
  let name ← typeName
  let bound ← optional (do
    let kw ← word "extends" <|> mark ":"
    let t ← self .type
    let c ← phrase .constraint [kw, t]
    return [c.withRole .constraint])
  let default ← optional (do
    let eq ← mark "="
    let t ← self .type
    let d ← phrase .defaultType [eq, t]
    return [d.withRole .value])
  phrase .typeParameter (modifiers ++ [name.withRole .name] ++ bound ++ default)

def typeParameters (self : Self) : Parse Node := do
  let l ← char '<'
  let items ← commaList (typeParameter self)
  guard !items.isEmpty
  let r ← char '>'
  phrase .typeParameters (l :: items ++ [r])

def parameter (self : Self) : Parse Node := do
  let decorators ← many (self .decorator)
  let access ← optional (do return [← modifier .accessibilityModifier ["public", "private", "protected"]])
  let override ← optional (do return [← modifier .overrideModifier ["override"]])
  let readonly ← optional (do return [← modifier .token ["readonly"]])
  let pattern ← wordAs .this "this" <|> self .pattern
  let optionalMark ← optional (do return [← mark "?"])
  let type ← optional (do return [(← typeAscription self).withRole .type])
  let value ← optional (initializer self false)
  let kind := if optionalMark.isEmpty then Kind.requiredParameter else Kind.optionalParameter
  phrase kind (decorators.map (Tree.withRole .decorator) ++ access ++ override ++ readonly ++
    [pattern.withRole .pattern] ++ optionalMark ++ type ++ value)

def parameters (self : Self) : Parse Node := bracketed .formalParameters "(" ")" (parameter self)

/-- `x is T` -/
def typePredicate (self : Self) : Parse Node := do
  let name ← wordAs .this "this" <|> identifier
  let broken ← lineBreakAhead
  guard !broken
  let is ← word "is"
  let t ← self .type
  phrase .typePredicate [name.withRole .name, is, t.withRole .type]

/-- `asserts x` or `asserts x is T` -/
def assertion (self : Self) : Parse Node := do
  let kw ← word "asserts"
  let broken ← lineBreakAhead
  guard !broken
  let subject ← typePredicate self <|> wordAs .this "this" <|> identifier
  phrase .asserts [kw, subject]

/-- The type behind the parameters of a function. -/
def returnType (self : Self) : Parse Node := do
  let colon ← mark ":"
  let t ← (do phrase .assertsAscription [colon, ← assertion self])
    <|> (do phrase .typePredicateAscription [colon, ← typePredicate self])
    <|> (do phrase .typeAscription [colon, ← self .type])
  return t.withRole .returnType

/-- Type parameters, parameters and the type of the result. -/
def callSignature (self : Self) : Parse (List Node) := do
  let generics ← optional (do return [(← typeParameters self).withRole .typeParameters])
  let ps ← parameters self
  let result ← optional (do return [← returnType self])
  return generics ++ [ps.withRole .parameters] ++ result

def predefinedTypes : List String :=
  ["any", "number", "boolean", "string", "symbol", "void", "unknown", "never", "object"]

/-- `a.b.C` or `C` as a type. -/
def namedType : Parse Node := do
  let first ← identifier
  let rest ← many (do
    let dot ← mark "."
    let property ← anyName .propertyIdentifier
    return (dot, property))
  match rest.reverse with
  | [] => return .node .typeIdentifier none first.text first.span []
  | (dot, last) :: before =>
    let module ← nestedNames .nestedIdentifier .memberExpression first before.reverse
    let name : Node := .node .typeIdentifier (some .name) last.text last.span []
    phrase .nestedTypeIdentifier [module.withRole .module, dot, name]

/-- A named type with its arguments. -/
def genericType (self : Self) : Parse Node := do
  let t ← namedType
  match ← attempt (typeArguments self) with
  | some args => phrase .genericType [t.withRole .name, args.withRole .typeArguments]
  | none => return t

def templateTypeParts (self : Self) : Parse (List Node) := fun env cur =>
  let rec go : Nat → Cursor → List Node → Option (List Node × Cursor)
    | 0, _, _ => none
    | fuel + 1, cur, acc => match env.source.get? cur.pos with
      | none => none
      | some c =>
        if c == '\x60' then some (acc.reverse, cur)
        else if c == '\\' then go fuel { cur with pos := cur.pos + 2 } acc
        else if c == '$' && env.source.get? (cur.pos + 1) == some '\x7b' then
          let step : Parse Node := do
            let i ← position
            let l ← leaf .token i (i + 2)
            let t ← self .type
            let r ← mark "\x7d"
            phrase .templateType [l, t, r]
          match step env cur with
          | some (t, next) => go fuel next (t :: acc)
          | none => none
        else go fuel { cur with pos := cur.pos + 1 } acc
  go (env.source.size + 1 - cur.pos) cur []

def templateLiteralType (self : Self) : Parse Node := do
  let l ← char '\x60'
  let parts ← templateTypeParts self
  let r ← char '\x60'
  phrase .templateLiteralType (l :: parts ++ [r])

def indexSignature (self : Self) : Parse Node := do
  let front ← optional (do
    let sign ← optional (do return [← markOf ["-", "+"]])
    return sign ++ [← word "readonly"])
  let l ← mark "["
  let inner ← (do
      let name ← identifier
      let colon ← mark ":"
      let t ← self .type
      return [name.withRole .name, colon, t.withRole .indexType])
    <|> (do
      let name ← typeName
      let kw ← word "in"
      let t ← self .type
      let given ← optional (do
        let kw ← word "as"
        let t ← self .type
        return [kw, t.withRole .givenName])
      let clause ← phrase .mappedTypeClause
        ([name.withRole .name, kw, t.withRole .type] ++ given)
      return [clause])
  let r ← mark "]"
  let sign ← optional (do
    let sign ← optional (do return [← markOf ["-", "+"]])
    return sign ++ [← mark "?"])
  let type ← optional (do return [(← typeAscription self).withRole .type])
  phrase .indexSignature (front ++ [l] ++ inner ++ [r] ++ sign ++ type)

/-- The modifiers in front of a member. -/
def memberModifiers (spellings : List String) : Parse (List Node) := many do
  let w ← peekWord
  if ["public", "private", "protected"].contains w then modifier .accessibilityModifier [w]
  else if w == "override" then modifier .overrideModifier [w]
  else modifier .token spellings

/-- A property or method of an object type. -/
def memberSignature (self : Self) : Parse Node := do
  let modifiers ← memberModifiers ["static", "readonly", "async", "get", "set"]
  let star ← optional (do return [← mark "*"])
  let name ← propertyName self
  let optionalMark ← optional (do return [← mark "?"])
  let front := modifiers ++ star ++ [name.withRole .name] ++ optionalMark
  match ← peekChar with
  | some c =>
    if c == '(' || c == '<' then
      let signature ← callSignature self
      phrase .methodSignature (front ++ signature)
    else
      let type ← optional (do return [(← typeAscription self).withRole .type])
      phrase .propertySignature (front ++ type)
  | none => fail

def objectTypeMember (self : Self) : Parse Node :=
  indexSignature self
  <|> (do
    let kw ← word "new"
    let c ← peekChar
    guard (c == some '(' || c == some '<')
    let signature ← callSignature self
    phrase .constructSignature (kw :: signature))
  <|> (do
    let c ← peekChar
    guard (c == some '(' || c == some '<')
    let signature ← callSignature self
    phrase .callSignature signature)
  <|> memberSignature self

/-- The members between braces, each ended by a comma, a semicolon or the end of its line. -/
def objectType (kind : Kind) (self : Self) : Parse Node := do
  let l ← mark "\x7b"
  let members ← many (do
    match ← attempt (markOf [",", ";"]) with
    | some t => return [t]
    | none =>
      let m ← objectTypeMember self
      let stop ← (do return [← mark ","]) <|> semicolon false
      return m :: stop)
  let r ← mark "\x7d"
  phrase kind (l :: members.flatten ++ [r])

def tupleMember (self : Self) : Parse Node :=
  (do
    let dots ← mark "..."
    let name ← identifier
    let rest ← phrase .restPattern [dots, name]
    let type ← typeAscription self
    phrase .requiredParameter [rest.withRole .name, type.withRole .type])
  <|> (do
    let name ← identifier
    let optionalMark ← optional (do return [← mark "?"])
    let type ← typeAscription self
    phrase (if optionalMark.isEmpty then .requiredParameter else .optionalParameter)
      ([name.withRole .name] ++ optionalMark ++ [type.withRole .type]))
  <|> (do
    let dots ← mark "..."
    let t ← self .type
    phrase .restType [dots, t])
  <|> (do
    let t ← self .type
    match ← attempt (mark "?") with
    | some q => phrase .optionalType [t, q]
    | none => return t)

/-- `typeof a.b` -/
def typeQuery (self : Self) : Parse Node := do
  let kw ← word "typeof"
  let subject ← (do
      let imp ← wordAs .importWord "import"
      let args ← bracketed .arguments "(" ")" (self (.expression false))
      phrase .callExpression [imp.withRole .function, args.withRole .arguments])
    <|> wordAs .this "this" <|> identifier
  let rest ← many (do
    let dot ← mark "."
    let property ← propertyName self
    return (dot, property))
  let subject ← nestedNames .memberExpression .memberExpression subject rest
  match ← attempt (do guard !(← lineBreakAhead); typeArguments self) with
  | some args =>
    let t ← phrase .instantiationExpression [subject.withRole .function, args.withRole .typeArguments]
    phrase .typeQuery [kw, t]
  | none => phrase .typeQuery [kw, subject]

/-- `import("m").Name` as a type. -/
def importType (self : Self) : Parse Node := do
  let imp ← wordAs .importWord "import"
  let args ← bracketed .arguments "(" ")" (self .type)
  let call ← phrase .callExpression [imp.withRole .function, args.withRole .arguments]
  let rest ← many (do
    let dot ← mark "."
    let property ← anyName .propertyIdentifier
    return (dot, property))
  nestedNames .memberExpression .memberExpression call rest

/-- The result of a function type. -/
def resultType (self : Self) : Parse Node := assertion self <|> typePredicate self <|> self .type

def functionType (self : Self) : Parse Node := do
  let generics ← optional (do return [(← typeParameters self).withRole .typeParameters])
  let ps ← parameters self
  let arrow ← mark "=>"
  let result ← resultType self
  phrase .functionType (generics ++ [ps.withRole .parameters, arrow, result.withRole .returnType])

def constructorType (self : Self) : Parse Node := do
  let abstract_ ← optional (do return [← word "abstract"])
  let kw ← word "new"
  let generics ← optional (do return [(← typeParameters self).withRole .typeParameters])
  let ps ← parameters self
  let arrow ← mark "=>"
  let result ← self .type
  phrase .constructorType
    (abstract_ ++ [kw] ++ generics ++ [ps.withRole .parameters, arrow, result.withRole .type])

def literalType : Parse Node := do
  let w ← peekWord
  let t ←
    if w == "true" then wordAs .trueLiteral w
    else if w == "false" then wordAs .falseLiteral w
    else if w == "null" then wordAs .nullLiteral w
    else if w == "undefined" then wordAs .undefinedLiteral w
    else stringLiteral <|> numberLiteral <|> (do
      let sign ← markOf ["-", "+"]
      let n ← numberLiteral
      phrase .unaryExpression [sign.withRole .operator, n.withRole .argument])
  phrase .literalType [t]

def uniqueSymbol : Parse Node := do
  let u ← word "unique"
  let s ← word "symbol"
  phrase .predefinedType [u, s]

/-- The name of a built-in type that is not the start of a longer name. -/
def predefinedType : Parse Node := do
  let w ← peekWord
  guard (predefinedTypes.contains w)
  let t ← wordAs .predefinedType w
  let m ← peekMark
  guard (m != some ".")
  return t

def parenthesizedType (self : Self) : Parse Node := do
  let l ← mark "("
  let t ← self .type
  let r ← mark ")"
  phrase .parenthesizedType [l, t, r]

def existentialType : Parse Node := do
  trivia
  let i ← position
  leaf .existentialType i (i + 1)

/-- A type that starts with a word or a literal. -/
def wordType (self : Self) (w : String) : Parse Node :=
  if w == "typeof" then typeQuery self
  else if w == "import" then importType self
  else if w == "new" then constructorType self
  else if w == "abstract" then constructorType self <|> genericType self
  else if w == "this" then wordAs .thisType "this"
  else if w == "const" then word "const"
  else if w == "unique" then uniqueSymbol <|> genericType self
  else predefinedType <|> literalType <|> genericType self

/-- A type without operators in front of it. -/
def primaryType (self : Self) : Parse Node := do
  match ← peekChar with
  | some '\x60' => templateLiteralType self
  | some '\x7b' => objectType .objectType self
  | some '[' => bracketed .tupleType "[" "]" (tupleMember self)
  | some '<' => functionType self
  | some '(' =>
    if (← markBehindParens) == some "=>" then functionType self else parenthesizedType self
  | some '*' => existentialType
  | _ => wordType self (← peekWord)

/-- Array and member types behind a type, on the same line. -/
def postfixType (self : Self) : Parse Node := do
  let t ← primaryType self
  let suffixes ← many (do
    guard !(← lineBreakAhead)
    let l ← mark "["
    let index ← attempt (self .type)
    let r ← mark "]"
    return (l, index, r))
  suffixes.foldlM (fun t (l, index, r) => match index with
    | none => phrase .arrayType [t, l, r]
    | some i => phrase .lookupType [t, l, i, r]) t

/-- Words that bind tighter than unions: each with its type behind it. -/
def operatorType (self : Self) : Parse Node := do
  let ops ← many (do
    let w ← peekWord
    guard (["keyof", "readonly", "infer"].contains w)
    let t ← word w
    let c ← peekChar
    guard (c.any fun c => isNameStart c || "[(\x7b\"'\x60".toList.contains c || c.isDigit)
    return t)
  let t ← postfixType self
  let t ← match ops.getLast? with
    | some op =>
      if op.text == "infer" then
        let bound ← optional (do
          let kw ← word "extends"
          return [kw, ← self .type])
        phrase .inferType ([op, t] ++ bound)
      else if op.text == "keyof" then phrase .indexTypeQuery [op, t]
      else phrase .readonlyType [op, t]
    | none => return t
  ops.dropLast.foldrM (fun op t =>
    phrase (if op.text == "keyof" then .indexTypeQuery else .readonlyType) [op, t]) t

/-- Types joined by `sep`, the mark allowed also in front. -/
def joinedType (kind : Kind) (sep : String) (operand : Parse Node) : Parse Node := do
  let front ← optional (do return [← mark sep])
  let first ← operand
  let first ← if front.isEmpty then pure first else phrase kind (front ++ [first])
  let rest ← many (do return (← mark sep, ← operand))
  rest.foldlM (fun left (op, right) => phrase kind [left, op, right]) first

def unionType (self : Self) : Parse Node :=
  joinedType .unionType "|" (joinedType .intersectionType "&" (operatorType self))

/-- Any type. -/
def type (self : Self) : Parse Node := do
  let left ← unionType self
  (do
    let kw ← word "extends"
    let right ← unionType self
    let q ← mark "?"
    let yes ← self .type
    let colon ← mark ":"
    let no ← self .type
    phrase .conditionalType [left.withRole .left, kw, right.withRole .right, q,
      yes.withRole .consequence, colon, no.withRole .alternative])
  <|> return left

end SymbolGraph.Script.Parse
