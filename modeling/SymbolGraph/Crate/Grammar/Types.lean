import SymbolGraph.Crate.Grammar.Rule

/-!
# Paths, types and generics of Rust
-/
namespace SymbolGraph.Crate.Parse

/-- Passes lifetimes for which a type or bound holds, such as `for<'a>`. The result is their
attributes. -/
def boundLifetimes (self : Self) : Parse (Option (List Node)) := do
  if ← test (atWord "for") then
    skip
    mark "<"
    let attrs ← joined "," (atMark ">") (do
      let attrs ← attributes self
      lifetime
      if ← optionalMark ":" then
        let _ ← joined "+" (fun ts => atMark "," ts || atMark ">" ts) lifetime
      return attrs)
    mark ">"
    return some attrs.flatten
  else return none

/-- A value as a generic argument: a literal or a block. -/
def constArgument (self : Self) : Parse Node := do
  if ← test atLiteral then phrase .plainExpression (do literal; return [])
  else if ← test atName then
    phrase .pathExpression (do
      let n ← name
      return [.node .path none "" n.span [.node .segment none n.text n.span []]])
  else
    phrase .blockExpression (do
      let (attrs, body) ← bodyBlock self
      return attrs ++ [body])

/-- The bounds of a constraint, up to a comma or a closing angle bracket. -/
def argumentBounds (self : Self) : Parse (List Node) :=
  joined "+" (fun ts => atMark "," ts || atMark ">" ts) (self .bound)

/-- A type of one name, which may turn out to be the name of an associated type or constant; the
result is the arguments of that name. -/
def singleName? (type : Node) : Option (List Node) :=
  match type.kind, type.children with
  | .pathType, [path] =>
    if path.kind == .path then
      match path.children with
      | [s] => if s.role == some .function then none else some s.children
      | _ => none
    else none
  | _, _ => none

/-- One argument between angle brackets; lifetimes leave nothing in the tree. -/
def genericArgument (self : Self) : Parse (List Node) := do
  if ← test (fun ts => atLifetime ts && !atMark "+" (ts.drop 1)) then
    lifetime
    return []
  else if ← test (fun ts => atLiteral ts || atBrace ts) then return [← constArgument self]
  else
    let start := ((← ahead).head?.map Token.start).getD (← get).last
    let type ← self (.type true)
    match singleName? type with
    | none => return [type]
    | some args =>
      let associated (children : List Node) : List Node :=
        [.node .associatedArgument none "" start (args ++ children)]
      if ← test (atMark "=") then
        mark "="
        if ← test (fun ts => atLiteral ts || atBrace ts) then
          return associated [← constArgument self]
        else return associated [← self (.type true)]
      else if ← test (atMark ":") then
        mark ":"
        return associated (← argumentBounds self)
      else return [type]

/-- Arguments between angle brackets. -/
def angleArguments (self : Self) : Parse (List Node) := do
  mark "<"
  let args ← joined "," (atMark ">") (genericArgument self)
  mark ">"
  return args.flatten

/-- `-> T` -/
def returnType (self : Self) (plus : Bool) : Parse (List Node) := do
  if ← optionalMark "->" then return [← self (.type plus)] else return []

/-- Arguments in parentheses with a result, as in `Fn(A) -> B`. -/
def parenthesizedArguments (self : Self) : Parse (List Node) := do
  let inputs ← inside .parenthesis (commaList (self (.type true)))
  return inputs ++ (← returnType self false)

/-- One part of a path. In expressions, arguments need a double colon in front. -/
def segment (self : Self) (inExpression : Bool) : Parse Node := do
  if ← test (fun ts => ["super", "self", "crate", "try"].any (atWord · ts)) then
    let n ← anyName
    return .node .segment none n.text n.span []
  else
    let n ← if ← test (atWord "Self") then anyName else name
    let direct ← test fun ts => !inExpression && atMark "<" ts && !atMark "<=" ts
    let turbofish ← test fun ts => atMark "::" ts && atMark "<" (ts.drop 2)
    if direct || turbofish then
      let _ ← optionalMark "::"
      let args ← angleArguments self
      return .node .segment none n.text n.span args
    else return .node .segment none n.text n.span []

/-- Further parts of a path. -/
def moreSegments (self : Self) (inExpression : Bool) : Parse (List Node) :=
  whileTrue (fun ts => atMark "::" ts && !atParen (ts.drop 2)) do
    mark "::"
    segment self inExpression

def path (self : Self) (inExpression : Bool) : Parse Node := do
  let isGlobal ← test (atMark "::")
  phrase (if isGlobal then .globalPath else .path) do
    if isGlobal then mark "::"
    let first ← segment self inExpression
    return first :: (← moreSegments self inExpression)

/-- The last part of a path with arguments in parentheses, if they follow. -/
def withParenthesized (self : Self) (p : Node) : Parse Node := do
  let follows (ts : List Token) : Bool := atParen ts || (atMark "::" ts && atParen (ts.drop 2))
  match p.children.getLast? with
  | some last =>
    if last.children.isEmpty && (← test follows) then
      let _ ← optionalMark "::"
      let args ← parenthesizedArguments self
      let s : Node := .node .segment (some .function) last.text last.span args
      return .node p.kind p.role p.text p.span (p.children.dropLast ++ [s])
    else return p
  | none => return p

/-- `<T as Trait>::name` or a plain path: the type in angle brackets, if any, and the path. -/
def qualifiedPath (self : Self) (inExpression : Bool) : Parse (List Node) := do
  if ← test (atMark "<") then
    mark "<"
    let self_ ← phrase .qualifiedSelf (return [← self (.type true)])
    let trait_ ← if ← optionalWord "as" then some <$> path self false else pure none
    mark ">"
    mark "::"
    let first ← segment self inExpression
    let rest ← whileTrue (atMark "::") do
      mark "::"
      segment self inExpression
    let p : Node := match trait_ with
      | some t => .node t.kind none "" t.span (t.children ++ first :: rest)
      | none => .node .globalPath none "" first.span (first :: rest)
    return [self_, p]
  else return [← path self inExpression]

/-! ## Bounds -/

/-- A trait as a bound, in parentheses or not. -/
def traitBound (self : Self) : Parse Node := phrase .traitBound do
  let bare : Parse (List Node) := do
    let lifetimes ← boundLifetimes self
    if ← test (atMark "~") then
      mark "~"
      word "const"
    else if ← test (atWord "const") then skip
    let isMaybe ← optionalMark "?"
    let lifetimes ← if lifetimes.isNone && isMaybe then boundLifetimes self else pure lifetimes
    return lifetimes.getD [] ++ [← withParenthesized self (← path self false)]
  if ← test atParen then inside .parenthesis bare else bare

/-- A lifetime, a captured list or a trait. -/
def bound (self : Self) : Parse Node := do
  if ← test atLifetime then phrase .plainType (do lifetime; return [])
  else if ← test (atWord "use") then
    phrase .plainType (do
      skip
      mark "<"
      let _ ← joined "," (atMark ">") (lifetime <|> discard anyName)
      mark ">"
      return [])
  else traitBound self

/-- Whether another bound may follow a plus sign. -/
def startsBound (ts : List Token) : Bool :=
  atAnyWord ts || atMark "::" ts || atMark "?" ts || atLifetime ts || atParen ts

/-- Further bounds, each behind a plus sign; a plus sign may come last. -/
def moreBounds (self : Self) (plus : Bool) : Parse (List Node) := do
  if !plus then return []
  let found ← whileTrue (atMark "+") do
    mark "+"
    if ← test startsBound then return [← self .bound] else return []
  return found.flatten

/-- Bounds joined by plus signs; without `plus` there is only one. At least one names a trait. -/
def typeBounds (self : Self) (plus : Bool) : Parse (List Node) := do
  let first ← self .bound
  let all := first :: (← moreBounds self plus)
  guard (all.any (·.kind == .traitBound))
  return all

/-! ## Types -/

/-- A path as a type, a macro call, or several bounds joined by plus signs. Behind lifetimes it is a
bound. -/
def pathType (self : Self) (plus : Bool) (lifetimes : Option (List Node)) : Parse Node := phraseOf do
  match ← qualifiedPath self false with
  | [p] =>
    if (← test atBang) && isPlainPath p then
      mark "!"
      return (.invocationType, [(← invocationRest self p).1])
    else
      let p ← withParenthesized self p
      if lifetimes.isSome || (plus && (← test (atMark "+"))) then
        let first : Node := .node .traitBound none "" p.span (lifetimes.getD [] ++ [p])
        return (.traitObjectType, first :: (← moreBounds self plus))
      else return (.pathType, [p])
  | parts => return (.pathType, parts)

/-- A type in parentheses as the first of several bounds. -/
def asBound (type : Node) : Option Node :=
  match type.kind, type.children with
  | .pathType, [p] => some (.node .traitBound none "" type.span [p])
  | .traitObjectType, [b] => some b
  | _, _ => none

/-- `(A, B)`, `(A)` or bounds that start with a parenthesis. -/
def parenthesizedType (self : Self) (plus : Bool) : Parse Node := phraseOf do
  let (kind, parts) ← inside .parenthesis do
    if ← isEmpty then return (Kind.tupleType, [])
    else if ← test atLifetime then return (Kind.traitObjectType, ← typeBounds self true)
    else if ← test (atMark "?") then return (Kind.plainType, [← self .bound])
    else
      let first ← self (.type true)
      if ← test (atMark ",") then
        mark ","
        return (Kind.tupleType, first :: (← commaList (self (.type true))))
      else return (Kind.parenthesizedType, [first])
  let more ← test (atMark "+")
  match kind, parts with
  | .plainType, _ => return (.traitObjectType, parts ++ (← moreBounds self true))
  | .parenthesizedType, [one] => match asBound one with
    | some first =>
      if plus && more then return (.traitObjectType, first :: (← moreBounds self true))
      else return (kind, parts)
    | none => return (kind, parts)
  | _, _ => return (kind, parts)

/-- `extern "C"` in front of a function. -/
def abi : Parse Unit := do
  if ← test (atWord "extern") then
    skip
    if ← test atText then skip

/-- One input of a function type, with or without a name. -/
def functionTypeInput (self : Self) : Parse (List Node) := do
  let attrs ← attributes self
  if ← test (atMark "...") then
    mark "..."
    return attrs
  else
    let _ ← optionalWord "mut"
    if ← test (fun ts => (atName ts || atWord "_" ts || atWord "self" ts) &&
        atMark ":" (ts.drop 1) && !atMark "::" (ts.drop 1)) then
      skip
      mark ":"
    if ← test (atMark "...") then
      mark "..."
      return attrs
    else return attrs ++ [← self (.type true)]

def functionType (self : Self) : Parse Node := phrase .functionType do
  let _ ← optionalWord "unsafe"
  abi
  word "fn"
  let inputs ← inside .parenthesis (commaList (functionTypeInput self))
  return inputs.flatten ++ (← returnType self false)

def bracketType (self : Self) : Parse Node := phraseOf do
  inside .bracket do
    let element ← self (.type true)
    if ← optionalMark ";" then return (.arrayType, [element, ← self (.expression true)])
    else return (.sliceType, [element])

/-- Any type. -/
def type (self : Self) (plus : Bool) : Parse Node := do
  let lifetimes ← boundLifetimes self
  if lifetimes.isSome then
    guard (← test fun ts => atName ts ||
      ["fn", "unsafe", "extern", "super", "self", "Self", "crate"].any (atWord · ts) || atMark "::" ts)
  if ← test atParen then parenthesizedType self plus
  else if ← test (fun ts => ["fn", "unsafe", "extern"].any (atWord · ts)) then
    return withAttributes (lifetimes.getD []) (← functionType self)
  else if ← test (fun ts => atName ts || ["super", "self", "Self", "crate"].any (atWord · ts) ||
      atMark "::" ts || atMark "<" ts) then
    pathType self plus lifetimes
  else if ← test (atWord "dyn") then
    phrase .traitObjectType (do
      skip
      let _ ← optionalMark "*"
      typeBounds self plus)
  else if ← test atBracket then bracketType self
  else if ← test (atMark "*") then
    phrase .pointerType (do
      mark "*"
      word "const" <|> word "mut"
      return [← self (.type false)])
  else if ← test (atMark "&") then
    phrase .referenceType (do
      mark "&"
      optionalLifetime
      let _ ← optionalWord "mut"
      return [← self (.type false)])
  else if ← test (fun ts => atMark "!" ts && !atMark "!=" ts) then
    phrase .plainType (do mark "!"; return [])
  else if ← test (atWord "impl") then
    phrase .implTraitType (do
      skip
      typeBounds self plus)
  else if ← test (atWord "_") then phrase .plainType (do skip; return [])
  else if ← test atLifetime then phrase .traitObjectType (typeBounds self plus)
  else fail

/-! ## Generic parameters -/

def typeParameter (self : Self) : Parse (List Node) := do
  let attrs ← attributes self
  if ← test atLifetime then
    lifetime
    if ← optionalMark ":" then
      let _ ← joined "+" (fun ts => atMark "," ts || atMark ">" ts) lifetime
    return attrs
  else if ← test (atWord "const") then
    return [← phrase .constParameter (do
      skip
      let _ ← name
      mark ":"
      let t ← self (.type true)
      let value ← if ← optionalMark "=" then pure [← constArgument self] else pure []
      return attrs ++ [t] ++ value)]
  else
    return [← phrase .typeParameter (do
      let _ ← if ← test (atWord "_") then anyName else name
      let bounds ← if ← optionalMark ":" then
          joined "+" (fun ts => atMark "," ts || atMark ">" ts || atMark "=" ts) (self .bound)
        else pure []
      let default ← if ← optionalMark "=" then pure [← self (.type true)] else pure []
      return attrs ++ bounds ++ default)]

/-- Parameters between angle brackets; nothing if there are none. -/
def genericParameters (self : Self) : Parse (List Node) := do
  if ← test (atMark "<") then
    mark "<"
    let parameters ← joined "," (atMark ">") (typeParameter self)
    mark ">"
    return parameters.flatten
  else return []

/-- Where a list of conditions ends. -/
def endsWhere (ts : List Token) : Bool :=
  ts.isEmpty || atBrace ts || atMark "," ts || atMark ";" ts ||
  (atMark ":" ts && !atMark "::" ts) || atMark "=" ts

def wherePredicate (self : Self) : Parse Node := phrase .wherePredicate do
  if ← test (fun ts => atLifetime ts && atMark ":" (ts.drop 1)) then
    lifetime
    mark ":"
    let _ ← joined "+" endsWhere lifetime
    return []
  else
    let lifetimes ← boundLifetimes self
    let subject ← self (.type true)
    mark ":"
    return lifetimes.getD [] ++ subject :: (← joined "+" endsWhere (self .bound))

def whereClause (self : Self) : Parse (List Node) := do
  if ← test (atWord "where") then
    skip
    joined "," endsWhere (wherePredicate self)
  else return []

end SymbolGraph.Crate.Parse
