import SymbolGraph.Crate.Grammar.Types

/-!
# Patterns of Rust
-/
namespace SymbolGraph.Crate.Parse

/-- An end of a range in a pattern; none where the range is open. -/
def rangeBound (self : Self) : Parse (Option Node) := do
  let isOpen (ts : List Token) : Bool :=
    ts.isEmpty || atMark "|" ts || atMark "=" ts || (atMark ":" ts && !atMark "::" ts) ||
    atMark "," ts || atMark ";" ts || atWord "if" ts
  if ← test isOpen then return none
  else if ← test atLiteral then return some (← phrase .plainExpression (do literal; return []))
  else if ← test (atWord "const") then
    return some (← phrase .blockExpression (do
      skip
      let (attrs, body) ← bodyBlock self
      return attrs ++ [body]))
  else return some (← phrase .pathExpression (qualifiedPath self true))

/-- `..`, `..=` or `...`; tells whether the end belongs to the range. -/
def rangeMark : Parse Bool := do
  if ← test (atMark "..=") then
    mark "..="
    return true
  else if ← test (atMark "...") then
    mark "..."
    return true
  else
    mark ".."
    return false

/-- The rest of a range pattern behind its start. -/
def rangeRest (self : Self) : Parse (List Node) := do
  let closed ← rangeMark
  match ← rangeBound self with
  | some stop => return [stop]
  | none =>
    guard !closed
    return []

/-- Patterns separated by commas in a bracket. -/
def patternList (self : Self) : Parse (List Node) := commaList (self .patterns)

/-- The name of a field: a name or a number. -/
def member : Parse (Node × Bool) := do
  match ← ahead with
  | .literal .integer text span :: _ =>
    guard (text.toList.all Char.isDigit)
    skip
    return (.node .token none text span [], false)
  | _ => return (← name, true)

def fieldPattern (self : Self) : Parse Node := phrase .fieldPattern do
  let _ ← optionalWord "box"
  let isRef ← optionalWord "ref"
  let isMut ← optionalWord "mut"
  let (n, isNamed) ← if isRef || isMut then (do return (← name, true)) else member
  if (!isRef && !isMut && (← test (atMark ":"))) || !isNamed then
    mark ":"
    return [← self .patterns]
  else return [.node .namePattern none "" n.span [n.withRole .name]]

/-- The fields of a struct pattern; two dots end them. -/
def fieldPatterns (self : Self) : Parse (List Node) := do
  let found ← untilEnd do
    let attrs ← attributes self
    if ← test (atMark "..") then
      let dots ← phrase .plainPattern (do mark ".."; return attrs)
      guard (← isEmpty)
      return [dots]
    else
      let f ← fieldPattern self
      if !(← isEmpty) then mark ","
      return [withAttributes attrs f]
  return found.flatten

/-- A pattern that starts with a path. -/
def pathPattern (self : Self) : Parse Node := phraseOf do
  let parts ← qualifiedPath self true
  match parts with
  | [p] =>
    if (← test atBang) && isPlainPath p then
      mark "!"
      return (.invocationPattern, [(← invocationRest self p).1])
    else rest parts
  | _ => rest parts
where
  rest (parts : List Node) : Parse (Kind × List Node) := do
    if ← test atBrace then return (.structPattern, parts ++ (← inside .brace (fieldPatterns self)))
    else if ← test atParen then
      return (.tupleStructPattern, parts ++ (← inside .parenthesis (patternList self)))
    else if ← test (atMark "..") then
      let start : Node := .node .pathExpression none "" (← get).last parts
      return (.rangePattern, start :: (← rangeRest self))
    else return (.pathPattern, parts)

def namePattern (self : Self) : Parse Node := phrase .namePattern do
  let _ ← optionalWord "ref"
  let _ ← optionalWord "mut"
  let n ← if ← test (atWord "self") then anyName else name
  let inner ← if ← optionalMark "@" then pure [← self .pattern] else pure []
  return n.withRole .name :: inner

/-- A literal, alone or as the start of a range. -/
def literalPattern (self : Self) : Parse Node := phraseOf do
  match ← rangeBound self with
  | none => fail
  | some start =>
    if ← test (atMark "..") then return (.rangePattern, start :: (← rangeRest self))
    else return (.plainPattern, if start.kind == .plainExpression then [] else [start])

/-- Two dots alone, or a range without a start. -/
def halfOpenPattern (self : Self) : Parse Node := phraseOf do
  let closed ← rangeMark
  match ← rangeBound self with
  | some stop => return (.rangePattern, [stop])
  | none =>
    guard !closed
    return (.plainPattern, [])

def parenthesizedPattern (self : Self) : Parse Node := phraseOf do
  inside .parenthesis do
    if ← isEmpty then return (.tuplePattern, [])
    let first ← self .patterns
    if ← isEmpty then
      return (if first.kind == .plainPattern then .tuplePattern else .parenthesizedPattern, [first])
    else
      mark ","
      return (.tuplePattern, first :: (← patternList self))

/-- Whether a path rather than a name starts here. -/
def startsPathPattern (ts : List Token) : Bool :=
  let next := ts.drop 1
  (atName ts && (atMark "::" next || atMark "!" next || atBrace next || atParen next ||
    atMark ".." next)) ||
  (atWord "self" ts && atMark "::" next) || atMark "::" ts || atMark "<" ts || atWord "Self" ts ||
  atWord "super" ts || atWord "crate" ts

/-- A pattern without bars at its top. -/
def pattern (self : Self) : Parse Node := do
  if ← test startsPathPattern then pathPattern self
  else if ← test (atWord "_") then phrase .plainPattern (do skip; return [])
  else if ← test (atWord "box") then
    phrase .plainPattern (do skip; let _ ← self .pattern; return [])
  else if ← test (fun ts => atMark "-" ts || atLiteral ts || atWord "const" ts) then
    literalPattern self
  else if ← test (fun ts => atWord "ref" ts || atWord "mut" ts || atWord "self" ts || atName ts) then
    namePattern self
  else if ← test (atMark "&") then
    phrase .referencePattern (do
      mark "&"
      let _ ← optionalWord "mut"
      return [← self .pattern])
  else if ← test atParen then parenthesizedPattern self
  else if ← test atBracket then
    phrase .slicePattern (do
      let parts ← inside .bracket (patternList self)
      -- a range that is open at one end needs parentheses here
      guard (parts.all fun p => p.kind != .rangePattern || 2 ≤ p.children.length)
      return parts)
  else if ← test (atMark "..") then halfOpenPattern self
  else fail

/-- Whether a bar separates two patterns. -/
def atBar (ts : List Token) : Bool := atMark "|" ts && !atMark "||" ts && !atMark "|=" ts

/-- Patterns separated by bars; a bar may also come first. -/
def patterns (self : Self) : Parse Node := phraseOf do
  let leading ← optionalMark "|"
  let first ← self .pattern
  let more ← whileTrue atBar do
    mark "|"
    self .pattern
  if leading || !more.isEmpty then return (.orPattern, first :: more)
  else return (first.kind, first.children)

end SymbolGraph.Crate.Parse
