import SymbolGraph.Crate.Grammar.Expressions

/-!
# Items and statements of Rust
-/
namespace SymbolGraph.Crate.Parse

/-! ## Visibility and signatures -/

/-- Whether parentheses behind `pub` restrict it rather than start a tuple. -/
def restricts : List Token → Bool
  | .group .parenthesis [.word w _] _ _ :: _ =>
    w.text == "crate" || w.text == "self" || w.text == "super"
  | .group .parenthesis (.word w _ :: _) _ _ :: _ => w.text == "in"
  | _ => false

/-- A visibility; nothing if none is written. -/
def visibility : Parse (List Node) := do
  if ← test (atWord "pub") then
    return [(← phrase .visibility (do
      skip
      if ← test restricts then
        inside .parenthesis (do
          if ← optionalWord "in" then discard plainPath else skip)
      return [])).withRole .visibility]
  else return []

/-- Whether a function signature starts here. -/
def startsSignature (ts : List Token) : Bool :=
  let ts := if atWord "const" ts then ts.drop 1 else ts
  let ts := if atWord "async" ts then ts.drop 1 else ts
  let ts := if atWord "unsafe" ts then ts.drop 1 else ts
  let ts := if atWord "extern" ts then (if atText (ts.drop 1) then ts.drop 2 else ts.drop 1) else ts
  atWord "fn" ts

/-- `self` as a parameter, with what stands around it. -/
def receiver (self : Self) : Parse Node := phrase .receiver do
  let isReference ← optionalMark "&"
  if isReference then optionalLifetime
  let _ ← optionalWord "mut"
  word "self"
  if !isReference && (← test (atMark ":")) then
    mark ":"
    discard (self (.type true))
  return []

/-- A parameter: the receiver, a pattern with its type, or dots for further arguments. -/
def parameter (self : Self) : Parse (List Node) := do
  let attrs ← attributes self
  if ← test (atMark "...") then
    return [← phrase .typedParameter (do mark "..."; return attrs)]
  match ← attempt (receiver self) with
  | some r => return [r]
  | none =>
    if ← test (fun ts => atName ts && atMark "<" (ts.drop 1)) then
      return [← phrase .typedParameter (return attrs ++ [(← self (.type true)).withRole .type])]
    else
      let p ← self .pattern
      mark ":"
      if ← test (atMark "...") then
        return [← phrase .typedParameter (do mark "..."; return attrs)]
      else
        let t ← self (.type true)
        let span : Span := ⟨p.span.start, t.span.stop, p.span.line, t.span.endLine⟩
        return [.node .typedParameter none "" span
          (attrs ++ [p.withRole .pattern, t.withRole .type])]

/-- Only the first parameter may be the receiver. -/
def receiverIsFirst (parameters : List Node) : Bool :=
  (parameters.drop 1).all (·.kind != .receiver)

def signature (self : Self) : Parse Node := phrase .signature do
  let _ ← optionalWord "const"
  let _ ← optionalWord "async"
  let _ ← optionalWord "unsafe"
  abi
  let fnWord ← phrase .token (do word "fn"; return [])
  let n ← name
  let generics ← genericParameters self
  let parameters ← inside .parenthesis (commaList (parameter self))
  let parameters := parameters.flatten
  guard (receiverIsFirst parameters)
  let output ← returnType self true
  let conditions ← whereClause self
  return [fnWord.withRole .functionWord, n.withRole .name] ++
    generics.map (Tree.withRole .generics) ++ parameters.map (Tree.withRole .parameter) ++
    output.map (Tree.withRole .output) ++ conditions.map (Tree.withRole .generics)

/-! ## Use declarations -/

/-- The name behind `as`. -/
def newName : Parse Node := do
  if ← test (atWord "_") then anyName else name

/-- What a use declaration names. -/
def useTree (self : Self) : Parse Node := do
  if ← test (fun ts => atName ts || ["self", "super", "crate", "try"].any (atWord · ts)) then
    phraseOf do
      let n ← anyName
      let n := n.withRole .name
      if ← optionalMark "::" then return (.usePath, [n, (← self .useTree).withRole .tree])
      else if ← optionalWord "as" then return (.useRename, [n, (← newName).withRole .givenName])
      else return (.useName, [n])
  else if ← test (atMark "*") then phrase .useGlob (do mark "*"; return [])
  else
    phrase .useGroup do
      let trees ← inside .brace (commaList (self .useTree))
      return trees.map (Tree.withRole .tree)

/-- A use tree at the top, where a group may hold paths that start with a double colon; such a group
has no meaning here. -/
def useGroupTree (self : Self) : Parse Node := do
  if ← test atBrace then
    phraseOf do
      let trees ← inside .brace (commaList do
        if ← optionalMark "::" then
          discard (self .useTree)
          return none
        else return some (← self .useGroupTree))
      if trees.all fun t => t.any (·.kind != .otherItem) then
        return (.useGroup, (trees.filterMap id).map (Tree.withRole .tree))
      else return (.otherItem, [])
  else self .useTree

def useItem (self : Self) : Parse Node := phraseOf do
  let vis ← visibility
  let useWord ← phrase .token (do word "use"; return [])
  let isGlobal ← optionalMark "::"
  let tree ← if isGlobal then self .useTree else self .useGroupTree
  mark ";"
  if tree.kind == .otherItem then return (.otherItem, [])
  else return (.useItem, vis ++ [useWord.withRole .useWord, tree.withRole .tree])

/-! ## Functions -/

/-- A function with its body; a signature alone has no meaning here. -/
def functionItem (self : Self) : Parse Node := phraseOf do
  let vis ← visibility
  let sig ← signature self
  if ← optionalMark ";" then return (.otherItem, [])
  else
    let (attrs, body) ← bodyBlock self
    return (.functionItem, attrs ++ vis ++ [sig.withRole .signature, body])

/-! ## Fields and variants -/

def namedField (self : Self) : Parse Node := phrase .field do
  let attrs ← attributes self
  let _ ← visibility
  let _ ← if ← test (atWord "_") then anyName else name
  mark ":"
  return attrs ++ [← self (.type true)]

def plainField (self : Self) : Parse Node := phrase .field do
  let attrs ← attributes self
  let _ ← visibility
  return attrs ++ [← self (.type true)]

def namedFields (self : Self) : Parse (List Node) := inside .brace (commaList (namedField self))
def plainFields (self : Self) : Parse (List Node) := inside .parenthesis (commaList (plainField self))

/-- What follows the generics of a struct: conditions, fields and the end. -/
def structRest (self : Self) : Parse (List Node) := do
  let conditions ← whereClause self
  if conditions.isEmpty && (← test atParen) then
    let fields ← plainFields self
    let conditions ← whereClause self
    mark ";"
    return conditions ++ fields
  else if ← test atBrace then return conditions ++ (← namedFields self)
  else
    mark ";"
    return conditions

def structItem (self : Self) : Parse Node := phrase .structItem do
  let vis ← visibility
  word "struct"
  let n ← name
  let generics ← genericParameters self
  return vis ++ [n.withRole .name] ++ generics ++ (← structRest self)

def unionItem (self : Self) : Parse Node := phrase .unionItem do
  let vis ← visibility
  word "union"
  let n ← name
  let generics ← genericParameters self
  let conditions ← whereClause self
  return vis ++ [n.withRole .name] ++ generics ++ conditions ++ (← namedFields self)

def variant (self : Self) : Parse Node := phrase .variant do
  let attrs ← attributes self
  let _ ← visibility
  let _ ← name
  let fields ← if ← test atBrace then namedFields self
    else if ← test atParen then plainFields self
    else pure []
  let value ← if ← optionalMark "=" then pure [← self (.expression true)] else pure []
  return attrs ++ fields ++ value

def enumItem (self : Self) : Parse Node := phrase .enumItem do
  let vis ← visibility
  word "enum"
  let n ← name
  let generics ← genericParameters self
  let conditions ← whereClause self
  let variants ← inside .brace (commaList (variant self))
  return vis ++ [n.withRole .name] ++ generics ++ conditions ++ variants

/-! ## Types, constants and statics -/

/-- `type N<…>: B where … = T where …;` -/
def typeDeclaration (self : Self) : Parse (Node × List Node × List Node × List Node) := do
  word "type"
  let n ← name
  let generics ← genericParameters self
  let bounds ← if ← optionalMark ":" then
      joined "+" (fun ts => atWord "where" ts || atMark "=" ts || atMark ";" ts) (self .bound)
    else pure []
  let before ← whereClause self
  let value ← if ← optionalMark "=" then pure [← self (.type true)] else pure []
  let after ← whereClause self
  return (n, generics ++ before ++ after, bounds, value)

def typeItem (self : Self) : Parse Node := phraseOf do
  let vis ← visibility
  let hasBounds ← test fun ts => atMark ":" (ts.drop 2)
  let (n, generics, bounds, value) ← typeDeclaration self
  let stop ← phrase .token (do mark ";"; return [])
  match value with
  | [t] =>
    if bounds.isEmpty && !hasBounds then
      return (.typeItem, vis ++ [n.withRole .name] ++ generics ++
        [t.withRole .type, stop.withRole .stop])
    else return (.otherItem, [])
  | _ => return (.otherItem, [])

/-- The parts of a constant behind its keyword: its name, type and value. Constants with generics or
without a value have no meaning here. -/
def constRest (self : Self) : Parse (Option (Node × Node × Node)) := do
  let n ← if ← test (atWord "_") then anyName else name
  let generics ← genericParameters self
  mark ":"
  let t ← self (.type true)
  let value ← if ← optionalMark "=" then some <$> self (.expression true) else pure none
  let conditions ← whereClause self
  mark ";"
  match value with
  | some v => return if generics.isEmpty && conditions.isEmpty then some (n, t, v) else none
  | none => return none

def constItem (self : Self) : Parse Node := phraseOf do
  let vis ← visibility
  word "const"
  match ← constRest self with
  | some (n, t, v) => return (.constItem, vis ++ [n.withRole .name, t.withRole .type, v.withRole .value])
  | none => return (.otherItem, [])

def staticItem (self : Self) : Parse Node := phraseOf do
  let vis ← visibility
  word "static"
  let _ ← optionalWord "mut"
  let n ← name
  if ← optionalMark "=" then
    discard (self (.expression true))
    mark ";"
    return (.otherItem, [])
  mark ":"
  let t ← self (.type true)
  if ← optionalMark ";" then return (.otherItem, [])
  mark "="
  let v ← self (.expression true)
  mark ";"
  return (.staticItem, vis ++ [n.withRole .name, t.withRole .type, v.withRole .value])

/-! ## Modules, macros and foreign items -/

def moduleItem (self : Self) : Parse Node := phrase .moduleItem do
  let vis ← visibility
  let _ ← optionalWord "unsafe"
  word "mod"
  let n ← if ← test (atWord "try") then anyName else name
  let front := vis ++ [n.withRole .name]
  if ← optionalMark ";" then return front
  else
    let (attrs, body) := liftAttributes (← phrase .moduleBody (inside .brace do
      let attrs ← innerAttributes self
      return attrs ++ (← untilEnd (self .item))))
    return attrs ++ front ++ [body.withRole .content]

def externCrateItem : Parse Node := phrase .externCrateItem do
  let _ ← visibility
  word "extern"
  word "crate"
  let _ ← if ← test (atWord "self") then anyName else name
  if ← optionalWord "as" then discard newName
  mark ";"
  return []

/-- A macro call as an item or member; only braces end it without a semicolon. -/
def memberInvocation (self : Self) : Parse Node := do
  let p ← plainPath
  mark "!"
  let (call, hasBraces) ← invocationRest self p
  if !hasBraces then mark ";"
  return call

/-- A macro call or definition as an item. -/
def invocationItem (self : Self) : Parse Node := phrase .invocationItem do
  let p ← plainPath
  mark "!"
  if ← test (fun ts => atName ts || atWord "try" ts) then skip
  let (call, hasBraces) ← invocationRest self p
  if !hasBraces then mark ";"
  return [call]

/-- `macro name(…) { … }`, which has no meaning here. -/
def macroDefinition : Parse Node := phrase .otherItem do
  let _ ← visibility
  word "macro"
  let _ ← name
  if ← test atParen then skip
  guard (← test atBrace)
  skip
  return []

/-- One item of a foreign module, behind its attributes. -/
def foreignItemRest (self : Self) : Parse Node := phraseOf do
  let vis ← visibility
  if ← test (fun ts => atWord "safe" ts && (startsSignature (ts.drop 1) || atWord "static" (ts.drop 1))) then
    skip
    if ← test startsSignature then discard (signature self)
    else
      word "static"
      let _ ← optionalWord "mut"
      let _ ← name
      mark ":"
      discard (self (.type true))
    mark ";"
    return (.otherItem, [])
  else if ← test startsSignature then
    let sig ← signature self
    if ← test atBrace then
      discard (self (.block true))
      return (.otherItem, [])
    else
      mark ";"
      return (.foreignFunction, [sig.withRole .signature])
  else if ← test (fun ts => atWord "static" ts || (atWord "unsafe" ts && atWord "static" (ts.drop 1))) then
    let isUnsafe ← optionalWord "unsafe"
    word "static"
    let _ ← optionalWord "mut"
    let _ ← name
    mark ":"
    let t ← self (.type true)
    let hasValue ← optionalMark "="
    if hasValue then discard (self (.expression true))
    mark ";"
    return if isUnsafe || hasValue then (.otherItem, []) else (.foreignStatic, [t.withRole .type])
  else if ← test (atWord "type") then
    let (_, generics, bounds, value) ← typeDeclaration self
    mark ";"
    return if bounds.isEmpty && value.isEmpty then (.foreignStatic, generics) else (.otherItem, [])
  else
    guard vis.isEmpty
    return (.invocationItem, [← memberInvocation self])

def foreignItem (self : Self) : Parse Node := do
  let attrs ← attributes self
  return withAttributes attrs (← foreignItemRest self)

def foreignModule (self : Self) : Parse Node := phrase .foreignModule do
  let _ ← optionalWord "unsafe"
  word "extern"
  if ← test atText then skip
  inside .brace do
    let attrs ← innerAttributes self
    return attrs ++ (← untilEnd (foreignItem self))

/-! ## Traits and implementations -/

/-- A method with its body, if it has one. -/
def methodRest (self : Self) (front : List Node) : Parse (Kind × List Node) := do
  let sig ← signature self
  let front := front ++ [sig.withRole .signature]
  if ← optionalMark ";" then return (.method, front)
  else
    let (attrs, body) ← bodyBlock self
    return (.method, attrs ++ front ++ [body])

/-- A member of a trait. Members with a visibility or `default` have no meaning here. -/
def traitMember (self : Self) : Parse Node := phraseOf do
  let attrs ← attributes self
  let vis ← visibility
  let isDefault ← if ← test (fun ts => atWord "default" ts && !atMark "!" (ts.drop 1)) then
      (do skip; return true)
    else pure false
  let (kind, children) ← if ← test startsSignature then methodRest self attrs
    else if ← test (atWord "const") then (do
      skip
      let n ← if ← test (atWord "_") then anyName else name
      let generics ← genericParameters self
      mark ":"
      let t ← self (.type true)
      let value ← if ← optionalMark "=" then pure [← self (.expression true)] else pure []
      let conditions ← whereClause self
      mark ";"
      let front := attrs ++ [n.withRole .name] ++ generics ++ conditions ++ [t.withRole .type]
      return (Kind.associatedConst, front ++ value.map (Tree.withRole .value)))
    else if ← test (atWord "type") then (do
      let (n, generics, bounds, value) ← typeDeclaration self
      mark ";"
      return (Kind.associatedType, attrs ++ [n.withRole .name] ++ generics ++ bounds ++ value))
    else (do
      guard (vis.isEmpty && !isDefault)
      return (Kind.invocationItem, attrs ++ [← memberInvocation self]))
  return if vis.isEmpty && !isDefault then (kind, children) else (.otherItem, [])

/-- The name, generics, bounds and members of a trait, or what it is another name for. -/
def traitItem (self : Self) : Parse Node := phraseOf do
  let vis ← visibility
  let _ ← optionalWord "unsafe"
  let _ ← optionalWord "auto"
  word "trait"
  let n ← name
  let generics ← genericParameters self
  if ← optionalMark "=" then
    let bounds ← joined "+" (fun ts => atWord "where" ts || atMark ";" ts) (self .bound)
    let conditions ← whereClause self
    mark ";"
    return (.otherItem, generics ++ conditions ++ bounds)
  let bounds ← if ← optionalMark ":" then
      joined "+" (fun ts => atWord "where" ts || atBrace ts) (self .bound)
    else pure []
  let conditions ← whereClause self
  let (attrs, members) ← inside .brace do
    let attrs ← innerAttributes self
    return (attrs, ← untilEnd (traitMember self))
  return (.traitItem, attrs ++ vis ++ [n.withRole .name] ++ generics ++ conditions ++ bounds ++
    members.map (Tree.withRole .content))

/-- A member of an implementation. -/
def implMember (self : Self) : Parse Node := phraseOf do
  let attrs ← attributes self
  let vis ← visibility
  let isDefault ← if ← test (fun ts => atWord "default" ts && !atMark "!" (ts.drop 1)) then
      (do skip; return true)
    else pure false
  let front := attrs ++ vis
  if ← test startsSignature then
    let (kind, children) ← methodRest self front
    return if children.any (·.role == some .body) then (kind, children) else (.otherItem, [])
  else if ← test (atWord "const") then
    skip
    match ← constRest self with
    | some (n, t, v) =>
      return (.associatedConst, front ++ [n.withRole .name, t.withRole .type, v.withRole .value])
    | none => return (.otherItem, [])
  else if ← test (atWord "type") then
    let (n, generics, bounds, value) ← typeDeclaration self
    mark ";"
    return if bounds.isEmpty && !value.isEmpty then
        (.associatedType, front ++ [n.withRole .name] ++ generics ++ value)
      else (.otherItem, [])
  else
    guard (vis.isEmpty && !isDefault)
    return (.invocationItem, attrs ++ [← memberInvocation self])

/-- Whether generic parameters rather than a qualified type follow `impl`. -/
def startsImplGenerics (ts : List Token) : Bool :=
  let next := ts.drop 1
  let third := ts.drop 2
  atMark "<" ts && (atMark ">" next || atMark "#" next ||
    ((atName next || atLifetime next) &&
      (atMark ":" third || atMark "," third || atMark ">" third || atMark "=" third)) ||
    atWord "const" next)

def implItem (self : Self) : Parse Node := phraseOf do
  let vis ← visibility
  let _ ← optionalWord "default"
  let _ ← optionalWord "unsafe"
  word "impl"
  let generics ← if ← test startsImplGenerics then genericParameters self else pure []
  let isConst ← if ← test (fun ts => atWord "const" ts || (atMark "?" ts && atWord "const" (ts.drop 1))) then
      (do let _ ← optionalMark "?"; skip; return true)
    else pure false
  let isNegative ← if ← test (fun ts => atMark "!" ts && !atBrace (ts.drop 1)) then
      (do mark "!"; return true)
    else pure false
  let first ← self (.type true)
  let isFor ← optionalWord "for"
  guard (isFor || !isNegative)
  let selfType ← if isFor then self (.type true) else pure first
  let conditions ← whereClause self
  let (attrs, members) ← inside .brace do
    let attrs ← innerAttributes self
    return (attrs, ← untilEnd (implMember self))
  let isTrait := isFor && first.kind == .pathType && first.children.length == 1
  if !vis.isEmpty || isConst || (isFor && !isTrait) then return (.otherItem, [])
  else
    let trait_ := if isTrait then [first.withRole .trait] else []
    return (.implItem, attrs ++ generics ++ trait_ ++ [selfType.withRole .type] ++ conditions ++
      members.map (Tree.withRole .content))

/-! ## Items -/

/-- An item behind its attributes. -/
def itemRest (self : Self) : Parse Node := do
  let ts ← ahead
  -- what follows a visibility decides what the item is
  let tail := if atWord "pub" ts then (if restricts (ts.drop 1) then ts.drop 2 else ts.drop 1) else ts
  let next := tail.drop 1
  if startsSignature tail then functionItem self
  else if atWord "extern" tail then
    if atWord "crate" next then externCrateItem
    else (do let _ ← visibility; foreignModule self)
  else if atWord "use" tail then useItem self
  else if atWord "static" tail then staticItem self
  else if atWord "const" tail then constItem self
  else if atWord "unsafe" tail then
    if atWord "trait" next || (atWord "auto" next && atWord "trait" (tail.drop 2)) then traitItem self
    else if atWord "impl" next then implItem self
    else if atWord "extern" next then (do let _ ← visibility; foreignModule self)
    else moduleItem self
  else if atWord "mod" tail then moduleItem self
  else if atWord "type" tail then typeItem self
  else if atWord "struct" tail then structItem self
  else if atWord "enum" tail then enumItem self
  else if atWord "union" tail && atName next then unionItem self
  else if atWord "trait" tail then traitItem self
  else if atWord "auto" tail && atWord "trait" next then traitItem self
  else if atWord "impl" tail || (atWord "default" tail && !atMark "!" next) then implItem self
  else if atWord "macro" tail then macroDefinition
  else if !atWord "pub" ts && (atName ts || ["self", "super", "crate"].any (atWord · ts) || atMark "::" ts) then
    invocationItem self
  else fail

def item (self : Self) : Parse Node := do
  let attrs ← attributes self
  return withAttributes attrs (← itemRest self)

/-! ## Statements -/

/-- Whether an item rather than an expression starts here. -/
def startsItem (ts : List Token) : Bool :=
  let next := ts.drop 1
  let third := ts.drop 2
  atWord "pub" ts || (atWord "crate" ts && !atMark "::" next) || atWord "extern" ts ||
  atWord "use" ts ||
  (atWord "static" ts && (atWord "mut" next || atName next)) ||
  (atWord "const" ts && !(atBrace next || atWord "static" next ||
    (atWord "async" next && !(atWord "unsafe" third || atWord "extern" third || atWord "fn" third)) ||
    atWord "move" next || atMark "|" next)) ||
  (atWord "unsafe" ts && !atBrace next) ||
  (atWord "async" ts && (atWord "unsafe" next || atWord "extern" next || atWord "fn" next)) ||
  ["fn", "mod", "type", "struct", "enum", "trait", "impl", "macro"].any (atWord · ts) ||
  (atWord "union" ts && atName next) || (atWord "auto" ts && atWord "trait" next) ||
  (atWord "default" ts && (atWord "unsafe" next || atWord "impl" next))

/-- A macro call with braces, or the definition of a macro, as a statement. -/
def statementInvocation (self : Self) : Parse Node := do
  let p ← plainPath
  guard (← test atBang)
  if ← test (fun ts => atName (ts.drop 1) || atWord "try" (ts.drop 1)) then
    mark "!"
    skip
    let (call, hasBraces) ← invocationRest self p
    if !hasBraces then mark ";"
    return .node .invocationItem none "" call.span [call]
  else
    guard (← test fun ts => atBrace (ts.drop 1) &&
      !((atMark "." (ts.drop 2) && !atMark ".." (ts.drop 2)) || atMark "?" (ts.drop 2)))
    mark "!"
    let (call, _) ← invocationRest self p
    let _ ← optionalMark ";"
    return .node .invocationItem none "" call.span [call]

/-- `let` with its value, the block for values that do not fit, its type and its pattern, which binds
only after all of them. -/
def localStatement (self : Self) : Parse Node := phrase .localStatement do
  word "let"
  let p ← self .pattern
  let type ← if ← optionalMark ":" then pure [(← self (.type true)).withRole .type] else pure []
  let value ← if ← optionalMark "=" then (do
      let v ← self (.expression true)
      let alternative ← if ← optionalWord "else" then
          pure [(← phrase .blockExpression
            (return [(← self (.block false)).withRole .body])).withRole .alternative]
        else pure []
      return v.withRole .value :: alternative)
    else pure []
  mark ";"
  return value ++ type ++ [p.withRole .pattern]

/-- Whether an expression statement needs a semicolon unless it comes last. -/
def needsSemicolon (e : Node) : Bool :=
  if e.kind == .invocationExpression then !(e.children.any (·.role == some .body))
  else !endsWithBlock e.kind

def expressionStatement (self : Self) : Parse Node := do
  let e ← self .statementExpression
  let closed ← optionalMark ";"
  guard (closed || !needsSemicolon e || (← isEmpty))
  return e

mutual

/-- Puts the attributes of a statement in front of the first operand of its expression. -/
def attributeFirst (attrs : List Node) : Node → Node
  | .node kind role text span children =>
    if kind == .binaryExpression || kind == .assignExpression || kind == .castExpression then
      .node kind role text span (attributeHead attrs children)
    else .node kind role text span (attrs ++ children)

def attributeHead (attrs : List Node) : List Node → List Node
  | [] => []
  | t :: rest => attributeFirst attrs t :: rest

end

def statement (self : Self) : Parse Node := do
  let attrs ← attributes self
  match ← attempt (statementInvocation self) with
  | some call => return withAttributes attrs call
  | none =>
    if ← test (atWord "let") then return withAttributes attrs (← localStatement self)
    else if ← test startsItem then return withAttributes attrs (← itemRest self)
    else return attributeFirst attrs (← expressionStatement self)

/-- The statements of a block; empty ones leave nothing in the tree. -/
def statements (self : Self) : Parse (List Node) := do
  let found ← untilEnd do
    if ← optionalMark ";" then return []
    else return [← statement self]
  return found.flatten

def block (self : Self) (inner : Bool) : Parse Node := phrase .block do
  inside .brace do
    let attrs ← if inner then innerAttributes self else pure []
    return attrs ++ (← statements self)

end SymbolGraph.Crate.Parse
