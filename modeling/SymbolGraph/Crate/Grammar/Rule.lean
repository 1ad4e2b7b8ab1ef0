import SymbolGraph.Crate.Cursor

/-!
# Rules of the Rust grammar

The grammar is written as plain functions that take the meaning of the recursive rules as an
argument. `Grammar` ties the knot with a bound on the depth of recursion.
-/
namespace SymbolGraph.Crate

/-- The rules that other rules use recursively. -/
inductive Rule
  | item
  /-- Statements in braces; `inner` allows attributes of the block itself. -/
  | block (inner : Bool)
  /-- `structs` allows struct literals outside of brackets. -/
  | expression (structs : Bool)
  | unary (structs : Bool)
  /-- What stands behind the equals sign of a condition that binds. -/
  | comparison
  | rangeEnd (structs : Bool)
  | ifExpression
  /-- An expression that ends after a block, as a statement does. -/
  | statementExpression
  | pattern
  /-- Patterns separated by bars. -/
  | patterns
  /-- `plus` allows several bounds joined by plus signs. -/
  | type (plus : Bool)
  | bound
  | useTree
  | useGroupTree
  deriving DecidableEq, Repr

/-- How to read each rule. -/
abbrev Self := Rule → Parse Node

namespace Parse

/-! ## Attributes -/

/-- A path of plain names. -/
def plainPath : Parse Node := do
  let isGlobal ← test (atMark "::")
  phrase (if isGlobal then .globalPath else .path) do
    if isGlobal then mark "::"
    let isPart (ts : List Token) : Bool :=
      atName ts || ["super", "self", "Self", "crate"].any (atWord · ts)
    guard (← test isPart)
    let first ← anyName
    let rest ← whileTrue (atMark "::") do
      mark "::"
      guard (← test isPart)
      anyName
    return (first :: rest).map fun n => .node .segment none n.text n.span []

/-- The content of an attribute: a path, alone, with a bracket or with a value. -/
def attributeContent (self : Self) : Parse (List Node) := do
  if ← test (atWord "unsafe") then skip else discard plainPath
  if ← test (atMark "=") then
    mark "="
    let onlyLiteral := fun (ts : List Token) => atLiteral ts &&
      (ts.length == 1 || (ts.length == 2 && atMark "-" ts))
    if ← test onlyLiteral then literal; return []
    else
      guard !(← test fun ts => atMark "#" ts && atBracket (ts.drop 1))
      let value ← self (.expression true)
      return [← phrase .attribute (return [value])]
  else
    if !(← isEmpty) then discard delimited
    return []

/-- Attributes of what follows. Those with plain content leave nothing in the tree. -/
def attributes (self : Self) : Parse (List Node) := do
  let found ← whileTrue (atMark "#") do
    mark "#"
    inside .bracket (attributeContent self)
  return found.flatten.map (Tree.withRole .attribute)

/-- Attributes of what surrounds them. -/
def innerAttributes (self : Self) : Parse (List Node) := do
  let found ← whileTrue (fun ts => atMark "#" ts && atMark "!" (ts.drop 1)) do
    mark "#"
    mark "!"
    inside .bracket (attributeContent self)
  return found.flatten.map (Tree.withRole .attribute)

/-- Puts attributes in front of the children of a node. What has no meaning here keeps none. -/
def withAttributes (attrs : List Node) (t : Node) : Node :=
  if t.kind == .otherItem then t
  else .node t.kind t.role t.text t.span (attrs ++ t.children)

/-- The attributes that a body starts with, which belong to what it is the body of, and the rest of
the body. -/
def liftAttributes (body : Node) : List Node × Node :=
  (body.children.filter isAttribute,
    .node body.kind body.role body.text body.span (body.children.filter (!isAttribute ·)))

/-- A block as the body of something, and the attributes that it starts with. -/
def bodyBlock (self : Self) : Parse (List Node × Node) := do
  let (attrs, body) := liftAttributes (← self (.block true))
  return (attrs, body.withRole .body)

/-! ## Macro calls -/

/-- The arguments of a macro call if they are expressions separated by commas. -/
def macroArguments (self : Self) (content : List Token) : Parse (List Node) := do
  let last := (← get).last
  match commaList (self (.expression true)) ⟨content, last⟩ with
  | some (args, _) => return args.map (Tree.withRole .argument)
  | none => return []

/-- The rest of a macro call behind its path and exclamation mark; tells whether it has braces. -/
def invocationRest (self : Self) (path : Node) : Parse (Node × Bool) := do
  let (d, content) ← delimited
  let args ← macroArguments self content
  let stop := (← get).last
  let span : Span := ⟨path.span.start, stop.stop, path.span.line, stop.endLine⟩
  return (.node .invocation none "" span (path.withRole .path :: args), d == .brace)

/-- Whether a path is followed by an exclamation mark that starts a macro call. -/
def atBang (ts : List Token) : Bool := atMark "!" ts && !atMark "!=" ts

/-- A path of plain names without arguments, which may name a macro. -/
def isPlainPath (path : Node) : Bool := path.children.all fun s => s.children.isEmpty

end Parse
end SymbolGraph.Crate
