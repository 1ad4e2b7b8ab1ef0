import SymbolGraph.Crate.Grammar
import SymbolGraph.Crate.Scopes
import SymbolGraph.Ordered.KeySet
import SymbolGraph.Symbol.Trace
import SymbolGraph.Text.Lines

/-!
# References in Rust files

The walk collects every path whose first name is imported or declared at the top of the file. A name
bound in a scope around it refers to that binding instead.
-/
namespace SymbolGraph.Crate
open Text

/-- What the walk looks for, and the text for the contexts of what it finds. -/
structure Search where
  content : String
  bindings : Bindings
  sameFile : KeySet

/-- The reference that a path makes. A path that starts with a double colon leads outside. -/
def Search.pathReference? (s : Search) (scopes : Scopes) (usageType : UsageType) (path : Node) :
    Option Reference := do
  if path.kind != .path then none
  let first ← path.children.head?
  let name := first.text
  if scopes.binds name then none
  let target : ReferenceTarget ←
    if s.bindings.contains name then some (.imported name ((path.children[1]?).map Tree.text))
    else if s.sameFile.contains name then some (.sameFile name)
    else none
  return { target, line := first.line, context := lineContext s.content first.line, usageType }

def isPath (t : Node) : Bool := t.kind == .path || t.kind == .globalPath

/-- The path of a node that is not qualified by a type: the first child behind the attributes. -/
def plainPathOf? (t : Node) : Option Node := (t.children.find? (!isAttribute ·)).filter isPath

/-- A call of a path. -/
def callsPath (t : Node) : Bool := (t.child? .function).any (·.kind == .pathExpression)

/-- The path that a node refers by, and as what. Patterns count also if a type qualifies them. -/
def referringPath? (t : Node) : Option (Node × UsageType) :=
  match t.kind with
  | .callExpression => do
    let callee ← t.child? .function
    if callee.kind == .pathExpression then (plainPathOf? callee).map fun p => (p, .call) else none
  | .pathExpression | .structExpression => (plainPathOf? t).map fun p => (p, .reference)
  | .pathType => (plainPathOf? t).map fun p => (p, .type)
  | .pathPattern | .tupleStructPattern | .structPattern =>
    (t.children.find? isPath).map fun p => (p, .reference)
  | .invocation => (t.child? .path).map fun p => (p, .call)
  | _ => none

/-- The children of a node in which references are looked for. What a use declaration or the head of
an implementation names is no usage; of a signature the types count; a path that is called or stands
for a value has been seen, and its attributes do not count. -/
def isSearched (parent : Node) (child : Node) : Bool :=
  match parent.kind with
  | .useItem => false
  | .implItem => child.role == some .content
  | .functionItem | .method => child.role == some .signature || child.role == some .body
  | .signature => child.role == some .parameter || child.role == some .output
  | .typedParameter => child.role == some .type
  | .callExpression =>
    !(child.role == some .function && child.kind == .pathExpression) &&
      !(isAttribute child && callsPath parent)
  | .pathExpression => (plainPathOf? parent).isNone
  | kind => !onlyBinds kind child

mutual

/-- The references in a node, with the scopes behind it. -/
def referencesIn (s : Search) (scopes : Scopes) : Node → List Reference × Scopes
  | .node kind role text span children =>
    let self : Node := .node kind role text span children
    let own := (referringPath? self).bind fun (p, usageType) => s.pathReference? scopes usageType p
    let inner := if kind.opensScope then [] :: scopes else scopes
    let (found, after) := referencesInAll s self inner children
    let isClosed := kind.opensScope || (self.child? .signature).isSome
    (own.toList ++ found, if isClosed then scopes else after)

def referencesInAll (s : Search) (parent : Node) (scopes : Scopes) :
    List Node → List Reference × Scopes
  | [] => ([], scopes)
  | t :: rest =>
    let (found, scopes) := if isSearched parent t then referencesIn s scopes t else ([], scopes)
    let (more, scopes) := referencesInAll s parent (scopesAfter parent.kind t scopes) rest
    (found ++ more, scopes)

end

/-- All references of a file, in the order of the walk. -/
def references (s : Search) (root : Node) : List Reference := (referencesIn s [] root).1

end SymbolGraph.Crate
