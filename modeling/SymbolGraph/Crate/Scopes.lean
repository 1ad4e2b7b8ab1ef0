import SymbolGraph.Crate.Kind

/-!
# Names bound in Rust functions

A `let` binds for the rest of its block, `if let` and `while let` for the rest of the block around
them, parameters for their body, and the pattern of a loop or an arm for what follows it there.
-/
namespace SymbolGraph.Crate

/-- Patterns that bind by the patterns in them. -/
def Kind.isCompoundPattern : Kind → Bool
  | .tupleStructPattern | .structPattern | .fieldPattern | .typedPattern | .referencePattern
  | .tuplePattern | .slicePattern | .orPattern | .parenthesizedPattern => true
  | _ => false

mutual

/-- The names that a pattern binds. -/
def patternNames : Node → List String
  | .node kind _ _ _ children =>
    if kind == .namePattern then
      (children.filter (·.role == some .name)).map Tree.text ++ patternNamesAll children
    else if kind.isCompoundPattern then patternNamesAll children
    else []

def patternNamesAll : List Node → List String
  | [] => []
  | t :: rest => patternNames t ++ patternNamesAll rest

end

/-- The names that the parameters of a function bind. -/
def parameterNames (signature : Node) : List String :=
  (signature.children.filter (·.kind == .typedParameter)).flatMap fun p =>
    ((p.child? .pattern).map patternNames).getD []

/-- The names bound in the open scopes, the innermost first. -/
abbrev Scopes := List (List String)

namespace Scopes

def binds (scopes : Scopes) (name : String) : Bool := scopes.any (·.contains name)

/-- Adds names to the innermost scope; outside of functions nothing is bound. -/
def declare (names : List String) : Scopes → Scopes
  | [] => []
  | scope :: rest => (scope ++ names) :: rest

end Scopes

/-- Nodes whose bindings end with them. -/
def Kind.opensScope : Kind → Bool
  | .block | .closure | .loopBody | .arm => true
  | _ => false

/-- Nodes whose patterns bind for what follows. -/
def Kind.bindsPattern : Kind → Bool
  | .localStatement | .letExpression | .closure | .loopBody | .arm => true
  | _ => false

/-- The scopes behind a child of a node of the given kind. The body of a function sees its parameters
and nothing of what surrounds the function. -/
def scopesAfter (parent : Kind) (child : Node) (scopes : Scopes) : Scopes :=
  if child.role == some .signature then [parameterNames child]
  else if parent.bindsPattern && (child.role == some .pattern || child.role == some .parameter) then
    scopes.declare (patternNames child)
  else scopes

/-- The children that the walks with scopes pass over: patterns and parameters that only bind, and
attributes of the nodes that bind. -/
def onlyBinds (parent : Kind) (child : Node) : Bool :=
  match parent with
  | .localStatement => child.role == some .pattern || isAttribute child
  | .loopBody => child.role == some .pattern
  | .closure => child.role != some .body
  | .forLoop | .arm | .letExpression => isAttribute child
  | _ => false

end SymbolGraph.Crate
