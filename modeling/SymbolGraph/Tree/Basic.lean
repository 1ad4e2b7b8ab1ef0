/-!
# Concrete syntax trees

A node has a kind, the role it plays in its parent, its text, its place and its children in source
order. Tokens are nodes without children.
-/
namespace SymbolGraph

/-- The place of a node: offsets in characters, the end excluded, and the lines of both. -/
structure Span where
  start : Nat
  stop : Nat
  line : Nat
  endLine : Nat
  deriving DecidableEq, Repr, Inhabited

inductive Tree (κ ρ : Type) where
  | node (kind : κ) (role : Option ρ) (text : String) (span : Span) (children : List (Tree κ ρ))
  deriving Repr, Inhabited

namespace Tree

variable {κ ρ : Type}

def kind : Tree κ ρ → κ
  | .node k _ _ _ _ => k

def role : Tree κ ρ → Option ρ
  | .node _ r _ _ _ => r

def text : Tree κ ρ → String
  | .node _ _ t _ _ => t

def span : Tree κ ρ → Span
  | .node _ _ _ s _ => s

def children : Tree κ ρ → List (Tree κ ρ)
  | .node _ _ _ _ cs => cs

def line (t : Tree κ ρ) : Nat := t.span.line
def endLine (t : Tree κ ρ) : Nat := t.span.endLine

/-- The same node in another role. -/
def withRole (r : ρ) : Tree κ ρ → Tree κ ρ
  | .node k _ t s cs => .node k (some r) t s cs

/-- The first child in the given role. -/
def child? [DecidableEq ρ] (t : Tree κ ρ) (r : ρ) : Option (Tree κ ρ) :=
  t.children.find? fun c => c.role == some r

end Tree
end SymbolGraph
