import SymbolGraph.Tree.Basic

/-!
# Syntax of Rust

The kinds of nodes in the syntax trees of Rust files, and the roles in which nodes stand in their
parents. The children of a node stand in the order in which they count: attributes first, then as
written, except that a pattern that binds follows the value it is bound to.
-/
namespace SymbolGraph.Crate

inductive Kind
  | token
  | name
  | file
  /-- An attribute whose value is an expression. -/
  | attribute
  | visibility
  -- items
  | functionItem
  | structItem
  | unionItem
  | enumItem
  | traitItem
  | implItem
  | typeItem
  | constItem
  | staticItem
  | moduleItem
  | moduleBody
  | useItem
  | externCrateItem
  | foreignModule
  | invocationItem
  /-- An item that is read and has no meaning here. -/
  | otherItem
  -- parts of items
  | usePath
  | useName
  | useRename
  | useGroup
  | useGlob
  | method
  | associatedConst
  | associatedType
  | foreignFunction
  | foreignStatic
  | signature
  | receiver
  | typedParameter
  | generics
  | typeParameter
  | constParameter
  | wherePredicate
  | traitBound
  | field
  | variant
  -- paths
  | path
  /-- A path that starts with a double colon. -/
  | globalPath
  | segment
  | qualifiedSelf
  | associatedArgument
  -- types
  | pathType
  | referenceType
  | pointerType
  | sliceType
  | arrayType
  | tupleType
  | parenthesizedType
  | functionType
  | traitObjectType
  | implTraitType
  | invocationType
  | plainType
  -- patterns
  | namePattern
  | pathPattern
  | tupleStructPattern
  | structPattern
  | fieldPattern
  | typedPattern
  | referencePattern
  | tuplePattern
  | slicePattern
  | orPattern
  | parenthesizedPattern
  | rangePattern
  | invocationPattern
  /-- A pattern that neither binds nor refers. -/
  | plainPattern
  -- statements and expressions
  | localStatement
  | block
  | blockExpression
  | asyncExpression
  | callExpression
  | methodCall
  | pathExpression
  | structExpression
  | fieldValue
  | closure
  | forLoop
  /-- The pattern of a `for` loop with the block that sees what it binds. -/
  | loopBody
  | letExpression
  | matchExpression
  | arm
  | ifExpression
  | loopExpression
  | invocationExpression
  | arrayExpression
  | tupleExpression
  | parenthesizedExpression
  | binaryExpression
  | assignExpression
  | rangeExpression
  | castExpression
  | operatorExpression
  | fieldExpression
  | indexExpression
  | awaitExpression
  | jumpExpression
  | plainExpression
  /-- A macro call: its path and, where they are expressions, its arguments. -/
  | invocation
  deriving DecidableEq, Repr, Inhabited

inductive Role
  | name
  | visibility
  | attribute
  | signature
  | functionWord
  | parameter
  | generics
  | output
  | body
  | content
  | type
  | trait
  | pattern
  | value
  | alternative
  | guard
  | function
  | receiver
  | method
  | argument
  | path
  | givenName
  | tree
  | useWord
  | stop
  deriving DecidableEq, Repr, Inhabited

/-- Syntax trees of Rust files. -/
abbrev Node := Tree Kind Role

def isAttribute (t : Node) : Bool := t.role == some .attribute

end SymbolGraph.Crate
