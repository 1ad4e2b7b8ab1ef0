import SymbolGraph.Tree.Basic

/-!
# Syntax of TypeScript and JavaScript

The kinds of nodes in the syntax trees of scripts, and the roles in which nodes stand in their
parents. Keywords and punctuation are tokens; all other nodes are named.
-/
namespace SymbolGraph.Script

inductive Kind
  | token
  | comment
  | program
  | hashBang
  /-- A part of the text that no rule explains. -/
  | error
  -- names and literals
  | identifier
  | typeIdentifier
  | propertyIdentifier
  | privatePropertyIdentifier
  | shorthandPropertyIdentifier
  | shorthandPropertyIdentifierPattern
  | statementIdentifier
  | nestedIdentifier
  | nestedTypeIdentifier
  | computedPropertyName
  | this
  | super
  | importWord
  | undefinedLiteral
  | trueLiteral
  | falseLiteral
  | nullLiteral
  | number
  | string
  | regex
  | templateString
  | templateSubstitution
  | metaProperty
  -- modules
  | importStatement
  | importClause
  | importRequireClause
  | importAlias
  | importAttribute
  | importSpecifier
  | namedImports
  | namespaceImport
  | exportStatement
  | exportClause
  | exportSpecifier
  | namespaceExport
  -- statements
  | expressionStatement
  | statementBlock
  | lexicalDeclaration
  | variableDeclaration
  | variableDeclarator
  | ifStatement
  | elseClause
  | switchStatement
  | switchBody
  | switchCase
  | switchDefault
  | forStatement
  | forInStatement
  | whileStatement
  | doStatement
  | withStatement
  | tryStatement
  | catchClause
  | finallyClause
  | returnStatement
  | throwStatement
  | breakStatement
  | continueStatement
  | debuggerStatement
  | emptyStatement
  | labeledStatement
  -- functions and classes
  | functionDeclaration
  | generatorFunctionDeclaration
  | functionExpression
  | generatorFunction
  | arrowFunction
  | functionSignature
  | formalParameters
  | requiredParameter
  | optionalParameter
  | classDeclaration
  | abstractClassDeclaration
  | classExpression
  | classBody
  | classHeritage
  | extendsClause
  | implementsClause
  | classStaticBlock
  | methodDefinition
  | methodSignature
  | abstractMethodSignature
  | publicFieldDefinition
  | accessibilityModifier
  | overrideModifier
  | decorator
  -- declarations of types and namespaces
  | interfaceDeclaration
  | interfaceBody
  | extendsTypeClause
  | typeAliasDeclaration
  | enumDeclaration
  | enumBody
  | enumAssignment
  | internalModule
  | module
  | ambientDeclaration
  -- patterns
  | objectPattern
  | arrayPattern
  | pairPattern
  | restPattern
  | assignmentPattern
  | objectAssignmentPattern
  -- expressions
  | parenthesizedExpression
  | sequenceExpression
  | assignmentExpression
  | augmentedAssignmentExpression
  | ternaryExpression
  | binaryExpression
  | unaryExpression
  | updateExpression
  | awaitExpression
  | yieldExpression
  | callExpression
  | newExpression
  | memberExpression
  | subscriptExpression
  | optionalChain
  | nonNullExpression
  | asExpression
  | satisfiesExpression
  | typeAssertion
  | instantiationExpression
  | arguments
  | spreadElement
  | array
  | object
  | pair
  -- elements of markup
  | jsxElement
  | jsxOpeningElement
  | jsxClosingElement
  | jsxSelfClosingElement
  | jsxNamespaceName
  | jsxAttribute
  | jsxExpression
  | jsxText
  -- types
  | typeAscription
  | assertsAscription
  | asserts
  | typePredicateAscription
  | typePredicate
  | typeArguments
  | typeParameters
  | typeParameter
  | constraint
  | defaultType
  | predefinedType
  | genericType
  | parenthesizedType
  | functionType
  | constructorType
  | objectType
  | propertySignature
  | callSignature
  | constructSignature
  | indexSignature
  | mappedTypeClause
  | arrayType
  | tupleType
  | optionalType
  | restType
  | readonlyType
  | unionType
  | intersectionType
  | conditionalType
  | inferType
  | typeQuery
  | indexTypeQuery
  | lookupType
  | literalType
  | templateLiteralType
  | templateType
  | thisType
  | existentialType
  deriving DecidableEq, Repr, Inhabited

/-- What a node is to its parent. -/
inductive Role
  | name
  | body
  | value
  | givenName
  | source
  | declaration
  | decorator
  | kind
  | left
  | right
  | operator
  | condition
  | consequence
  | alternative
  | initializer
  | increment
  | parameter
  | parameters
  | typeParameters
  | typeArguments
  | returnType
  | type
  | pattern
  | key
  | function
  | constructor
  | arguments
  | argument
  | object
  | property
  | index
  | optionalChain
  | module
  | label
  | handler
  | finalizer
  | openTag
  | closeTag
  | constraint
  | indexType
  deriving DecidableEq, Repr, Inhabited

/-- Syntax trees of scripts. -/
abbrev Node := Tree Kind Role

/-- Comments, phrases and names are named; keywords and punctuation are not. -/
def isNamed (t : Node) : Bool := t.kind != .token

def namedChildren (t : Node) : List Node := t.children.filter isNamed

/-- A keyword or punctuation mark with the given spelling. -/
def isToken (t : Node) (spelling : String) : Bool := t.kind == .token && t.text == spelling

/-- The kinds of values that make a variable a function. -/
def Kind.isFunctionValue : Kind → Bool
  | .arrowFunction => true
  | .functionExpression => true
  | .generatorFunction => true
  | _ => false

end SymbolGraph.Script
