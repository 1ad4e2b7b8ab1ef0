import SymbolGraph.Script.Kind
import SymbolGraph.Text.Blank

/-!
# Names that scripts bind

Patterns, parameters and declarations bind names. A scope is opened by a function, a block, a
`catch` clause or a loop; `localBinding` says how a name is bound in the scopes around a place.
-/
namespace SymbolGraph.Script
open Text

mutual

/-- The names bound by a pattern, at any depth. -/
def patternNames : Node → List String
  | .node kind _ text _ children => match kind with
    | .identifier | .shorthandPropertyIdentifierPattern => [text]
    | .pairPattern => namesInRole .value children
    | .assignmentPattern | .objectAssignmentPattern => namesInRole .left children
    | .requiredParameter | .optionalParameter => namesInRole .pattern children
    | .objectPattern | .arrayPattern | .restPattern | .formalParameters => namesInAll children
    | _ => []

/-- The names bound by the first of the nodes in a role. -/
def namesInRole (role : Role) : List Node → List String
  | [] => []
  | t :: rest => if t.role == some role then patternNames t else namesInRole role rest

def namesInAll : List Node → List String
  | [] => []
  | t :: rest => (if isNamed t then patternNames t else []) ++ namesInAll rest

end

/-- The text of the child in a role. -/
def textIn? (t : Node) (role : Role) : Option String := (t.child? role).map (·.text)

/-- The names bound by the child in a role. -/
def namesIn (t : Node) (role : Role) : List String := ((t.child? role).map patternNames).getD []

/-- The names of the parameters of a function. -/
def parameterNames (function : Node) : List String :=
  namesIn function .parameters ++ namesIn function .parameter

/-- A text literal without its quotes. -/
def literalText (t : Node) : String := trimBoth (fun c => c == '\'' || c == '"' || c == '\x60') t.text

/-- The names that the declarators of a declaration bind. -/
def declaratorNames (declaration : Node) : List String :=
  (namedChildren declaration).flatMap (namesIn · .name)

def isVariableDeclaration (t : Node) : Bool :=
  t.kind == .lexicalDeclaration || t.kind == .variableDeclaration

def isFunctionDeclaration (t : Node) : Bool :=
  t.kind == .functionDeclaration || t.kind == .generatorFunctionDeclaration

def isClassDeclaration (t : Node) : Bool :=
  t.kind == .classDeclaration || t.kind == .abstractClassDeclaration

/-- The names that a statement declares in its block. -/
def statementNames (statement : Node) : List String :=
  if isFunctionDeclaration statement || isClassDeclaration statement then
    (textIn? statement .name).toList
  else if isVariableDeclaration statement then declaratorNames statement
  else []

/-- The names declared directly in a block. -/
def blockNames (block : Node) : List String := (namedChildren block).flatMap statementNames

/-- How a name is bound in a scope. -/
inductive LocalBinding
  /-- By a function declared in a block or a variable that holds one. -/
  | function
  /-- By anything else: a parameter, a plain variable, a class, a `catch` clause or a loop. -/
  | value
  deriving DecidableEq, Repr

/-- Whether a statement binds the name to a function. -/
def bindsFunction (name : String) (statement : Node) : Bool :=
  if isFunctionDeclaration statement then textIn? statement .name == some name
  else if isVariableDeclaration statement then
    (namedChildren statement).any fun declarator =>
      ((declarator.child? .name).any fun n => n.kind == .identifier && n.text == name) &&
      (declarator.child? .value).any (·.kind.isFunctionValue)
  else false

/-- A function expression, whose own name is visible in its body only. -/
def Kind.isNamedInside : Kind → Bool
  | .functionExpression | .generatorFunction => true
  | _ => false

/-- Nodes that open the scope of their parameters. -/
def Kind.isFunctionScope : Kind → Bool
  | .functionDeclaration | .generatorFunctionDeclaration | .functionExpression
  | .generatorFunction | .arrowFunction | .methodDefinition => true
  | _ => false

/-- The variables of a loop that declares its own. -/
def loopNames (loop : Node) : List String :=
  if (loop.child? .kind).isSome then namesIn loop .left else []

/-- The variables that a counting loop declares in its head. -/
def counterNames (loop : Node) : List String :=
  match loop.child? .initializer with
  | some start => if isVariableDeclaration start then declaratorNames start else []
  | none => []

/-- The names that a node binds for what stands inside it. -/
def scopeNames (t : Node) : List String :=
  match t.kind with
  | .statementBlock | .classStaticBlock => blockNames t
  | .catchClause => namesIn t .parameter
  | .forStatement => counterNames t
  | .forInStatement => loopNames t
  | kind =>
    if kind.isFunctionScope then
      parameterNames t ++ (if kind.isNamedInside then (textIn? t .name).toList else [])
    else []

/-- How the scope opened by a node binds a name. -/
def bindingIn (name : String) (scope : Node) : Option LocalBinding :=
  match scope.kind with
  | .statementBlock | .classStaticBlock =>
    if (blockNames scope).contains name then
      some (if (namedChildren scope).any (bindsFunction name) then .function else .value)
    else none
  | kind =>
    if kind.isFunctionScope then
      if (parameterNames scope).contains name then some .value
      else if kind.isNamedInside && textIn? scope .name == some name then some .function
      else none
    else if (scopeNames scope).contains name then some .value
    else none

/-- The innermost binding of a name in the scopes around a place, the innermost scope first. Names
declared at the top of the file and imports are not local. -/
def localBinding (ancestors : List Node) (name : String) : Option LocalBinding :=
  ancestors.findSome? (bindingIn name)

end SymbolGraph.Script
