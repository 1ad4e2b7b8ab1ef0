import SymbolGraph.Script.Names
import SymbolGraph.Symbol.Trace
import SymbolGraph.Ordered.KeySet
import SymbolGraph.Text.Lines

/-!
# References in scripts

The walk collects every name that refers to an import or to a declaration at the top of the file. A
name bound in a scope around it refers to that binding instead.
-/
namespace SymbolGraph.Script
open Text

/-- What the walk looks for, and the text for the contexts of what it finds. -/
structure Search where
  content : String
  bindings : Bindings
  sameFile : KeySet

namespace Search

/-- The reference that a name makes unless a scope binds it. -/
def target? (s : Search) (name : String) : Option ReferenceTarget :=
  if s.bindings.contains name then some (.imported name none)
  else if s.sameFile.contains name then some (.sameFile name)
  else none

def isNamespace (s : Search) (name : String) : Bool := (s.bindings.get? name).any (·.isNamespace)

def found (s : Search) (target : ReferenceTarget) (line : Nat) (usageType : UsageType) : Reference :=
  { target, line, context := lineContext s.content line, usageType }

end Search

/-- Whether one of the open scopes binds a name. -/
def isShadowed (scopes : List (List String)) (name : String) : Bool :=
  scopes.any (·.contains name)

/-- What a plain name is used for, by the node it stands in and its role there. -/
def usageTypeIn (parent : Kind) (role : Option Role) : UsageType :=
  match parent with
  | .callExpression => if role == some .function then .call else .reference
  | .newExpression => if role == some .constructor then .call else .reference
  | .jsxOpeningElement | .jsxSelfClosingElement => .jsx
  | _ => .reference

/-- The reference of a name that no scope binds. -/
def nameReference (s : Search) (scopes : List (List String)) (name : String) (line : Nat)
    (usageType : UsageType) : List Reference :=
  if isShadowed scopes name then []
  else (s.target? name).toList.map (s.found · line usageType)

/-- A member of an imported namespace, if that is what the access is. -/
def memberReference? (s : Search) (scopes : List (List String)) (object member : Node) :
    Option ReferenceTarget :=
  if object.kind == .identifier && !isShadowed scopes object.text && s.isNamespace object.text then
    some (.imported object.text (some member.text))
  else none

/-- Nodes inside which nothing refers. -/
def Kind.isSilent : Kind → Bool
  | .importStatement | .jsxClosingElement | .propertyIdentifier | .privatePropertyIdentifier
  | .comment => true
  | _ => false

/-- Nodes that open a scope. -/
def Kind.opensScope : Kind → Bool
  | .statementBlock | .classStaticBlock | .catchClause | .forStatement | .forInStatement => true
  | kind => kind.isFunctionScope

/-- The children of a node in which references are looked for: not the names that the node itself
declares, and nothing of an export list. -/
def isWalked (parent : Node) (child : Node) : Bool :=
  match parent.kind with
  | .exportStatement =>
    child.kind != .exportClause && !(child.role == some .value && child.kind == .identifier)
  | .catchClause => child.role != some .parameter
  | .forInStatement => child.role != some .left || (parent.child? .kind).isNone
  | .variableDeclarator => child.role == some .type || child.role == some .value
  | .requiredParameter | .optionalParameter => child.role != some .pattern
  | .classDeclaration | .abstractClassDeclaration | .classExpression | .interfaceDeclaration
  | .typeAliasDeclaration | .enumDeclaration | .typeParameter | .publicFieldDefinition =>
    child.role != some .name
  | kind =>
    if kind.isFunctionScope then child.role != some .name && child.role != some .parameter else true

mutual

/-- The references in a node that stands in a node of kind `parent`, inside the given scopes. -/
def referencesIn (s : Search) (scopes : List (List String)) (parent : Kind) : Node → List Reference
  | .node kind role text span children =>
    let self : Node := .node kind role text span children
    if kind.isSilent then []
    else if kind == .identifier then
      nameReference s scopes text span.line (usageTypeIn parent role)
    else if kind == .shorthandPropertyIdentifier then
      nameReference s scopes text span.line .reference
    else if kind == .typeIdentifier then nameReference s scopes text span.line .type
    else if kind == .memberExpression then
      match self.child? .object, self.child? .property with
      | some object, some property => match memberReference? s scopes object property with
        | some target =>
          let isCallee := parent == .callExpression && role == some .function
          [s.found target span.line (if isCallee then .call else .namespace)]
        | none => referencesInRole s scopes kind .object children
      | _, _ => referencesInAll s scopes self children
    else if kind == .nestedTypeIdentifier then
      match namedChildren self with
      | module :: next :: rest => match memberReference? s scopes module (rest.getLast?.getD next) with
        | some target => [s.found target span.line .type]
        | none => referencesInNamed s scopes kind children
      | _ => []
    else if kind == .exportStatement && (self.child? .source).isSome then []
    else if kind.opensScope then referencesInAll s (scopeNames self :: scopes) self children
    else referencesInAll s scopes self children

/-- The references in those of the children that are walked. -/
def referencesInAll (s : Search) (scopes : List (List String)) (parent : Node) :
    List Node → List Reference
  | [] => []
  | t :: rest =>
    (if isWalked parent t then referencesIn s scopes parent.kind t else []) ++
      referencesInAll s scopes parent rest

/-- The references in the first of the nodes in a role. -/
def referencesInRole (s : Search) (scopes : List (List String)) (parent : Kind) (role : Role) :
    List Node → List Reference
  | [] => []
  | t :: rest =>
    if t.role == some role then referencesIn s scopes parent t
    else referencesInRole s scopes parent role rest

/-- The references in the first named node. -/
def referencesInNamed (s : Search) (scopes : List (List String)) (parent : Kind) :
    List Node → List Reference
  | [] => []
  | t :: rest =>
    if isNamed t then referencesIn s scopes parent t else referencesInNamed s scopes parent rest

end

/-- All references of a script, in the order of the text. -/
def references (s : Search) (root : Node) : List Reference := referencesInAll s [] root root.children

end SymbolGraph.Script
