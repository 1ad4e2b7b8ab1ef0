import SymbolGraph.Script.Mutations
import SymbolGraph.CallGraph.Basic
import SymbolGraph.Ordered.KeySet

/-!
# Functions of scripts

Functions at the top of a file have their own name, members of a class are named `Class.method`,
functions inside others `outer.inner`, and members of a namespace `N::f`. A default export without
a name is called `default`.
-/
namespace SymbolGraph.Script
open Text

/-- The local names that one export statement makes visible. -/
def exportedBy (statement : Node) : List String :=
  if statement.kind != .exportStatement || (statement.child? .source).isSome then []
  else
    let declared := match statement.child? .declaration with
      | some d => (textIn? d .name).toList ++
          ((namedChildren d).filter (·.kind == .variableDeclarator)).filterMap (textIn? · .name)
      | none => []
    let value := match statement.child? .value with
      | some v => if v.kind == .identifier then [v.text] else (textIn? v .name).toList
      | none => []
    let listed := ((statement.children.filter (·.kind == .exportClause)).flatMap namedChildren).filterMap
      (textIn? · .name)
    declared ++ value ++ listed

/-- The local names that a file exports. -/
def exportedNames (root : Node) : KeySet :=
  .ofList (root.children.flatMap exportedBy ++ [defaultName])

/-- What a function is declared in. -/
inductive Owner
  | class (name : String) (isExported : Bool)
  | function (name : String)
  deriving DecidableEq, Repr

/-- Where the walk stands. -/
structure Surroundings where
  file : String
  exported : KeySet
  /-- The classes and functions around, the innermost first. -/
  owners : List Owner := []
  /-- The namespaces around, the outermost first. -/
  modules : List String := []

namespace Surroundings

def currentFunction? (s : Surroundings) : Option String :=
  s.owners.findSome? fun
    | .function name => some name
    | .class _ _ => none

def within (s : Surroundings) (owner : Owner) : Surroundings := { s with owners := owner :: s.owners }

/-- The class as an owner of its members. -/
def classOwner (s : Surroundings) (name : String) : Owner :=
  let fullName := match s.currentFunction? with
    | some function => function ++ "." ++ name
    | none => qualifiedName s.modules name
  .class fullName (s.owners.isEmpty && s.exported.contains name)

end Surroundings

/-- The signature of a function that has parameters. -/
def functionSignature? (function : Node) : Option String := do
  let parameters ← textIn? function .parameters <|>
    (textIn? function .parameter).map fun p => "(" ++ p ++ ")"
  return singleBlank (parameters ++ (textIn? function .returnType).getD "")

/-- The node of a function, whose lines are those of its whole declaration. -/
def functionNode (s : Surroundings) (declaration function : Node) (name : String) : FunctionNode :=
  let (fullName, isMethod, isNested, isExported) := match s.owners with
    | .class owner isExported :: _ => (owner ++ "." ++ name, true, false, isExported)
    | .function owner :: _ => (owner ++ "." ++ name, false, true, false)
    | [] => (qualifiedName s.modules name, false, false, s.modules.isEmpty && s.exported.contains name)
  { FunctionNode.named s.file fullName declaration.line declaration.endLine with
    isMethod, isNested, isExported
    signature := functionSignature? function
    reasons := outerMutations function }

/-- A function with the place of its node in the tree: the indexes of children on the way to it, the
innermost first. -/
structure Declared where
  node : FunctionNode
  place : List Nat

/-- How a node declares a function: itself, by its value, or not at all. -/
inductive Form
  | itself (name : String)
  | value (name : String)
  | class (name : String)
  | module (name : String)
  | other

/-- The function that a value makes under the name of its holder. -/
def valueForm (name : Option Node) (value : Option Node) : Form :=
  match name, value with
  | some n, some v => if v.kind.isFunctionValue then .value n.text else .other
  | _, _ => .other

/-- What a node declares. A class without a name takes the name of its holder. -/
def formOf (s : Surroundings) (holder : Option String) (t : Node) : Form :=
  match t.kind with
  | .functionDeclaration | .generatorFunctionDeclaration | .methodDefinition =>
    match textIn? t .name with
    | some name => .itself name
    | none => .other
  | .variableDeclarator =>
    valueForm ((t.child? .name).filter (·.kind == .identifier)) (t.child? .value)
  | .publicFieldDefinition => valueForm (t.child? .name) (t.child? .value)
  | .exportStatement => match t.child? .value with
    | some v =>
      if v.kind.isFunctionValue && s.owners.isEmpty then .value ((textIn? v .name).getD defaultName)
      else .other
    | none => .other
  | .classDeclaration | .abstractClassDeclaration | .classExpression =>
    .class ((textIn? t .name <|> holder).getD defaultName)
  | .internalModule | .module => match t.child? .name, t.child? .body with
    | some name, some _ => .module name.text
    | _, _ => .other
  | _ => .other

/-- The name that a variable declarator offers to a class without one. -/
def variableName? (t : Node) : Option String :=
  if t.kind == .variableDeclarator then textIn? t .name else none

mutual

/-- The functions declared in a node, in the order of the text. -/
def declaredIn (s : Surroundings) (holder : Option String) (place : List Nat) : Node → List Declared
  | .node kind role text span children =>
    let self : Node := .node kind role text span children
    match formOf s holder self with
    | .itself name =>
      let node := functionNode s self self name
      ⟨node, place⟩ :: declaredInBody (s.within (.function node.name)) place 0 children
    | .value name => declaredInValue s self name place 0 children
    | .class name => declaredInBody (s.within (s.classOwner name)) place 0 children
    | .module name => declaredInBody { s with modules := s.modules ++ [name] } place 0 children
    | .other => declaredInAll s (variableName? self) place 0 children

/-- The functions declared in a list of children, the first of which has the index `i`. -/
def declaredInAll (s : Surroundings) (holder : Option String) (place : List Nat) (i : Nat) :
    List Node → List Declared
  | [] => []
  | t :: rest =>
    declaredIn s holder (i :: place) t ++ declaredInAll s holder place (i + 1) rest

/-- The functions declared in the body among the children. -/
def declaredInBody (s : Surroundings) (place : List Nat) (i : Nat) : List Node → List Declared
  | [] => []
  | .node kind role text span children :: rest =>
    if role == some .body then
      declaredInAll s (variableName? (.node kind role text span children)) (i :: place) 0 children
    else declaredInBody s place (i + 1) rest

/-- The function that is the value among the children, with those declared in its body. -/
def declaredInValue (s : Surroundings) (declaration : Node) (name : String) (place : List Nat)
    (i : Nat) : List Node → List Declared
  | [] => []
  | .node kind role text span children :: rest =>
    if role == some .value then
      let node := functionNode s declaration (.node kind role text span children) name
      ⟨node, i :: place⟩ :: declaredInBody (s.within (.function node.name)) (i :: place) 0 children
    else declaredInValue s declaration name place (i + 1) rest

end

/-- The functions of a file with their places, of several with one id the first. -/
def declaredFunctions (file : String) (root : Node) : List Declared :=
  firstOfEach (·.node.id) [] (declaredInAll ⟨file, exportedNames root, [], []⟩ none [] 0 root.children)

/-- The functions of a file. -/
def functions (file : String) (root : Node) : List FunctionNode :=
  (declaredFunctions file root).map (·.node)

end SymbolGraph.Script
