import SymbolGraph.Script.Names

/-!
# Writes to outer state

Names declared anywhere in a function are local to it. Assigning to any other name, or calling a
mutating method on it, changes state outside of the function; so does every write through `this`.
-/
namespace SymbolGraph.Script

/-- Methods of arrays and collections that change their receiver. -/
def mutatingMethods : List String :=
  ["push", "pop", "shift", "unshift", "splice", "sort", "reverse", "fill", "copyWithin", "set",
   "delete", "clear", "add"]

/-- What a write changes. -/
inductive WriteTarget
  | variable (name : String)
  /-- A member of `this`. -/
  | ownMember (name : String)
  deriving DecidableEq, Repr

def WriteTarget.reason : WriteTarget → String
  | .variable name => "mutates outer variable " ++ name
  | .ownMember name => "mutates this." ++ name

mutual

/-- The root of what is written to: `a` for `a.b[c]`, the member `x` for `this.x.y`. -/
def targetRoot : Node → Option WriteTarget
  | .node kind role text span children => match kind with
    | .identifier => some (.variable text)
    | .memberExpression | .subscriptExpression =>
      let self : Node := .node kind role text span children
      match self.child? .object with
      | some object =>
        if object.kind == .this then some (.ownMember ((textIn? self .property).getD ""))
        else targetRootIn .object children
      | none => none
    | .parenthesizedExpression | .nonNullExpression => targetRootNamed children
    | _ => none

/-- The root of the first node in a role. -/
def targetRootIn (role : Role) : List Node → Option WriteTarget
  | [] => none
  | t :: rest => if t.role == some role then targetRoot t else targetRootIn role rest

/-- The root of the first named node. -/
def targetRootNamed : List Node → Option WriteTarget
  | [] => none
  | t :: rest => if isNamed t then targetRoot t else targetRootNamed rest

end

/-- What a single node writes to. -/
def writeOf (t : Node) : Option WriteTarget :=
  match t.kind with
  | .assignmentExpression | .augmentedAssignmentExpression => (t.child? .left).bind targetRoot
  | .updateExpression => (t.child? .argument).bind targetRoot
  | .callExpression => do
    let f ← t.child? .function
    if f.kind != .memberExpression then none
    let method ← f.child? .property
    if !mutatingMethods.contains method.text then none
    targetRoot (← f.child? .object)
  | _ => none

/-- Nodes whose bodies belong to functions of their own. -/
def Kind.isSeparate : Kind → Bool
  | .functionDeclaration | .generatorFunctionDeclaration | .methodDefinition | .classDeclaration
  | .classExpression => true
  | _ => false

/-- The names that a node declares in the function around it. -/
def declaredBy (t : Node) : List String :=
  if t.kind.isSeparate then (textIn? t .name).toList
  else if t.kind.isFunctionValue then parameterNames t
  else match t.kind with
    | .variableDeclarator => namesIn t .name
    | .catchClause => namesIn t .parameter
    | .forInStatement => loopNames t
    | _ => []

/-- The names declared and the targets written to in a part of a function. -/
structure Writes where
  declared : List String := []
  targets : List WriteTarget := []

def Writes.append (a b : Writes) : Writes := ⟨a.declared ++ b.declared, a.targets ++ b.targets⟩

mutual

/-- The declarations and writes in a node, in the order of the text. -/
def writesIn : Node → Writes
  | .node kind role text span children =>
    let self : Node := .node kind role text span children
    let own : Writes := ⟨declaredBy self, (writeOf self).toList⟩
    if kind.isSeparate then own else own.append (writesInAll children)

def writesInAll : List Node → Writes
  | [] => {}
  | t :: rest => (writesIn t).append (writesInAll rest)

end

/-- A text once, at its first place. -/
def addOnce (reasons : List String) (reason : String) : List String :=
  if reasons.contains reason then reasons else reasons ++ [reason]

/-- The writes of a function to outer state, as reasons for impurity. -/
def outerMutations (function : Node) : List String :=
  let writes := ((function.child? .body).map writesIn).getD {}
  let declared := parameterNames function ++ writes.declared
  let isOuter : WriteTarget → Bool
    | .variable name => !declared.contains name
    | .ownMember _ => true
  ((writes.targets.filter isOuter).map WriteTarget.reason).foldl addOnce []

end SymbolGraph.Script
