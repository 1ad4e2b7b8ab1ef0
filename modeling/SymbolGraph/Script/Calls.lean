import SymbolGraph.Script.Functions
import SymbolGraph.CallGraph.Table

/-!
# Calls in scripts

A call belongs to the innermost function around it. A name bound in a scope around the call hides
imports and functions of the file.
-/
namespace SymbolGraph.Script
open Text

/-- The names made by leaving out the last dotted parts of `owner`, one after another. -/
def enclosingOwners : Nat → String → List String
  | 0, _ => []
  | fuel + 1, owner => owner :: match lastIndexOf? '.' owner with
    | some i => enclosingOwners fuel (take i owner)
    | none => []

/-- A function declared inside the caller or one of the functions around it. -/
def nestedInOwner? (table : NodeTable) (file caller name : String) : Option String := do
  let owner ← dropStart? ":" (← dropStart? file caller)
  (enclosingOwners (owner.length + 1) owner).findSome? fun o => table.idIn? file (o ++ "." ++ name)

/-- The function that a called expression stands for. `ancestors` are the nodes around the callee,
the innermost first. -/
def calleeOf? (table : NodeTable) (file caller : String) (ancestors : List Node) (callee : Node) :
    Option String :=
  match callee.kind with
  | .identifier =>
    match localBinding ancestors callee.text with
    | some .value => none
    | some .function => nestedInOwner? table file caller callee.text
    | none => table.imported? file callee.text <|> table.local? file callee.text <|>
        table.member? file callee.text
  | .memberExpression => do
    let object ← callee.child? .object
    let method := (← callee.child? .property).text
    if object.kind == .identifier && (localBinding (callee :: ancestors) object.text).isNone then
      table.namespaceMember? file object.text method <|>
        table.idIn? file (object.text ++ "." ++ method) <|> table.method? file method
    else table.method? file method
  | _ => none

/-- The constructor that `new` runs for a class. -/
def constructorOf? (table : NodeTable) (file className : String) : Option String :=
  match table.binding? file className with
  | some b => b.target.bind fun source => table.idIn? source (b.name ++ ".constructor")
  | none => table.idIn? file (className ++ ".constructor")

/-- The function that a node calls. -/
def callTarget? (table : NodeTable) (file caller : String) (ancestors : List Node) (t : Node) :
    Option String :=
  match t.kind with
  | .callExpression => (t.child? .function).bind (calleeOf? table file caller (t :: ancestors))
  | .newExpression => do
    let c ← t.child? .constructor
    if c.kind != .identifier || (localBinding (t :: ancestors) c.text).isSome then none
    constructorOf? table file c.text
  | _ => none

/-- What the walk for calls knows about the file. -/
structure CallSearch where
  file : String
  table : NodeTable
  declared : List Declared

/-- The function whose node stands at a place. -/
def CallSearch.functionAt? (s : CallSearch) (place : List Nat) : Option String :=
  (s.declared.find? (·.place == place)).map (·.node.id)

mutual

/-- The calls in a node, made by the function `current` unless an inner one takes over. -/
def callsIn (s : CallSearch) (ancestors : List Node) (current : Option String) (place : List Nat) :
    Node → List Call
  | .node kind role text span children =>
    let self : Node := .node kind role text span children
    let current := s.functionAt? place <|> current
    let own : Option Call := do
      let caller ← current
      let callee ← callTarget? s.table s.file caller ancestors self
      if callee == caller then none
      return ⟨caller, callee⟩
    own.toList ++ callsInAll s (self :: ancestors) current place 0 children

def callsInAll (s : CallSearch) (ancestors : List Node) (current : Option String) (place : List Nat)
    (i : Nat) : List Node → List Call
  | [] => []
  | t :: rest =>
    callsIn s ancestors current (i :: place) t ++ callsInAll s ancestors current place (i + 1) rest

end

/-- The calls between functions that a file makes, in ascending order. -/
def calls (file : String) (table : NodeTable) (root : Node) : List Call :=
  Call.sorted (callsIn ⟨file, table, declaredFunctions file root⟩ [] none [] root)

end SymbolGraph.Script
