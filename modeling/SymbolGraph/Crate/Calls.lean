import SymbolGraph.CallGraph.Table
import SymbolGraph.Crate.Functions
import SymbolGraph.Crate.ModulePath
import SymbolGraph.Crate.Scopes

/-!
# Calls in Rust files

A call belongs to the innermost function around it. A name bound in a scope around the call hides
imports and functions of the file.
-/
namespace SymbolGraph.Crate
open Text

/-- What the walk for calls knows about the file. -/
structure CallSearch where
  file : String
  table : NodeTable
  index : ModuleIndex

namespace CallSearch

/-- A function declared in one of the functions around, then one of the file. -/
def local? (c : CallSearch) (s : Surroundings) (name : String) : Option String :=
  s.owners.findSome? (fun owner => c.table.idIn? c.file (owner ++ "." ++ name)) <|>
    c.table.idIn? c.file (s.moduleName none name) <|> c.table.local? c.file name

/-- A function by the path of its module. -/
def inModules? (c : CallSearch) (segments : List String) : Option String := do
  let (file, rest) ← c.index.resolve? c.file segments
  c.table.idIn? file (joinWith "." rest)

/-- The function that a called path stands for. -/
def pathTarget? (c : CallSearch) (s : Surroundings) (scopes : Scopes) (path : Node) : Option String :=
  if path.kind != .path then none
  else match path.children.map Tree.text with
    | [] => none
    | [name] =>
      if scopes.binds name then none
      else c.table.imported? c.file name <|> c.local? s name
    | first :: rest =>
      let segments := first :: rest
      if first == "Self" then do
        c.table.idIn? c.file (s.moduleName (some (← s.implType)) (joinWith "." rest))
      else if first == "crate" || first == "self" || first == "super" then c.inModules? segments
      else match c.table.binding? c.file first with
        | some b => do
          c.table.idIn? (← b.target)
            (joinWith "." (if b.isNamespace then rest else b.name :: rest))
        | none =>
          c.table.idIn? c.file (s.moduleName none (joinWith "." segments)) <|> c.inModules? segments

/-- Whether an expression is `self`. -/
def isSelf (t : Node) : Bool :=
  t.kind == .pathExpression && match t.children.getLast? with
    | some p => p.kind == .path && p.children.map Tree.text == ["self"] && isBare p
    | none => false
where
  isBare (p : Node) : Bool := p.children.all (·.children.isEmpty)

/-- The method that a call on a receiver stands for. -/
def methodTarget? (c : CallSearch) (s : Surroundings) (receiver : Node) (method : String) :
    Option String :=
  let own := if isSelf receiver then
      s.implType.bind fun type => c.table.idIn? c.file (s.moduleName (some type) method)
    else none
  own <|> c.table.method? c.file method

/-- The function that a node calls. -/
def target? (c : CallSearch) (s : Surroundings) (scopes : Scopes) (t : Node) : Option String :=
  match t.kind with
  | .callExpression => do
    let callee ← t.child? .function
    if callee.kind != .pathExpression then none
    match callee.children with
    | [p] => c.pathTarget? s scopes p
    | _ => none
  | .methodCall => do c.methodTarget? s (← t.child? .receiver) (← t.child? .method).text
  | _ => none

end CallSearch

/-- Where the walk for calls stands. -/
structure CallSite where
  surroundings : Surroundings := {}
  /-- The function whose calls are collected. -/
  caller : Option String := none

/-- The children of a node in which calls are looked for. -/
def holdsCalls (parent : Kind) (child : Node) : Bool :=
  match parent with
  | .functionItem | .method | .implItem | .traitItem | .moduleItem => holdsFunctions parent child
  | _ => !onlyBinds parent child

/-- The place inside a node. Functions that the table does not hold leave their calls to the function
around them. -/
def CallSearch.inside (c : CallSearch) (site : CallSite) (t : Node) : CallSite :=
  let s := site.surroundings
  ⟨s.inside t, (functionName? s t).bind (c.table.idIn? c.file) <|> site.caller⟩

mutual

/-- The calls in a node, with the scopes behind it. -/
def callsIn (c : CallSearch) (site : CallSite) (scopes : Scopes) : Node → List Call × Scopes
  | .node kind role text span children =>
    let self : Node := .node kind role text span children
    let own : Option Call := do
      let caller ← site.caller
      let callee ← c.target? site.surroundings scopes self
      if callee == caller then none
      return ⟨caller, callee⟩
    let inner := if kind.opensScope then [] :: scopes else scopes
    let (found, after) := callsInAll c (c.inside site self) kind inner children
    let isClosed := kind.opensScope || (self.child? .signature).isSome
    (own.toList ++ found, if isClosed then scopes else after)

def callsInAll (c : CallSearch) (site : CallSite) (parent : Kind) (scopes : Scopes) :
    List Node → List Call × Scopes
  | [] => ([], scopes)
  | t :: rest =>
    let (found, scopes) := if holdsCalls parent t then callsIn c site scopes t else ([], scopes)
    let (more, scopes) := callsInAll c site parent (scopesAfter parent t scopes) rest
    (found ++ more, scopes)

end

/-- The calls between functions that a file makes, in ascending order. -/
def Parsed.calls (p : Parsed) (file : String) (table : NodeTable) : List Call :=
  Call.sorted (callsIn ⟨file, table, .ofFiles table.files.toList⟩ {} [] p.root).1

end SymbolGraph.Crate
