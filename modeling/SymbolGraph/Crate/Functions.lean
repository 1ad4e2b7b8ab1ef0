import SymbolGraph.CallGraph.Basic
import SymbolGraph.Crate.Facts

/-!
# Functions of Rust files

Free functions have their own name, methods are named `Type.method`, functions inside others
`outer.inner`, and everything in a module of the file starts with `m::`.
-/
namespace SymbolGraph.Crate
open Text

mutual

/-- The name of the type that an implementation belongs to. -/
def typeName : Node → String
  | .node kind _ _ _ children =>
    if kind == .pathType then
      (((children.getLast?.map Tree.children).getD []).getLast?.map Tree.text).getD "<unknown>"
    else if kind == .referenceType then typeNameOfFirst children
    else "<unknown>"

def typeNameOfFirst : List Node → String
  | [] => "<unknown>"
  | t :: _ => typeName t

end

/-- Where the walk stands in a file. -/
structure Surroundings where
  /-- The modules of the file around, the outermost first. -/
  modules : List String := []
  /-- The functions around, the innermost first. -/
  owners : List String := []
  /-- The type of the implementation, or the trait, around. -/
  implType : Option String := none
  /-- Whether members of the implementation or trait around can be seen without a visibility. -/
  isOpen : Bool := false

namespace Surroundings

/-- The name of a function seen from its module. -/
def moduleName (s : Surroundings) (owner : Option String) (name : String) : String :=
  qualifiedName s.modules (match owner with
    | some o => o ++ "." ++ name
    | none => name)

/-- The name of a function declared here, as a member of the type `owner` or free. -/
def nodeName (s : Surroundings) (owner : Option String) (name : String) : String :=
  match s.owners with
  | parent :: _ => match owner with
    | some o => parent ++ "." ++ o ++ "." ++ name
    | none => parent ++ "." ++ name
  | [] => s.moduleName owner name

def within (s : Surroundings) (owner : String) : Surroundings := { s with owners := owner :: s.owners }
def inModule (s : Surroundings) (name : String) : Surroundings := { s with modules := s.modules ++ [name] }

/-- Inside an implementation or a trait. Members of an implementation of a trait are always open,
those of a trait are as visible as the trait. -/
def inType (s : Surroundings) (item : Node) : Surroundings :=
  if item.kind == .traitItem then
    { s with implType := (nameOf? item).map Tree.text, isOpen := isVisible item }
  else
    { s with
      implType := (item.child? .type).map typeName
      isOpen := (item.child? .trait).isSome }

end Surroundings

/-- A function with a body: a free one or a member. -/
def functionName? (s : Surroundings) (t : Node) : Option String := do
  let name ← (← t.child? .signature).child? .name
  let _ ← t.child? .body
  if t.kind == .functionItem then return s.nodeName none name.text
  else if t.kind == .method then return s.nodeName s.implType name.text
  else none

/-- The place inside a node. -/
def Surroundings.inside (s : Surroundings) (t : Node) : Surroundings :=
  match functionName? s t with
  | some name => s.within name
  | none => match t.kind with
    | .implItem | .traitItem => s.inType t
    | .moduleItem => match nameOf? t with
      | some name => s.inModule name.text
      | none => s
    | _ => s

/-- The node of a function with a body. -/
def Parsed.functionNode (p : Parsed) (file : String) (s : Surroundings) (t : Node) (name : String) :
    FunctionNode :=
  let isMethod := t.kind == .method
  let line := (((t.child? .signature).bind nameOf?).map Tree.line).getD t.line
  let endLine := ((t.child? .body).map Tree.endLine).getD t.endLine
  let isNested := !s.owners.isEmpty
  { FunctionNode.named file name line endLine with
    isMethod, isNested
    isExported := (isVisible t || (isMethod && s.isOpen)) && s.modules.isEmpty && !isNested
    signature := p.signature? t }

/-- The children of a node in which functions are looked for. Of implementations and traits these are
the members, of functions the body; arguments of macros hold no functions. -/
def holdsFunctions (parent : Kind) (child : Node) : Bool :=
  match parent with
  | .functionItem | .method => child.role == some .body
  | .implItem | .traitItem => child.kind == .method
  | .moduleItem => child.role == some .content
  | .invocation => false
  | _ => true

mutual

/-- The functions declared in a node, each before those inside it. -/
def Parsed.functionsIn (p : Parsed) (file : String) (s : Surroundings) : Node → List FunctionNode
  | .node kind role text span children =>
    let self : Node := .node kind role text span children
    ((functionName? s self).map (p.functionNode file s self)).toList ++
      p.functionsInAll file (s.inside self) kind children

def Parsed.functionsInAll (p : Parsed) (file : String) (s : Surroundings) (parent : Kind) :
    List Node → List FunctionNode
  | [] => []
  | t :: rest =>
    (if holdsFunctions parent t then p.functionsIn file s t else []) ++
      p.functionsInAll file s parent rest

end

/-- The functions of a file, of several with one id the first. -/
def Parsed.functions (p : Parsed) (file : String) : List FunctionNode :=
  firstOfEach (·.id) [] (p.functionsIn file {} p.root)

end SymbolGraph.Crate
