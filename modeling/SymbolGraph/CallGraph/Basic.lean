import SymbolGraph.Ordered.Distinct
import SymbolGraph.Symbol.Basic
import SymbolGraph.Text.Split

/-!
# Functions and calls

The nodes of a call graph are functions, methods and nested functions, identified by the key
`file:name`. The edges are calls.
-/
namespace SymbolGraph
open Text

/-- Whether a function has effects that can be seen from outside. -/
inductive Purity
  | pure
  | impure
  | unknown
  deriving DecidableEq, Repr, Inhabited

def Purity.text : Purity → String
  | .pure => "pure"
  | .impure => "impure"
  | .unknown => "unknown"

/-- A function, method or nested function. -/
structure FunctionNode where
  id : String
  /-- The name within the file, such as `helper`, `Parser.parse` or `outer.inner`. -/
  name : String
  file : String
  line : Nat
  endLine : Nat
  isExported : Bool := false
  /-- A member of a type, which cannot be moved on its own. -/
  isMethod : Bool := false
  /-- Declared inside another function, so it cannot be moved on its own. -/
  isNested : Bool := false
  purity : Purity := .unknown
  reasons : List String := []
  signature : Option String := none
  deriving DecidableEq, Repr, Inhabited

namespace FunctionNode

/-- A node whose id is the key of its file and name. -/
def named (file name : String) (line endLine : Nat) : FunctionNode :=
  { id := symbolKey file name, name, file, line, endLine }

/-- A free function at the top level, which could be moved to another file. -/
def isRelocatable (f : FunctionNode) : Bool := !f.isMethod && !f.isNested

/-- The last part of the dotted name. -/
def shortName (f : FunctionNode) : String := (split '.' f.name).getLast?.getD f.name

/-- Records a reason for impurity, each once. -/
def markImpure (f : FunctionNode) (reason : String) : FunctionNode :=
  { f with
    purity := .impure
    reasons := if f.reasons.contains reason then f.reasons else f.reasons ++ [reason] }

end FunctionNode

/-- A call from one function to another, by their ids. -/
structure Call where
  caller : String
  callee : String
  deriving DecidableEq, Repr, Inhabited

namespace Call

/-- Calls are ordered by caller, then by callee. -/
def before (a b : Call) : Bool :=
  a.caller < b.caller || (a.caller == b.caller && a.callee < b.callee)

/-- Puts a call at its place in an ascending list, once. -/
def insertInto (c : Call) : List Call → List Call
  | [] => [c]
  | d :: rest =>
    if c.before d then c :: d :: rest
    else if c == d then d :: rest
    else d :: insertInto c rest

/-- The calls of a list in ascending order, each once. -/
def sorted (calls : List Call) : List Call := calls.foldr insertInto []

end Call

/-- Joins the names of enclosing modules and the name of a function. -/
def qualifiedName (modules : List String) (name : String) : String :=
  if modules.isEmpty then name else joinWith "::" modules ++ "::" ++ name

end SymbolGraph
