import SymbolGraph.CallGraph.Basic
import SymbolGraph.Effect
import SymbolGraph.Ordered.KeySet
import SymbolGraph.Text.Lines

/-!
# Purity

A function is directly impure if its own text shows a side effect, or if it was found to change state
outside of it. Whatever calls an impure function is impure, and everything else is pure.
-/
namespace SymbolGraph
open Text

/-- The files of a project with their texts. -/
abbrev Sources := KeyMap String

/-- The lines of a function, without those of the functions declared inside it; such lines are left
empty. -/
def ownBody (f : FunctionNode) (lines : List String) (sameFile : List FunctionNode) : String :=
  let inner := sameFile.filter fun g => g.id != f.id && f.line < g.line && g.endLine ≤ f.endLine
  let isInner (n : Nat) : Bool := inner.any fun g => g.line ≤ n && n ≤ g.endLine
  let first := max f.line 1
  let last := min f.endLine lines.length
  let own := (lines.take last).zipIdx 1 |>.drop (first - 1)
  String.join (own.map fun (text, n) => (if isInner n then "" else text) ++ "\n")

/-- The reasons for which a function is impure by itself. -/
def directReasons (effects : List Effect) (f : FunctionNode) (lines : List String)
    (sameFile : List FunctionNode) : List String :=
  (Effect.reasonsIn effects (ownBody f lines sameFile)).foldl
    (fun found reason => if found.contains reason then found else found ++ [reason]) f.reasons

/-- The functions that are impure by themselves, with their reasons, ordered by id. Functions of a file
whose text is not known do not count. -/
def directlyImpure (effectsOf : String → List Effect) (sources : Sources)
    (nodes : KeyMap FunctionNode) : List (String × List String) :=
  let direct := nodes.values.filterMap fun f => do
    let content ← sources.get? f.file
    let sameFile := nodes.values.filter (·.file == f.file)
    let reasons := directReasons (effectsOf f.file) f (lines content) sameFile
    if reasons.isEmpty then none else some (f.id, reasons)
  (KeyMap.ofList direct).toList

/-- The callers of every function, calls to itself aside. -/
def callerIndex (calls : List Call) : KeyMap KeySet :=
  (calls.filter fun c => c.caller != c.callee).foldl
    (fun index c => index.upsert c.callee .empty (·.insert c.caller)) .empty

/-- Marks those of the callers of an impure function that are not impure yet; gives them too. -/
def infectCallers (impure : String) : List String → KeyMap FunctionNode →
    KeyMap FunctionNode × List String
  | [], nodes => (nodes, [])
  | caller :: rest, nodes => match nodes.get? caller with
    | some f =>
      if f.purity == .impure then infectCallers impure rest nodes
      else
        let nodes := nodes.insert caller (f.markImpure ("calls impure function " ++ impure))
        let (nodes, found) := infectCallers impure rest nodes
        (nodes, caller :: found)
    | none => infectCallers impure rest nodes

/-- Passes impurity on to callers, in the order in which functions became impure. -/
def infect (callers : KeyMap KeySet) : Nat → List String → KeyMap FunctionNode → KeyMap FunctionNode
  | 0, _, nodes => nodes
  | _ + 1, [], nodes => nodes
  | fuel + 1, impure :: queue, nodes =>
    let ids := ((callers.get? impure).map (·.toList)).getD []
    let (nodes, found) := infectCallers impure ids nodes
    infect callers fuel (queue ++ found) nodes

/-- A function of which nothing impure is known is pure. -/
def FunctionNode.settle (f : FunctionNode) : FunctionNode :=
  if f.purity == .unknown then { f with purity := .pure } else f

/-- Decides the purity of every function. -/
def inferPurity (effectsOf : String → List Effect) (sources : Sources) (calls : List Call)
    (nodes : KeyMap FunctionNode) : KeyMap FunctionNode :=
  let direct := (directlyImpure effectsOf sources nodes).filter fun (id, _) => nodes.contains id
  let marked := direct.foldl (fun nodes (id, reasons) =>
    nodes.modify id fun f => reasons.foldl FunctionNode.markImpure f) nodes
  let infected := infect (callerIndex calls) (nodes.size + 1) (direct.map (·.1)) marked
  infected.map fun _ f => f.settle

end SymbolGraph
