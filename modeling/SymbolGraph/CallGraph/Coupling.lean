import SymbolGraph.CallGraph.Graph

/-!
# Calls between files
-/
namespace SymbolGraph

/-- Which way calls go between two files. -/
inductive CouplingDirection
  | forward
  | backward
  | bidirectional
  deriving DecidableEq, Repr, Inhabited

def CouplingDirection.text : CouplingDirection → String
  | .forward => "file1->file2"
  | .backward => "file2->file1"
  | .bidirectional => "bidirectional"

/-- The calls between two files, of which the first comes first in order. -/
structure FileCoupling where
  file1 : String
  file2 : String
  forwardCalls : Nat
  backwardCalls : Nat
  deriving DecidableEq, Repr, Inhabited

namespace FileCoupling

def total (c : FileCoupling) : Nat := c.forwardCalls + c.backwardCalls

def direction (c : FileCoupling) : CouplingDirection :=
  if 0 < c.forwardCalls then (if 0 < c.backwardCalls then .bidirectional else .forward)
  else .backward

end FileCoupling

/-- The numbers of calls between two files, each way, under the first of them and then under the other. -/
abbrev Tally := KeyMap (KeyMap (Nat × Nat))

namespace Tally

/-- Changes the numbers of two files, of which the first comes first in order. -/
def bump (tally : Tally) (a b : String) (f : Nat × Nat → Nat × Nat) : Tally :=
  tally.upsert a .empty (·.upsert b (0, 0) f)

/-- Counts a call from one file to another. -/
def count (tally : Tally) (source target : String) : Tally :=
  if source = target then tally
  else if source < target then tally.bump source target fun n => (n.1 + 1, n.2)
  else tally.bump target source fun n => (n.1, n.2 + 1)

def toCouplings (tally : Tally) : List FileCoupling :=
  tally.toList.flatMap fun (a, row) => row.toList.map fun (b, m, n) => ⟨a, b, m, n⟩

end Tally

namespace CallGraph

/-- Counts a call, where both functions are known. -/
def tallyCall (g : CallGraph) (tally : Tally) (e : Call) : Tally :=
  match g.node? e.caller, g.node? e.callee with
  | some f, some h => tally.count f.file h.file
  | _, _ => tally

/-- The pairs of files with calls between them, those with most calls first. -/
def coupling (g : CallGraph) : List FileCoupling :=
  (g.edges.foldl g.tallyCall .empty).toCouplings.mergeSort fun a b => b.total ≤ a.total

end CallGraph
end SymbolGraph
