import SymbolGraph.CallGraph.Snapshot
import SymbolGraph.Proofs.CallGraph.Edges

/-!
# Callees and callers

The indexes are filled edge by edge. The edges ascend by caller and then by callee, so what is collected
for one caller ascends, and so does what is collected for one callee, since two edges to one function
differ in their callers. This holds of assembled and of loaded graphs, whatever their edges join.
-/
namespace SymbolGraph

theorem Call.callee_lt_of_before {e e' : Call} (h : e.before e' = true) (same : e.caller = e'.caller) :
    e.callee < e'.callee := by
  rcases before_iff.1 h with hlt | ⟨-, hlt⟩
  · exact absurd hlt (same ▸ lt_irrefl e.caller)
  · exact hlt

theorem Call.caller_lt_of_before {e e' : Call} (h : e.before e' = true) (same : e.callee = e'.callee) :
    e.caller < e'.caller := by
  rcases before_iff.1 h with hlt | ⟨-, hlt⟩
  · exact hlt
  · exact absurd hlt (same ▸ lt_irrefl e.callee)

namespace CallGraph

section Indexes
variable {key value : Call → String} {edges : List Call}

/-- An index holds the other ends of the edges at a key, in the order of the edges. -/
theorem getD_indexBy (key value : Call → String) (edges : List Call) (k : String) :
    ((indexBy key value edges).get? k).getD [] = (edges.filter (key · == k)).map value := by
  rw [indexBy, KeyMap.getD_foldl_upsert, KeyMap.get?_empty, Option.getD_none, List.nil_append]

theorem mem_getD_indexBy {k v : String} :
    v ∈ ((indexBy key value edges).get? k).getD [] ↔ ∃ e ∈ edges, key e = k ∧ value e = v := by
  simp [getD_indexBy, and_assoc]

theorem pairwise_getD_indexBy (ascending : Call.Ascending edges)
    (order : ∀ e e' : Call, e.before e' = true → key e = key e' → value e < value e') (k : String) :
    (((indexBy key value edges).get? k).getD []).Pairwise (· < ·) := by
  rw [getD_indexBy]
  refine List.pairwise_map.2 (List.pairwise_filter.2 (ascending.imp ?_))
  intro e e' before he he'
  rw [beq_iff_eq] at he he'
  exact order e e' before (he.trans he'.symm)

end Indexes

/-- The callees and the callers of every function are those of the edges, in ascending order. -/
structure Mirrored (g : CallGraph) : Prop where
  callees_ascending : ∀ a, (g.calleesOf a).Pairwise (· < ·)
  mem_calleesOf : ∀ a b, b ∈ g.calleesOf a ↔ ⟨a, b⟩ ∈ g.edges
  callers_ascending : ∀ b, (g.callersOf b).Pairwise (· < ·)
  mem_callersOf : ∀ a b, a ∈ g.callersOf b ↔ ⟨a, b⟩ ∈ g.edges

theorem mirrored_withIndexes (version : Nat) (generatedAt : Timestamp) (rootDir : String)
    (nodes : KeyMap FunctionNode) {edges : List Call} (ascending : Call.Ascending edges)
    (files : List String) (stats : Stats) :
    (withIndexes version generatedAt rootDir nodes edges files stats).Mirrored where
  callees_ascending := pairwise_getD_indexBy ascending fun _ _ => Call.callee_lt_of_before
  callers_ascending := pairwise_getD_indexBy ascending fun _ _ => Call.caller_lt_of_before
  mem_calleesOf a b := by
    refine mem_getD_indexBy.trans ⟨?_, fun h => ⟨⟨a, b⟩, h, rfl, rfl⟩⟩
    rintro ⟨e, he, rfl, rfl⟩
    exact he
  mem_callersOf a b := by
    refine mem_getD_indexBy.trans ⟨?_, fun h => ⟨⟨a, b⟩, h, rfl, rfl⟩⟩
    rintro ⟨e, he, rfl, rfl⟩
    exact he

theorem mirrored_assemble (generatedAt : Timestamp) (rootDir : String) (nodes : KeyMap FunctionNode)
    (calls : List Call) (files : List String) :
    (assemble generatedAt rootDir nodes calls files).Mirrored :=
  mirrored_withIndexes _ _ _ _ (Call.ascending_sorted _) _ _

/-- An assembled graph depends on which calls and files there are, and not on their order or number. -/
theorem assemble_congr (generatedAt : Timestamp) (rootDir : String) (nodes : KeyMap FunctionNode)
    {calls calls' : List Call} {files files' : List String} (hcalls : ∀ e, e ∈ calls' ↔ e ∈ calls)
    (hfiles : ∀ f, f ∈ files' ↔ f ∈ files) :
    assemble generatedAt rootDir nodes calls' files' = assemble generatedAt rootDir nodes calls files := by
  have edges (keep : Call → Bool) : Call.sorted (calls'.filter keep) = Call.sorted (calls.filter keep) :=
    Call.sorted_congr fun e => by rw [List.mem_filter, List.mem_filter, hcalls]
  have files : KeySet.ofList files' = KeySet.ofList files :=
    KeySet.ext_mem fun f => by rw [KeySet.mem_ofList, KeySet.mem_ofList, hfiles]
  simp only [assemble, edges, files]

/-- The callees and callers of assembled and of loaded graphs are those of the edges, in ascending order.
An assembled graph has exactly the given calls that join two different known functions, in ascending
order, so neither the order nor the number of the given calls and files matters. A loaded graph has the
stored edges, whatever they join. -/
theorem adjacency_mirrors_edges :
    (∀ (generatedAt : Timestamp) (rootDir : String) (nodes : KeyMap FunctionNode) (calls : List Call)
        (files : List String),
      let g := assemble generatedAt rootDir nodes calls files
      g.Mirrored ∧ Call.Ascending g.edges ∧
      (∀ e, e ∈ g.edges ↔ e ∈ calls ∧ e.caller ≠ e.callee ∧ nodes.contains e.caller = true ∧
        nodes.contains e.callee = true) ∧
      ∀ (calls' : List Call) (files' : List String), (∀ e, e ∈ calls' ↔ e ∈ calls) →
        (∀ f, f ∈ files' ↔ f ∈ files) → assemble generatedAt rootDir nodes calls' files' = g) ∧
    ∀ s : Snapshot, s.graph.Mirrored ∧ Call.Ascending s.graph.edges ∧
      ∀ e, e ∈ s.graph.edges ↔ e ∈ s.edges := by
  refine ⟨fun generatedAt rootDir nodes calls files => ?_, fun s => ?_⟩
  · exact ⟨mirrored_assemble generatedAt rootDir nodes calls files, ascending_edges_assemble,
      fun e => mem_edges_assemble, fun calls' files' hcalls hfiles =>
        assemble_congr generatedAt rootDir nodes hcalls hfiles⟩
  · exact ⟨mirrored_withIndexes _ _ _ _ (Call.ascending_sorted _) _ _, Call.ascending_sorted _,
      fun e => Call.mem_sorted⟩

/-- Calls in another order, some of them repeated, with a call of a function to itself and one of an
unknown function. -/
theorem adjacency_of_tangled_calls :
    let node (name : String) := (symbolKey "a.ts" name, FunctionNode.named "a.ts" name 1 2)
    let nodes := KeyMap.ofList [node "h", node "f", node "g"]
    let g := assemble ⟨0, 0⟩ "/r" nodes [⟨"a.ts:g", "a.ts:h"⟩, ⟨"a.ts:f", "a.ts:h"⟩,
      ⟨"a.ts:f", "a.ts:g"⟩, ⟨"a.ts:g", "a.ts:g"⟩, ⟨"a.ts:g", "b.ts:x"⟩] ["a.ts", "b.ts"]
    assemble ⟨0, 0⟩ "/r" nodes [⟨"a.ts:g", "b.ts:x"⟩, ⟨"a.ts:f", "a.ts:g"⟩, ⟨"a.ts:f", "a.ts:g"⟩,
      ⟨"a.ts:g", "a.ts:g"⟩, ⟨"a.ts:g", "a.ts:h"⟩, ⟨"a.ts:f", "a.ts:h"⟩] ["b.ts", "a.ts", "b.ts"] = g ∧
    g.edges = [⟨"a.ts:f", "a.ts:g"⟩, ⟨"a.ts:f", "a.ts:h"⟩, ⟨"a.ts:g", "a.ts:h"⟩] ∧
    g.calleesOf "a.ts:f" = ["a.ts:g", "a.ts:h"] ∧ g.callersOf "a.ts:h" = ["a.ts:f", "a.ts:g"] := by
  intro node nodes g
  refine ⟨?_, by decide +kernel⟩
  refine (adjacency_mirrors_edges.1 ⟨0, 0⟩ "/r" nodes _ _).2.2.2 _ _ (fun e => ?_) fun f => ?_
  · simp only [List.mem_cons, List.not_mem_nil, or_false]
    tauto
  · simp only [List.mem_cons, List.not_mem_nil, or_false]
    tauto

end CallGraph
end SymbolGraph
