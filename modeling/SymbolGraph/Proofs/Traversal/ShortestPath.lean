import Mathlib.Data.List.Forall2
import SymbolGraph.Proofs.CallGraph.Adjacency
import SymbolGraph.Proofs.Traversal.Layers

/-!
# Shortest paths

The search for a path keeps whole paths in its queue. Their ends are the queue of a breadth-first search,
and none of the paths could be shorter. The search stops at the first edge to the goal, which then lies
one layer beyond the path that leads to it.
-/
namespace SymbolGraph
open Relation

/-! ## Shortest walks -/

section
variable {α : Type u} {step : α → α → Prop} {a b : α} {w : List α}

/-- A walk that passes no place twice and is not longer than any other between its ends. -/
structure IsShortest (step : α → α → Prop) (a b : α) (w : List α) : Prop where
  walk : IsWalk step a b w
  nodup : w.Nodup
  minimal : ∀ w', IsWalk step a b w' → w.length ≤ w'.length

/-- On a shortest walk there is no round trip to leave out. -/
theorem IsWalk.nodup_of_minimal (h : IsWalk step a b w)
    (minimal : ∀ w', IsWalk step a b w' → w.length ≤ w'.length) : w.Nodup := by
  induction h with
  | single a => exact List.nodup_singleton a
  | @cons a c b w first rest ih =>
    have ha : a ∉ w := by
      intro back
      obtain ⟨p, q, rfl⟩ := List.append_of_mem back
      have hle := minimal _ (append_cons_iff.1 rest).2
      simp only [List.length_cons, List.length_append] at hle
      omega
    refine List.nodup_cons.2 ⟨ha, ih fun w' hw' => ?_⟩
    simpa using minimal _ (.cons first hw')

theorem IsWalk.isShortest (h : IsWalk step a b w)
    (minimal : ∀ w', IsWalk step a b w' → w.length ≤ w'.length) : IsShortest step a b w :=
  ⟨h, h.nodup_of_minimal minimal, minimal⟩

end

namespace Digraph

variable {g : Digraph} {start goal a b : String} {d fuel : Nat}
  {visited near far seen path : List String} {paths : List (List String)}

/-- A walk has at least as many edges as the distance says. -/
theorem distance_lt_length (h : IsWalk g.Edge a b path) : g.distance a b < path.length := by
  have hpos : 0 < path.length := List.length_pos_iff.2 h.ne_nil
  have hle : g.distance a b ≤ path.length - 1 := Nat.sInf_le ⟨path, h, by omega⟩
  omega

/-! ## Paths that wait -/

/-- A path, with its last node in front, that leads from `start` to `a` in as few steps as possible. -/
structure LeadsTo (g : Digraph) (start : String) (path : List String) (a : String) : Prop where
  head : path.head? = some a
  walk : IsWalk g.Edge start a path.reverse
  length : path.length = g.distance start a + 1

theorem leadsTo_start (g : Digraph) (start : String) : g.LeadsTo start [start] start :=
  ⟨rfl, .single start, by simp⟩

/-- A path goes on along an edge that leads one step farther. -/
theorem LeadsTo.cons (h : g.LeadsTo start path a) (edge : g.Edge a b)
    (farther : g.distance start b = g.distance start a + 1) : g.LeadsTo start (b :: path) b := by
  refine ⟨rfl, ?_, ?_⟩
  · rw [List.reverse_cons]
    exact h.walk.snoc edge
  · rw [List.length_cons, h.length, farther]

theorem LeadsTo.isShortest (h : g.LeadsTo start path a) :
    IsShortest g.Edge start a path.reverse := by
  refine h.walk.isShortest fun w hw => ?_
  rw [List.length_reverse, h.length]
  exact distance_lt_length hw

/-- With nothing left in the queue, all that can be reached has been seen. -/
theorem Layers.mem_seen (h : g.Layers start d visited [] [] seen) (reached : g.Reaches start b) :
    b ∈ seen := by
  induction reached with
  | refl => exact h.seen_within start .refl (by simp)
  | tail _ edge ih =>
    have hvisited := ((h.seen_iff _).1 ih).resolve_right List.not_mem_nil
    exact h.closed _ hvisited _ edge

/-! ## The search -/

/-- What a search for a path to a goal should answer. -/
structure Answers (g : Digraph) (start goal : String) (answer : Option (List String)) : Prop where
  some_shortest : ∀ path, answer = some path → IsShortest g.Edge start goal path
  none_unreached : answer = none → ¬ g.Reaches start goal

/-- The paths of the queue lead to the nodes that wait in a breadth-first search which has not come to the
goal yet. With enough fuel the search goes on until an edge leads to the goal or nothing waits. -/
theorem Layers.answers_pathFrom (h : g.Layers start d visited near far seen)
    (hpaths : List.Forall₂ (g.LeadsTo start) paths (near ++ far)) (hgoal : goal ∉ seen)
    (hf : (near ++ far).length + g.edgesBeyond visited < fuel) :
    g.Answers start goal (g.pathFrom goal fuel paths seen) := by
  induction fuel generalizing d visited near far seen paths with
  | zero => omega
  | succ fuel ih =>
    cases hq : near ++ far with
    | nil =>
      obtain ⟨rfl, rfl⟩ := List.append_eq_nil_iff.1 hq
      obtain rfl := List.forall₂_nil_right_iff.1 hpaths
      exact ⟨by simp [pathFrom], fun _ reached => hgoal (h.mem_seen reached)⟩
    | cons a queue =>
      obtain ⟨d', near', far', -, rfl, h'⟩ := h.exists_head hq
      rw [hq] at hpaths hf
      obtain ⟨path, rest, hpath, hrest, rfl⟩ := List.forall₂_cons_right_iff.1 hpaths
      have onward (b : String) (edge : g.Edge a b) (new : b ∉ seen) : g.LeadsTo start (b :: path) b :=
        hpath.cons edge (by rw [h'.distance_next edge new, h'.near_at a (by simp)])
      have htargets : ((path.head?).map g.next).getD [] = g.next a := by rw [hpath.head]; rfl
      simp only [pathFrom, htargets]
      split_ifs with arrived
      · have hlast := onward goal (List.contains_iff_mem.1 arrived) hgoal
        refine ⟨fun r hr => ?_, by simp⟩
        rw [← Option.some.inj hr]
        exact hlast.isShortest
      · have hnew : goal ∉ fresh seen (g.next a) ++ seen := by
          rw [List.mem_append, mem_fresh]
          rintro (found | found)
          · exact arrived (List.contains_iff_mem.2 found.1)
          · exact hgoal found
        -- every new path in the queue is paid for by an edge that leaves `a`
        have hbeyond := g.edgesBeyond_cons (h'.queue_new a (by simp))
        have hlength := length_fresh_le seen (g.next a)
        refine ih h'.visit ?_ hnew ?_
        · rw [← List.append_assoc]
          refine List.rel_append hrest (List.forall₂_map_left_iff.2 (List.forall₂_same.2 fun b hb => ?_))
          exact onward b (mem_fresh.1 hb).1 (mem_fresh.1 hb).2
        · simp only [List.length_append, List.length_cons] at hf ⊢
          omega

theorem answers_shortestPath? (g : Digraph) (source goal : String) :
    g.Answers source goal (g.shortestPath? source goal) := by
  rw [shortestPath?]
  split_ifs with same
  · obtain rfl : source = goal := by simpa using same
    refine ⟨fun path hpath => ?_, by simp⟩
    rw [← Option.some.inj hpath]
    exact (g.leadsTo_start source).isShortest
  · refine (g.layers_start source).answers_pathFrom (.cons (g.leadsTo_start source) .nil) ?_ ?_
    · exact fun hmem => same (beq_iff_eq.2 (List.mem_singleton.1 hmem).symm)
    · rw [edgesBeyond_nil, List.append_nil, List.length_singleton]
      omega

/-- There is an answer if and only if the goal can be reached. -/
theorem shortestPath?_eq_none (g : Digraph) (source goal : String) :
    g.shortestPath? source goal = none ↔ ¬ g.Reaches source goal := by
  have answers := g.answers_shortestPath? source goal
  refine ⟨answers.none_unreached, fun unreached => ?_⟩
  rw [Option.eq_none_iff_forall_ne_some]
  exact fun path hpath => unreached (answers.some_shortest path hpath).walk.reaches

end Digraph

/-! ## Chains of calls -/

namespace CallGraph

/-- No path is found if and only if one of the functions is unknown or the goal cannot be reached from the
source along callees. What is found leads from the source to the goal, each function calling the next,
without repetition, and no chain of calls between them is shorter. The callees are those of the edges,
whether the graph is assembled or loaded. -/
theorem shortestPath?_is_shortest_chain :
    (∀ (g : CallGraph) (source goal : String),
      (g.shortestPath? source goal = none ↔ g.nodes.contains source = false ∨
        g.nodes.contains goal = false ∨ ¬ ReflTransGen (fun a b => b ∈ g.calleesOf a) source goal) ∧
      ∀ path, g.shortestPath? source goal = some path →
        IsShortest (fun a b => b ∈ g.calleesOf a) source goal path) ∧
    (∀ (generatedAt : Timestamp) (rootDir : String) (nodes : KeyMap FunctionNode) (calls : List Call)
      (files : List String) (a b : String), let g := assemble generatedAt rootDir nodes calls files
      b ∈ g.calleesOf a ↔ ⟨a, b⟩ ∈ g.edges) ∧
    ∀ (s : Snapshot) (a b : String), b ∈ s.graph.calleesOf a ↔ ⟨a, b⟩ ∈ s.graph.edges := by
  refine ⟨fun g source goal => ?_, fun generatedAt rootDir nodes calls files =>
    (mirrored_assemble generatedAt rootDir nodes calls files).mem_calleesOf, fun s =>
    (mirrored_withIndexes _ _ _ _ (Call.ascending_sorted _) _ _).mem_calleesOf⟩
  have answers := (g.toward .callees).answers_shortestPath? source goal
  have hnone := (g.toward .callees).shortestPath?_eq_none source goal
  rw [shortestPath?]
  split_ifs with known
  · obtain ⟨hsource, hgoal⟩ := Bool.and_eq_true_iff.1 known
    refine ⟨?_, answers.some_shortest⟩
    simp only [hsource, hgoal, hnone, Bool.true_eq_false, false_or]
    rfl
  · simp only [Bool.and_eq_true, not_and_or, Bool.not_eq_true] at known
    refine ⟨⟨fun _ => ?_, fun _ => rfl⟩, by simp⟩
    rw [← or_assoc]
    exact .inl known

/-- A cycle on the way, and a way that is longer. -/
example :
    let g : Digraph :=
      ⟨.ofList [("a", ["b", "c"]), ("b", ["a", "d"]), ("c", ["e"]), ("d", ["e"]), ("e", ["f"])]⟩
    g.shortestPath? "a" "f" = some ["a", "c", "e", "f"] ∧ g.shortestPath? "f" "a" = none := by
  decide +kernel

end CallGraph
end SymbolGraph
