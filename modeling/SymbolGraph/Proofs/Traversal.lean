import Mathlib.Data.List.Flatten
import Mathlib.Logic.Relation
import SymbolGraph.Graph.Digraph
import SymbolGraph.Proofs.Ordered

/-!
# What a breadth-first search visits

The search visits exactly the nodes to which a path leads from a root. The fuel is enough because a
node joins the queue once, and for every node but the roots an edge is used up.
-/
namespace SymbolGraph.Digraph
open Relation

def Edge (g : Digraph) (a b : String) : Prop := b ∈ g.next a

/-- `b` can be reached from `a` along edges. -/
def Reaches (g : Digraph) (a b : String) : Prop := ReflTransGen g.Edge a b

theorem next_restrict (g : Digraph) (keep : String → Bool) (a : String) :
    (g.restrict keep).next a = (g.next a).filter keep := by
  rw [next, next, restrict, KeyMap.get?_map]
  cases g.successors.get? a <;> rfl

/-! ## Nodes not seen before -/

theorem mem_fresh {seen l : List String} {a : String} :
    a ∈ fresh seen l ↔ a ∈ l ∧ a ∉ seen := by
  constructor
  · exact fun h => ⟨(firstOfEach_sublist id seen l).subset h, key_not_mem_of_mem_firstOfEach h⟩
  · rintro ⟨ha, new⟩
    obtain ⟨b, hb, rfl⟩ : ∃ b ∈ firstOfEach id seen l, id b = id a := exists_mem_firstOfEach ha new
    exact hb

theorem fresh_nodup (seen l : List String) : (fresh seen l).Nodup := by
  simpa [fresh] using firstOfEach_nodup id seen l

theorem length_fresh_le (seen l : List String) : (fresh seen l).length ≤ l.length :=
  (firstOfEach_sublist id seen l).length_le

/-! ## Edges still to be followed -/

/-- The number of edges that leave nodes other than those visited. -/
def edgesBeyond (g : Digraph) (visited : List String) : Nat :=
  ((g.successors.entries.filter fun p => !visited.contains p.1).flatMap (·.2)).length

theorem edgesBeyond_nil (g : Digraph) : g.edgesBeyond [] = g.edgeCount := by
  simp [edgesBeyond, edgeCount, KeyMap.values, List.flatMap]

theorem edgesBeyond_le (g : Digraph) (visited : List String) : g.edgesBeyond visited ≤ g.edgeCount := by
  rw [edgeCount, KeyMap.values, ← List.flatMap_def]
  exact (List.filter_sublist.flatMap _).length_le

/-- Visiting a node uses up the edges that leave it. -/
theorem edgesBeyond_cons (g : Digraph) {visited : List String} {a : String} (ha : a ∉ visited) :
    g.edgesBeyond (a :: visited) + (g.next a).length = g.edgesBeyond visited := by
  obtain ⟨⟨entries, h⟩⟩ := g
  simp only [edgesBeyond, next, KeyMap.get?]
  induction entries with
  | nil => simp
  | cons e rest ih =>
    have hb := (List.pairwise_cons.1 h).1
    have hi := ih (List.pairwise_cons.1 h).2
    by_cases he : e.1 = a
    · subst he
      have hrest : rest.filter (fun p => !(e.1 :: visited).contains p.1) =
          rest.filter (fun p => !visited.contains p.1) := by
        apply List.filter_congr
        intro p hp
        have hne : p.1 ≠ e.1 := (ne_of_lt (hb p hp)).symm
        simp [hne]
      simp only [List.filter_cons, List.find?_cons, hrest]
      simp [ha]
      omega
    · have hfind : (e.1 == a) = false := beq_eq_false_iff_ne.mpr he
      by_cases hv : e.1 ∈ visited
      · simpa [List.filter_cons, List.find?_cons, hfind, he, hv] using hi
      · simp only [List.filter_cons, List.find?_cons, hfind]
        simp only [List.contains_eq_mem, List.mem_cons, he, hv, or_self, decide_false, Bool.not_false,
          if_true, List.flatMap_cons, List.length_append]
        simp only [List.contains_eq_mem, List.mem_cons] at hi
        omega

/-! ## The search -/

/-- The state of a search: what has been visited, what waits, and all that has been seen. -/
structure Frontier (g : Digraph) (visited queue seen : List String) : Prop where
  seen_iff : ∀ a, a ∈ seen ↔ a ∈ visited ∨ a ∈ queue
  queue_nodup : queue.Nodup
  queue_new : ∀ a ∈ queue, a ∉ visited
  closed : ∀ a ∈ visited, ∀ b ∈ g.next a, b ∈ seen

/-- One step moves the head of the queue to the visited nodes. -/
theorem Frontier.step {g : Digraph} {visited queue seen : List String} {a : String}
    (h : g.Frontier visited (a :: queue) seen) :
    g.Frontier (a :: visited) (queue ++ fresh seen (g.next a)) (fresh seen (g.next a) ++ seen) := by
  have ha : a ∉ queue := (List.nodup_cons.mp h.queue_nodup).1
  refine ⟨?_, ?_, ?_, ?_⟩
  · intro b
    simp only [List.mem_append, h.seen_iff, List.mem_cons]
    tauto
  · refine List.Nodup.append (List.nodup_cons.mp h.queue_nodup).2 (fresh_nodup _ _) ?_
    intro b hb hf
    exact (mem_fresh.mp hf).2 ((h.seen_iff b).mpr (.inr (List.mem_cons_of_mem a hb)))
  · intro b hb hv
    rcases List.mem_append.mp hb with hq | hf
    · rcases List.mem_cons.mp hv with rfl | hv
      · exact ha hq
      · exact h.queue_new b (List.mem_cons_of_mem a hq) hv
    · refine (mem_fresh.mp hf).2 ((h.seen_iff b).mpr ?_)
      rcases List.mem_cons.mp hv with rfl | hv
      · exact .inr (by simp)
      · exact .inl hv
  · intro b hb c hc
    rw [List.mem_append]
    rcases List.mem_cons.mp hb with rfl | hb
    · by_cases hs : c ∈ seen
      · exact .inr hs
      · exact .inl (mem_fresh.mpr ⟨hc, hs⟩)
    · exact .inr (h.closed b hb c hc)

/-- With enough fuel, what is visited in the end is closed under edges. -/
theorem Frontier.closed_breadthFrom {g : Digraph} {visited queue seen : List String} {fuel : Nat}
    (h : g.Frontier visited queue seen) (hf : queue.length + g.edgesBeyond visited < fuel) :
    (∀ a ∈ queue, a ∈ g.breadthFrom fuel queue seen) ∧
      ∀ a, (a ∈ visited ∨ a ∈ g.breadthFrom fuel queue seen) → ∀ b ∈ g.next a,
        b ∈ visited ∨ b ∈ g.breadthFrom fuel queue seen := by
  induction fuel generalizing visited queue seen with
  | zero => omega
  | succ fuel ih =>
    cases queue with
    | nil =>
      refine ⟨by simp, ?_⟩
      intro a ha b hb
      simp only [breadthFrom, List.not_mem_nil, or_false] at ha ⊢
      simpa using (h.seen_iff b).mp (h.closed a ha b hb)
    | cons a queue =>
      -- every new node in the queue is paid for by an edge that leaves `a`
      have hb := g.edgesBeyond_cons (h.queue_new a (by simp))
      have hl := length_fresh_le seen (g.next a)
      obtain ⟨hq, hc⟩ := ih h.step (by simp only [List.length_append, List.length_cons] at hf ⊢; omega)
      simp only [breadthFrom]
      constructor
      · intro b hb
        rcases List.mem_cons.mp hb with rfl | hb
        · simp
        · exact List.mem_cons_of_mem a (hq b (List.mem_append_left _ hb))
      · intro b hb c hbc
        have hcc := hc b (by simp only [List.mem_cons] at hb ⊢; tauto) c hbc
        simp only [List.mem_cons] at hcc ⊢
        tauto

/-- Whatever is visited can be reached from the queue. -/
theorem mem_breadthFrom {g : Digraph} {fuel : Nat} {queue seen : List String} {b : String}
    (h : b ∈ g.breadthFrom fuel queue seen) : ∃ a ∈ queue, g.Reaches a b := by
  induction fuel generalizing queue seen with
  | zero => simp [breadthFrom] at h
  | succ fuel ih =>
    cases queue with
    | nil => simp [breadthFrom] at h
    | cons a queue =>
      rcases List.mem_cons.mp h with rfl | h
      · exact ⟨b, by simp, .refl⟩
      · obtain ⟨c, hc, hcb⟩ := ih h
        rcases List.mem_append.mp hc with hc | hc
        · exact ⟨c, List.mem_cons_of_mem a hc, hcb⟩
        · exact ⟨a, by simp, .head (mem_fresh.mp hc).1 hcb⟩

/-- The search visits what can be reached from its roots. -/
theorem mem_breadthFirst {g : Digraph} {roots : List String} {b : String} :
    b ∈ g.breadthFirst roots ↔ ∃ a ∈ roots, g.Reaches a b := by
  have hstart : ∀ a, a ∈ fresh [] roots ↔ a ∈ roots := fun a => by simp [mem_fresh]
  constructor
  · intro h
    obtain ⟨a, ha, hab⟩ := mem_breadthFrom h
    exact ⟨a, (hstart a).mp ha, hab⟩
  · rintro ⟨a, ha, hab⟩
    have hf : g.Frontier [] (fresh [] roots) (fresh [] roots) :=
      ⟨by simp, fresh_nodup _ _, by simp, by simp⟩
    obtain ⟨hq, hc⟩ := hf.closed_breadthFrom
      (show _ < (fresh [] roots).length + g.edgeCount + 1 by rw [edgesBeyond_nil]; omega)
    induction hab with
    | refl => exact hq a ((hstart a).mpr ha)
    | tail _ hbc ih => exact (hc _ (.inr ih) _ hbc).resolve_left List.not_mem_nil

end SymbolGraph.Digraph
