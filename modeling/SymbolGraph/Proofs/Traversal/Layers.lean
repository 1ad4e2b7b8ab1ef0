import Mathlib.Order.Lattice.Nat
import SymbolGraph.Proofs.Traversal
import SymbolGraph.Proofs.Walks

/-!
# The order of a breadth-first search

The queue holds nodes of at most two distances from the start, the smaller distance first, and all
that is no farther than its head has been seen. So the nodes come out by their distance, and each of
them once.
-/
namespace SymbolGraph.Digraph
open Relation

variable {g : Digraph} {start a b c : String} {d k fuel : Nat}
  {visited queue near far seen : List String}

/-! ## Distance -/

/-- The numbers of edges on the walks from one node to another. -/
def steps (g : Digraph) (a b : String) : Set Nat :=
  {k | ∃ w, IsWalk g.Edge a b w ∧ w.length = k + 1}

/-- The number of edges on a shortest walk. -/
noncomputable def distance (g : Digraph) (a b : String) : Nat := sInf (g.steps a b)

theorem steps_nonempty : (g.steps a b).Nonempty ↔ g.Reaches a b := by
  constructor
  · rintro ⟨_, w, hw, _⟩
    exact hw.reaches
  · intro h
    obtain ⟨w, hw, -⟩ := exists_nodup_walk h
    have hpos : 0 < w.length := List.length_pos_iff.2 hw.ne_nil
    exact ⟨w.length - 1, w, hw, by omega⟩

theorem zero_mem_steps : 0 ∈ g.steps a b ↔ a = b := by
  constructor
  · rintro ⟨w, hw, hlength⟩
    obtain ⟨x, rfl⟩ := List.length_eq_one_iff.1 hlength
    obtain ⟨rfl, rfl⟩ := hw.eq_of_singleton
    rfl
  · rintro rfl
    exact ⟨[a], .single a, rfl⟩

/-- A walk of more than one node ends with a step. -/
theorem succ_mem_steps : k + 1 ∈ g.steps a c ↔ ∃ b, k ∈ g.steps a b ∧ g.Edge b c := by
  constructor
  · rintro ⟨w, hw, hlength⟩
    obtain ⟨p, rfl⟩ := hw.exists_append
    have hp : p.length = k + 1 := by simpa using hlength
    obtain ⟨b, hb, last⟩ := hw.exists_last_step (List.length_pos_iff.1 (by omega))
    exact ⟨b, ⟨p, hb, hp⟩, last⟩
  · rintro ⟨b, ⟨w, hw, hlength⟩, last⟩
    exact ⟨w ++ [c], hw.snoc last, by simp [hlength]⟩

theorem distance_mem_steps (h : g.Reaches a b) : g.distance a b ∈ g.steps a b :=
  Nat.sInf_mem (steps_nonempty.2 h)

@[simp] theorem distance_self (g : Digraph) (a : String) : g.distance a a = 0 :=
  Nat.le_zero.1 (Nat.sInf_le (zero_mem_steps.2 rfl))

theorem distance_le_succ (h : g.Reaches a b) (edge : g.Edge b c) :
    g.distance a c ≤ g.distance a b + 1 :=
  Nat.sInf_le (succ_mem_steps.2 ⟨b, distance_mem_steps h, edge⟩)

/-- The last node before the end of a shortest walk is one step nearer. -/
theorem exists_nearer (h : g.Reaches a c) (hd : g.distance a c = d + 1) :
    ∃ b, g.Reaches a b ∧ g.Edge b c ∧ g.distance a b = d := by
  have hmem := distance_mem_steps h
  rw [hd] at hmem
  obtain ⟨b, hb, edge⟩ := succ_mem_steps.1 hmem
  have reached : g.Reaches a b := steps_nonempty.1 ⟨d, hb⟩
  have hle : g.distance a b ≤ d := Nat.sInf_le hb
  have hge := distance_le_succ reached edge
  exact ⟨b, reached, edge, by omega⟩

/-! ## Each node once -/

theorem Frontier.nodup_breadthFrom (h : g.Frontier visited queue seen) :
    (g.breadthFrom fuel queue seen).Nodup ∧ ∀ b ∈ g.breadthFrom fuel queue seen, b ∉ visited := by
  induction fuel generalizing visited queue seen with
  | zero => simp [breadthFrom]
  | succ fuel ih =>
    cases queue with
    | nil => simp [breadthFrom]
    | cons a queue =>
      obtain ⟨hn, hnew⟩ := ih h.step
      simp only [breadthFrom]
      refine ⟨List.nodup_cons.2 ⟨fun ha => hnew a ha (by simp), hn⟩, fun b hb => ?_⟩
      rcases List.mem_cons.1 hb with rfl | hb
      · exact h.queue_new b (by simp)
      · exact fun hv => hnew b hb (List.mem_cons_of_mem a hv)

/-! ## Layers -/

/-- A search from `start` that has come to the nodes at distance `d`: those of them that wait stand in
front, behind them stand nodes one step farther, and all that is no farther than `d` has been seen. -/
structure Layers (g : Digraph) (start : String) (d : Nat) (visited near far seen : List String) : Prop
    extends g.Frontier visited (near ++ far) seen where
  reached : ∀ a ∈ seen, g.Reaches start a
  near_at : ∀ a ∈ near, g.distance start a = d
  far_at : ∀ a ∈ far, g.distance start a = d + 1
  seen_within : ∀ b, g.Reaches start b → g.distance start b ≤ d → b ∈ seen

theorem layers_start (g : Digraph) (start : String) : g.Layers start 0 [] [start] [] [start] where
  seen_iff := by simp
  queue_nodup := by simp
  queue_new := by simp
  closed := by simp
  reached := by
    intro a ha
    rw [List.mem_singleton.1 ha]
    exact .refl
  near_at := by simp
  far_at := by simp
  seen_within := by
    intro b hb hd
    have hmem := distance_mem_steps hb
    rw [Nat.le_zero.1 hd, zero_mem_steps] at hmem
    simp [hmem]

/-- An edge from the head of the queue leads one step farther where it leads to something new, since what
is nearer has been seen. -/
theorem Layers.distance_next (h : g.Layers start d visited (a :: near) far seen) (edge : g.Edge a b)
    (new : b ∉ seen) : g.distance start b = d + 1 := by
  have ha : g.Reaches start a := h.reached a ((h.seen_iff a).2 (.inr (by simp)))
  have hle := distance_le_succ ha edge
  have hgt : ¬ g.distance start b ≤ d := fun hd => new (h.seen_within b (ha.tail edge) hd)
  have hda := h.near_at a (by simp)
  omega

/-- Visiting the head of the queue puts nodes one step farther behind the others. -/
theorem Layers.visit (h : g.Layers start d visited (a :: near) far seen) :
    g.Layers start d (a :: visited) near (far ++ fresh seen (g.next a))
      (fresh seen (g.next a) ++ seen) := by
  have ha : g.Reaches start a := h.reached a ((h.seen_iff a).2 (.inr (by simp)))
  have found_reached : ∀ b ∈ fresh seen (g.next a), g.Reaches start b :=
    fun b hb => ha.tail (mem_fresh.1 hb).1
  refine ⟨by simpa using h.toFrontier.step, ?_, ?_, ?_, ?_⟩
  · intro b hb
    rcases List.mem_append.1 hb with hb | hb
    · exact found_reached b hb
    · exact h.reached b hb
  · exact fun b hb => h.near_at b (List.mem_cons_of_mem a hb)
  · intro b hb
    rcases List.mem_append.1 hb with hb | hb
    · exact h.far_at b hb
    · exact h.distance_next (mem_fresh.1 hb).1 (mem_fresh.1 hb).2
  · exact fun b hb hd => List.mem_append_right _ (h.seen_within b hb hd)

/-- When no node at distance `d` waits any more, all nodes at distance `d + 1` have been seen. -/
theorem Layers.descend (h : g.Layers start d visited [] far seen) :
    g.Layers start (d + 1) visited far [] seen := by
  refine ⟨by simpa using h.toFrontier, h.reached, h.far_at, by simp, fun c hc hd => ?_⟩
  rcases Nat.lt_or_ge (g.distance start c) (d + 1) with hlt | hge
  · exact h.seen_within c hc (by omega)
  · obtain ⟨b, hb, edge, hbd⟩ := exists_nearer hc (show g.distance start c = d + 1 by omega)
    have hvisited : b ∈ visited := by
      rcases (h.seen_iff b).1 (h.seen_within b hb hbd.le) with hv | hq
      · exact hv
      · have := h.far_at b (by simpa using hq)
        omega
    exact h.closed b hvisited c edge

/-- The head of the queue stands in front of its layer, or opens the next one. -/
theorem Layers.exists_head (h : g.Layers start d visited near far seen) (hq : near ++ far = a :: queue) :
    ∃ d' near' far', d ≤ d' ∧ queue = near' ++ far' ∧
      g.Layers start d' visited (a :: near') far' seen := by
  cases near with
  | cons b near =>
    obtain ⟨rfl, rfl⟩ := List.cons.inj hq
    exact ⟨d, near, far, le_rfl, rfl, h⟩
  | nil =>
    rw [List.nil_append] at hq
    subst hq
    exact ⟨d + 1, queue, [], by omega, by simp, h.descend⟩

/-- What is still to be visited comes out by its distance. -/
theorem Layers.pairwise_breadthFrom (h : g.Layers start d visited near far seen) :
    (g.breadthFrom fuel (near ++ far) seen).Pairwise
        (fun a b => g.distance start a ≤ g.distance start b) ∧
      ∀ b ∈ g.breadthFrom fuel (near ++ far) seen, d ≤ g.distance start b := by
  induction fuel generalizing d visited near far seen with
  | zero => simp [breadthFrom]
  | succ fuel ih =>
    cases hq : near ++ far with
    | nil => simp [breadthFrom]
    | cons a queue =>
      obtain ⟨d', near', far', hd, rfl, h'⟩ := h.exists_head hq
      obtain ⟨hsorted, hle⟩ := ih h'.visit
      have ha : g.distance start a = d' := h'.near_at a (by simp)
      simp only [breadthFrom, List.append_assoc, List.pairwise_cons, List.forall_mem_cons]
      exact ⟨⟨fun b hb => ha ▸ hle b hb, hsorted⟩, hd.trans ha.ge, fun b hb => hd.trans (hle b hb)⟩

/-! ## The whole search -/

theorem breadthFirst_singleton (g : Digraph) (start : String) :
    g.breadthFirst [start] = g.breadthFrom (1 + g.edgeCount + 1) [start] [start] := rfl

theorem head?_breadthFirst (g : Digraph) (start : String) :
    (g.breadthFirst [start]).head? = some start := by
  rw [breadthFirst_singleton, breadthFrom, List.head?_cons]

theorem breadthFirst_nodup (g : Digraph) (start : String) : (g.breadthFirst [start]).Nodup := by
  rw [breadthFirst_singleton]
  exact (layers_start g start).toFrontier.nodup_breadthFrom.1

theorem breadthFirst_pairwise_distance (g : Digraph) (start : String) :
    (g.breadthFirst [start]).Pairwise fun a b => g.distance start a ≤ g.distance start b := by
  rw [breadthFirst_singleton]
  exact (layers_start g start).pairwise_breadthFrom.1

end SymbolGraph.Digraph
