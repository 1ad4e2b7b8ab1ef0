import Mathlib.Data.List.Flatten
import SymbolGraph.Proofs.Traversal

/-!
# The order of a depth-first search

The search keeps a stack on which a node may stand several times, and marks a node when it comes off
the stack. It visits what can be reached, each node once, and in the order of the recursive search: a
node that is taken from the stack stands for the recursive call that would be made for it.
-/
namespace SymbolGraph.Digraph
open Relation

variable {g : Digraph} {start a b : String} {fuel : Nat} {stack seen out l : List String}

/-! ## What is visited -/

/-- Whatever is visited can be reached from the stack. -/
theorem mem_depthFrom (h : b ∈ g.depthFrom fuel stack seen) : ∃ a ∈ stack, g.Reaches a b := by
  induction fuel generalizing stack seen with
  | zero => simp [depthFrom] at h
  | succ fuel ih =>
    cases stack with
    | nil => simp [depthFrom] at h
    | cons a stack =>
      simp only [depthFrom] at h
      split_ifs at h with hseen
      · obtain ⟨c, hc, hcb⟩ := ih h
        exact ⟨c, List.mem_cons_of_mem a hc, hcb⟩
      · rcases List.mem_cons.1 h with rfl | h
        · exact ⟨b, by simp, .refl⟩
        · obtain ⟨c, hc, hcb⟩ := ih h
          rcases List.mem_append.1 hc with hc | hc
          · exact ⟨a, by simp, .head (List.mem_filter.1 hc).1 hcb⟩
          · exact ⟨c, List.mem_cons_of_mem a hc, hcb⟩

theorem depthFrom_nodup (g : Digraph) (fuel : Nat) (stack seen : List String) :
    (g.depthFrom fuel stack seen).Nodup ∧ ∀ b ∈ g.depthFrom fuel stack seen, b ∉ seen := by
  induction fuel generalizing stack seen with
  | zero => simp [depthFrom]
  | succ fuel ih =>
    cases stack with
    | nil => simp [depthFrom]
    | cons a stack =>
      simp only [depthFrom]
      split_ifs with hseen
      · exact ih stack seen
      · obtain ⟨hn, hnew⟩ := ih ((g.next a).filter (!(a :: seen).contains ·) ++ stack) (a :: seen)
        refine ⟨List.nodup_cons.2 ⟨fun ha => hnew a ha (by simp), hn⟩, fun b hb => ?_⟩
        rcases List.mem_cons.1 hb with rfl | hb
        · simpa using hseen
        · exact fun hs => hnew b hb (List.mem_cons_of_mem a hs)

/-- What the visited nodes lead to has been visited or waits on the stack. -/
def Pending (g : Digraph) (seen stack : List String) : Prop :=
  ∀ a ∈ seen, ∀ b ∈ g.next a, b ∈ seen ∨ b ∈ stack

theorem Pending.skip (h : g.Pending seen (a :: stack)) (ha : a ∈ seen) : g.Pending seen stack := by
  intro b hb c hc
  rcases h b hb c hc with hs | hs
  · exact .inl hs
  · rcases List.mem_cons.1 hs with rfl | hs
    · exact .inl ha
    · exact .inr hs

theorem Pending.visit (h : g.Pending seen (a :: stack)) :
    g.Pending (a :: seen) ((g.next a).filter (!(a :: seen).contains ·) ++ stack) := by
  intro b hb c hc
  by_cases hs : c ∈ a :: seen
  · exact .inl hs
  · refine .inr (List.mem_append.2 ?_)
    rcases List.mem_cons.1 hb with rfl | hb
    · exact .inl (List.mem_filter.2 ⟨hc, by simpa using hs⟩)
    · have := h b hb c hc
      simp only [List.mem_cons] at this hs
      tauto

/-- With enough fuel, all that is on the stack is visited, and what is visited in the end is closed under
edges. -/
theorem Pending.closed_depthFrom (h : g.Pending seen stack)
    (hf : stack.length + g.edgesBeyond seen < fuel) :
    (∀ a ∈ stack, a ∈ seen ∨ a ∈ g.depthFrom fuel stack seen) ∧
      ∀ a, (a ∈ seen ∨ a ∈ g.depthFrom fuel stack seen) → ∀ b ∈ g.next a,
        b ∈ seen ∨ b ∈ g.depthFrom fuel stack seen := by
  induction fuel generalizing stack seen with
  | zero => omega
  | succ fuel ih =>
    cases stack with
    | nil => simpa [depthFrom, Pending] using h
    | cons a stack =>
      simp only [List.length_cons] at hf
      simp only [depthFrom]
      split_ifs with hseen
      · have ha : a ∈ seen := by simpa using hseen
        obtain ⟨hstack, hc⟩ := ih (h.skip ha) (by omega)
        exact ⟨List.forall_mem_cons.2 ⟨.inl ha, hstack⟩, hc⟩
      · -- the edges that leave `a` pay for what is put on the stack
        have hbeyond := g.edgesBeyond_cons (show a ∉ seen by simpa using hseen)
        have hlength := List.length_filter_le (!(a :: seen).contains ·) (g.next a)
        obtain ⟨hstack, hc⟩ := ih h.visit (by simp only [List.length_append]; omega)
        simp only [List.mem_cons] at hc hstack ⊢
        refine ⟨fun b hb => ?_, fun b hb c hbc => ?_⟩
        · rcases hb with rfl | hb
          · exact .inr (.inl rfl)
          · have := hstack b (List.mem_append_right _ hb)
            tauto
        · have := hc b (by tauto) c hbc
          tauto

/-- Every node on the stack but the first was put there by an edge. -/
theorem fuel_depthFirst (g : Digraph) (start : String) :
    [start].length + g.edgesBeyond [] < g.edgeCount + 2 := by
  rw [edgesBeyond_nil, List.length_singleton]
  omega

/-- The search visits what can be reached from its start. -/
theorem mem_depthFirst : b ∈ g.depthFirst start ↔ g.Reaches start b := by
  constructor
  · intro h
    obtain ⟨a, ha, hab⟩ := mem_depthFrom h
    rwa [List.mem_singleton.1 ha] at hab
  · intro h
    have hnone : g.Pending [] [start] := fun a ha => absurd ha List.not_mem_nil
    obtain ⟨hstack, hc⟩ := hnone.closed_depthFrom (g.fuel_depthFirst start)
    simp only [List.not_mem_nil, false_or] at hstack hc
    induction h with
    | refl => exact hstack start (by simp)
    | tail _ edge ih => exact hc _ ih _ edge

theorem depthFirst_nodup (g : Digraph) (start : String) : (g.depthFirst start).Nodup :=
  (g.depthFrom_nodup _ _ _).1

theorem head?_depthFirst (g : Digraph) (start : String) :
    (g.depthFirst start).head? = some start := by
  simp [depthFirst, depthFrom]

/-! ## The recursive search -/

/-- Visiting more leaves no more edges. -/
theorem edgesBeyond_mono (g : Digraph) {visited visited' : List String} (h : visited ⊆ visited') :
    g.edgesBeyond visited' ≤ g.edgesBeyond visited := by
  refine ((List.monotone_filter_right _ fun p hp => ?_).flatMap _).length_le
  simp only [List.contains_eq_mem, Bool.not_eq_true', decide_eq_false_iff_not] at hp ⊢
  exact fun hv => hp (h hv)

/-- Putting out a new node uses up the edges that leave it. -/
theorem edgesBeyond_add_le (g : Digraph) (ha : a ∉ out) (hl : out ++ [a] ⊆ l) :
    g.edgesBeyond l + (g.next a).length ≤ g.edgesBeyond out := by
  have hle : g.edgesBeyond l ≤ g.edgesBeyond (a :: out) :=
    g.edgesBeyond_mono fun x hx => hl (by simpa [or_comm] using hx)
  have hcons := g.edgesBeyond_cons ha
  omega

/-- The recursive search. Arriving at a node that has been put out changes nothing; any other node is
put out, and then the search arrives at what it leads to, in order. -/
def explore (g : Digraph) (out : List String) (a : String) : {l : List String // out ⊆ l} :=
  if a ∈ out then ⟨out, List.Subset.refl out⟩
  else
    let below := (g.next a).attach.foldl
      (fun (sofar : {l : List String // out ++ [a] ⊆ l}) b =>
        let further := g.explore sofar.1 b.1
        ⟨further.1, List.Subset.trans sofar.2 further.2⟩)
      ⟨out ++ [a], List.Subset.refl _⟩
    ⟨below.1, List.Subset.trans (List.subset_append_left out [a]) below.2⟩
termination_by g.edgesBeyond out
decreasing_by
  have hle := g.edgesBeyond_add_le ‹a ∉ out› sofar.2
  have hpos := List.length_pos_of_mem b.2
  omega

/-- What has been put out after arriving at a node. -/
def arrive (g : Digraph) (out : List String) (a : String) : List String := (g.explore out a).1

theorem arrive_eq (g : Digraph) (out : List String) (a : String) :
    g.arrive out a = if a ∈ out then out else (g.next a).foldl g.arrive (out ++ [a]) := by
  rw [arrive, explore]
  split_ifs with ha
  · rfl
  · calc _ = (g.next a).attach.foldl (fun sofar b => g.arrive sofar b.1) (out ++ [a]) :=
          (List.foldl_hom Subtype.val fun _ _ => rfl).symm
      _ = _ := List.foldl_attach

theorem subset_arrive (g : Digraph) (out : List String) (a : String) : out ⊆ g.arrive out a :=
  (g.explore out a).2

theorem arrive_of_mem (ha : a ∈ out) : g.arrive out a = out := by
  rw [arrive_eq, if_pos ha]

/-- Nodes that have been put out already can be left out before the search goes on. -/
theorem foldl_arrive_filter (hseen : seen ⊆ out) :
    (l.filter (!seen.contains ·)).foldl g.arrive out = l.foldl g.arrive out := by
  induction l generalizing out with
  | nil => rfl
  | cons a l ih =>
    by_cases ha : a ∈ seen
    · rw [List.filter_cons_of_neg (by simpa using ha), ih hseen, List.foldl_cons,
        arrive_of_mem (hseen ha)]
    · rw [List.filter_cons_of_pos (by simpa using ha), List.foldl_cons, List.foldl_cons,
        ih (List.Subset.trans hseen (g.subset_arrive out a))]

/-- The stack holds the nodes for which calls of the recursive search are still to be made. -/
theorem append_depthFrom (hf : stack.length + g.edgesBeyond out < fuel) :
    out ++ g.depthFrom fuel stack out.reverse = stack.foldl g.arrive out := by
  induction fuel generalizing stack out with
  | zero => omega
  | succ fuel ih =>
    cases stack with
    | nil => simp [depthFrom]
    | cons a stack =>
      simp only [List.length_cons] at hf
      rw [depthFrom, List.foldl_cons, arrive_eq]
      by_cases ha : a ∈ out
      · rw [if_pos (by simpa using ha), if_pos ha]
        exact ih (by omega)
      · rw [if_neg (by simpa using ha), if_neg ha]
        have hbeyond := g.edgesBeyond_add_le ha (List.Subset.refl _)
        have hlength := List.length_filter_le (!(a :: out.reverse).contains ·) (g.next a)
        -- what is not pushed because it has been visited would be skipped on arrival
        have hseen : a :: out.reverse ⊆ out ++ [a] := fun x hx => by simpa [or_comm] using hx
        calc out ++ a :: g.depthFrom fuel
                ((g.next a).filter (!(a :: out.reverse).contains ·) ++ stack) (a :: out.reverse)
          _ = out ++ [a] ++ g.depthFrom fuel
                ((g.next a).filter (!(a :: out.reverse).contains ·) ++ stack) (out ++ [a]).reverse := by
              simp
          _ = ((g.next a).filter (!(a :: out.reverse).contains ·) ++ stack).foldl g.arrive (out ++ [a]) :=
              ih (by simp only [List.length_append]; omega)
          _ = stack.foldl g.arrive ((g.next a).foldl g.arrive (out ++ [a])) := by
              rw [List.foldl_append, foldl_arrive_filter hseen]

theorem depthFirst_eq_arrive (g : Digraph) (start : String) :
    g.depthFirst start = g.arrive [] start :=
  append_depthFrom (g.fuel_depthFirst start)

end SymbolGraph.Digraph
