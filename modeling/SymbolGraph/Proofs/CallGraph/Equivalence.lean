import SymbolGraph.Proofs.CallGraph.Baseline

/-!
# One accepted edit after another

The comparison with a baseline finds nothing wrong exactly if every function of the baseline is kept with
its signature. To keep everything is a preorder, so a run of edits, each of which is accepted against the
graph before it, is accepted against the first graph.
-/
namespace SymbolGraph

namespace CallGraph

variable {a b c : CallGraph}

/-- Every function of `a` is one of `b` and has the same signature there, or none as before. -/
def Keeps (a b : CallGraph) : Prop :=
  ∀ id before, a.node? id = some before →
    ∃ after, b.node? id = some after ∧ after.signature = before.signature

theorem keeps_iff_signatureAt :
    a.Keeps b ↔ ∀ id signature, a.signatureAt id = some signature → b.signatureAt id = some signature := by
  simp only [Keeps, node?, signatureAt, Option.map_eq_some_iff]
  constructor
  · rintro h id _ ⟨before, hbefore, rfl⟩
    exact h id before hbefore
  · exact fun h id before hbefore => h id _ ⟨before, hbefore, rfl⟩

theorem Keeps.refl (a : CallGraph) : a.Keeps a := fun _ before h => ⟨before, h, rfl⟩

theorem Keeps.trans (hab : a.Keeps b) (hbc : b.Keeps c) : a.Keeps c := by
  intro id first hfirst
  obtain ⟨second, hsecond, same⟩ := hab id first hfirst
  obtain ⟨third, hthird, same'⟩ := hbc id second hsecond
  exact ⟨third, hthird, same'.trans same⟩

/-- What each step of a run keeps is kept by the whole run. -/
theorem keeps_of_forall_step {g : Nat → CallGraph} {n : Nat} (h : ∀ i < n, (g i).Keeps (g (i + 1))) :
    (g 0).Keeps (g n) := by
  induction n with
  | zero => exact .refl (g 0)
  | succ n ih => exact (ih fun i hi => h i (by omega)).trans (h n (by omega))

end CallGraph

/-- A comparison is passed exactly if every function is kept with its signature. -/
theorem isEquivalent_iff_keeps {a b : CallGraph} :
    (compareGraphs a b).isEquivalent = true ↔ a.Keeps b := by
  rw [CallGraph.keeps_iff_signatureAt, GraphDiff.isEquivalent, Bool.and_eq_true, List.isEmpty_iff,
    List.isEmpty_iff]
  constructor
  · rintro ⟨removed, changes⟩ id before hbefore
    have hid : id ∉ (compareGraphs a b).removed := by simp [removed]
    rw [mem_removed, hbefore] at hid
    obtain ⟨after, hafter⟩ := Option.ne_none_iff_exists'.1 fun hnone => hid ⟨rfl, hnone⟩
    have hchange : ⟨id, before, after⟩ ∉ (compareGraphs a b).signatureChanges := by simp [changes]
    rw [mem_signatureChanges] at hchange
    have same : after = before := by_contra fun hne => hchange ⟨hbefore, hafter, hne⟩
    rw [hafter, same]
  · intro keeps
    refine ⟨List.eq_nil_iff_forall_not_mem.2 fun id hid => ?_,
      List.eq_nil_iff_forall_not_mem.2 fun change hchange => ?_⟩
    · obtain ⟨hsome, hnone⟩ := mem_removed.1 hid
      obtain ⟨before, hbefore⟩ := Option.isSome_iff_exists.1 hsome
      rw [keeps id before hbefore] at hnone
      cases hnone
    · obtain ⟨hbefore, hafter, hne⟩ := mem_signatureChanges.1 hchange
      rw [keeps change.id change.before hbefore] at hafter
      exact hne (Option.some_inj.1 hafter).symm

/-- A graph does not differ from itself. What one graph adds to another is what the other lacks. A
comparison is passed exactly if every function is kept with its signature, and so, if every step of a run
of graphs passes, the last passes against the first and keeps all of it. -/
theorem accepted_edits_compose :
    (∀ a : CallGraph, compareGraphs a a = ⟨[], [], []⟩ ∧ (compareGraphs a a).isEquivalent = true) ∧
    (∀ a b : CallGraph, (compareGraphs a b).added = (compareGraphs b a).removed) ∧
    (∀ a b : CallGraph, (compareGraphs a b).isEquivalent = true ↔ a.Keeps b) ∧
    ∀ (g : Nat → CallGraph) (n : Nat),
      (∀ i < n, (compareGraphs (g i) (g (i + 1))).isEquivalent = true) →
        (compareGraphs (g 0) (g n)).isEquivalent = true ∧ (g 0).Keeps (g n) := by
  refine ⟨fun a => ⟨compareGraphs_of_nodes_eq rfl, isEquivalent_iff_keeps.2 (.refl a)⟩,
    fun _ _ => rfl, fun _ _ => isEquivalent_iff_keeps, fun g n steps => ?_⟩
  have keeps : (g 0).Keeps (g n) :=
    CallGraph.keeps_of_forall_step fun i hi => isEquivalent_iff_keeps.1 (steps i hi)
  exact ⟨isEquivalent_iff_keeps.2 keeps, keeps⟩

/-- Two edits add a function each, the second one in front of all others, to functions with and without
a signature. -/
theorem accepted_edits_compose_twice :
    let node (name : String) (signature : Option String) : String × FunctionNode :=
      (symbolKey "a.ts" name, { FunctionNode.named "a.ts" name 1 2 with signature })
    let graph (nodes : List (String × FunctionNode)) : CallGraph :=
      .assemble ⟨0, 0⟩ "/r" (.ofList nodes) [] ["a.ts"]
    let first := [node "f" (some "(a)"), node "h" none]
    let run (i : Nat) : CallGraph := graph ([node "k" none, node "b" (some "()")].take i ++ first)
    (∀ i < 2, (compareGraphs (run i) (run (i + 1))).isEquivalent = true) ∧
      (compareGraphs (run 0) (run 2)).added = ["a.ts:b", "a.ts:k"] ∧
      (compareGraphs (run 0) (run 2)).isEquivalent = true ∧ (run 0).Keeps (run 2) := by
  intro node graph first run
  have steps : ∀ i < 2, (compareGraphs (run i) (run (i + 1))).isEquivalent = true := by decide +kernel
  exact ⟨steps, by decide +kernel, accepted_edits_compose.2.2.2 run 2 steps⟩

end SymbolGraph
