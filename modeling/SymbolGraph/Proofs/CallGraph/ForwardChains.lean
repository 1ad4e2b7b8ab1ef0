import SymbolGraph.Proofs.CallGraph.Table

/-!
# Chains of forwards

The function that a file exports under a name stands at the end of a chain of forwards through
different pairs, none of which is visited twice. The converse fails. A pair that is first reached at the
last step is visited without being followed, and it is not followed later either, when it is reached with
steps to spare. A function is missed only in this way.
-/
namespace SymbolGraph.NodeTable

variable {t : NodeTable}

theorem end?_eq_some {s : String × String} {id : String} (h : t.end? s = some id) :
    id = symbolKey s.1 s.2 ∧ t.ids.contains id = true ∧ ∀ f ∈ t.forwardsOf s.1, f.name ≠ s.2 := by
  unfold end? idIn? at h
  dsimp only at h
  split_ifs at h with forwarded known
  obtain rfl := Option.some_inj.1 h
  exact ⟨rfl, known, by simpa using forwarded⟩

/-- Following a name comes to an end, as there is a run of the search. It visits no pair twice, and only
pairs to which a chain of different pairs leads within the depth. A function that is found is the last
pair of such a chain. -/
theorem exportedId?_ends_chain (t : NodeTable) (file name : String) :
    ∃ visited, t.Run (maxForwardDepth + 1) [(file, name)] [] (t.exportedId? file name) visited ∧
      visited.Nodup ∧
      (∀ v ∈ visited, ∃ w, IsWalk t.Hop (file, name) v w ∧ w.Nodup ∧ w.length ≤ maxForwardDepth + 1) ∧
      ∀ id, t.exportedId? file name = some id →
        ∃ u ∈ visited, ∃ w, IsWalk t.Hop (file, name) u w ∧ w.Nodup ∧ w.length ≤ maxForwardDepth + 1 ∧
          id = symbolKey u.1 u.2 ∧ t.ids.contains id = true ∧ ∀ f ∈ t.forwardsOf u.1, f.name ≠ u.2 := by
  have run := @run_follow t (maxForwardDepth + 1) (file, name) []
  have chain {v : String × String} (hv : v ∈ (t.follow (maxForwardDepth + 1) file name []).2) :
      ∃ w, IsWalk t.Hop (file, name) v w ∧ w.Nodup ∧ w.length ≤ maxForwardDepth + 1 := by
    obtain ⟨s, hs, w, walk, nodup, -, length⟩ := run.exists_walk hv List.not_mem_nil
    obtain rfl := List.mem_singleton.1 hs
    exact ⟨w, walk, nodup, length⟩
  refine ⟨_, run, run.nodup List.nodup_nil, fun v hv => chain hv, fun id h => ?_⟩
  obtain ⟨u, hu, -, hend⟩ := run.exists_visited h
  obtain ⟨w, walk, nodup, length⟩ := chain hu
  exact ⟨u, hu, w, walk, nodup, length, end?_eq_some hend⟩

/-- The table of one function, with stars that lead from files to others. -/
def ofStars (f : FunctionNode) (stars : List (String × String)) : NodeTable :=
  stars.foldl (fun t (file, source) => t.addForward file starName source starName) (ofNodes [f])

/-- The star of `b` leads back to `a`, and that of `y` to itself before it leads on. -/
theorem exportedId?_ends_chain_circle :
    let t := ofStars (.named "z" "n" 1 1) [("a", "b"), ("b", "a"), ("a", "y"), ("y", "y"), ("y", "z")]
    t.exportedId? "a" "n" = some "z:n" ∧
      ∃ u w, IsWalk t.Hop ("a", "n") u w ∧ w.Nodup ∧ w.length ≤ maxForwardDepth + 1 ∧
        "z:n" = symbolKey u.1 u.2 := by
  intro t
  have found : t.exportedId? "a" "n" = some "z:n" := by decide +kernel
  obtain ⟨visited, -, -, -, sound⟩ := exportedId?_ends_chain t "a" "n"
  obtain ⟨u, -, w, walk, nodup, length, hid, -⟩ := sound _ found
  exact ⟨found, u, w, walk, nodup, length, hid⟩

/-- A function is found if some chain leads to one, unless a hop of the chain is one too many for a
chain of different pairs that comes to the same place. -/
theorem exportedId?_found_unless_cutsOff (t : NodeTable) (file name : String) {u : String × String}
    {w : List (String × String)} {id : String} (walk : IsWalk t.Hop (file, name) u w)
    (hend : t.end? u = some id) (free : ∀ a b, [a, b] <:+: w → ¬ t.CutsOff (file, name) a b) :
    ∃ id', t.exportedId? file name = some id' := by
  cases h : t.exportedId? file name with
  | some id' => exact ⟨id', rfl⟩
  | none =>
    obtain ⟨a, b, hab, cut⟩ := exists_cutsOff_of_vain h walk hend
    exact absurd cut (free a b hab)

/-- All pairs that `n` of `a` leads to are among four, so that no chain of different pairs is long. -/
theorem exportedId?_found_behind_circle :
    let t := ofStars (.named "z" "n" 1 1) [("a", "b"), ("b", "a"), ("a", "y"), ("y", "z")]
    let w := [("a", "n"), ("y", "n"), ("z", "n")]
    IsWalk t.Hop ("a", "n") ("z", "n") w ∧ t.end? ("z", "n") = some "z:n" ∧
      (∀ a b, [a, b] <:+: w → ¬ t.CutsOff ("a", "n") a b) ∧
      ∃ id, t.exportedId? "a" "n" = some id := by
  intro t w
  let pairs := [("a", "n"), ("b", "n"), ("y", "n"), ("z", "n")]
  have evaluated : (∀ x ∈ pairs, ∀ y ∈ t.hops x, y ∈ pairs) ∧
      ("y", "n") ∈ t.hops ("a", "n") ∧ ("z", "n") ∈ t.hops ("y", "n") ∧
      t.end? ("z", "n") = some "z:n" := by
    decide +kernel
  obtain ⟨closed, first, last, hend⟩ := evaluated
  have walk : IsWalk t.Hop ("a", "n") ("z", "n") w := .cons first (.cons last (.single _))
  have free (a b : String × String) : ¬ t.CutsOff ("a", "n") a b := by
    rintro ⟨p, path, nodup, length⟩
    have inside := path.forall_mem (· ∈ pairs) List.mem_cons_self fun x y hx hop => closed x hx y hop
    have few := (List.subperm_of_subset (List.nodup_append.1 nodup).1 inside).length_le
    rw [length] at few
    exact absurd few (by decide)
  exact ⟨walk, hend, fun a b _ => free a b,
    exportedId?_found_unless_cutsOff t "a" "n" walk hend fun a b _ => free a b⟩

/-- The stars lead from `a` through fifteen files to `y`, where the last step is taken, before they lead
from `a` to `y` at once. -/
theorem exportedId?_missed_behind_detour :
    let t := ofStars (.named "z" "n" 1 1) [("a", "b"), ("b", "c"), ("c", "d"), ("d", "e"), ("e", "f"),
      ("f", "g"), ("g", "h"), ("h", "i"), ("i", "j"), ("j", "k"), ("k", "l"), ("l", "m"), ("m", "n"),
      ("n", "o"), ("o", "p"), ("p", "y"), ("a", "y"), ("y", "z")]
    IsWalk t.Hop ("a", "n") ("z", "n") [("a", "n"), ("y", "n"), ("z", "n")] ∧
      t.end? ("z", "n") = some "z:n" ∧ t.exportedId? "a" "n" = none := by
  intro t
  have evaluated : ("y", "n") ∈ t.hops ("a", "n") ∧ ("z", "n") ∈ t.hops ("y", "n") ∧
      t.end? ("z", "n") = some "z:n" ∧ t.exportedId? "a" "n" = none := by
    decide +kernel
  obtain ⟨first, last, hend, missed⟩ := evaluated
  exact ⟨.cons first (.cons last (.single _)), hend, missed⟩

end SymbolGraph.NodeTable
