import SymbolGraph.Proofs.Project.ReExports
import SymbolGraph.Proofs.Walks

/-!
# Chains of re-exports

The search for the declaration behind a name keeps no record of where it has been; it ends because every
step is counted. It finds a declaration exactly if a chain of re-exports leads to one with the steps that
are left, also where re-exports run in circles.
-/
namespace SymbolGraph.ExportTable
open Relation

variable {table : ExportTable}

theorem hops_of_declares {s : String × String} (h : table.declares s = true) : table.hops s = [] := by
  obtain ⟨e, he, declared⟩ := declares_iff.1 h
  unfold hops
  rw [he]
  rcases declared with declared | declared <;> simp [declared]

theorem declares_eq_false_of_hop {s u : String × String} (h : table.Hop s u) : table.declares s = false := by
  by_contra declared
  have none := hops_of_declares (by simpa using declared)
  rw [Hop, none] at h
  cases h

theorem originWithin_eq (fuel : Nat) (file name : String) : table.originWithin (fuel + 1) file name =
    match table.own? file name with
    | some e =>
      if !e.isReExport || e.sourceName == starName then some e
      else e.origin.bind fun source => table.originWithin fuel source e.sourceName
    | none =>
      if name == defaultName then none
      else (starOrigins (table.exportsOf file)).findSome? fun source => table.originWithin fuel source name := by
  rw [originWithin]
  unfold own? exportsOf
  cases table.get? file with
  | none => simp [starOrigins]
  | some exports => rfl

/-- A declared pair is its own origin; any other has that of the first pair it leads to. -/
theorem originWithin_succ (fuel : Nat) (s : String × String) :
    table.originWithin (fuel + 1) s.1 s.2 =
      if table.declares s then table.own? s.1 s.2
      else (table.hops s).findSome? fun u => table.originWithin fuel u.1 u.2 := by
  rw [originWithin_eq]
  cases hown : table.own? s.1 s.2 with
  | none =>
    simp only [declares, hops, hown, Option.any_none, Bool.false_eq_true, if_false]
    split_ifs
    · rfl
    · rw [List.findSome?_map]
      rfl
  | some e =>
    cases hre : e.isReExport <;> by_cases hstar : e.sourceName = starName <;>
      cases horigin : e.origin <;> simp [declares, hops, hown, hre, hstar, horigin]

/-- A declaration that is found is the end of a chain of re-exports. -/
theorem exists_walk_of_originWithin {fuel : Nat} {s : String × String} {e : Export}
    (h : table.originWithin fuel s.1 s.2 = some e) :
    ∃ u w, IsWalk table.Hop s u w ∧ w.length ≤ fuel ∧ table.declares u = true ∧
      table.own? u.1 u.2 = some e := by
  induction fuel generalizing s with
  | zero => cases h
  | succ fuel ih =>
    rw [originWithin_succ] at h
    split_ifs at h with declared
    · exact ⟨s, [s], .single s, by simp, declared, h⟩
    · obtain ⟨u, hop, h⟩ := List.exists_of_findSome?_eq_some h
      obtain ⟨v, w, walk, length, found⟩ := ih h
      exact ⟨v, s :: w, .cons hop walk, Nat.succ_le_succ length, found⟩

theorem exists_declares_of_originWithin {fuel : Nat} {s : String × String} {e : Export}
    (h : table.originWithin fuel s.1 s.2 = some e) :
    ∃ u, ReflTransGen table.Hop s u ∧ table.declares u = true ∧ table.own? u.1 u.2 = some e := by
  obtain ⟨u, w, walk, -, found⟩ := exists_walk_of_originWithin h
  exact ⟨u, walk.reaches, found⟩

/-- A chain to a declaration that is not too long makes the search find one, though not always this
one. -/
theorem isSome_originWithin_of_walk {fuel : Nat} {s u : String × String} {w : List (String × String)}
    (walk : IsWalk table.Hop s u w) (length : w.length ≤ fuel) (declared : table.declares u = true) :
    (table.originWithin fuel s.1 s.2).isSome = true := by
  induction walk generalizing fuel with
  | single s =>
    obtain ⟨fuel, rfl⟩ : ∃ n, fuel = n + 1 := ⟨fuel - 1, by simp at length; omega⟩
    obtain ⟨e, he, -⟩ := declares_iff.1 declared
    rw [originWithin_succ, if_pos declared, he]
    rfl
  | @cons s v u w hop _ ih =>
    obtain ⟨fuel, rfl⟩ : ∃ n, fuel = n + 1 := ⟨fuel - 1, by simp at length; omega⟩
    rw [originWithin_succ, if_neg (by simp [declares_eq_false_of_hop hop]), List.isSome_findSome?,
      List.any_eq_true]
    exact ⟨v, hop, ih (Nat.le_of_succ_le_succ length) declared⟩

/-- Within the depth, a search of depth `d` is answered by searches of depth `d + 1`. -/
theorem origin?_eq (s : String × String) (d : Nat) : table.origin? s.1 s.2 d =
    if maxDepth < d then none
    else if table.declares s then table.own? s.1 s.2
    else (table.hops s).findSome? fun u => table.origin? u.1 u.2 (d + 1) := by
  unfold origin?
  split_ifs with deep declared
  · rw [show maxDepth + 1 - d = 0 by omega, originWithin]
  · rw [show maxDepth + 1 - d = maxDepth + 1 - (d + 1) + 1 by omega, originWithin_succ, if_pos declared]
  · rw [show maxDepth + 1 - d = maxDepth + 1 - (d + 1) + 1 by omega, originWithin_succ, if_neg declared]

/-- The search for a pair needs the answer for another one, a step deeper. -/
def Needs (table : ExportTable) (q q' : (String × String) × Nat) : Prop :=
  q.2 ≤ maxDepth ∧ table.Hop q.1 q'.1 ∧ q'.2 = q.2 + 1

theorem wellFounded_needs (table : ExportTable) : WellFounded fun q' q => table.Needs q q' := by
  refine Subrelation.wf ?_ (measure fun q : (String × String) × Nat => maxDepth + 1 - q.2).wf
  rintro q' q ⟨within, -, deeper⟩
  change maxDepth + 1 - q'.2 < maxDepth + 1 - q.2
  omega

/-- A declaration is found exactly if a chain of re-exports leads to one with the steps that are left,
and what is found is the export that declares the end of such a chain. Every search is answered by
searches one step deeper, and these end. -/
theorem origin?_finds_within_depth (table : ExportTable) (file name : String) (depth : Nat) :
    (∀ s d, table.origin? s.1 s.2 d =
      if maxDepth < d then none
      else if table.declares s then table.own? s.1 s.2
      else (table.hops s).findSome? fun u => table.origin? u.1 u.2 (d + 1)) ∧
    (WellFounded fun q' q => table.Needs q q') ∧
    ((table.origin? file name depth).isSome = true ↔ ∃ u w, IsWalk table.Hop (file, name) u w ∧
      w.length + depth ≤ maxDepth + 1 ∧ table.declares u = true) ∧
    ∀ e, table.origin? file name depth = some e → ∃ u w, IsWalk table.Hop (file, name) u w ∧
      w.length + depth ≤ maxDepth + 1 ∧ table.declares u = true ∧ table.own? u.1 u.2 = some e := by
  have sound (e : Export) (h : table.origin? file name depth = some e) :
      ∃ u w, IsWalk table.Hop (file, name) u w ∧ w.length + depth ≤ maxDepth + 1 ∧
        table.declares u = true ∧ table.own? u.1 u.2 = some e := by
    obtain ⟨u, w, walk, length, declared, hown⟩ := @exists_walk_of_originWithin table _ (file, name) e h
    have := List.length_pos_iff.2 walk.ne_nil
    exact ⟨u, w, walk, by omega, declared, hown⟩
  refine ⟨origin?_eq, wellFounded_needs table, ⟨fun h => ?_, ?_⟩, sound⟩
  · obtain ⟨e, he⟩ := Option.isSome_iff_exists.1 h
    obtain ⟨u, w, walk, length, declared, -⟩ := sound e he
    exact ⟨u, w, walk, length, declared⟩
  · rintro ⟨u, w, walk, length, declared⟩
    exact @isSome_originWithin_of_walk table _ (file, name) u w walk (by omega) declared

/-- A chain of stars through sixteen files, the last of which leads back to the first before it leads to
the declaration. All steps are needed. -/
theorem origin?_finds_at_last_step :
    let star (file source : Nat) : Export :=
      { name := starName, kind := .unknown, file := toString file, line := 1, isReExport := true
        origin := some (toString source) }
    let table : ExportTable := .ofList
      ((List.range 15).map (fun i => (toString i, [star i (i + 1)])) ++
        [("15", [star 15 0, star 15 16]), ("16", [{ name := "n", kind := .function, file := "16", line := 1 }])])
    table.origin? "0" "n" 1 = none ∧
      ∃ e, table.origin? "0" "n" 0 = some e ∧ ∃ u w, IsWalk table.Hop ("0", "n") u w ∧
        w.length ≤ maxDepth + 1 ∧ table.declares u = true ∧ table.own? u.1 u.2 = some e := by
  intro star table
  have evaluated : table.origin? "0" "n" 1 = none ∧ (table.origin? "0" "n" 0).isSome = true := by
    decide +kernel
  obtain ⟨e, he⟩ := Option.isSome_iff_exists.1 evaluated.2
  exact ⟨evaluated.1, e, he, (origin?_finds_within_depth table "0" "n" 0).2.2.2 e he⟩

end SymbolGraph.ExportTable
