import Mathlib.Data.List.Lex
import Mathlib.Data.List.Rotate
import Mathlib.Data.Set.Finite.Lemmas
import SymbolGraph.Proofs.Project.CycleSearch

/-!
# Which cycles are reported

Every reported list is a cycle, no two have the same members, and every strongly connected component with
a cycle has one that is reported. Of the cycles that overlap not all are found: a file is in a report
exactly if it stands on the first path to some file, at or behind a file of that path which the last one
imports.
-/
namespace SymbolGraph.FileGraph
open Relation

/-! ## Dictionary order -/

theorem atMost_iff_le {p q : List String} : atMost p q = true ↔ p ≤ q := by
  rw [le_iff_eq_or_lt]
  induction p generalizing q with
  | nil =>
    cases q with
    | nil => simp [atMost]
    | cons b q => simp [atMost]
  | cons a p ih =>
    cases q with
    | nil => simp [atMost]
    | cons b q =>
      simp only [atMost, Bool.or_eq_true, decide_eq_true_eq, Bool.and_eq_true, beq_iff_eq, ih,
        List.cons.injEq, List.cons_lt_cons_iff]
      tauto

/-- What stands between a list and one of its continuations continues it. -/
theorem prefix_of_le {p q r : List String} (hpq : p ≤ q) (hqr : q ≤ p ++ r) : p <+: q := by
  induction p generalizing q with
  | nil => exact List.nil_prefix
  | cons a p ih =>
    cases q with
    | nil => exact absurd hpq (by simp)
    | cons b q =>
      rw [← not_lt, List.cons_append, List.cons_lt_cons_iff, not_or, not_and] at hqr
      rw [← not_lt, List.cons_lt_cons_iff, not_or, not_and] at hpq
      have hab : a = b := le_antisymm (not_lt.1 hpq.1) (not_lt.1 hqr.1)
      subst hab
      exact List.cons_prefix_cons.2 ⟨rfl, ih (not_lt.1 (hpq.2 rfl)) (not_lt.1 (hqr.2 rfl))⟩

/-! ## Cycles and components -/

/-- Different files, each of which imports the next, and the last the first. -/
structure IsCycle (g : FileGraph) (c : List String) : Prop where
  nodup : c.Nodup
  closes : ∃ a b, IsWalk g.Edge a b c ∧ g.Edge b a

/-- Each of two files can be reached from the other. -/
def InSameComponent (g : FileGraph) (a b : String) : Prop :=
  ReflTransGen g.Edge a b ∧ ReflTransGen g.Edge b a

section
variable {g : FileGraph} {a b r v : String} {c t : List String}

theorem InSameComponent.trans (hab : g.InSameComponent a b) (hbr : g.InSameComponent b r) :
    g.InSameComponent a r :=
  ⟨hab.1.trans hbr.1, hbr.2.trans hab.2⟩

theorem isCycle_of_mem (h : c ∈ g.cycles) : g.IsCycle c := by
  obtain ⟨v, y, t, hfirst, hedge, hy, rfl⟩ := of_mem_cycles h
  obtain ⟨a, hwalk⟩ := hfirst.walk
  exact ⟨hfirst.nodup.sublist (List.dropWhile_sublist _), y, v, hwalk.dropWhile_ne hy, hedge⟩

theorem IsCycle.transGen (h : g.IsCycle c) : ∃ a, TransGen g.Edge a a := by
  obtain ⟨a, b, hwalk, hedge⟩ := h.closes
  exact ⟨a, .tail' hwalk.reaches hedge⟩

/-- On a walk that an edge closes, all files are in one component. -/
theorem inSameComponent_of_walk {w : List String} (hwalk : IsWalk g.Edge r v w) (hedge : g.Edge v r)
    {x : String} (hx : x ∈ w) : g.InSameComponent r x := by
  obtain ⟨hrx, hxv⟩ := hwalk.reaches_mem hx
  exact ⟨hrx, hxv.tail hedge⟩

theorem transGen_of_component (h : (∃ b, b ≠ a ∧ g.InSameComponent a b) ∨
    ∃ b, g.InSameComponent a b ∧ g.Edge b b) : TransGen g.Edge a a := by
  rcases h with ⟨b, hne, hab, hba⟩ | ⟨b, ⟨hab, hba⟩, hedge⟩
  · rcases reflTransGen_iff_eq_or_transGen.1 hab with heq | hab
    · exact absurd heq hne
    · exact hab.trans_left hba
  · exact (TransGen.tail' hab hedge).trans_left hba

/-! ## Every component with a cycle has one that is reported -/

theorem IsFirstPathTo.le (h : g.IsFirstPathTo v t) {q : List String} (hq : g.IsPathTo v q) : t ≤ q :=
  le_iff_eq_or_lt.2 ((h.least q hq).imp_left Eq.symm)

/-- A path by which a component is entered first. -/
structure IsEntry (g : FileGraph) (r : String) (t : List String) : Prop extends g.IsFirstPathTo r t where
  first : ∀ b t', g.InSameComponent r b → g.IsFirstPathTo b t' → t ≤ t'

theorem exists_isEntry (h : TransGen g.Edge a a) : ∃ r t, g.InSameComponent a r ∧ g.IsEntry r t := by
  have hnode : ∀ b, g.InSameComponent a b → b ∈ g.nodes := by
    intro b hb
    obtain ⟨c, -, hedge⟩ := TransGen.tail'_iff.1 ((h.trans_left hb.1).trans_right hb.2)
    exact (mem_nodes_of_edge hedge).2
  have hpath : ∀ b, ∃ t, g.InSameComponent a b → g.IsFirstPathTo b t := by
    intro b
    by_cases hb : g.InSameComponent a b
    · obtain ⟨t, ht⟩ := exists_isFirstPathTo (hnode b hb)
      exact ⟨t, fun _ => ht⟩
    · exact ⟨[], fun hb' => absurd hb' hb⟩
  choose path hpath using hpath
  -- the component is finite, so one of its files has the first of their paths
  have hfinite : {b | g.InSameComponent a b}.Finite := (List.finite_toSet g.nodes.toList).subset hnode
  obtain ⟨r, hr, hleast⟩ := Set.exists_min_image _ path hfinite ⟨a, .refl, .refl⟩
  refine ⟨r, path r, hr, hpath r hr, fun b t' hb ht' => ?_⟩
  rw [ht'.unique (hpath b (hr.trans hb))]
  exact hleast b (hr.trans hb)

/-- It has no other file of the component. -/
theorem IsEntry.eq_of_mem (h : g.IsEntry r t) {x : String} (hx : x ∈ t)
    (hcomponent : g.InSameComponent r x) : x = r := by
  obtain hxr | ⟨c, -, hedge⟩ := hcomponent.1.cases_tail
  · exact hxr
  obtain ⟨tx, htx⟩ := exists_isFirstPathTo (mem_nodes_of_edge hedge).2
  obtain ⟨a, hwalk⟩ := h.walk
  have hnodup := h.nodup
  obtain ⟨p, q, rfl⟩ := List.append_of_mem hx
  obtain ⟨hp, hq⟩ := IsWalk.append_cons_iff.1 hwalk
  have hsub : (p ++ [x]).Sublist (p ++ x :: q) := by simp
  have hpath : g.IsPathTo x (p ++ [x]) := ⟨⟨a, hp⟩, hnodup.sublist hsub⟩
  -- the path up to `x` would come before the whole path
  have hle : p ++ x :: q ≤ p ++ [x] := (h.first x tx hcomponent htx).trans (htx.le hpath)
  have hge : p ++ [x] ≤ p ++ x :: q := by
    rw [← not_lt, List.append_cons]
    exact List.le_append_left
  have hnil : q = [] := by simpa using le_antisymm hle hge
  subst hnil
  exact hq.eq_of_singleton.2.symm

/-- The first path to a file of the component that imports `r` leads through `r`. -/
theorem IsEntry.mem_firstPath (h : g.IsEntry r t) (hedge : g.Edge v r)
    (hreach : ReflTransGen g.Edge r v) {t' : List String} (ht' : g.IsFirstPathTo v t') : r ∈ t' := by
  obtain ⟨a, hwalk⟩ := h.walk
  obtain ⟨w, hw, hwnodup⟩ := exists_nodup_walk hreach
  obtain ⟨p, rfl⟩ := hwalk.exists_append
  obtain ⟨q, rfl⟩ := hw.exists_cons
  have hjoined : g.IsPathTo v (p ++ r :: q) := by
    refine ⟨⟨a, IsWalk.append_cons_iff.2 ⟨hwalk, hw⟩⟩, ?_⟩
    obtain ⟨hp, -, hpr⟩ := List.nodup_append.1 h.nodup
    refine List.nodup_append.2 ⟨hp, hwnodup, fun x hx y hy hxy => ?_⟩
    subst hxy
    have hcomponent := inSameComponent_of_walk hw hedge hy
    exact hpr x hx r (by simp) (h.eq_of_mem (List.mem_append_left _ hx) hcomponent)
  have hle := h.first v t' ⟨hreach, .single hedge⟩ ht'
  have hge : t' ≤ p ++ [r] ++ q := by
    simpa using ht'.le hjoined
  exact (prefix_of_le hle hge).subset (by simp)

theorem exists_cycle_within (h : TransGen g.Edge a a) :
    ∃ c ∈ g.cycles, ∀ x ∈ c, g.InSameComponent a x := by
  obtain ⟨r, t, har, hentry⟩ := exists_isEntry h
  obtain ⟨v, hreach, hedge⟩ := TransGen.tail'_iff.1 ((h.trans_left har.1).trans_right har.2)
  obtain ⟨t', ht'⟩ := exists_isFirstPathTo (mem_nodes_of_edge hedge).1
  have hr := hentry.mem_firstPath hedge hreach ht'
  obtain ⟨c, hc, hmem⟩ := exists_mem_cycles ht' hr hedge
  obtain ⟨b, hwalk⟩ := ht'.walk
  refine ⟨c, hc, fun x hx => har.trans ?_⟩
  exact inSameComponent_of_walk (hwalk.dropWhile_ne hr) hedge ((hmem x).1 hx)

/-! ## Reports -/

theorem cycles_sorted (g : FileGraph) : g.cycles.Pairwise (List.Lex (· < ·)) := by
  have htrans : ∀ c d e, atMost c d = true → atMost d e = true → atMost c e = true := by
    simp only [atMost_iff_le]
    exact fun _ _ _ => le_trans
  have htotal : ∀ c d, (atMost c d || atMost d c) = true := by
    simpa only [Bool.or_eq_true, atMost_iff_le] using le_total
  have hsorted : g.cycles.Pairwise fun c d => atMost c d = true := by
    rw [cycles_eq]
    exact List.pairwise_mergeSort htrans htotal _
  refine (hsorted.and g.distinct_cycles).imp fun {c d} h => ?_
  have hne : c ≠ d := by
    rintro rfl
    exact h.2 fun _ => Iff.rfl
  exact lt_of_le_of_ne (atMost_iff_le.1 h.1) hne

theorem cycles_eq_nil_iff : g.cycles = [] ↔ ∀ a, ¬ TransGen g.Edge a a := by
  constructor
  · intro hnil a h
    obtain ⟨c, hc, -⟩ := exists_cycle_within h
    rw [hnil] at hc
    cases hc
  · intro hacyclic
    rw [List.eq_nil_iff_forall_not_mem]
    intro c hc
    obtain ⟨a, ha⟩ := (isCycle_of_mem hc).transGen
    exact hacyclic a ha

/-- Where all cycles are rotations of one, exactly one of these is reported. -/
theorem cycles_eq_singleton (hc : g.IsCycle c) (hsole : ∀ d, g.IsCycle d → d.IsRotated c) :
    ∃ d, g.cycles = [d] ∧ d.IsRotated c := by
  have hmem : ∀ d ∈ g.cycles, ∀ x, x ∈ d ↔ x ∈ c :=
    fun d hd x => (hsole d (isCycle_of_mem hd)).mem_iff
  cases hcycles : g.cycles with
  | nil =>
    obtain ⟨a, ha⟩ := hc.transGen
    exact absurd ha (cycles_eq_nil_iff.1 hcycles a)
  | cons d rest =>
    have hd : d ∈ g.cycles := by simp [hcycles]
    have hdistinct := g.distinct_cycles
    rw [hcycles] at hdistinct
    refine ⟨d, ?_, hsole d (isCycle_of_mem hd)⟩
    cases rest with
    | nil => rfl
    | cons e rest =>
      have he : e ∈ g.cycles := by simp [hcycles]
      refine absurd (fun x => ?_) ((List.pairwise_cons.1 hdistinct).1 e (by simp))
      rw [hmem d hd, hmem e he]

end

/-- What is reported are cycles of different files, no two with the same members, in dictionary order.
Every strongly connected component with two files or with a file that imports itself contains one of
them. So nothing is reported exactly if there is no cycle, and a sole cycle is reported once. -/
theorem cycles_cover_components (g : FileGraph) :
    (∀ c ∈ g.cycles, c ≠ [] ∧ g.IsCycle c) ∧
    g.cycles.Pairwise (fun c d => ¬ ∀ x, x ∈ c ↔ x ∈ d) ∧
    g.cycles.Pairwise (List.Lex (· < ·)) ∧
    (∀ a, (∃ b, b ≠ a ∧ g.InSameComponent a b) ∨ (∃ b, g.InSameComponent a b ∧ g.Edge b b) →
      ∃ c ∈ g.cycles, ∀ x ∈ c, g.InSameComponent a x) ∧
    (g.cycles = [] ↔ ∀ a, ¬ TransGen g.Edge a a) ∧
    ∀ c, g.IsCycle c → (∀ d, g.IsCycle d → d.IsRotated c) → ∃ d, g.cycles = [d] ∧ d.IsRotated c := by
  refine ⟨fun c hc => ⟨?_, isCycle_of_mem hc⟩, g.distinct_cycles, g.cycles_sorted,
    fun a h => exists_cycle_within (transGen_of_component h), cycles_eq_nil_iff,
    fun c hc hsole => cycles_eq_singleton hc hsole⟩
  obtain ⟨_, _, hwalk, _⟩ := (isCycle_of_mem hc).closes
  exact hwalk.ne_nil

/-- A file is in a reported cycle exactly if it stands on the first path to some file `v`, at or behind a
file of the path that `v` imports. -/
theorem reported_iff_on_first_path (g : FileGraph) (x : String) :
    (∃ c ∈ g.cycles, x ∈ c) ↔
      ∃ v y t, g.IsFirstPathTo v t ∧ g.Edge v y ∧ y ∈ t ∧ x ∈ t.dropWhile (· ≠ y) := by
  constructor
  · rintro ⟨c, hc, hx⟩
    obtain ⟨v, y, t, hfirst, hedge, hy, rfl⟩ := of_mem_cycles hc
    exact ⟨v, y, t, hfirst, hedge, hy, hx⟩
  · rintro ⟨v, y, t, hfirst, hedge, hy, hx⟩
    obtain ⟨c, hc, hmem⟩ := exists_mem_cycles hfirst hy hedge
    exact ⟨c, hc, (hmem x).2 hx⟩

/-- Two cycles that share all files but one. -/
def overlappingCycles : FileGraph :=
  .ofList [("a.ts", .ofList ["b.ts"]), ("b.ts", .ofList ["c.ts", "d.ts"]), ("c.ts", .ofList ["a.ts"]),
    ("d.ts", .ofList ["c.ts"])]

/-- The search comes to `d.ts` when it is done with `c.ts`, the only file that `d.ts` imports. -/
theorem unreported_file_of_cycle :
    overlappingCycles.IsCycle ["a.ts", "b.ts", "d.ts", "c.ts"] ∧
      ¬ ∃ c ∈ overlappingCycles.cycles, "d.ts" ∈ c := by
  refine ⟨⟨by decide, "a.ts", "c.ts", ?_, by decide +kernel⟩, ?_⟩
  · exact .cons (by decide +kernel) (.cons (by decide +kernel) (.cons (by decide +kernel) (.single _)))
  · have hsearch : ∀ c ∈ overlappingCycles.search.cycles, "d.ts" ∉ c := by
      decide +kernel
    rintro ⟨c, hc, hmem⟩
    exact hsearch c (mem_cycles.1 hc) hmem

end SymbolGraph.FileGraph
