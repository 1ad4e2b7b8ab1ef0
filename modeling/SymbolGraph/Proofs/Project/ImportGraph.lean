import SymbolGraph.Proofs.Project.Passes
import SymbolGraph.Proofs.Traversal

/-!
# Import graphs

An edge of the import graph is an import that leads to another file, and the reverse graph has the same
edges turned around. The dependents of a file are found along reverse edges that do not come back to it.
-/
namespace SymbolGraph
open Relation

def FileGraph.Edge (g : FileGraph) (a b : String) : Prop := b ∈ (g.get? a).getD .empty

instance (g : FileGraph) (a b : String) : Decidable (g.Edge a b) :=
  inferInstanceAs (Decidable (b ∈ (g.get? a).getD .empty))

theorem FileAnalysis.mem_outgoing {f : FileAnalysis} {target : String} {i : Import} :
    (target, i) ∈ f.outgoing ↔ i ∈ f.imports ∧ i.target = some target ∧ target ≠ f.path := by
  simp only [outgoing, List.mem_filterMap]
  constructor
  · rintro ⟨i', hi, h⟩
    obtain ⟨target', htarget, h⟩ := Option.bind_eq_some_iff.1 h
    split_ifs at h with here
    obtain ⟨rfl, rfl⟩ := Prod.mk.inj (Option.some_inj.1 h)
    exact ⟨hi, htarget, by simpa using here⟩
  · rintro ⟨hi, htarget, other⟩
    refine ⟨i, hi, ?_⟩
    simp [htarget, other]

theorem FileAnalysis.mem_importedSymbols {f : FileAnalysis} {key : String} {importer : Importer} :
    (key, importer) ∈ f.importedSymbols ↔ ∃ i ∈ f.imports, ∃ target, i.target = some target ∧
      target ≠ f.path ∧ i.targetsSymbol = true ∧ i.isReExport = false ∧ symbolKey target i.name = key ∧
      { file := f.path, boundAs := i.boundAs, line := i.line } = importer := by
  simp only [importedSymbols, List.mem_map, List.mem_filter, Prod.exists, mem_outgoing, Prod.mk.injEq,
    Bool.and_eq_true, Bool.not_eq_true']
  constructor
  · rintro ⟨target, i, ⟨⟨hi, htarget, other⟩, symbol, reExport⟩, hkey, himporter⟩
    exact ⟨i, hi, target, htarget, other, symbol, reExport, hkey, himporter⟩
  · rintro ⟨i, hi, target, htarget, other, symbol, reExport, hkey, himporter⟩
    exact ⟨target, i, ⟨⟨hi, htarget, other⟩, symbol, reExport⟩, hkey, himporter⟩

namespace ProjectAnalysis

theorem edge_importGraphOf {files : KeyMap FileAnalysis} {a b : String} :
    (importGraphOf files).Edge a b ↔
      ∃ f, files.get? a = some f ∧ ∃ i ∈ f.imports, i.target = some b ∧ b ≠ f.path := by
  unfold FileGraph.Edge importGraphOf
  rw [KeyMap.get?_map]
  cases files.get? a with
  | none => simp
  | some f => simp [KeySet.mem_ofList, FileAnalysis.mem_outgoing]

theorem edge_reverseOf {g : FileGraph} {a b : String} : (reverseOf g).Edge a b ↔ g.Edge b a := by
  have collected := KeySet.mem_getD_foldl_upsert (fun e : String × String => e.1) (fun e => e.2)
    (g.toList.flatMap fun p => p.2.toList.map fun target => (target, p.1)) .empty a b
  rw [FileGraph.Edge, reverseOf_eq, collected]
  simp only [KeyMap.get?_empty, Option.getD_none, KeySet.not_mem_empty, false_or, List.mem_flatMap,
    List.mem_map, KeyMap.mem_toList, FileGraph.Edge]
  constructor
  · rintro ⟨_, ⟨⟨file, targets⟩, hfile, target, htarget, rfl⟩, rfl, rfl⟩
    rw [hfile]
    exact htarget
  · intro h
    cases hb : g.get? b with
    | none =>
      rw [hb] at h
      cases h
    | some targets =>
      rw [hb] at h
      exact ⟨(a, b), ⟨(b, targets), hb, a, h, rfl⟩, rfl, rfl⟩

/-- The two graphs of an analysis mirror each other. -/
theorem edge_reverseGraph {c : Config} {paths : List String} {sources : List SourceFile} {a b : String} :
    (ofFiles c paths sources).reverseGraph.Edge a b ↔ (ofFiles c paths sources).importGraph.Edge b a := by
  rw [reverseGraph_ofFiles, edge_reverseOf]

end ProjectAnalysis

namespace FileGraph

theorem mem_importersOf {reverse : FileGraph} {a b : String} :
    b ∈ reverse.importersOf a ↔ reverse.Edge a b := by
  unfold importersOf Edge
  cases reverse.get? a with
  | none => simp
  | some s => simp [KeySet.mem_toList]

theorem edge_digraph (g : FileGraph) : g.digraph.Edge = g.Edge := by
  funext a b
  unfold Digraph.Edge Digraph.next digraph Edge
  rw [KeyMap.get?_map]
  cases g.get? a with
  | none => simp
  | some s => simp [KeySet.mem_toList]

theorem edge_restrict_digraph {g : FileGraph} {keep : String → Bool} {a b : String} :
    (g.digraph.restrict keep).Edge a b ↔ g.Edge a b ∧ keep b = true := by
  rw [← edge_digraph, Digraph.Edge, Digraph.Edge, Digraph.next_restrict, List.mem_filter]

theorem mem_dependents {reverse : FileGraph} {start : List String} {file x : String} :
    x ∈ reverse.dependents start file ↔
      ∃ a ∈ start, a ≠ file ∧ ReflTransGen (fun a b => reverse.Edge a b ∧ b ≠ file) a x := by
  have steps : (reverse.digraph.restrict (· != file)).Edge = fun a b => reverse.Edge a b ∧ b ≠ file := by
    funext a b
    simp [edge_restrict_digraph]
  unfold dependents
  simp only [KeySet.mem_toList, KeySet.mem_ofList, Digraph.mem_breadthFirst, List.mem_filter,
    bne_iff_ne, Digraph.Reaches, steps, and_assoc]

/-- What imports a file, or a file in its impact, is in its impact. -/
theorem mem_impact_of_edge {reverse : FileGraph} {file a b : String} (h : reverse.Edge a b)
    (hb : b ≠ file) (ha : a = file ∨ a ∈ reverse.impact file) : b ∈ reverse.impact file := by
  rcases ha with rfl | ha
  · exact mem_dependents.2 ⟨b, mem_importersOf.2 h, hb, .refl⟩
  · obtain ⟨c, hc, hne, path⟩ := mem_dependents.1 ha
    exact mem_dependents.2 ⟨c, hc, hne, path.tail ⟨h, hb⟩⟩

end FileGraph
end SymbolGraph
