import SymbolGraph.Proofs.CallGraph.Edges
import SymbolGraph.Proofs.CallGraph.Functions
import SymbolGraph.Proofs.CallGraph.Infection

/-!
# Purity and edges of a built graph agree

Impurity is inferred from the calls as they are found, and the graph keeps the calls between its own
functions. Both show the same: a function of the graph is impure exactly if the edges lead from it to
one that is impure by itself.
-/
namespace SymbolGraph
open Text Relation

/-- A function of a project is impure by itself if it was found with a reason, or if a pattern of its
language occurs in its own lines. -/
def ImpureByItself (sources : Sources) (id : String) : Prop :=
  ∃ f, (functionsOfSources sources).get? id = some f ∧
    (f.reasons ≠ [] ∨ ∃ content, sources.get? f.file = some content ∧
      ∃ e ∈ effectsOfFile f.file, e.pattern.occursIn (ownBody f (lines content)
        ((functionsOfSources sources).values.filter (·.file == f.file))) = true)

/-- The file of a function of the project is always there, so its reasons count. -/
theorem isDirectlyImpure_iff {sources : Sources} {id : String} :
    IsDirectlyImpure effectsOfFile sources (functionsOfSources sources) id ↔
      ImpureByItself sources id := by
  constructor
  · rintro ⟨f, content, hf, hc, hr | he⟩
    · exact ⟨f, hf, .inl hr⟩
    · exact ⟨f, hf, .inr ⟨content, hc, he⟩⟩
  · rintro ⟨f, hf, hr | ⟨content, hc, he⟩⟩
    · obtain ⟨_, path, content, hs, hfound⟩ := foundIn_functionsOfSources hf
      exact ⟨f, content, hf, by rw [hfound.file_eq]; exact hs, .inl hr⟩
    · exact ⟨f, content, hf, hc, .inr he⟩

theorem not_isImpure_functionsOfSources (sources : Sources) (id : String) :
    ¬ IsImpure (functionsOfSources sources) id := by
  rintro ⟨f, hf, hp⟩
  obtain ⟨_, path, _, _, hfound⟩ := foundIn_functionsOfSources hf
  rw [hfound.purity_eq] at hp
  cases hp

namespace CallGraph

/-- The calls of a project, as they are found. -/
def callsOfSources (c : Config) (sources : Sources) : List Call :=
  sources.toList.flatMap fun (path, content) =>
    callsOfFile (tableOfSources c (functionsOfSources sources) sources) path content

theorem nodes_ofSources (now : Timestamp) (c : Config) (sources : Sources) :
    (ofSources now c sources).nodes = inferPurity effectsOfFile sources (callsOfSources c sources)
      (functionsOfSources sources) := rfl

theorem bareNodes_ofSources (now : Timestamp) (c : Config) (sources : Sources) :
    bareNodes (ofSources now c sources).nodes = bareNodes (functionsOfSources sources) :=
  bareNodes_inferPurity ..

/-- The edges of the graph are the calls along which impurity is passed on. -/
theorem calls_ofSources_iff {now : Timestamp} {c : Config} {sources : Sources} {a b : String} :
    (ofSources now c sources).Calls a b ↔
      KnownCall (callsOfSources c sources) (functionsOfSources sources) a b := by
  have hknown := contains_congr_bare (bareNodes_ofSources now c sources)
  have he : (ofSources now c sources).Calls a b ↔ ⟨a, b⟩ ∈ callsOfSources c sources ∧ a ≠ b ∧
      (ofSources now c sources).nodes.contains a = true ∧
      (ofSources now c sources).nodes.contains b = true := mem_edges_assemble
  rw [he, hknown, hknown]
  rfl

/-- In the graph of a project the edges ascend strictly and join two different functions of the graph;
every function is pure or impure; it is impure exactly if the edges lead from it to a function that is
impure by itself; and the statistics count these functions and edges. -/
theorem ofSources_purity_agrees (now : Timestamp) (c : Config) (sources : Sources) :
    let g := ofSources now c sources
    let count (p : FunctionNode → Bool) : Nat := (g.nodes.values.filter p).length
    g.edges.Pairwise (fun a b => a.before b = true) ∧
    (∀ e ∈ g.edges, e.caller ≠ e.callee ∧ g.nodes.contains e.caller = true ∧
      g.nodes.contains e.callee = true) ∧
    (∀ id f, g.nodes.get? id = some f → f.purity ≠ .unknown ∧
      (f.purity = .impure ↔ ∃ d, ReflTransGen g.Calls id d ∧ ImpureByItself sources d) ∧
      (f.purity = .pure ↔ ¬ ∃ d, ReflTransGen g.Calls id d ∧ ImpureByItself sources d)) ∧
    (∀ d, ImpureByItself sources d → g.nodes.contains d = true) ∧
    g.stats = { functions := g.nodes.keys.length, pureFunctions := count (·.purity == .pure)
                impureFunctions := count (·.purity == .impure), unknownFunctions := 0
                exportedFunctions := count (·.isExported), edges := g.edges.length } := by
  intro g count
  have hcalls : g.Calls = KnownCall (callsOfSources c sources) (functionsOfSources sources) := by
    funext a b
    exact propext calls_ofSources_iff
  have hpurity : ∀ id f, g.nodes.get? id = some f → f.purity ≠ .unknown ∧
      (f.purity = .impure ↔ ∃ d, ReflTransGen g.Calls id d ∧ ImpureByItself sources d) := by
    intro id f hf
    rw [nodes_ofSources] at hf
    obtain ⟨hne, hiff⟩ := purity_inferPurity (fun id f h => (foundIn_functionsOfSources h).1)
      (not_isImpure_functionsOfSources sources) hf
    refine ⟨hne, hiff.trans ?_⟩
    simp only [hcalls, isDirectlyImpure_iff, and_comm]
  refine ⟨ascending_edges_assemble, fun e he => (mem_edges_assemble.mp he).2, ?_, ?_, ?_⟩
  · intro id f hf
    obtain ⟨hne, hiff⟩ := hpurity id f hf
    refine ⟨hne, hiff, ?_⟩
    rw [← hiff]
    cases hp : f.purity <;> simp [hp] at hne ⊢
  · rintro d ⟨f, hf, _⟩
    rw [contains_congr_bare (bareNodes_ofSources now c sources)]
    exact KeyMap.contains_iff.mpr ⟨f, hf⟩
  · have hnone : g.nodes.values.filter (·.purity == .unknown) = [] := by
      rw [List.filter_eq_nil_iff]
      intro f hf
      obtain ⟨id, hid⟩ := KeyMap.mem_values.mp hf
      simpa using (hpurity id f hid).1
    have hsize := KeyMap.size_eq_length_keys g.nodes
    simp only [show g.stats = Stats.compute g.nodes g.edges from rfl, Stats.compute, hnone, hsize,
      List.length_nil, count]

end CallGraph
end SymbolGraph
