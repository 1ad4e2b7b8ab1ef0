import SymbolGraph.Proofs.Project.Build
import SymbolGraph.Proofs.Project.ImportGraph
import SymbolGraph.Proofs.Walks

/-!
# Dependents along imports

The search for dependents does not pass through the file whose dependents it looks for. From the importers
of that file nothing is lost by this: what comes to the file comes there for the first time from one of
them. From the importers of a single symbol it does lose files, where the file of the symbol itself depends
on one of the importers.
-/
namespace SymbolGraph
open Relation

namespace FileGraph

variable {g reverse : FileGraph} {file f : String}

theorem dependents_sorted (reverse : FileGraph) (start : List String) (file : String) :
    (reverse.dependents start file).Pairwise (· < ·) :=
  KeySet.ascending _

/-- Against the direction of the imports, the search follows the walks that keep away from the file. -/
theorem mem_dependents_iff_walk (mirrored : ∀ a b, g.Edge a b ↔ reverse.Edge b a) (start : List String)
    (file : String) :
    f ∈ reverse.dependents start file ↔ ∃ a ∈ start, ∃ w, IsWalk g.Edge f a w ∧ file ∉ w := by
  have back (a : String) : ReflTransGen (fun u v => g.Edge u v ∧ u ≠ file) f a ↔
      ReflTransGen (fun u v => reverse.Edge u v ∧ v ≠ file) a f := by
    rw [← reflTransGen_swap]
    simp only [mirrored]
  simp only [mem_dependents, exists_walk_avoiding_iff, back]
  constructor
  · rintro ⟨a, ha, hne, reaches⟩
    exact ⟨a, ha, reaches, hne⟩
  · rintro ⟨a, ha, reaches, hne⟩
    exact ⟨a, ha, hne, reaches⟩

/-- What a change of a file can affect are the files that import it, directly or through others. -/
theorem mem_impact_iff (mirrored : ∀ a b, g.Edge a b ↔ reverse.Edge b a) :
    f ∈ reverse.impact file ↔ f ≠ file ∧ TransGen g.Edge f file := by
  have importers {a : String} : a ∈ reverse.importersOf file ↔ g.Edge a file := by
    rw [mem_importersOf, mirrored]
  rw [impact, mem_dependents_iff_walk mirrored]
  constructor
  · rintro ⟨a, ha, w, walk, away⟩
    refine ⟨fun here => away (here ▸ walk.start_mem), ?_⟩
    exact TransGen.tail' walk.reaches (importers.1 ha)
  · rintro ⟨hne, leads⟩
    obtain ⟨a, w, walk, away, last⟩ := exists_walk_to_arrival leads hne
    exact ⟨a, importers.2 last, w, walk, away⟩

/-- All that reaches a start does so without the file, or it comes to the file, which then reaches a start
itself. -/
theorem reaches_start_iff (mirrored : ∀ a b, g.Edge a b ↔ reverse.Edge b a) (start : List String)
    (file : String) :
    (f ≠ file ∧ ∃ a ∈ start, ReflTransGen g.Edge f a) ↔
      f ∈ reverse.dependents start file ∨
        f ∈ reverse.impact file ∧ ∃ a ∈ start, ReflTransGen g.Edge file a := by
  rw [mem_dependents_iff_walk mirrored, mem_impact_iff mirrored]
  constructor
  · rintro ⟨hne, a, ha, reaches⟩
    obtain ⟨w, walk, -⟩ := exists_nodup_walk reaches
    by_cases passes : file ∈ w
    · obtain ⟨before, behind⟩ := walk.reaches_mem passes
      have leads : TransGen g.Edge f file :=
        (reflTransGen_iff_eq_or_transGen.1 before).resolve_left (Ne.symm hne)
      exact .inr ⟨⟨hne, leads⟩, a, ha, behind⟩
    · exact .inl ⟨a, ha, w, walk, passes⟩
  · rintro (⟨a, ha, w, walk, away⟩ | ⟨⟨hne, leads⟩, a, ha, reaches⟩)
    · exact ⟨fun here => away (here ▸ walk.start_mem), a, ha, walk.reaches⟩
    · exact ⟨hne, a, ha, leads.to_reflTransGen.trans reaches⟩

end FileGraph

namespace ProjectAnalysis

/-- Where the two graphs mirror each other, the impact of a file are all other files from which imports lead
to it, also if the file imports itself through others. -/
theorem impact_eq_transitive_importers {p : ProjectAnalysis}
    (mirrored : ∀ f g, p.importGraph.Edge f g ↔ p.reverseGraph.Edge g f) (file : String) :
    (p.impact file).Pairwise (· < ·) ∧
      ∀ f, f ∈ p.impact file ↔ f ≠ file ∧ TransGen p.importGraph.Edge f file :=
  ⟨FileGraph.dependents_sorted _ _ _, fun _ => FileGraph.mem_impact_iff mirrored⟩

/-- `a.ts`, `c.ts` and `b.ts` import each other in a circle, and `d.ts` imports `b.ts`. -/
theorem impact_eq_transitive_importers_circle :
    let g : FileGraph := .ofList [("a.ts", .ofList ["c.ts"]), ("b.ts", .ofList ["a.ts"]),
      ("c.ts", .ofList ["b.ts"]), ("d.ts", .ofList ["b.ts"])]
    let p : ProjectAnalysis := { rootDir := "/r", importGraph := g, reverseGraph := reverseOf g }
    (∀ a b, p.importGraph.Edge a b ↔ p.reverseGraph.Edge b a) ∧
      p.impact "a.ts" = ["b.ts", "c.ts", "d.ts"] ∧ TransGen p.importGraph.Edge "a.ts" "a.ts" ∧
      (p.impact "a.ts").Pairwise (· < ·) ∧
      ∀ f, f ∈ p.impact "a.ts" ↔ f ≠ "a.ts" ∧ TransGen p.importGraph.Edge f "a.ts" := by
  intro g p
  have mirrored : ∀ a b, p.importGraph.Edge a b ↔ p.reverseGraph.Edge b a := fun _ _ => edge_reverseOf.symm
  have edges : p.importGraph.Edge "a.ts" "c.ts" ∧ p.importGraph.Edge "c.ts" "b.ts" ∧
      p.importGraph.Edge "b.ts" "a.ts" := by decide +kernel
  have circle : TransGen p.importGraph.Edge "a.ts" "a.ts" :=
    .head edges.1 (.head edges.2.1 (.single edges.2.2))
  exact ⟨mirrored, by decide +kernel, circle, impact_eq_transitive_importers mirrored "a.ts"⟩

variable {c : Config} {paths : List String} {sources : List SourceFile}

theorem dependents_of_get?_traces {key : String} {t : Trace}
    (h : (ofFiles c paths sources).traces.get? key = some t) :
    t.dependents = (ofFiles c paths sources).reverseGraph.dependents (t.importers.map (·.file)) t.file := by
  obtain ⟨t₀, usages, -, rfl⟩ := of_get?_traces h
  rfl

/-- The dependents of a symbol are the files that lead to an importer of it along imports which do not pass
through the file of the symbol. Other files lead to an importer too exactly where that file does so itself,
and then they are those in its impact. -/
theorem dependents_avoid_own_file {key : String} {t : Trace}
    (h : (ofFiles c paths sources).traces.get? key = some t) :
    let p := ofFiles c paths sources
    t.dependents.Pairwise (· < ·) ∧
    (∀ f, f ∈ t.dependents ↔
      ∃ i ∈ t.importers, ∃ w, IsWalk p.importGraph.Edge f i.file w ∧ t.file ∉ w) ∧
    ∀ f, (f ≠ t.file ∧ ∃ i ∈ t.importers, ReflTransGen p.importGraph.Edge f i.file) ↔
      f ∈ t.dependents ∨
        f ∈ p.impact t.file ∧ ∃ i ∈ t.importers, ReflTransGen p.importGraph.Edge t.file i.file := by
  intro p
  have mirrored : ∀ a b, p.importGraph.Edge a b ↔ p.reverseGraph.Edge b a := fun _ _ => edge_reverseGraph.symm
  have found (f : String) := FileGraph.mem_dependents_iff_walk mirrored
    (f := f) (t.importers.map (·.file)) t.file
  have reaching (f : String) := FileGraph.reaches_start_iff mirrored
    (f := f) (t.importers.map (·.file)) t.file
  simp only [List.mem_map, exists_exists_and_eq_and] at found reaching
  rw [dependents_of_get?_traces h]
  exact ⟨FileGraph.dependents_sorted _ _ _, found, reaching⟩

/-- `a.ts` imports `s` from `d.ts`, which imports `a.ts` in turn; `g.ts` imports only `u` from `d.ts`. -/
def circleAnalysis : ProjectAnalysis :=
  ofFiles { rootDir := "/r" } ["a.ts", "d.ts", "g.ts"]
    [.script "a.ts" "import \x7b s \x7d from './d';\nexport const t = s;\n",
      .script "d.ts" "import \x7b t \x7d from './a';\nexport const s = 1;\nexport const u = 2;\n",
      .script "g.ts" "import \x7b u \x7d from './d';\nu;\n"]

theorem importGraph_circleAnalysis : circleAnalysis.importGraph =
    .ofList [("a.ts", .ofList ["d.ts"]), ("d.ts", .ofList ["a.ts"]), ("g.ts", .ofList ["d.ts"])] := by
  decide +kernel

theorem reverseGraph_circleAnalysis :
    circleAnalysis.reverseGraph = reverseOf circleAnalysis.importGraph :=
  reverseGraph_ofFiles

theorem exists_trace_circleAnalysis : ∃ t, circleAnalysis.traces.get? "d.ts:s" = some t ∧
    t.file = "d.ts" ∧ t.importers = [⟨"a.ts", none, 1⟩] ∧ t.dependents = ["a.ts"] := by
  have evaluated : (circleAnalysis.traces.get? "d.ts:s").any
      (fun t => t.file == "d.ts" && t.importers == [⟨"a.ts", none, 1⟩]) = true := by
    decide +kernel
  simp only [Option.any_eq_true, Bool.and_eq_true, beq_iff_eq] at evaluated
  obtain ⟨t, ht, hfile, himporters⟩ := evaluated
  refine ⟨t, ht, hfile, himporters, ?_⟩
  have dependents : t.dependents =
      circleAnalysis.reverseGraph.dependents (t.importers.map (·.file)) t.file :=
    dependents_of_get?_traces ht
  rw [dependents, hfile, himporters, reverseGraph_circleAnalysis, importGraph_circleAnalysis]
  decide +kernel

theorem dependents_avoid_own_file_circle :
    ∃ t, circleAnalysis.traces.get? "d.ts:s" = some t ∧ t.dependents = ["a.ts"] ∧
      ∀ f, (f ≠ "d.ts" ∧ ReflTransGen circleAnalysis.importGraph.Edge f "a.ts") ↔
        f = "a.ts" ∨ f = "g.ts" := by
  obtain ⟨t, ht, hfile, himporters, hdependents⟩ := exists_trace_circleAnalysis
  have impact : circleAnalysis.impact "d.ts" = ["a.ts", "g.ts"] := by
    rw [impact, reverseGraph_circleAnalysis, importGraph_circleAnalysis]
    decide +kernel
  have back : circleAnalysis.importGraph.Edge "d.ts" "a.ts" := by
    rw [importGraph_circleAnalysis]
    decide +kernel
  refine ⟨t, ht, hdependents, fun f => ?_⟩
  have reaching : (f ≠ t.file ∧ ∃ i ∈ t.importers, ReflTransGen circleAnalysis.importGraph.Edge f i.file) ↔
      f ∈ t.dependents ∨ f ∈ circleAnalysis.impact t.file ∧
        ∃ i ∈ t.importers, ReflTransGen circleAnalysis.importGraph.Edge t.file i.file :=
    (dependents_avoid_own_file ht).2.2 f
  rw [hfile, himporters, hdependents, impact] at reaching
  simpa [ReflTransGen.single back] using reaching

/-- `g.ts` imports `d.ts`, and this `a.ts`, an importer of `s`. It is not among the dependents of `s`. -/
theorem dependent_behind_own_file : ∃ t, circleAnalysis.traces.get? "d.ts:s" = some t ∧
    "g.ts" ≠ t.file ∧ (∃ i ∈ t.importers, ReflTransGen circleAnalysis.importGraph.Edge "g.ts" i.file) ∧
    "g.ts" ∉ t.dependents := by
  obtain ⟨t, ht, hfile, himporters, hdependents⟩ := exists_trace_circleAnalysis
  have edges : circleAnalysis.importGraph.Edge "g.ts" "d.ts" ∧
      circleAnalysis.importGraph.Edge "d.ts" "a.ts" := by
    rw [importGraph_circleAnalysis]
    decide +kernel
  have leads : ReflTransGen circleAnalysis.importGraph.Edge "g.ts" "a.ts" :=
    .head edges.1 (.single edges.2)
  exact ⟨t, ht, by simp [hfile], by simpa [himporters] using leads, by simp [hdependents]⟩

end ProjectAnalysis
end SymbolGraph
