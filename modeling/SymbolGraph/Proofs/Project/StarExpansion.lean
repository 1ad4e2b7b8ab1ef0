import Mathlib.Data.List.Nodup
import SymbolGraph.Proofs.Project.Build

/-!
# What star re-exports add to a file

A file takes each name that its star re-exports lead to once, unless it gives the name itself. The
files may re-export each other in circles, and a name may come on several ways.
-/
namespace SymbolGraph
open Relation

namespace ExportTable

variable {table : ExportTable}

/-- Star re-exports lead from `file` to `v`, at least one of them. A file expands its re-exports only;
from their origins on every star is followed. -/
def StarReaches (table : ExportTable) (file v : String) : Prop :=
  ∃ source ∈ expandedOrigins (table.exportsOf file), ReflTransGen table.StarEdge source v

theorem Proper.starReaches_iff (proper : table.Proper) {file v : String} :
    table.StarReaches file v ↔ TransGen table.StarEdge file v := by
  rw [StarReaches, ← proper.starOrigins_eq, TransGen.head'_iff]
  rfl

/-- The file has the name from star re-exports only. -/
structure TakesByStar (table : ExportTable) (file name : String) : Prop where
  ne_default : name ≠ defaultName
  not_own : ¬ table.HasOwn file name
  reached : ∃ v, table.StarReaches file v ∧ table.HasOwn v name

theorem starNames_nodup (table : ExportTable) (file : String) : (table.starNames file).Nodup :=
  (walkStars table (maxDepth + 1) file {}).names.ascending.imp fun h => ne_of_lt h

/-- No name is added twice: each star re-export adds what is not there before it. -/
theorem names_starExports_nodup (table : ExportTable) (file : String) (exports : List Export) :
    ((table.starExports file exports).map (·.2.name)).Nodup := by
  unfold starExports
  apply List.foldlRecOn (motive := fun found : List (String × Export) => (found.map (·.2.name)).Nodup)
  · exact List.nodup_nil
  · intro found nodup e _
    cases e.origin with
    | none => exact nodup
    | some source =>
      simp only [List.map_append, List.map_map, Function.comp_def, starExport_name, List.map_id']
      apply nodup.append ((table.starNames_nodup source).filter _)
      intro name old new
      have fresh := (List.mem_filter.1 new).2
      simp only [Bool.not_eq_true', List.contains_eq_mem, decide_eq_false_iff_not, List.mem_append,
        not_or] at fresh
      exact fresh.2 old

theorem mem_names_starExports (bounded : table.BoundedStars) {file name : String} :
    name ∈ (table.starExports file (table.exportsOf file)).map (·.2.name) ↔
      table.TakesByStar file name := by
  have added : name ∈ (table.starExports file (table.exportsOf file)).map (·.2.name) ↔
      ∃ source e, (source, e) ∈ table.starExports file (table.exportsOf file) ∧ e.name = name := by
    simp only [List.mem_map, Prod.exists]
  simp only [added, exists_mem_starExports bounded]
  constructor
  · rintro ⟨source, hown, first⟩
    obtain ⟨hname, v, hv, own⟩ := first.offers
    exact ⟨hname, hown, v, ⟨source, first.mem, hv⟩, own⟩
  · rintro ⟨hname, hown, v, ⟨source, mem, hv⟩, own⟩
    obtain ⟨first, hfirst⟩ := FirstOffer.exists mem ⟨hname, v, hv, own⟩
    exact ⟨first, hown, hfirst⟩

end ExportTable

namespace ProjectAnalysis

variable {c : Config} {paths : List String} {sources : List SourceFile}

/-- The exports of a file behind those that it gives itself. -/
def synthesized (c : Config) (paths : List String) (sources : List SourceFile) (file : String) :
    List Export :=
  ((ofFiles c paths sources).exportsOf file).drop ((exportTable c paths sources).exportsOf file).length

theorem synthesized_eq (file : String) : synthesized c paths sources file =
    ((exportTable c paths sources).starExports file
      ((exportTable c paths sources).exportsOf file)).map (·.2) := by
  rw [synthesized, exportsOf_ofFiles]
  exact List.drop_left' (List.length_map _)

theorem names_synthesized (file : String) : (synthesized c paths sources file).map (·.name) =
    ((exportTable c paths sources).starExports file
      ((exportTable c paths sources).exportsOf file)).map (·.2.name) := by
  rw [synthesized_eq, List.map_map]
  rfl

/-- The exports that a file gives itself stay where they are. -/
theorem map_take_exportsOf (file : String) :
    (((ofFiles c paths sources).exportsOf file).take
      ((exportTable c paths sources).exportsOf file).length).map (fun e => (e.name, e.line)) =
      ((exportTable c paths sources).exportsOf file).map fun e => (e.name, e.line) := by
  rw [exportsOf_ofFiles, List.take_left' (List.length_map _), List.map_map]
  simp [Function.comp_def]

theorem exists_trace_of_mem_synthesized (bounded : (exportTable c paths sources).BoundedStars)
    {file : String} {e : Export} (h : e ∈ synthesized c paths sources file) :
    e.key = symbolKey file e.name ∧ ∃ t, (ofFiles c paths sources).traces.get? e.key = some t := by
  rw [synthesized_eq] at h
  obtain ⟨⟨source, e'⟩, added, rfl⟩ := List.mem_map.1 h
  have first := ((ExportTable.exists_mem_starExports bounded).1 ⟨e', added, rfl⟩).2
  have hstar : e'.isStar = false := by simpa [Export.isStar] using first.offers.ne_starName
  refine ⟨by rw [Export.key, ExportTable.file_of_mem_starExports added], ?_⟩
  exact exists_get?_traces (exports_iff.2 ⟨hstar, file, Or.inr ⟨source, added⟩⟩)

/-- Star re-exports add a name to a file once if the file does not give it and a file that they lead to
does, and they add no other. The exports that the file gives stay in front. -/
theorem synthesized_exact (bounded : (exportTable c paths sources).BoundedStars) (file : String) :
    let table := exportTable c paths sources
    let p := ofFiles c paths sources
    let added := synthesized c paths sources file
    (∀ name, (table.TakesByStar file name → (added.map (·.name)).count name = 1) ∧
      (¬ table.TakesByStar file name → (added.map (·.name)).count name = 0)) ∧
    ((p.exportsOf file).take (table.exportsOf file).length).map (fun e => (e.name, e.line)) =
      (table.exportsOf file).map (fun e => (e.name, e.line)) ∧
    ∀ e ∈ added, e.key = symbolKey file e.name ∧ ∃ t, p.traces.get? e.key = some t := by
  intro table p added
  have nodup : (added.map (·.name)).Nodup := by
    rw [names_synthesized]
    exact table.names_starExports_nodup file _
  have mem (name : String) : name ∈ added.map (·.name) ↔ table.TakesByStar file name := by
    rw [names_synthesized]
    exact ExportTable.mem_names_starExports bounded
  refine ⟨fun name => ⟨fun takes => ?_, fun lacks => ?_⟩, map_take_exportsOf file,
    fun e he => exists_trace_of_mem_synthesized bounded he⟩
  · exact List.count_eq_one_of_mem nodup ((mem name).2 takes)
  · exact List.count_eq_zero.2 fun here => lacks ((mem name).1 here)

/-- Two files re-export each other, and both re-export a third one. -/
theorem synthesized_exact_circle :
    let c : Config := { rootDir := "/r" }
    let paths := ["a.ts", "b.ts", "d.ts"]
    let sources : List SourceFile := [.script "a.ts" "export * from './b';\nexport * from './d';\n",
      .script "b.ts" "export * from './a';\nexport * from './d';\n",
      .script "d.ts" "export const n = 1;\nexport default n;\n"]
    (exportTable c paths sources).BoundedStars ∧
      ((synthesized c paths sources "a.ts").map (·.name)).count "n" = 1 ∧
      ((synthesized c paths sources "a.ts").map (·.name)).count defaultName = 0 ∧
      ((synthesized c paths sources "d.ts").map (·.name)).count "n" = 0 := by
  intro c paths sources
  have table : exportTable c paths sources = .ofList
      [("a.ts", [⟨"*", .unknown, "a.ts", 1, false, true, some "b.ts", none, none⟩,
          ⟨"*", .unknown, "a.ts", 2, false, true, some "d.ts", none, none⟩]),
        ("b.ts", [⟨"*", .unknown, "b.ts", 1, false, true, some "a.ts", none, none⟩,
          ⟨"*", .unknown, "b.ts", 2, false, true, some "d.ts", none, none⟩]),
        ("d.ts", [⟨"n", .const, "d.ts", 1, false, false, none, none, none⟩,
          ⟨"default", .const, "d.ts", 2, true, false, none, some "n", none⟩])] := by
    decide +kernel
  have scripts : ∀ f ∈ sources, f.IsScript := by
    intro f hf
    simp only [sources, List.mem_cons, List.not_mem_nil, or_false] at hf
    rcases hf with rfl | rfl | rfl <;> exact SourceFile.isScript_script (by decide +kernel) _
  have proper : (exportTable c paths sources).Proper := proper_exportTable scripts
  have bounded : (exportTable c paths sources).BoundedStars :=
    proper.boundedStars (ExportTable.boundedChains_of_size (by rw [table]; decide +kernel))
  have around : (exportTable c paths sources).StarReaches "a.ts" "d.ts" := by
    rw [proper.starReaches_iff, table]
    exact .tail (b := "b.ts") (.single (by decide +kernel)) (by decide +kernel)
  have own : (exportTable c paths sources).HasOwn "d.ts" "n" := by
    rw [table]
    decide +kernel
  have takes : (exportTable c paths sources).TakesByStar "a.ts" "n" :=
    ⟨by decide, by rw [table]; decide +kernel, "d.ts", around, own⟩
  refine ⟨bounded, ((synthesized_exact bounded "a.ts").1 "n").1 takes,
    ((synthesized_exact bounded "a.ts").1 defaultName).2 fun h => h.ne_default rfl,
    ((synthesized_exact bounded "d.ts").1 "n").2 fun h => h.not_own own⟩

end ProjectAnalysis
end SymbolGraph
