import SymbolGraph.Proofs.Project.Build
import SymbolGraph.Proofs.Project.Cache
import SymbolGraph.Proofs.Project.ImportGraph
import SymbolGraph.Proofs.Resolver

/-!
# Finished analyses

The parts of an analysis fit together: the two graphs mirror each other, the traces are those of the
exported symbols, a trace has exactly the importers of its symbol, and the exports by name are the
exports of the files. Specifiers only ever lead to files of the project.
-/
namespace SymbolGraph

/-! ## Facts of Rust files -/

namespace Crate

theorem areOf_addUse {site : UseSite} {facts : Facts} (h : facts.AreOf site.file) (modules : List String)
    (name : String) (given : Option String) :
    (addUse site modules name given facts).AreOf site.file := by
  unfold addUse
  dsimp only
  split
  · exact h
  · -- the bindings play no part
    have bound (bindings : Bindings) : Facts.AreOf { facts with bindings } site.file := h
    refine Facts.AreOf.addImport ?_ _
    split_ifs
    · exact h
    · exact (bound _).addExport ⟨rfl, fun _ _ => rfl⟩
    · exact bound _

theorem areOf_addGlob {site : UseSite} {facts : Facts} (h : facts.AreOf site.file)
    (modules : List String) : (addGlob site modules facts).AreOf site.file := by
  unfold addGlob
  dsimp only
  refine Facts.AreOf.addImport ?_ _
  split_ifs
  · exact h.addExport ⟨rfl, fun _ _ => rfl⟩
  · exact h

mutual

theorem areOf_addUseTree (site : UseSite) (modules : List String) (t : Node) {facts : Facts}
    (h : facts.AreOf site.file) : (addUseTree site modules t facts).AreOf site.file := by
  match t with
  | .node kind role text span children =>
    unfold addUseTree
    dsimp only
    split
    · exact areOf_addUseTrees site _ children h
    · exact areOf_addUse h _ _ _
    · exact areOf_addUse h _ _ _
    · exact areOf_addUseTrees site _ children h
    · exact areOf_addGlob h _
    · exact h

theorem areOf_addUseTrees (site : UseSite) (modules : List String) (ts : List Node) {facts : Facts}
    (h : facts.AreOf site.file) : (addUseTrees site modules ts facts).AreOf site.file := by
  match ts with
  | [] => exact h
  | t :: rest =>
    unfold addUseTrees
    exact areOf_addUseTrees site modules rest (areOf_addUseTree site modules t h)

end

theorem areOf_addImports {facts : Facts} {file : String} (h : facts.AreOf file) (item : Node) :
    (addImports file facts item).AreOf file := by
  unfold addImports
  split
  · dsimp only
    split
    · exact areOf_addUseTree ⟨file, _, _⟩ [] _ h
    · exact h
  · split
    · exact h.addImport _
    · exact h
  · exact h

/-- The exports of a Rust file carry its path. -/
theorem areOf_facts (p : Parsed) (file : String) : (p.facts file).AreOf file := by
  have empty : Facts.AreOf {} file := fun e he => by cases he
  refine (empty.foldl p.root.children fun _ h item _ => areOf_addImports h item).foldl_addExport ?_
  intro e he
  obtain ⟨item, -, he⟩ := List.mem_filterMap.1 he
  obtain ⟨kind, -, he⟩ := Option.bind_eq_some_iff.1 he
  obtain ⟨name, -, he⟩ := Option.bind_eq_some_iff.1 he
  split_ifs at he
  · cases he
  · obtain rfl := Option.some_inj.1 he
    exact ⟨rfl, fun _ h => by cases h⟩

end Crate

theorem Language.areOf_factsOf {path content : String} {facts : Facts}
    (h : factsOf all path content = .ok facts) : facts.AreOf path := by
  unfold factsOf at h
  split at h
  · rename_i l _
    cases l with
    | script =>
      obtain rfl := Except.ok.inj h
      exact Script.areOf_factsOf _ _
    | crate =>
      unfold Language.facts at h
      cases hparse : parseCrate path content with
      | error e =>
        simp only [hparse] at h
        cases h
      | ok parsed =>
        simp only [hparse] at h
        obtain rfl := Except.ok.inj h
        exact Crate.areOf_facts parsed path
  · obtain rfl := Except.ok.inj h
    exact fun e he => by cases he

/-! ## Specifiers lead to project files -/

namespace Crate.ModuleIndex

theorem mem_of_mem_ofFiles {files : List String} {p : ModulePath × String}
    (h : p ∈ (ofFiles files).modules) : p.2 ∈ files := by
  have all : ∀ q ∈ (ofFiles files).modules, q.2 ∈ files := by
    refine List.foldlRecOn (motive := fun index : ModuleIndex => ∀ q ∈ index.modules, q.2 ∈ files)
      (files.filter (Text.endsWith ".rs")) add (fun q hq => by cases hq) ?_
    intro index hindex file hfile q hq
    unfold add at hq
    dsimp only at hq
    split_ifs at hq
    · exact hindex q hq
    · rcases List.mem_append.1 hq with hq | hq
      · exact hindex q hq
      · rw [List.mem_singleton.1 hq]
        exact (List.mem_filter.1 hfile).1
  exact all p h

theorem mem_of_resolve? {files segments : List String} {source : String} {p : String × List String}
    (h : (ofFiles files).resolve? source segments = some p) : p.1 ∈ files := by
  obtain ⟨segments, -, h⟩ := Option.bind_eq_some_iff.1 h
  obtain ⟨⟨file, n⟩, hfile, h⟩ := Option.bind_eq_some_iff.1 h
  obtain rfl := Option.some_inj.1 h
  obtain ⟨k, -, hlongest⟩ := List.exists_of_findSome?_eq_some hfile
  obtain ⟨file', known, heq⟩ := Option.map_eq_some_iff.1 hlongest
  obtain ⟨rfl, -⟩ := Prod.mk.inj heq
  obtain ⟨q, hq, rfl⟩ := Option.map_eq_some_iff.1 known
  exact mem_of_mem_ofFiles (List.mem_of_find?_eq_some hq)

end Crate.ModuleIndex

namespace Language

theorem mem_of_resolve? {l : Language} {r : Resolver} {specifier source file : String}
    (h : l.resolve? r specifier source = some file) : file ∈ r.files := by
  cases l with
  | script => exact Resolver.mem_of_script? h
  | crate =>
    obtain ⟨p, hp, rfl⟩ := Option.map_eq_some_iff.1 h
    exact Crate.ModuleIndex.mem_of_resolve? hp

theorem mem_of_usedModule? {r : Resolver} {i : Import} {path file : String}
    (h : usedModule? r i = some (path, file)) : file ∈ r.files := by
  unfold usedModule? at h
  by_cases other : (!i.targetsSymbol || i.isReExport) = true
  · rw [if_pos other] at h
    cases h
  · rw [if_neg other] at h
    obtain ⟨⟨file', rest⟩, hp, h⟩ := Option.bind_eq_some_iff.1 h
    dsimp only at h
    by_cases whole : rest.isEmpty = true
    · rw [if_pos whole] at h
      obtain ⟨-, rfl⟩ := Prod.mk.inj (Option.some_inj.1 h)
      exact Crate.ModuleIndex.mem_of_resolve? hp
    · rw [if_neg whole] at h
      cases h

theorem mem_of_target_resolveImport {l : Language} {r : Resolver} {i : Import} {file : String}
    (h : (l.resolveImport r i).target = some file) : file ∈ r.files := by
  cases l with
  | script => exact mem_of_resolve? (l := .script) h
  | crate =>
    unfold resolveImport at h
    dsimp only at h
    split at h
    · rename_i path file' used
      obtain rfl := Option.some_inj.1 h
      exact mem_of_usedModule? used
    · exact mem_of_resolve? (l := .crate) h

end Language

/-! ## Files with facts of their own -/

/-- The facts are those of some text under the path of the file, or there are none. -/
def SourceFile.OwnFacts (s : SourceFile) : Prop :=
  s.facts = {} ∨ ∃ content, Language.factsOf Language.all s.path content = .ok s.facts

theorem SourceFile.OwnFacts.areOf {s : SourceFile} (h : s.OwnFacts) : s.facts.AreOf s.path := by
  rcases h with none | ⟨content, facts⟩
  · rw [none]
    exact fun e he => by cases he
  · exact Language.areOf_factsOf facts

theorem SourceFile.OwnFacts.mem_files {s : SourceFile} (h : s.OwnFacts) {r : Resolver} {i : Import}
    (hi : i ∈ (FileAnalysis.ofSource r s).imports) {file : String} (target : i.target = some file) :
    file ∈ r.files := by
  unfold FileAnalysis.ofSource resolvedFacts at hi
  cases hlanguage : Language.ofPath? Language.all s.path with
  | some l =>
    simp only [hlanguage] at hi
    obtain ⟨i, -, rfl⟩ := List.mem_map.1 hi
    exact Language.mem_of_target_resolveImport target
  | none =>
    -- a file of no language says nothing
    have none : s.facts = {} := by
      rcases h with none | ⟨content, facts⟩
      · exact none
      · unfold Language.factsOf at facts
        rw [hlanguage] at facts
        exact (Except.ok.inj facts).symm
    simp only [hlanguage, none] at hi
    cases hi

/-! ## Keys -/

theorem eq_of_append_cons_eq {c : Char} {as as' bs bs' : List Char} (has : c ∉ as) (has' : c ∉ as')
    (h : as ++ c :: bs = as' ++ c :: bs') : as = as' ∧ bs = bs' := by
  induction as generalizing as' with
  | nil =>
    cases as' with
    | nil => exact ⟨rfl, (List.cons.inj h).2⟩
    | cons d as' =>
      obtain ⟨rfl, -⟩ := List.cons.inj h
      exact absurd List.mem_cons_self has'
  | cons a as ih =>
    cases as' with
    | nil =>
      obtain ⟨rfl, -⟩ := List.cons.inj h
      exact absurd List.mem_cons_self has
    | cons d as' =>
      obtain ⟨rfl, rest⟩ := List.cons.inj h
      obtain ⟨rfl, rfl⟩ := ih (fun hc => has (List.mem_cons_of_mem a hc))
        (fun hc => has' (List.mem_cons_of_mem a hc)) rest
      exact ⟨rfl, rfl⟩

/-- Without a colon in the paths a key tells the file from the name. -/
theorem symbolKey_inj {file file' name name' : String} (hfile : ':' ∉ file.toList)
    (hfile' : ':' ∉ file'.toList) (h : symbolKey file name = symbolKey file' name') :
    file = file' ∧ name = name' := by
  have parts : file.toList ++ ':' :: name.toList = file'.toList ++ ':' :: name'.toList := by
    simpa [symbolKey] using congrArg String.toList h
  obtain ⟨files, names⟩ := eq_of_append_cons_eq hfile hfile' parts
  exact ⟨String.toList_inj.1 files, String.toList_inj.1 names⟩

/-! ## Importers of a trace -/

/-- Where an import stands. -/
def Importer.place (i : Importer) : String × Nat := (i.file, i.line)

namespace Trace

def places (t : Trace) : List (String × Nat) := t.importers.map Importer.place

/-- An importer is added unless one at its place is there. -/
theorem places_addImporter (t : Trace) (i : Importer) :
    (t.addImporter i).places = if i.place ∈ t.places then t.places else t.places ++ [i.place] := by
  have known : (t.importers.any fun j => j.file == i.file && j.line == i.line) = true ↔
      i.place ∈ t.places := by
    simp [places, Importer.place, List.any_eq_true]
  unfold addImporter
  by_cases h : i.place ∈ t.places
  · rw [if_pos (known.2 h), if_pos h]
  · rw [if_neg fun hk => h (known.1 hk), if_neg h]
    simp [places]

theorem places_foldl (l : List Importer) (t : Trace) (nodup : t.places.Nodup) :
    (l.foldl addImporter t).places.Nodup ∧
      ∀ x, x ∈ (l.foldl addImporter t).places ↔ x ∈ t.places ∨ x ∈ l.map Importer.place := by
  induction l generalizing t with
  | nil => exact ⟨nodup, fun x => by simp⟩
  | cons i l ih =>
    have step : (t.addImporter i).places.Nodup ∧
        ∀ x, x ∈ (t.addImporter i).places ↔ x ∈ t.places ∨ x = i.place := by
      rw [places_addImporter]
      split_ifs with known
      · refine ⟨nodup, fun x => ⟨.inl, fun h => h.elim id fun hx => hx ▸ known⟩⟩
      · refine ⟨nodup.append (List.nodup_singleton _) ?_, fun x => by simp⟩
        simpa using known
    obtain ⟨nodup', mem⟩ := ih (t.addImporter i) step.1
    refine ⟨nodup', fun x => ?_⟩
    rw [List.foldl_cons, mem, step.2, List.map_cons, List.mem_cons, or_assoc]

theorem file_foldl_addImporter (l : List Importer) (t : Trace) :
    (l.foldl addImporter t).file = t.file ∧ (l.foldl addImporter t).name = t.name := by
  induction l generalizing t with
  | nil => exact ⟨rfl, rfl⟩
  | cons i l ih =>
    have kept : (t.addImporter i).file = t.file ∧ (t.addImporter i).name = t.name := by
      unfold addImporter
      split_ifs <;> exact ⟨rfl, rfl⟩
    rw [List.foldl_cons, (ih _).1, (ih _).2]
    exact kept

end Trace

/-! ## The parts of an analysis -/

/-- The imports are those of the source, and the exports of the source come first, under the same keys. -/
def FileAnalysis.StandsFor (f : FileAnalysis) (r : Resolver) (s : SourceFile) : Prop :=
  f.imports = (FileAnalysis.ofSource r s).imports ∧
    (FileAnalysis.ofSource r s).exports.map Export.key <+: f.exports.map Export.key

namespace ProjectAnalysis

/-- A line of `file` imports a symbol of another file by its name, and does not just pass it on. -/
def ImportsAt (p : ProjectAnalysis) (file : String) (line : Nat) (source name : String) : Prop :=
  file ≠ source ∧ ∃ f, p.files.get? file = some f ∧ ∃ i ∈ f.imports, i.line = line ∧
    i.isReExport = false ∧ i.targetsSymbol = true ∧ i.name = name ∧ i.target = some source

/-- The graphs, the traces and the exports by name say the same as the files. -/
structure WellFormed (p : ProjectAnalysis) : Prop where
  mirrored : ∀ f g, p.importGraph.Edge f g ↔ p.reverseGraph.Edge g f
  edge_files : ∀ f g, p.importGraph.Edge f g →
    f ≠ g ∧ p.files.contains f = true ∧ p.files.contains g = true
  edge_iff : ∀ f g, p.importGraph.Edge f g ↔ f ≠ g ∧ ∃ file, p.files.get? f = some file ∧
    ∃ i ∈ file.imports, i.target = some g
  trace_keys : ∀ key, p.traces.contains key = true ↔ ∃ e, p.Exports e ∧ e.key = key
  trace_key : ∀ key t, p.traces.get? key = some t → t.key = key
  importers_nodup : ∀ key t, p.traces.get? key = some t → t.places.Nodup
  mem_importers : ∀ key t, p.traces.get? key = some t → ∀ file line,
    (file, line) ∈ t.places ↔ p.ImportsAt file line t.file t.name
  usageCount_eq : ∀ key t, p.traces.get? key = some t → t.usageCount = t.usages.length
  exports_eq : ∀ name, (p.exports.get? name).getD [] =
    (p.files.values.flatMap fun f => f.exports.filter (!·.isStar)).filter (·.name == name)

variable {c : Config} {paths : List String} {sources : List SourceFile}

theorem contains_files (paths_eq : sources.map (·.path) = paths) {path : String} :
    (ofFiles c paths sources).files.contains path = true ↔ path ∈ paths := by
  have keys : (∃ f, (declaredFiles c paths sources).get? path = some f) ↔ path ∈ paths := by
    rw [← KeyMap.mem_keys, declaredFiles, KeyMap.mem_keys_ofList, List.map_map, ← paths_eq]
    rfl
  rw [KeyMap.contains_iff, ← keys]
  simp only [get?_files, Option.map_eq_some_iff]
  constructor
  · rintro ⟨_, f, hf, -⟩
    exact ⟨f, hf⟩
  · rintro ⟨f, hf⟩
    exact ⟨_, f, hf, rfl⟩

/-- Each file of an analysis stands for a source with its path. -/
theorem exists_standsFor {path : String} {f : FileAnalysis}
    (h : (ofFiles c paths sources).files.get? path = some f) :
    ∃ s ∈ sources, s.path = path ∧ f.StandsFor (c.resolver paths) s := by
  rw [get?_files, Option.map_eq_some_iff] at h
  obtain ⟨f₀, hf₀, rfl⟩ := h
  obtain ⟨s, hs, hpath, rfl⟩ := get?_declaredFiles hf₀
  refine ⟨s, hs, hpath, rfl, ?_⟩
  have keys : ((FileAnalysis.ofSource (c.resolver paths) s).exports.map
      (exportTable c paths sources).fill).map Export.key =
        (FileAnalysis.ofSource (c.resolver paths) s).exports.map Export.key := by
    rw [List.map_map]
    exact List.map_congr_left fun e _ => ExportTable.fill_key e
  rw [List.map_append, keys]
  exact List.prefix_append _ _

/-- Targets of imports are files of the project. -/
theorem mem_paths_of_target (own : ∀ s ∈ sources, s.OwnFacts) {path file : String} {f : FileAnalysis}
    (hf : (declaredFiles c paths sources).get? path = some f) {i : Import} (hi : i ∈ f.imports)
    (target : i.target = some file) : file ∈ paths := by
  obtain ⟨s, hs, rfl, rfl⟩ := get?_declaredFiles hf
  exact KeySet.mem_ofList.1 ((own s hs).mem_files hi target)

/-- The exports of an analysed file, those added by its stars included, carry its path. -/
theorem file_of_mem_exports (own : ∀ s ∈ sources, s.OwnFacts) {path : String} {f : FileAnalysis}
    {e : Export} (hf : (declaredFiles c paths sources).get? path = some f ∨
      (ofFiles c paths sources).files.get? path = some f) (he : e ∈ f.exports) : e.file = path := by
  have declared {f : FileAnalysis} (hf : (declaredFiles c paths sources).get? path = some f)
      {e : Export} (he : e ∈ f.exports) : e.file = path := by
    obtain ⟨s, hs, rfl, rfl⟩ := get?_declaredFiles hf
    exact (areOf_resolvedFacts _ (own s hs).areOf e he).file_eq
  rcases hf with hf | hf
  · exact declared hf he
  · rw [get?_files, Option.map_eq_some_iff] at hf
    obtain ⟨f₀, hf₀, rfl⟩ := hf
    rcases List.mem_append.1 he with he | he
    · obtain ⟨e₀, he₀, rfl⟩ := List.mem_map.1 he
      rw [ExportTable.fill_file]
      exact declared hf₀ he₀
    · obtain ⟨p, hp, rfl⟩ := List.mem_map.1 he
      exact ExportTable.file_of_mem_starExports hp

theorem contains_traces {key : String} : (ofFiles c paths sources).traces.contains key = true ↔
    ∃ e, (ofFiles c paths sources).Exports e ∧ e.key = key := by
  rw [KeyMap.contains_iff]
  constructor
  · rintro ⟨t, ht⟩
    obtain ⟨t₀, usages, ht₀, -⟩ := of_get?_traces ht
    obtain ⟨path, f, e, hf, he, hstar, hkey, -⟩ := of_get?_openTraces ht₀
    rcases hf with hf | hf
    · -- what a file declares stays with its key when it is filled
      refine ⟨(exportTable c paths sources).fill e, exports_iff.2 ⟨?_, path, .inl ⟨e, ?_, rfl⟩⟩, ?_⟩
      · rw [ExportTable.fill_isStar, hstar]
      · have declared : (declaredFiles c paths sources).get? path = some f := hf
        rw [exportsOf_exportTable, declared]
        exact he
      · rw [ExportTable.fill_key, hkey]
    · exact ⟨e, ⟨path, f, hf, he, hstar⟩, hkey⟩
  · rintro ⟨e, he, rfl⟩
    exact exists_get?_traces he

theorem key_of_get?_traces {key : String} {t : Trace}
    (h : (ofFiles c paths sources).traces.get? key = some t) : t.key = key := by
  obtain ⟨t₀, usages, ht₀, rfl⟩ := of_get?_traces h
  obtain ⟨path, f, e, -, -, -, rfl, rfl⟩ := of_get?_openTraces ht₀
  unfold fillTrace Trace.key
  dsimp only
  rw [(Trace.file_foldl_addImporter _ _).1, (Trace.file_foldl_addImporter _ _).2]
  rfl

/-- A traced symbol belongs to a file of the project. -/
theorem mem_paths_of_get?_traces (paths_eq : sources.map (·.path) = paths)
    (own : ∀ s ∈ sources, s.OwnFacts) {key : String} {t : Trace}
    (h : (ofFiles c paths sources).traces.get? key = some t) : t.file ∈ paths := by
  obtain ⟨t₀, usages, ht₀, rfl⟩ := of_get?_traces h
  obtain ⟨path, f, e, hf, he, -, -, rfl⟩ := of_get?_openTraces ht₀
  have file := file_of_mem_exports own hf he
  have known : path ∈ paths := by
    rcases hf with hf | hf
    · obtain ⟨s, hs, rfl, -⟩ := get?_declaredFiles hf
      rw [← paths_eq]
      exact List.mem_map_of_mem hs
    · exact (contains_files paths_eq).1 (KeyMap.contains_iff.2 ⟨f, hf⟩)
  unfold fillTrace
  dsimp only
  rw [(Trace.file_foldl_addImporter _ _).1]
  exact file ▸ known

/-- The places of the importers of a trace are those of the imports that name its key, each once. -/
theorem places_of_get?_traces {key : String} {t : Trace}
    (h : (ofFiles c paths sources).traces.get? key = some t) :
    t.places.Nodup ∧ ∀ x, x ∈ t.places ↔ ∃ f ∈ (declaredFiles c paths sources).values, ∃ i,
      (key, i) ∈ f.importedSymbols ∧ i.place = x := by
  obtain ⟨t₀, usages, ht₀, rfl⟩ := of_get?_traces h
  have new : t₀.places = [] := by rw [Trace.places, importers_openTraces ht₀, List.map_nil]
  have places := Trace.places_foldl (valuesOf key ((declaredFiles c paths sources).values.flatMap
    FileAnalysis.importedSymbols)) t₀ (by simp [new])
  refine ⟨places.1, fun x => (places.2 x).trans ?_⟩
  rw [new, valuesOf]
  simp only [List.not_mem_nil, false_or, List.mem_map, List.mem_filter, List.mem_flatMap, beq_iff_eq]
  constructor
  · rintro ⟨_, ⟨⟨_, i⟩, ⟨⟨f, hf, mem⟩, rfl⟩, rfl⟩, rfl⟩
    exact ⟨f, hf, i, mem, rfl⟩
  · rintro ⟨f, hf, i, mem, rfl⟩
    exact ⟨i, ⟨(key, i), ⟨⟨f, hf, mem⟩, rfl⟩, rfl⟩, rfl⟩

theorem mem_places_iff (paths_eq : sources.map (·.path) = paths) (own : ∀ s ∈ sources, s.OwnFacts)
    (colonFree : ∀ path ∈ paths, ':' ∉ path.toList) {key : String} {t : Trace}
    (h : (ofFiles c paths sources).traces.get? key = some t) (file : String) (line : Nat) :
    (file, line) ∈ t.places ↔ (ofFiles c paths sources).ImportsAt file line t.file t.name := by
  have free := colonFree t.file (mem_paths_of_get?_traces paths_eq own h)
  have hkey : symbolKey t.file t.name = key := key_of_get?_traces h
  rw [(places_of_get?_traces h).2]
  unfold ImportsAt
  simp only [get?_files, Option.map_eq_some_iff, KeyMap.mem_values]
  constructor
  · rintro ⟨f, ⟨path, hf⟩, _, mem, place⟩
    obtain ⟨i, hi, target, htarget, other, symbol, reExport, same, rfl⟩ :=
      FileAnalysis.mem_importedSymbols.1 mem
    obtain ⟨rfl, rfl⟩ := Prod.mk.inj place
    -- the keys agree, so do the files and the names
    obtain ⟨rfl, name⟩ := symbolKey_inj (colonFree target (mem_paths_of_target own hf hi htarget)) free
      (same.trans hkey.symm)
    obtain ⟨s, -, rfl, rfl⟩ := get?_declaredFiles hf
    exact ⟨Ne.symm other, _, ⟨_, hf, rfl⟩, i, hi, rfl, reExport, symbol, name, htarget⟩
  · rintro ⟨other, _, ⟨f, hf, rfl⟩, i, hi, rfl, reExport, symbol, name, target⟩
    obtain ⟨s, -, rfl, rfl⟩ := get?_declaredFiles hf
    refine ⟨_, ⟨_, hf⟩, _, FileAnalysis.mem_importedSymbols.2 ⟨i, hi, t.file, target, Ne.symm other, symbol,
      reExport, ?_, rfl⟩, rfl⟩
    rw [name, hkey]

/-- The analysis of files that have facts of their own, at paths without a colon, is well formed. -/
theorem wellFormed_ofFiles (paths_eq : sources.map (·.path) = paths) (own : ∀ s ∈ sources, s.OwnFacts)
    (colonFree : ∀ path ∈ paths, ':' ∉ path.toList) : (ofFiles c paths sources).WellFormed where
  mirrored _ _ := edge_reverseGraph.symm
  edge_files f g edge := by
    rw [importGraph_ofFiles] at edge
    obtain ⟨file, hf, i, hi, target, other⟩ := edge_importGraphOf.1 edge
    have known := mem_paths_of_target own hf hi target
    obtain ⟨s, hs, rfl, rfl⟩ := get?_declaredFiles hf
    refine ⟨Ne.symm other, (contains_files paths_eq).2 ?_, (contains_files paths_eq).2 known⟩
    rw [← paths_eq]
    exact List.mem_map_of_mem hs
  edge_iff f g := by
    rw [importGraph_ofFiles, edge_importGraphOf]
    simp only [get?_files, Option.map_eq_some_iff]
    constructor
    · rintro ⟨file, hf, i, hi, target, other⟩
      rw [path_of_get?_declaredFiles hf] at other
      exact ⟨Ne.symm other, _, ⟨file, hf, rfl⟩, i, hi, target⟩
    · rintro ⟨other, _, ⟨file, hf, rfl⟩, i, hi, target⟩
      refine ⟨file, hf, i, hi, target, ?_⟩
      rw [path_of_get?_declaredFiles hf]
      exact Ne.symm other
  trace_keys _ := contains_traces
  trace_key _ _ h := key_of_get?_traces h
  importers_nodup _ _ h := (places_of_get?_traces h).1
  mem_importers _ _ h file line := mem_places_iff paths_eq own colonFree h file line
  usageCount_eq _ _ h := by
    obtain ⟨t₀, usages, -, rfl⟩ := of_get?_traces h
    rfl
  exports_eq name := by
    rw [exports_ofFiles, exportIndex, getD_group, valuesOf, List.filter_map, List.map_map]
    exact List.map_id _

end ProjectAnalysis

/-! ## Runs -/

/-- The files of a run have facts of their own, whether they were parsed now or in an earlier run. -/
theorem ownFacts_of_mem_loadSources {known : Option Cache} {tree : FileTree} {root : String}
    {paths : List String} (holds : ∀ cache, known = some cache → cache.Holds Set.univ) {s : SourceFile}
    (hs : s ∈ loadSources known tree root paths) : s.OwnFacts := by
  obtain ⟨path, -, rfl⟩ := List.mem_map.1 hs
  unfold SourceFile.OwnFacts
  rw [SourceFile.path_load]
  refine SourceFile.facts_load.imp id ?_
  rintro ⟨content, hit | parsed⟩
  · obtain ⟨cache, hcache, hit⟩ := Option.bind_eq_some_iff.1 hit
    obtain ⟨f, hf, -, facts⟩ := Cache.lookup?_eq_some.1 hit
    obtain ⟨content', -, -, parsed⟩ := holds cache hcache path f hf
    exact ⟨content', parsed.trans (by rw [facts])⟩
  · exact ⟨content, parsed⟩

theorem paths_loadSources (known : Option Cache) (tree : FileTree) (root : String) (paths : List String) :
    (loadSources known tree root paths).map (·.path) = paths := by
  unfold loadSources
  rw [List.map_map]
  exact (List.map_congr_left fun path _ => SourceFile.path_load).trans (List.map_id _)

/-- Without a cache, or with one that earlier runs left, the analysis of a project whose paths have no
colon has exactly the files that were found, each stands for its source, and all fits together. -/
theorem exists_wellFormed_analysis (now : Timestamp) {c : Config} {tree : FileTree} {paths : List String}
    (found : c.sourceFiles tree = .ok paths) (colonFree : ∀ path ∈ paths, ':' ∉ path.toList)
    (cache : c.cacheEnabled = true → Reached c.rootDir Set.univ tree) :
    ∃ p tree', analyzeProject now c tree = .ok (p, tree') ∧
      (∀ path, p.files.contains path = true ↔ path ∈ paths) ∧
      (∀ path f, p.files.get? path = some f →
        ∃ s ∈ c.runSources tree paths, s.path = path ∧ f.StandsFor (c.resolver paths) s) ∧
      p.WellFormed := by
  have run : (c.runSources tree paths).map (·.path) = paths ∧ ∀ s ∈ c.runSources tree paths, s.OwnFacts := by
    unfold Config.runSources
    split_ifs with enabled
    · have stored {cache' : Cache} := @Reached.stored _ _ _ (cache enabled) cache'
      have loaded : Cache.load c.stateDir tree = (Cache.stored? c.stateDir tree, tree) :=
        load_eq_stored? fun _ h => (stored h).1
      rw [loaded]
      exact ⟨paths_loadSources _ _ _ _, fun s hs => ownFacts_of_mem_loadSources (fun _ h => (stored h).2) hs⟩
    · exact ⟨paths_loadSources _ _ _ _, fun s hs => ownFacts_of_mem_loadSources (fun _ h => by cases h) hs⟩
  exact ⟨_, _, analyzeProject_of_sourceFiles now found, fun _ => ProjectAnalysis.contains_files run.1,
    fun _ _ => ProjectAnalysis.exists_standsFor, ProjectAnalysis.wellFormed_ofFiles run.1 run.2 colonFree⟩

/-- `a.ts` imports `n` from `b.ts`, which has the name only by its star, so the importer has to wait. It is
found with the trace of the symbol, and the import is an edge. -/
theorem exists_wellFormed_analysis_behind_star :
    let c : Config := { rootDir := "/r" }
    let tree : FileTree := .folder [("r", .folder
      [("a.ts", .file "import \x7b n \x7d from './b';\nn();".toUTF8),
        ("b.ts", .file "export * from './c';".toUTF8),
        ("c.ts", .file "export function n() \x7b return 1; \x7d".toUTF8)])]
    c.sourceFiles tree = .ok ["a.ts", "b.ts", "c.ts"] ∧
      (∀ path ∈ ["a.ts", "b.ts", "c.ts"], ':' ∉ path.toList) ∧
      (c.cacheEnabled = true ∧ Reached c.rootDir Set.univ tree) ∧
      ∃ p tree', analyzeProject ⟨0, 0⟩ c tree = .ok (p, tree') ∧
        (∀ path, p.files.contains path = true ↔ path ∈ ["a.ts", "b.ts", "c.ts"]) ∧ p.WellFormed ∧
        p.importGraph.Edge "a.ts" "b.ts" ∧
        ∃ t, p.traces.get? "b.ts:n" = some t ∧ t.importers = [⟨"a.ts", none, 1⟩] := by
  intro c tree
  have found : c.sourceFiles tree = .ok ["a.ts", "b.ts", "c.ts"] :=
    (Config.sourceFiles_of_ascending (FileTree.find_top _) rfl (by decide +kernel)).trans
      (congrArg Except.ok (by decide +kernel))
  have colonFree : ∀ path ∈ ["a.ts", "b.ts", "c.ts"], ':' ∉ path.toList := by decide
  have reached : Reached c.rootDir Set.univ tree := .start (by decide +kernel)
  obtain ⟨p, tree', run, files, -, wellFormed⟩ :=
    exists_wellFormed_analysis ⟨0, 0⟩ found colonFree fun _ => reached
  have evaluated : (ProjectAnalysis.ofFiles c ["a.ts", "b.ts", "c.ts"]
        (c.runSources tree ["a.ts", "b.ts", "c.ts"])).importGraph.Edge "a.ts" "b.ts" ∧
      ((ProjectAnalysis.ofFiles c ["a.ts", "b.ts", "c.ts"]
        (c.runSources tree ["a.ts", "b.ts", "c.ts"])).traces.get? "b.ts:n").any
          (fun t => t.importers == [⟨"a.ts", none, 1⟩]) = true := by
    decide +kernel
  obtain ⟨rfl, -⟩ := Prod.mk.inj (Except.ok.inj ((analyzeProject_of_sourceFiles ⟨0, 0⟩ found).symm.trans run))
  simp only [Option.any_eq_true, beq_iff_eq] at evaluated
  exact ⟨found, colonFree, ⟨rfl, reached⟩, _, tree', run, files, wellFormed, evaluated⟩

end SymbolGraph
