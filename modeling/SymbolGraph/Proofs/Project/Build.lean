import SymbolGraph.Proofs.Project.Passes

/-!
# What analyses are built from

The exports of a script carry the path of the script, also with their origins resolved. From this the
exports and importers that an analysis records are those of its files.
-/
namespace SymbolGraph

/-! ## Facts of scripts -/

/-- The export is one of `file`, and has an origin only if it is a re-export. -/
structure Export.IsOf (e : Export) (file : String) : Prop where
  file_eq : e.file = file
  isReExport_of_origin : ∀ source, e.origin = some source → e.isReExport = true

def Facts.AreOf (facts : Facts) (file : String) : Prop := ∀ e ∈ facts.exports, e.IsOf file

theorem Facts.AreOf.addExport {facts : Facts} {file : String} {e : Export} (h : facts.AreOf file)
    (he : e.IsOf file) : (facts.addExport e).AreOf file := by
  intro e' he'
  rcases List.mem_append.1 he' with he' | he'
  · exact h e' he'
  · rw [List.mem_singleton.1 he']
    exact he

theorem Facts.AreOf.addImport {facts : Facts} {file : String} (h : facts.AreOf file) (i : Import) :
    (facts.addImport i).AreOf file := h

theorem Facts.AreOf.foldl {α : Type} {f : Facts → α → Facts} {file : String} (l : List α) {facts : Facts}
    (h : facts.AreOf file) (step : ∀ facts, facts.AreOf file → ∀ a ∈ l, (f facts a).AreOf file) :
    (l.foldl f facts).AreOf file := by
  induction l generalizing facts with
  | nil => exact h
  | cons a rest ih =>
    exact ih (step facts h a List.mem_cons_self) fun facts hfacts a' ha' =>
      step facts hfacts a' (List.mem_cons_of_mem a ha')

theorem Facts.AreOf.foldl_addExport {facts : Facts} {file : String} (h : facts.AreOf file)
    {l : List Export} (hl : ∀ e ∈ l, e.IsOf file) : (l.foldl Facts.addExport facts).AreOf file :=
  h.foldl l fun _ hfacts e he => hfacts.addExport (hl e he)

namespace Script

theorem areOf_addImportStatement {facts : Facts} {file : String} (h : facts.AreOf file) (t : Node) :
    (addImportStatement file facts t).AreOf file := by
  unfold addImportStatement
  split
  · exact h
  · dsimp only
    split_ifs
    · exact h
    · exact h.foldl _ fun _ hfacts _ _ => hfacts

theorem areOf_addReExport {facts : Facts} {file : String} (h : facts.AreOf file) (specifier : String)
    (line : Nat) (names : String × String) : (addReExport file specifier line facts names).AreOf file :=
  (h.addExport ⟨rfl, fun _ _ => rfl⟩).addImport _

theorem areOf_addNamespaceExport {facts : Facts} {file : String} (h : facts.AreOf file)
    (specifier : String) (line : Nat) (t : Node) :
    (addNamespaceExport file specifier line facts t).AreOf file := by
  unfold addNamespaceExport
  split
  · exact h
  · exact (h.addExport ⟨rfl, fun _ _ => rfl⟩).addImport _

theorem areOf_addForwardingExport {facts : Facts} {file : String} (h : facts.AreOf file)
    (specifier : String) (t : Node) : (addForwardingExport file specifier facts t).AreOf file := by
  unfold addForwardingExport
  dsimp only
  split_ifs
  · refine h.foldl _ fun _ hfacts c _ => ?_
    split
    · exact hfacts.foldl _ fun _ hfacts names _ => areOf_addReExport hfacts _ _ names
    · exact areOf_addNamespaceExport hfacts _ _ c
    · exact hfacts
  · exact (h.addExport ⟨rfl, fun _ _ => rfl⟩).addImport _

theorem isOf_of_mem_declaredExports {file : String} {line : Nat} {isDefault : Bool} {declaration : Node}
    {e : Export} (h : e ∈ declaredExports file line isDefault declaration) : e.IsOf file := by
  obtain ⟨⟨name, d⟩, -, rfl⟩ := List.mem_map.1 h
  cases isDefault with
  | true => exact ⟨rfl, fun _ h => by cases h⟩
  | false => exact ⟨rfl, fun _ h => by cases h⟩

theorem isOf_valueExport (file : String) (line : Nat) (declarations : KeyMap Declaration)
    (bindings : Bindings) (value : Node) :
    (valueExport file line declarations bindings value).IsOf file := by
  unfold valueExport
  split
  · split
    · exact ⟨rfl, fun _ _ => rfl⟩
    · exact ⟨rfl, fun _ h => by cases h⟩
  · exact ⟨rfl, fun _ h => by cases h⟩
  · split_ifs
    · exact ⟨rfl, fun _ h => by cases h⟩
    · exact ⟨rfl, fun _ h => by cases h⟩

theorem isOf_listedExport (file : String) (line : Nat) (declarations : KeyMap Declaration)
    (bindings : Bindings) (names : String × String) :
    (listedExport file line declarations bindings names).IsOf file := by
  unfold listedExport
  dsimp only
  split
  · exact ⟨rfl, fun _ _ => rfl⟩
  · exact ⟨rfl, fun _ h => by cases h⟩

theorem areOf_addExportStatement {facts : Facts} {file : String} (h : facts.AreOf file)
    (declarations : KeyMap Declaration) (t : Node) :
    (addExportStatement file declarations facts t).AreOf file := by
  unfold addExportStatement
  split
  · exact areOf_addForwardingExport h _ t
  · split
    · exact h.foldl_addExport fun e he => isOf_of_mem_declaredExports he
    · split
      · exact h.addExport (isOf_valueExport _ _ _ _ _)
      · refine h.foldl_addExport fun e he => ?_
        obtain ⟨names, -, rfl⟩ := List.mem_map.1 he
        exact isOf_listedExport _ _ _ _ names

/-- The exports of a script carry its path. -/
theorem areOf_factsOf (file : String) (root : Node) : (factsOf file root).AreOf file := by
  have empty : Facts.AreOf {} file := fun e he => by cases he
  have imports := empty.foldl (root.children.filter (·.kind == .importStatement))
    fun _ h t _ => areOf_addImportStatement h t
  exact imports.foldl _ fun _ h t _ => areOf_addExportStatement h _ t

end Script

theorem Language.factsOf_script {path : String} (h : ofPath? all path = some .script) (content : String) :
    factsOf all path content = .ok (Script.factsOf path (Script.parseFile path content)) := by
  unfold factsOf
  rw [h]
  rfl

/-- A script as it is read: its facts are those of its text, or it has none. -/
structure SourceFile.IsScript (f : SourceFile) : Prop where
  language : Language.ofPath? Language.all f.path = some .script
  facts_eq : Language.factsOf Language.all f.path f.content = .ok f.facts ∨ f.facts = {}

theorem SourceFile.IsScript.areOf {f : SourceFile} (h : f.IsScript) : f.facts.AreOf f.path := by
  rcases h.facts_eq with facts | facts
  · have heq : f.facts = Script.factsOf f.path (Script.parseFile f.path f.content) :=
      Except.ok.inj (facts.symm.trans (Language.factsOf_script h.language f.content))
    rw [heq]
    exact Script.areOf_factsOf _ _
  · rw [facts]
    exact fun e he => by cases he

/-- A script with the facts of its text. -/
def SourceFile.script (path content : String) : SourceFile :=
  { path, content, facts := Script.factsOf path (Script.parseFile path content) }

theorem SourceFile.isScript_script {path : String} (h : Language.ofPath? Language.all path = some .script)
    (content : String) : (script path content).IsScript :=
  ⟨h, Or.inl (Language.factsOf_script h content)⟩

theorem areOf_resolvedFacts {facts : Facts} {path : String} (r : Resolver) (h : facts.AreOf path) :
    (resolvedFacts r path facts).AreOf path := by
  unfold resolvedFacts
  split
  · exact h
  · intro e he
    obtain ⟨e', he', rfl⟩ := List.mem_map.1 he
    have hof : e'.IsOf path := h e' he'
    split_ifs with hre
    · exact ⟨hof.file_eq, fun _ _ => hre⟩
    · exact hof

theorem resolvedFacts_script (r : Resolver) {path : String}
    (h : Language.ofPath? Language.all path = some .script) (facts : Facts) :
    resolvedFacts r path facts =
      { Language.script.resolveFacts r facts with
        exports := facts.exports.map fun e =>
          if e.isReExport then { e with origin := e.origin.bind (r.script? · path) } else e } := by
  unfold resolvedFacts
  rw [h]
  rfl

/-! ## Importers -/

/-- The file imports a name of another file for itself. -/
def FileAnalysis.Imports (f : FileAnalysis) (source name : String) : Prop :=
  ∃ i, (source, i) ∈ f.outgoing ∧ i.isReExport = false ∧ i.isNamespace = false ∧ i.name = name

instance (f : FileAnalysis) (source name : String) : Decidable (f.Imports source name) :=
  decidable_of_iff (∃ p ∈ f.outgoing, p.1 = source ∧ p.2.isReExport = false ∧ p.2.isNamespace = false ∧
      p.2.name = name)
    ⟨fun ⟨p, hp, hsource, h⟩ => ⟨p.2, hsource ▸ hp, h⟩, fun ⟨i, hi, h⟩ => ⟨(source, i), hi, rfl, h⟩⟩

theorem FileAnalysis.exists_mem_importedSymbols {f : FileAnalysis} {key : String} :
    (∃ i, (key, i) ∈ f.importedSymbols) ↔ ∃ source name, f.Imports source name ∧ name ≠ "" ∧
      name ≠ starName ∧ symbolKey source name = key := by
  simp only [importedSymbols, List.mem_map, List.mem_filter, Import.targetsSymbol, Bool.and_eq_true,
    Bool.not_eq_true', bne_iff_ne, ne_eq, Prod.mk.injEq, Prod.exists]
  constructor
  · rintro ⟨_, source, i, ⟨hi, ⟨⟨hspace, hstar⟩, hname⟩, hre⟩, rfl, -⟩
    exact ⟨source, i.name, ⟨i, hi, hre, hspace, rfl⟩, hname, hstar, rfl⟩
  · rintro ⟨source, _, ⟨i, hi, hre, hspace, rfl⟩, hname, hstar, rfl⟩
    exact ⟨_, source, i, ⟨hi, ⟨⟨hspace, hstar⟩, hname⟩, hre⟩, rfl, rfl⟩

theorem Trace.importers_foldl_eq_nil (l : List Importer) (t : Trace) :
    (l.foldl Trace.addImporter t).importers = [] ↔ t.importers = [] ∧ l = [] := by
  induction l generalizing t with
  | nil => simp
  | cons i rest ih =>
    have added : (t.addImporter i).importers ≠ [] := by
      unfold addImporter
      split_ifs with known
      · rintro h
        simp [h] at known
      · simp
    rw [List.foldl_cons, ih]
    simp [added]

namespace ProjectAnalysis

variable {c : Config} {paths : List String} {sources : List SourceFile}

/-! ## Files and exports -/

theorem exportsOf_exportTable (path : String) : (exportTable c paths sources).exportsOf path =
    (((declaredFiles c paths sources).get? path).map (·.exports)).getD [] := by
  rw [ExportTable.exportsOf, exportTable, KeyMap.get?_map]

theorem get?_declaredFiles {path : String} {f : FileAnalysis}
    (h : (declaredFiles c paths sources).get? path = some f) :
    ∃ s ∈ sources, s.path = path ∧ f = FileAnalysis.ofSource (c.resolver paths) s := by
  have mem := KeyMap.mem_of_mem_ofList (p := (path, f)) (KeyMap.mem_toList.2 h)
  obtain ⟨s, hs, heq⟩ := List.mem_map.1 mem
  obtain ⟨rfl, rfl⟩ := Prod.mk.inj heq
  exact ⟨s, hs, rfl, rfl⟩

/-- The exports of scripts are proper. -/
theorem proper_exportTable (scripts : ∀ f ∈ sources, f.IsScript) :
    (exportTable c paths sources).Proper := by
  have isOf {file : String} {e : Export} (he : e ∈ (exportTable c paths sources).exportsOf file) :
      e.IsOf file := by
    obtain ⟨exports, hfile, he⟩ := ExportTable.mem_exportsOf.1 he
    rw [exportTable, KeyMap.get?_map, Option.map_eq_some_iff] at hfile
    obtain ⟨f, hf, rfl⟩ := hfile
    obtain ⟨s, hs, rfl, rfl⟩ := get?_declaredFiles hf
    exact areOf_resolvedFacts _ (scripts s hs).areOf e he
  exact ⟨fun file e he => (isOf he).file_eq, fun file e he => (isOf he).isReExport_of_origin⟩

/-- A file of an analysis has its own exports, filled, and those for which its stars stand. -/
theorem get?_files (path : String) :
    (ofFiles c paths sources).files.get? path =
      ((declaredFiles c paths sources).get? path).map fun f => { f with
        exports := f.exports.map (exportTable c paths sources).fill ++
          ((exportTable c paths sources).starExports path f.exports).map (·.2) } := by
  rw [ofFiles_eq_gathered]
  exact KeyMap.get?_map _ _ path

theorem exportsOf_ofFiles (file : String) : (ofFiles c paths sources).exportsOf file =
    ((exportTable c paths sources).exportsOf file).map (exportTable c paths sources).fill ++
      ((exportTable c paths sources).starExports file
        ((exportTable c paths sources).exportsOf file)).map (·.2) := by
  unfold exportsOf
  rw [get?_files, exportsOf_exportTable]
  cases (declaredFiles c paths sources).get? file with
  | none => rfl
  | some f => rfl

/-- A symbol that some file of the analysis exports. -/
def Exports (p : ProjectAnalysis) (e : Export) : Prop :=
  ∃ path f, p.files.get? path = some f ∧ e ∈ f.exports ∧ e.isStar = false

theorem exports_iff {e : Export} :
    (ofFiles c paths sources).Exports e ↔ e.isStar = false ∧ ∃ path,
      (∃ e' ∈ (exportTable c paths sources).exportsOf path, (exportTable c paths sources).fill e' = e) ∨
      ∃ source, (source, e) ∈ (exportTable c paths sources).starExports path
        ((exportTable c paths sources).exportsOf path) := by
  unfold Exports
  constructor
  · rintro ⟨path, f, hf, he, hstar⟩
    refine ⟨hstar, path, ?_⟩
    rw [get?_files, Option.map_eq_some_iff] at hf
    obtain ⟨f₀, hf₀, rfl⟩ := hf
    rw [exportsOf_exportTable, hf₀]
    rcases List.mem_append.1 he with he | he
    · exact Or.inl (List.mem_map.1 he)
    · obtain ⟨⟨source, _⟩, added, rfl⟩ := List.mem_map.1 he
      exact Or.inr ⟨source, added⟩
  · rintro ⟨hstar, path, he⟩
    cases hf : (declaredFiles c paths sources).get? path with
    | none =>
      rw [exportsOf_exportTable, hf] at he
      rcases he with ⟨e', he', -⟩ | ⟨source, he⟩
      · cases he'
      · cases he
    | some f₀ =>
      rw [exportsOf_exportTable, hf] at he
      refine ⟨path, _, by rw [get?_files, hf]; rfl, ?_, hstar⟩
      rcases he with he | ⟨source, he⟩
      · exact List.mem_append_left _ (List.mem_map.2 he)
      · exact List.mem_append_right _ (List.mem_map.2 ⟨(source, e), he, rfl⟩)

/-- What is passed on is exported. -/
theorem exists_exports_of_passesOn (proper : (exportTable c paths sources).Proper)
    (bounded : (exportTable c paths sources).BoundedChains) {s t : String × String}
    (h : (exportTable c paths sources).PassesOn s t) :
    ∃ e, (ofFiles c paths sources).Exports e ∧ e.key = symbolKey s.1 s.2 := by
  have filled {file : String} {e : Export} (he : e ∈ (exportTable c paths sources).exportsOf file)
      (hstar : e.isStar = false) :
      ∃ e', (ofFiles c paths sources).Exports e' ∧ e'.key = symbolKey file e.name := by
    refine ⟨(exportTable c paths sources).fill e, exports_iff.2 ⟨?_, file, Or.inl ⟨e, he, rfl⟩⟩, ?_⟩
    · rw [ExportTable.fill_isStar, hstar]
    · rw [ExportTable.fill_key, Export.key, proper.file_eq file e he]
  cases h with
  | named he _ hstar => exact filled he hstar
  | whole he _ hstar => exact filled he hstar
  | star hown first =>
    obtain ⟨e, he, rfl⟩ := (proper.exists_mem_starExports bounded).2 ⟨hown, first⟩
    refine ⟨e, exports_iff.2 ⟨by simpa [Export.isStar] using first.offers.ne_starName, _, Or.inr ⟨_, he⟩⟩, ?_⟩
    rw [Export.key, ExportTable.file_of_mem_starExports he]

/-! ## Traces -/

theorem mem_newTraces {files : KeyMap FileAnalysis} {p : String × Trace} :
    p ∈ newTraces (symbolsOf files.values) ↔ ∃ path f e, files.get? path = some f ∧ e ∈ f.exports ∧
      e.isStar = false ∧ p = (e.key, { file := e.file, name := e.name }) := by
  simp only [newTraces, symbolsOf, List.mem_map, List.mem_flatMap, KeyMap.mem_values, List.mem_filter,
    Bool.not_eq_true']
  constructor
  · rintro ⟨e, ⟨f, ⟨path, hf⟩, he, hstar⟩, rfl⟩
    exact ⟨path, f, e, hf, he, hstar, rfl⟩
  · rintro ⟨path, f, e, hf, he, hstar, rfl⟩
    exact ⟨e, ⟨f, ⟨path, hf⟩, he, hstar⟩, rfl⟩

/-- A new trace is that of a symbol which a file exports. -/
theorem of_get?_openTraces {declared expanded : KeyMap FileAnalysis} {key : String} {t : Trace}
    (h : (openTraces declared expanded).get? key = some t) :
    ∃ path f e, (declared.get? path = some f ∨ expanded.get? path = some f) ∧ e ∈ f.exports ∧
      e.isStar = false ∧ e.key = key ∧ t = { file := e.file, name := e.name } := by
  unfold openTraces at h
  rw [KeyMap.get?_ofListFirst, Option.map_eq_some_iff] at h
  obtain ⟨p, hp, rfl⟩ := h
  have hkey : p.1 = key := by simpa using List.find?_some hp
  rcases List.mem_append.1 (List.mem_of_find?_eq_some hp) with hp | hp
  · obtain ⟨path, f, e, hf, he, hstar, rfl⟩ := mem_newTraces.1 hp
    exact ⟨path, f, e, .inl hf, he, hstar, hkey, rfl⟩
  · obtain ⟨path, f, e, hf, he, hstar, rfl⟩ := mem_newTraces.1 hp
    exact ⟨path, f, e, .inr hf, he, hstar, hkey, rfl⟩

/-- A new trace has no importers. -/
theorem importers_openTraces {declared expanded : KeyMap FileAnalysis} {key : String} {t : Trace}
    (h : (openTraces declared expanded).get? key = some t) : t.importers = [] := by
  obtain ⟨_, _, e, -, -, -, -, rfl⟩ := of_get?_openTraces h
  rfl

theorem exists_get?_openTraces (declared : KeyMap FileAnalysis) {expanded : KeyMap FileAnalysis}
    {path : String} {f : FileAnalysis} {e : Export} (hf : expanded.get? path = some f) (he : e ∈ f.exports)
    (hstar : e.isStar = false) : ∃ t, (openTraces declared expanded).get? e.key = some t := by
  have mem := mem_newTraces.2 ⟨path, f, e, hf, he, hstar, rfl⟩
  unfold openTraces
  rw [KeyMap.get?_ofListFirst, ← Option.isSome_iff_exists, Option.isSome_map, List.find?_isSome]
  exact ⟨_, List.mem_append_right _ mem, beq_self_eq_true e.key⟩

theorem valuesOf_ne_nil {α : Type} {pairs : List (String × α)} {key : String} :
    valuesOf key pairs ≠ [] ↔ ∃ a, (key, a) ∈ pairs := by
  simp only [valuesOf, ne_eq, List.map_eq_nil_iff, List.filter_eq_nil_iff, beq_iff_eq, not_forall, not_not]
  constructor
  · rintro ⟨⟨_, a⟩, mem, rfl⟩
    exact ⟨a, mem⟩
  · rintro ⟨a, mem⟩
    exact ⟨(key, a), mem, rfl⟩

/-- The files of an analysis import what the files import on their own. -/
theorem exists_imports_iff {source name : String} :
    (∃ path f, (ofFiles c paths sources).files.get? path = some f ∧ f.Imports source name) ↔
      ∃ f ∈ (declaredFiles c paths sources).values, f.Imports source name := by
  simp only [KeyMap.mem_values, get?_files, Option.map_eq_some_iff]
  constructor
  · rintro ⟨path, _, ⟨f, hf, rfl⟩, imports⟩
    exact ⟨f, ⟨path, hf⟩, imports⟩
  · rintro ⟨f, ⟨path, hf⟩, imports⟩
    exact ⟨path, _, ⟨f, hf, rfl⟩, imports⟩

/-- A trace is opened for an export and filled with what the files say about its key. -/
theorem of_get?_traces {key : String} {t : Trace}
    (h : (ofFiles c paths sources).traces.get? key = some t) :
    ∃ t₀ usages,
      (openTraces (declaredFiles c paths sources) (ofFiles c paths sources).files).get? key = some t₀ ∧
      t = fillTrace (ofFiles c paths sources).reverseGraph
        ((declaredFiles c paths sources).values.flatMap FileAnalysis.importedSymbols) usages key t₀ := by
  rw [ofFiles_eq_gathered] at h ⊢
  obtain ⟨t₀, ht₀, rfl⟩ := Option.map_eq_some_iff.1 ((KeyMap.get?_map _ _ key).symm.trans h)
  exact ⟨t₀, _, ht₀, rfl⟩

/-- A trace has importers if some file imports the symbol by name. -/
theorem importers_ne_nil_iff {key : String} {t : Trace} (h : (ofFiles c paths sources).traces.get? key = some t) :
    t.importers ≠ [] ↔ ∃ source name, (∃ path f, (ofFiles c paths sources).files.get? path = some f ∧
      f.Imports source name) ∧ name ≠ "" ∧ name ≠ starName ∧ symbolKey source name = key := by
  obtain ⟨t₀, usages, ht₀, rfl⟩ := of_get?_traces h
  have fresh : t₀.importers = [] := importers_openTraces ht₀
  unfold fillTrace
  rw [ne_eq, Trace.importers_foldl_eq_nil, and_iff_right fresh, ← ne_eq, valuesOf_ne_nil]
  simp only [List.mem_flatMap, exists_imports_iff]
  constructor
  · rintro ⟨i, f, hf, hi⟩
    obtain ⟨source, name, imports, h⟩ := FileAnalysis.exists_mem_importedSymbols.1 ⟨i, hi⟩
    exact ⟨source, name, ⟨f, hf, imports⟩, h⟩
  · rintro ⟨source, name, ⟨f, hf, imports⟩, h⟩
    obtain ⟨i, hi⟩ := FileAnalysis.exists_mem_importedSymbols.2 ⟨source, name, imports, h⟩
    exact ⟨i, f, hf, hi⟩

/-- Exported symbols are traced. -/
theorem exists_get?_traces {e : Export} (h : (ofFiles c paths sources).Exports e) :
    ∃ t, (ofFiles c paths sources).traces.get? e.key = some t := by
  obtain ⟨path, f, hf, he, hstar⟩ := h
  rw [ofFiles_eq_gathered] at hf ⊢
  obtain ⟨t, ht⟩ := exists_get?_openTraces (declaredFiles c paths sources) hf he hstar
  exact ⟨_, (KeyMap.get?_map _ _ e.key).trans (Option.map_eq_some_iff.2 ⟨t, ht, rfl⟩)⟩

end ProjectAnalysis
end SymbolGraph
