import SymbolGraph.Project.Build
import SymbolGraph.Proofs.Project.ReExports

/-!
# Passes over a project

An importer is given to the trace of its symbol, or it waits until the star re-exports are expanded and
the symbol appears. Whichever comes first, in the end each trace has all importers of its symbol in their
order. So the passes together make the analysis whose parts are gathered from all files at once.
-/
namespace SymbolGraph

/-- A loop keeps what each of its steps keeps. -/
theorem foldl_keeps {σ : Type u} {α : Type v} {β : Type w} (part : σ → β) (step : σ → α → σ)
    (h : ∀ s a, part (step s a) = part s) (l : List α) (s : σ) : part (l.foldl step s) = part s := by
  induction l generalizing s with
  | nil => rfl
  | cons a rest ih => rw [List.foldl_cons, ih, h]

/-- The values given to a key. -/
def valuesOf {α : Type u} (key : String) (pairs : List (String × α)) : List α :=
  (pairs.filter (·.1 == key)).map (·.2)

section valuesOf
variable {α : Type u} {key : String}

@[simp] theorem valuesOf_nil : valuesOf key ([] : List (String × α)) = [] := rfl

theorem valuesOf_cons (p : String × α) (rest : List (String × α)) :
    valuesOf key (p :: rest) = if key = p.1 then p.2 :: valuesOf key rest else valuesOf key rest := by
  by_cases hk : key = p.1
  · simp [valuesOf, hk]
  · simp [valuesOf, hk, Ne.symm hk]

theorem valuesOf_append (l l' : List (String × α)) :
    valuesOf key (l ++ l') = valuesOf key l ++ valuesOf key l' := by
  simp [valuesOf]

theorem getD_group (pairs : List (String × α)) (key : String) :
    ((KeyMap.group pairs).get? key).getD [] = valuesOf key pairs := by
  have collected := KeyMap.getD_foldl_upsert (fun p : String × α => p.1) (fun p => p.2) pairs .empty key
  rw [KeyMap.group, collected]
  simp [valuesOf]

end valuesOf

/-! ## The parts of an analysis, each gathered at once -/

namespace ProjectAnalysis

/-- The files of a project, each seen on its own. -/
def declaredFiles (c : Config) (paths : List String) (sources : List SourceFile) : KeyMap FileAnalysis :=
  .ofList (sources.map fun f => (f.path, FileAnalysis.ofSource (c.resolver paths) f))

/-- The exports of each file as the file gives them, with the origins resolved. -/
def exportTable (c : Config) (paths : List String) (sources : List SourceFile) : ExportTable :=
  (declaredFiles c paths sources).map fun _ f => f.exports

/-- For each file the files it imports. -/
def importGraphOf (files : KeyMap FileAnalysis) : FileGraph :=
  files.map fun _ f => .ofList (f.outgoing.map (·.1))

/-- For each imported file its importers. -/
def reverseOf (g : FileGraph) : FileGraph :=
  g.toList.foldl (fun m (file, targets) =>
    targets.toList.foldl (fun m target => m.upsert target .empty (·.insert file)) m) .empty

/-- The two loops are one over the edges. -/
theorem reverseOf_eq (g : FileGraph) : reverseOf g =
    (g.toList.flatMap fun p => p.2.toList.map fun target => (target, p.1)).foldl
      (fun m e => m.upsert e.1 .empty (·.insert e.2)) .empty := by
  simp only [reverseOf, List.foldl_flatMap, List.foldl_map]

/-- The files with their re-exports filled and expanded. -/
def withReExports (files : KeyMap FileAnalysis) : KeyMap FileAnalysis :=
  let table : ExportTable := files.map fun _ f => f.exports
  files.map fun path f =>
    { f with exports := f.exports.map table.fill ++ (table.starExports path f.exports).map (·.2) }

/-- The new traces of exported symbols. -/
def newTraces (exports : List Export) : List (String × Trace) :=
  exports.map fun e => (e.key, { file := e.file, name := e.name })

/-- The exports of files, star re-exports aside. -/
def symbolsOf (files : List FileAnalysis) : List Export :=
  files.flatMap fun f => f.exports.filter (!·.isStar)

/-- A trace for every exported symbol: those that files declare come before those that star
re-exports add. -/
def openTraces (declared expanded : KeyMap FileAnalysis) : KeyMap Trace :=
  .ofListFirst (newTraces (symbolsOf declared.values) ++ newTraces (symbolsOf expanded.values))

/-- Completes the trace of a key with its importers, usages and dependents. -/
def fillTrace (reverse : FileGraph) (importers : List (String × Importer))
    (usages : List (String × Usage)) (key : String) (t : Trace) : Trace :=
  let t := (valuesOf key importers).foldl Trace.addImporter t
  let usages := t.usages ++ valuesOf key usages
  { t with
    usages, usageCount := usages.length
    dependents := reverse.dependents (t.importers.map (·.file)) t.file }

/-- The analysis with all of its parts gathered from the files at once. -/
def gathered (c : Config) (paths : List String) (sources : List SourceFile) : ProjectAnalysis :=
  let declared := declaredFiles c paths sources
  let contents : KeyMap String := .ofList (sources.map fun f => (f.path, f.content))
  let files := withReExports declared
  let importGraph := importGraphOf declared
  let reverse := reverseOf importGraph
  let importers := declared.values.flatMap FileAnalysis.importedSymbols
  let usages := files.toList.flatMap fun p => p.2.usages ((contents.get? p.1).getD "")
  { rootDir := c.rootDir
    files
    exports := exportIndex files
    importGraph
    reverseGraph := reverse
    traces := (openTraces declared files).map (fillTrace reverse importers usages)
    reExportLinks := (exportTable c paths sources).links
    cycles := importGraph.cycles }

end ProjectAnalysis

namespace AnalysisBuilder
open ProjectAnalysis

variable {b : AnalysisBuilder} {key : String}

/-! ## Files -/

theorem foldl_openTrace (l : List Export) (b : AnalysisBuilder) : l.foldl openTrace b =
    { b with traces := (newTraces l).foldl (fun m p => m.insertNew p.1 p.2) b.traces } := by
  induction l generalizing b with
  | nil => rfl
  | cons e rest ih => exact ih _

theorem addFile_eq (r : Resolver) (b : AnalysisBuilder) (s : SourceFile) : addFile r b s =
    { b with
      traces := (newTraces (symbolsOf [FileAnalysis.ofSource r s])).foldl (fun m p => m.insertNew p.1 p.2)
        b.traces
      contents := b.contents.insert s.path s.content
      files := b.files.insert s.path (FileAnalysis.ofSource r s) } := by
  rw [addFile, foldl_openTrace, symbolsOf, List.flatMap_singleton]

/-- The first pass sets the files and their texts, and opens the traces of their symbols in order. -/
theorem addFiles_eq (r : Resolver) (sources : List SourceFile) (b : AnalysisBuilder) :
    addFiles r sources b = { b with
      traces := (newTraces (symbolsOf (sources.map (FileAnalysis.ofSource r)))).foldl
        (fun m p => m.insertNew p.1 p.2) b.traces
      contents := (sources.map fun s => (s.path, s.content)).foldl (fun m p => m.insert p.1 p.2) b.contents
      files := (sources.map fun s => (s.path, FileAnalysis.ofSource r s)).foldl
        (fun m p => m.insert p.1 p.2) b.files } := by
  rw [addFiles]
  induction sources generalizing b with
  | nil => rfl
  | cons s rest ih =>
    have symbols : newTraces (symbolsOf ((s :: rest).map (FileAnalysis.ofSource r))) =
        newTraces (symbolsOf [FileAnalysis.ofSource r s]) ++
          newTraces (symbolsOf (rest.map (FileAnalysis.ofSource r))) := by
      simp [newTraces, symbolsOf]
    rw [List.foldl_cons, ih, addFile_eq, symbols, List.foldl_append]
    simp only [List.map_cons, List.foldl_cons]

/-! ## Importers -/

/-- What the importers in between did: those of a key with a trace went there, the others wait. -/
structure Registers (b b' : AnalysisBuilder) (importers : List (String × Importer)) : Prop where
  traces : ∀ key, b'.traces.get? key =
    (b.traces.get? key).map fun t => (valuesOf key importers).foldl Trace.addImporter t
  pending : ∀ key, (b'.pending.get? key).getD [] = (b.pending.get? key).getD [] ++
    if b.traces.contains key then [] else valuesOf key importers

namespace Registers

variable {b' b'' : AnalysisBuilder} {l l' : List (String × Importer)}

theorem refl (b : AnalysisBuilder) : Registers b b [] where
  traces key := by simp
  pending key := by simp

/-- Importers open no trace. -/
theorem contains (h : Registers b b' l) (key : String) : b'.traces.contains key = b.traces.contains key := by
  rw [KeyMap.contains, h.traces, Option.isSome_map, KeyMap.contains]

theorem trans (h : Registers b b' l) (h' : Registers b' b'' l') : Registers b b'' (l ++ l') where
  traces key := by
    rw [h'.traces, h.traces, Option.map_map, valuesOf_append]
    simp only [List.foldl_append]
    rfl
  pending key := by
    rw [h'.pending, h.pending, h.contains, valuesOf_append]
    split_ifs <;> simp

end Registers

theorem registers_addImporter (b : AnalysisBuilder) (p : String × Importer) :
    Registers b (b.addImporter p) [p] := by
  unfold addImporter
  split_ifs with known
  · refine ⟨fun key => ?_, fun key => ?_⟩
    · dsimp only
      rw [KeyMap.get?_modify, valuesOf_cons]
      split_ifs with hk <;> simp [hk]
    · dsimp only
      rw [valuesOf_cons]
      by_cases hk : key = p.1
      · simp [hk, known]
      · simp [hk]
  · refine ⟨fun key => ?_, fun key => ?_⟩
    · dsimp only
      rw [valuesOf_cons]
      split_ifs with hk
      · rw [hk, KeyMap.contains_eq_false.1 (by simpa using known)]
        rfl
      · simp
    · dsimp only
      rw [KeyMap.get?_upsert, valuesOf_cons]
      split_ifs with hk _ _ <;> simp_all

/-- An import sets its edge in both graphs; besides, it changes traces and what waits for them. -/
theorem addImport_eq (file : String) (b : AnalysisBuilder) (p : String × Import) : ∃ traces pending,
    addImport file b p = { b with
      importGraph := b.importGraph.upsert file .empty (·.insert p.1)
      reverseGraph := b.reverseGraph.upsert p.1 .empty (·.insert file)
      traces, pending } := by
  unfold addImport addImporter addEdge
  dsimp only
  split_ifs <;> exact ⟨_, _, rfl⟩

theorem registers_addImport (file : String) (b : AnalysisBuilder) (p : String × Import) :
    Registers b (addImport file b p) (if p.2.targetsSymbol && !p.2.isReExport then
      [(symbolKey p.1 p.2.name, { file, boundAs := p.2.boundAs, line := p.2.line })] else []) := by
  unfold addImport
  dsimp only
  split_ifs
  · -- the edge plays no part
    obtain ⟨traces, pending⟩ := registers_addImporter (b.addEdge file p.1)
      (symbolKey p.1 p.2.name, { file, boundAs := p.2.boundAs, line := p.2.line })
    exact ⟨traces, pending⟩
  · exact ⟨(Registers.refl b).traces, (Registers.refl b).pending⟩

theorem registers_foldl_addImport (file : String) (l : List (String × Import)) (b : AnalysisBuilder) :
    Registers b (l.foldl (addImport file) b)
      ((l.filter fun p => p.2.targetsSymbol && !p.2.isReExport).map fun p =>
        (symbolKey p.1 p.2.name, { file, boundAs := p.2.boundAs, line := p.2.line })) := by
  induction l generalizing b with
  | nil => exact .refl b
  | cons p rest ih =>
    have run := (registers_addImport file b p).trans (ih (addImport file b p))
    rw [List.foldl_cons, List.filter_cons]
    split_ifs at run ⊢ <;> exact run

theorem foldl_addImport_eq (file : String) (l : List (String × Import)) (b : AnalysisBuilder) :
    ∃ traces pending, l.foldl (addImport file) b = { b with
      importGraph := (l.map (·.1)).foldl (fun m target => m.upsert file .empty (·.insert target)) b.importGraph
      reverseGraph := (l.map (·.1)).foldl (fun m target => m.upsert target .empty (·.insert file))
        b.reverseGraph
      traces, pending } := by
  induction l generalizing b with
  | nil => exact ⟨_, _, rfl⟩
  | cons p rest ih =>
    obtain ⟨_, _, first⟩ := addImport_eq file b p
    obtain ⟨traces, pending, run⟩ := ih (addImport file b p)
    refine ⟨traces, pending, ?_⟩
    rw [List.foldl_cons, run, first]
    rfl

theorem addImports_eq (b : AnalysisBuilder) (f : FileAnalysis) : ∃ traces pending,
    b.addImports f = { b with
      importGraph := (f.outgoing.map (·.1)).foldl (fun m target => m.upsert f.path .empty (·.insert target))
        (b.importGraph.upsert f.path .empty id)
      reverseGraph := (f.outgoing.map (·.1)).foldl (fun m target => m.upsert target .empty (·.insert f.path))
        b.reverseGraph
      traces, pending } :=
  foldl_addImport_eq f.path f.outgoing _

theorem registers_addImports (b : AnalysisBuilder) (f : FileAnalysis) :
    Registers b (b.addImports f) f.importedSymbols := by
  have run := registers_foldl_addImport f.path f.outgoing
    { b with importGraph := b.importGraph.upsert f.path .empty id }
  exact ⟨run.traces, run.pending⟩

/-- The second pass registers the importers of all files. -/
theorem registers_foldl_addImports (l : List FileAnalysis) (b : AnalysisBuilder) :
    Registers b (l.foldl addImports b) (l.flatMap FileAnalysis.importedSymbols) := by
  induction l generalizing b with
  | nil => exact .refl b
  | cons f rest ih => exact (registers_addImports b f).trans (ih (b.addImports f))

theorem files_linkImports (b : AnalysisBuilder) : b.linkImports.files = b.files :=
  foldl_keeps files addImports (fun b f => by obtain ⟨_, _, h⟩ := addImports_eq b f; rw [h]) _ b

theorem contents_linkImports (b : AnalysisBuilder) : b.linkImports.contents = b.contents :=
  foldl_keeps contents addImports (fun b f => by obtain ⟨_, _, h⟩ := addImports_eq b f; rw [h]) _ b

theorem reverseGraph_foldl_addImports (l : List FileAnalysis) (b : AnalysisBuilder) :
    (l.foldl addImports b).reverseGraph =
      (l.flatMap fun f => f.outgoing.map fun p => (p.1, f.path)).foldl
        (fun m e => m.upsert e.1 .empty (·.insert e.2)) b.reverseGraph := by
  induction l generalizing b with
  | nil => rfl
  | cons f rest ih =>
    obtain ⟨traces, pending, h⟩ := addImports_eq b f
    rw [List.foldl_cons, ih, h, List.flatMap_cons, List.foldl_append]
    simp only [List.foldl_map]

theorem get?_importGraph_addImports (b : AnalysisBuilder) (f : FileAnalysis) (file : String) :
    ((b.addImports f).importGraph.contains file = true ↔ b.importGraph.contains file = true ∨ file = f.path) ∧
      ∀ a, a ∈ ((b.addImports f).importGraph.get? file).getD .empty ↔
        a ∈ (b.importGraph.get? file).getD .empty ∨ f.path = file ∧ a ∈ f.outgoing.map (·.1) := by
  obtain ⟨traces, pending, h⟩ := addImports_eq b f
  rw [h]
  constructor
  · have keys := KeyMap.contains_foldl_upsert (fun _ : String => f.path) KeySet.empty fun a s => s.insert a
    dsimp only
    rw [keys, KeyMap.contains, KeyMap.get?_upsert, KeyMap.contains]
    by_cases hk : file = f.path
    · simp [hk]
    · simp [hk, Ne.symm hk]
  · intro a
    have members := KeySet.mem_getD_foldl_upsert (fun _ : String => f.path) id
    dsimp only [id] at members ⊢
    rw [members, KeyMap.get?_upsert]
    by_cases hk : file = f.path
    · simp [hk]
    · simp [hk, Ne.symm hk]

theorem importGraph_foldl_addImports (l : List FileAnalysis) (b : AnalysisBuilder) (file : String) :
    ((l.foldl addImports b).importGraph.contains file = true ↔
        b.importGraph.contains file = true ∨ file ∈ l.map (·.path)) ∧
      ∀ a, a ∈ ((l.foldl addImports b).importGraph.get? file).getD .empty ↔
        a ∈ (b.importGraph.get? file).getD .empty ∨ ∃ f ∈ l, f.path = file ∧ a ∈ f.outgoing.map (·.1) := by
  induction l generalizing b with
  | nil => simp
  | cons f rest ih =>
    obtain ⟨keys, members⟩ := ih (b.addImports f)
    obtain ⟨key, member⟩ := get?_importGraph_addImports b f file
    refine ⟨?_, fun a => ?_⟩
    · rw [List.foldl_cons, keys, key, List.map_cons, List.mem_cons, or_assoc]
    · rw [List.foldl_cons, members, member, or_assoc]
      simp only [List.mem_cons, exists_eq_or_imp]

/-- The second pass makes the import graph of files that are kept under their paths. -/
theorem importGraph_linkImports (start : b.importGraph = .empty)
    (paths : ∀ path f, b.files.get? path = some f → f.path = path) :
    b.linkImports.importGraph = importGraphOf b.files := by
  refine KeySet.ext_getD (fun file => ?_) fun file a => ?_
  · rw [linkImports, (importGraph_foldl_addImports _ _ file).1, start, importGraphOf, KeyMap.contains_iff,
      KeyMap.contains_iff]
    simp only [KeyMap.get?_empty, reduceCtorEq, exists_false, false_or, List.mem_map, KeyMap.mem_values,
      KeyMap.get?_map, Option.map_eq_some_iff]
    constructor
    · rintro ⟨f, ⟨path, hf⟩, rfl⟩
      exact ⟨_, f, paths path f hf ▸ hf, rfl⟩
    · rintro ⟨_, f, hf, -⟩
      exact ⟨f, ⟨file, hf⟩, paths file f hf⟩
  · rw [linkImports, (importGraph_foldl_addImports _ _ file).2, start, importGraphOf, KeyMap.get?_map]
    simp only [KeyMap.get?_empty, Option.getD_none, KeySet.not_mem_empty, false_or, KeyMap.mem_values]
    constructor
    · rintro ⟨f, ⟨path, hf⟩, rfl, ha⟩
      rw [paths path f hf, hf]
      exact KeySet.mem_ofList.2 ha
    · intro ha
      cases hf : b.files.get? file with
      | none => simp [hf] at ha
      | some f =>
        rw [hf] at ha
        exact ⟨f, ⟨file, hf⟩, paths file f hf, KeySet.mem_ofList.1 ha⟩

/-- The second pass makes the reverse graph along with it. -/
theorem reverseGraph_linkImports (start : b.reverseGraph = .empty)
    (paths : ∀ path f, b.files.get? path = some f → f.path = path) :
    b.linkImports.reverseGraph = reverseOf (importGraphOf b.files) := by
  rw [linkImports, reverseGraph_foldl_addImports, start, reverseOf_eq]
  refine KeySet.foldl_upsert_congr fun e => ?_
  simp only [List.mem_flatMap, List.mem_map, KeyMap.mem_values, importGraphOf, KeyMap.mem_toList,
    KeyMap.get?_map, Option.map_eq_some_iff]
  constructor
  · rintro ⟨f, ⟨path, hf⟩, p, hp, rfl⟩
    refine ⟨(path, _), ⟨f, hf, rfl⟩, p.1, KeySet.mem_ofList.2 (List.mem_map_of_mem hp), ?_⟩
    rw [paths path f hf]
  · rintro ⟨⟨path, _⟩, ⟨f, hf, rfl⟩, target, htarget, rfl⟩
    obtain ⟨p, hp, rfl⟩ := List.mem_map.1 (KeySet.mem_ofList.1 htarget)
    exact ⟨f, ⟨path, hf⟩, p, hp, by rw [paths path f hf]⟩

/-! ## Star exports -/

/-- An export that a star stands for gets the importers that wait, and then none wait any more. -/
theorem get?_addStarExport (b : AnalysisBuilder) (e : Export) (key : String) :
    (b.addStarExport e).traces.get? key = (if key = e.key then some
        (((b.pending.get? key).getD []).foldl Trace.addImporter
          ((b.traces.get? key).getD { file := e.file, name := e.name }))
      else b.traces.get? key) ∧
    (b.addStarExport e).pending.get? key = if key = e.key then none else b.pending.get? key := by
  unfold addStarExport
  dsimp only
  rw [KeyMap.get?_upsert, KeyMap.get?_erase]
  by_cases hk : key = e.key
  · simp [hk]
  · simp [hk]

/-- Of several exports with one key the first opens the trace, and it takes all that wait for it. -/
theorem get?_traces_foldl_addStarExport (l : List Export) (b : AnalysisBuilder) (key : String) :
    (l.foldl addStarExport b).traces.get? key =
      ((newTraces l).find? (·.1 == key)).elim (b.traces.get? key) fun p =>
        some (((b.pending.get? key).getD []).foldl Trace.addImporter ((b.traces.get? key).getD p.2)) := by
  induction l generalizing b with
  | nil => rfl
  | cons e rest ih =>
    obtain ⟨traces, pending⟩ := get?_addStarExport b e key
    have first : newTraces (e :: rest) = (e.key, { file := e.file, name := e.name }) :: newTraces rest := rfl
    rw [List.foldl_cons, ih, traces, pending, first, List.find?_cons]
    by_cases hk : key = e.key
    · subst hk
      simp only [if_true, beq_self_eq_true, Option.getD_none, List.foldl_nil, Option.getD_some]
      cases (newTraces rest).find? (·.1 == e.key) <;> rfl
    · have hk' : (e.key == key) = false := beq_eq_false_iff_ne.2 (Ne.symm hk)
      simp only [if_neg hk, hk']

theorem get?_files_foldl_addStarExport (l : List Export) (b : AnalysisBuilder) (path : String) :
    (l.foldl addStarExport b).files.get? path = (b.files.get? path).map fun f =>
      { f with exports := f.exports ++ l.filter (·.file == path) } := by
  induction l generalizing b with
  | nil => simp
  | cons e rest ih =>
    have step : (b.addStarExport e).files.get? path = if path = e.file then
        (b.files.get? e.file).map fun f => { f with exports := f.exports ++ [e] }
      else b.files.get? path := KeyMap.get?_modify _ _ _ _
    rw [List.foldl_cons, ih, step]
    by_cases hp : path = e.file
    · subst hp
      simp [Function.comp_def]
    · simp [hp, Ne.symm hp]

/-! ## Usages -/

theorem get?_traces_foldl_addUsage (l : List (String × Usage)) (b : AnalysisBuilder) (key : String) :
    (l.foldl addUsage b).traces.get? key = (b.traces.get? key).map fun t =>
      { t with usages := t.usages ++ valuesOf key l } := by
  induction l generalizing b with
  | nil => simp
  | cons p rest ih =>
    have step : (b.addUsage p).traces.get? key = if key = p.1 then
        (b.traces.get? p.1).map fun t => { t with usages := t.usages ++ [p.2] }
      else b.traces.get? key := KeyMap.get?_modify _ _ _ _
    rw [List.foldl_cons, ih, step, valuesOf_cons]
    by_cases hk : key = p.1
    · subst hk
      simp [Function.comp_def]
    · simp [hk]

/-! ## What the later passes leave as it is -/

theorem contents_resolveReExports (b : AnalysisBuilder) : b.resolveReExports.contents = b.contents :=
  foldl_keeps contents addStarExport (fun _ _ => rfl) _ _

theorem importGraph_resolveReExports (b : AnalysisBuilder) :
    b.resolveReExports.importGraph = b.importGraph :=
  foldl_keeps importGraph addStarExport (fun _ _ => rfl) _ _

theorem reverseGraph_resolveReExports (b : AnalysisBuilder) :
    b.resolveReExports.reverseGraph = b.reverseGraph :=
  foldl_keeps reverseGraph addStarExport (fun _ _ => rfl) _ _

/-- The usages change nothing but the traces. -/
theorem traceUsages_eq (b : AnalysisBuilder) : ∃ traces, b.traceUsages = { b with traces } := by
  rw [traceUsages]
  generalize (b.files.toList.flatMap _) = l
  induction l generalizing b with
  | nil => exact ⟨_, rfl⟩
  | cons p rest ih => exact ih (b.addUsage p)

end AnalysisBuilder

/-! ## All passes -/

namespace ProjectAnalysis
open AnalysisBuilder

variable {c : Config} {paths : List String} {sources : List SourceFile}

theorem path_of_get?_inOrder {path : String} {s : SourceFile} (h : (inOrder sources).get? path = some s) :
    s.path = path := by
  obtain ⟨s', -, heq⟩ := List.mem_map.1 (KeyMap.mem_of_mem_ofList (p := (path, s)) (KeyMap.mem_toList.2 h))
  obtain ⟨rfl, rfl⟩ := Prod.mk.inj heq
  rfl

theorem map_inOrder {β : Type} (f : SourceFile → β) (sources : List SourceFile) :
    (inOrder sources).map (fun _ s => f s) = .ofList (sources.map fun s => (s.path, f s)) := by
  rw [inOrder, KeyMap.map_ofList, List.map_map]
  rfl

/-- What is kept under the paths of the files is the same in whichever order they come. -/
theorem ofList_inOrder {β : Type} (f : SourceFile → β) (sources : List SourceFile) :
    KeyMap.ofList ((inOrder sources).values.map fun s => (s.path, f s)) =
      .ofList (sources.map fun s => (s.path, f s)) := by
  have entries : (inOrder sources).values.map (fun s => (s.path, f s)) =
      ((inOrder sources).map fun _ s => f s).entries := by
    rw [KeyMap.values, List.map_map]
    refine List.map_congr_left fun p hp => ?_
    exact Prod.ext (path_of_get?_inOrder (KeyMap.get?_eq_some.2 hp)) rfl
  rw [entries, KeyMap.ofList_entries, map_inOrder]

theorem values_declaredFiles : (declaredFiles c paths sources).values =
    (inOrder sources).values.map (FileAnalysis.ofSource (c.resolver paths)) := by
  rw [declaredFiles, ← map_inOrder, KeyMap.values_map, KeyMap.values, List.map_map]
  rfl

theorem path_of_get?_declaredFiles {path : String} {f : FileAnalysis}
    (h : (declaredFiles c paths sources).get? path = some f) : f.path = path := by
  rw [declaredFiles, ← map_inOrder, KeyMap.get?_map, Option.map_eq_some_iff] at h
  obtain ⟨s, hs, rfl⟩ := h
  exact path_of_get?_inOrder hs

/-- What the first pass leaves: the files with their texts, and a trace for each symbol they declare. -/
def declaredBuilder (c : Config) (paths : List String) (sources : List SourceFile) : AnalysisBuilder :=
  { files := declaredFiles c paths sources
    contents := .ofList (sources.map fun s => (s.path, s.content))
    traces := .ofListFirst (newTraces (symbolsOf (declaredFiles c paths sources).values)) }

theorem addFiles_inOrder :
    addFiles (c.resolver paths) (inOrder sources).values {} = declaredBuilder c paths sources := by
  have files := ofList_inOrder (FileAnalysis.ofSource (c.resolver paths)) sources
  have contents := ofList_inOrder (·.content) sources
  rw [KeyMap.ofList] at files contents
  rw [addFiles_eq, files, contents, declaredBuilder, values_declaredFiles]
  rfl

/-- The exports that the star re-exports of a file add. -/
def starSymbolsOf (files : KeyMap FileAnalysis) (path : String) (f : FileAnalysis) : List Export :=
  (ExportTable.starExports (files.map fun _ f => f.exports) path f.exports).map (·.2)

def starSymbols (files : KeyMap FileAnalysis) : List Export :=
  files.toList.flatMap fun p => starSymbolsOf files p.1 p.2

theorem starSymbols_eq (files : KeyMap FileAnalysis) :
    (ExportTable.expansions (files.map fun _ f => f.exports)).values.flatMap (fun added => added.map (·.2)) =
      starSymbols files := by
  rw [ExportTable.expansions, KeyMap.values_map, KeyMap.toList, KeyMap.map, List.map_map, List.flatMap_map]
  rfl

theorem of_mem_starSymbolsOf {files : KeyMap FileAnalysis} {path : String} {f : FileAnalysis} {e : Export}
    (h : e ∈ starSymbolsOf files path f) : e.file = path ∧ e.isStar = false := by
  obtain ⟨p, hp, rfl⟩ := List.mem_map.1 h
  exact ⟨ExportTable.file_of_mem_starExports hp, ExportTable.isStar_of_mem_starExports hp⟩

theorem filter_starSymbolsOf (files : KeyMap FileAnalysis) (p : String × FileAnalysis) (path : String) :
    (starSymbolsOf files p.1 p.2).filter (·.file == path) =
      if p.1 == path then starSymbolsOf files p.1 p.2 else [] := by
  split_ifs with here
  · exact List.filter_eq_self.2 fun e he => by rw [(of_mem_starSymbolsOf he).1, here]
  · exact List.filter_eq_nil_iff.2 fun e he => by rw [(of_mem_starSymbolsOf he).1]; exact here

/-- Sorted out by their file, the added exports are those of the one file with the path. -/
theorem filter_starSymbols (files : KeyMap FileAnalysis) (path : String) :
    (starSymbols files).filter (·.file == path) =
      (files.get? path).toList.flatMap (starSymbolsOf files path) := by
  have split (l : List (String × FileAnalysis)) :
      (l.flatMap fun p => starSymbolsOf files p.1 p.2).filter (·.file == path) =
        (l.filter (·.1 == path)).flatMap fun p => starSymbolsOf files p.1 p.2 := by
    induction l with
    | nil => rfl
    | cons p rest ih =>
      rw [List.flatMap_cons, List.filter_append, ih, filter_starSymbolsOf, List.filter_cons]
      split_ifs <;> rfl
  rw [starSymbols, split, KeyMap.filter_toList, List.flatMap_map]

/-- The third pass fills and expands the re-exports of all files. -/
theorem files_resolveReExports (b : AnalysisBuilder) :
    b.resolveReExports.files = withReExports b.files := by
  apply KeyMap.ext_get?
  intro path
  rw [resolveReExports]
  dsimp only
  rw [get?_files_foldl_addStarExport, starSymbols_eq, filter_starSymbols, withReExports]
  dsimp only
  rw [KeyMap.get?_map, KeyMap.get?_map]
  cases b.files.get? path with
  | none => rfl
  | some f => simp [starSymbolsOf]

/-- The symbols of a file after the third pass: its own, filled, and those that its stars add. -/
theorem symbolsOf_withReExports (files : KeyMap FileAnalysis) :
    symbolsOf (withReExports files).values = files.toList.flatMap fun p =>
      (p.2.exports.filter (!·.isStar)).map (ExportTable.fill (files.map fun _ f => f.exports)) ++
        starSymbolsOf files p.1 p.2 := by
  rw [symbolsOf, withReExports, KeyMap.values_map, List.flatMap_map]
  congr 1
  funext p
  have added : (starSymbolsOf files p.1 p.2).filter (!·.isStar) = starSymbolsOf files p.1 p.2 :=
    List.filter_eq_self.2 fun e he => by rw [(of_mem_starSymbolsOf he).2]; rfl
  have filled : ((fun e : Export => !e.isStar) ∘ ExportTable.fill (files.map fun _ f => f.exports)) =
      fun e => !e.isStar := by
    funext e
    simp
  dsimp only
  rw [List.filter_append, List.filter_map, filled]
  exact congrArg _ added

theorem find?_newTraces (l : List Export) (key : String) : (newTraces l).find? (·.1 == key) =
    (l.find? (·.key == key)).map fun e => (e.key, { file := e.file, name := e.name }) :=
  List.find?_map

/-- A symbol that no file declares has the trace of the first star export. -/
theorem find?_withReExports {files : KeyMap FileAnalysis} {key : String}
    (undeclared : (newTraces (symbolsOf files.values)).find? (·.1 == key) = none) :
    (newTraces (symbolsOf (withReExports files).values)).find? (·.1 == key) =
      (newTraces (starSymbols files)).find? (·.1 == key) := by
  rw [find?_newTraces, Option.map_eq_none_iff] at undeclared
  rw [find?_newTraces, find?_newTraces]
  congr 1
  have own (p : String × FileAnalysis) (hp : p ∈ files.toList) : ((p.2.exports.filter (!·.isStar)).map
      (ExportTable.fill (files.map fun _ f => f.exports))).find? (·.key == key) = none := by
    refine List.find?_eq_none.2 fun e he => ?_
    obtain ⟨e, declared, rfl⟩ := List.mem_map.1 he
    rw [ExportTable.fill_key]
    exact List.find?_eq_none.1 undeclared e
      (List.mem_flatMap.2 ⟨p.2, List.mem_map_of_mem hp, declared⟩)
  -- file by file, only what the stars add can have the key
  have each : files.toList.map (fun p => ((p.2.exports.filter (!·.isStar)).map
      (ExportTable.fill (files.map fun _ f => f.exports)) ++ starSymbolsOf files p.1 p.2).find?
        (·.key == key)) = files.toList.map fun p => (starSymbolsOf files p.1 p.2).find? (·.key == key) :=
    List.map_congr_left fun p hp => by rw [List.find?_append, own p hp, Option.none_or]
  have first := congrArg (List.findSome? id) each
  rw [List.findSome?_map, List.findSome?_map] at first
  rw [symbolsOf_withReExports, starSymbols, List.find?_flatMap, List.find?_flatMap]
  exact first

/-- After three passes the trace of a symbol has all of its importers, whether it was there before them or
they waited for it. -/
theorem get?_traces_resolveReExports (b : AnalysisBuilder) (waiting : b.pending = .empty)
    (opened : b.traces = .ofListFirst (newTraces (symbolsOf b.files.values))) (key : String) :
    b.linkImports.resolveReExports.traces.get? key =
      ((openTraces b.files (withReExports b.files)).get? key).map fun t =>
        (valuesOf key (b.files.values.flatMap FileAnalysis.importedSymbols)).foldl Trace.addImporter t := by
  have run : Registers b b.linkImports (b.files.values.flatMap FileAnalysis.importedSymbols) :=
    registers_foldl_addImports _ b
  have declared : b.traces.get? key = ((newTraces (symbolsOf b.files.values)).find? (·.1 == key)).map (·.2) := by
    rw [opened, KeyMap.get?_ofListFirst]
  rw [resolveReExports]
  dsimp only
  rw [get?_traces_foldl_addStarExport, files_linkImports, starSymbols_eq, openTraces, KeyMap.get?_ofListFirst,
    List.find?_append]
  dsimp only
  rw [run.traces, run.pending, waiting, KeyMap.contains, declared]
  cases hfirst : (newTraces (symbolsOf b.files.values)).find? (·.1 == key) with
  | some p => cases (newTraces (starSymbols b.files)).find? (·.1 == key) <;> simp
  | none =>
    rw [find?_withReExports hfirst]
    cases (newTraces (starSymbols b.files)).find? (·.1 == key) <;> simp

/-- The builder before the last two passes: all but the usages and what is computed from them. -/
theorem resolved_declaredBuilder (c : Config) (paths : List String) (sources : List SourceFile) :
    let declared := declaredFiles c paths sources
    let b := (declaredBuilder c paths sources).linkImports.resolveReExports
    b.files = withReExports declared ∧ b.contents = .ofList (sources.map fun s => (s.path, s.content)) ∧
      b.importGraph = importGraphOf declared ∧ b.reverseGraph = reverseOf (importGraphOf declared) ∧
      b.reExportLinks = (exportTable c paths sources).links := by
  intro declared b
  have underPaths : ∀ path f, (declaredBuilder c paths sources).files.get? path = some f → f.path = path :=
    fun _ _ => path_of_get?_declaredFiles
  have links : b.reExportLinks =
      ExportTable.links ((declaredBuilder c paths sources).linkImports.files.map fun _ f => f.exports) := rfl
  refine ⟨?_, ?_, ?_, ?_, ?_⟩
  · rw [files_resolveReExports, files_linkImports]
    rfl
  · rw [contents_resolveReExports, contents_linkImports]
    rfl
  · rw [importGraph_resolveReExports, importGraph_linkImports rfl underPaths]
    rfl
  · rw [reverseGraph_resolveReExports, reverseGraph_linkImports rfl underPaths]
    rfl
  · rw [links, files_linkImports]
    rfl

/-- The passes one after another find what the files say together. -/
theorem ofFiles_eq_gathered (c : Config) (paths : List String) (sources : List SourceFile) :
    ofFiles c paths sources = gathered c paths sources := by
  obtain ⟨files, contents, importGraph, reverseGraph, links⟩ := resolved_declaredBuilder c paths sources
  let b := (declaredBuilder c paths sources).linkImports.resolveReExports
  have registered (key : String) :=
    get?_traces_resolveReExports (declaredBuilder c paths sources) rfl rfl key
  have run : ofFiles c paths sources = b.traceUsages.finish c.rootDir := by
    rw [ofFiles, addFiles_inOrder]
  obtain ⟨traces, used⟩ := traceUsages_eq b
  have filled (key : String) : traces.get? key = (b.traces.get? key).map fun t =>
      { t with usages := t.usages ++ valuesOf key (b.files.toList.flatMap fun p =>
        p.2.usages ((b.contents.get? p.1).getD "")) } := by
    have pass := get?_traces_foldl_addUsage (b.files.toList.flatMap fun p =>
      p.2.usages ((b.contents.get? p.1).getD "")) b key
    have same : (b.traceUsages.traces).get? key = traces.get? key := by rw [used]
    exact same.symm.trans pass
  have complete : traces.map (fun _ t => { t with
      usageCount := t.usages.length
      dependents := (reverseOf (importGraphOf (declaredFiles c paths sources))).dependents
        (t.importers.map (·.file)) t.file }) = (gathered c paths sources).traces := by
    refine KeyMap.ext_get? fun key => ?_
    rw [gathered, KeyMap.get?_map, KeyMap.get?_map, filled, registered, Option.map_map, Option.map_map, files,
      contents]
    rfl
  rw [run, used, finish]
  dsimp only
  rw [files, importGraph, reverseGraph, links, complete]
  rfl

theorem importGraph_ofFiles :
    (ofFiles c paths sources).importGraph = importGraphOf (declaredFiles c paths sources) := by
  rw [ofFiles_eq_gathered]
  rfl

theorem reverseGraph_ofFiles : (ofFiles c paths sources).reverseGraph =
    reverseOf (ofFiles c paths sources).importGraph := by
  rw [ofFiles_eq_gathered]
  rfl

theorem reExportLinks_ofFiles :
    (ofFiles c paths sources).reExportLinks = (exportTable c paths sources).links := by
  rw [ofFiles_eq_gathered]
  rfl

theorem exports_ofFiles :
    (ofFiles c paths sources).exports = exportIndex (ofFiles c paths sources).files := by
  rw [ofFiles_eq_gathered]
  rfl

end ProjectAnalysis
end SymbolGraph
