import SymbolGraph.Proofs.Project.Build
import SymbolGraph.Proofs.Project.UnusedReport

/-!
# Symbols used through re-exports

An import by a re-exported name keeps the declaration behind the name from being reported as unused
exactly if the recorded links lead from the one to the other.
-/
namespace SymbolGraph.ProjectAnalysis
open Relation

variable {c : Config} {paths : List String} {sources : List SourceFile}

/-! ## Reports -/

theorem mem_unused {p : ProjectAnalysis} {entry : EntryPoints} {strict : Bool} {u : UnusedExport}
    (h : u ∈ p.unused entry strict) : p.Exports u.symbol ∧ ∃ kind, p.classify u.symbol = some kind := by
  obtain ⟨path, f, hf, -, he, hstar, kind, hkind, -⟩ := mem_unused_iff.1 h
  exact ⟨⟨path, f, hf, he, hstar⟩, kind, hkind⟩

/-- Only the exports of entry points are left out, and not if the report is strict. -/
theorem exists_mem_unused {p : ProjectAnalysis} {path : String} {f : FileAnalysis} {e : Export}
    {kind : UnusedKind} (entry : EntryPoints) (strict : Bool) (hf : p.files.get? path = some f)
    (he : e ∈ f.exports) (hstar : e.isStar = false) (hkind : p.classify e = some kind)
    (shown : (entry.covers path && !strict) = false) : ∃ u ∈ p.unused entry strict, u.symbol = e := by
  rw [Bool.and_eq_false_iff, Bool.not_eq_false'] at shown
  exact ⟨⟨e, _⟩, mem_unused_iff.2 ⟨path, f, hf, shown, he, hstar, kind, hkind, rfl⟩, rfl⟩

/-! ## Names that stand for a symbol -/

theorem mem_reExporters (proper : (exportTable c paths sources).Proper)
    (bounded : (exportTable c paths sources).BoundedChains) {key k : String} :
    k ∈ (ofFiles c paths sources).reExporters key ↔
      k ≠ key ∧ ReflTransGen (exportTable c paths sources).Linked k key := by
  have edge : FileGraph.Edge (ofFiles c paths sources).reExportLinks =
      Function.swap (exportTable c paths sources).Linked := by
    rw [reExportLinks_ofFiles]
    exact funext₂ fun _ _ => propext (ExportTable.mem_links proper bounded)
  rw [mem_reExporters_iff, edge, transGen_swap]
  constructor
  · rintro ⟨hne, leads⟩
    exact ⟨hne, leads.to_reflTransGen⟩
  · rintro ⟨hne, leads⟩
    exact ⟨hne, (reflTransGen_iff_eq_or_transGen.1 leads).resolve_left hne.symm⟩

/-- A symbol counts as imported if it is exported and some file imports it by name. -/
theorem isImported_of_imports {e : Export} {path source name : String} {f : FileAnalysis}
    (he : (ofFiles c paths sources).Exports e) (hf : (ofFiles c paths sources).files.get? path = some f)
    (imports : f.Imports source name) (hname : name ≠ "") (hstar : name ≠ starName)
    (hkey : symbolKey source name = e.key) : (ofFiles c paths sources).isImported e.key = true := by
  obtain ⟨t, ht⟩ := exists_get?_traces he
  have importers := (importers_ne_nil_iff ht).2 ⟨source, name, ⟨path, f, hf, imports⟩, hname, hstar, hkey⟩
  rw [isImported, ht]
  simpa [Trace.isImported] using importers

theorem exists_imports_of_isImported {key : String}
    (h : (ofFiles c paths sources).isImported key = true) :
    ∃ source name, (∃ path f, (ofFiles c paths sources).files.get? path = some f ∧
      f.Imports source name) ∧ name ≠ "" ∧ name ≠ starName ∧ symbolKey source name = key := by
  unfold isImported at h
  cases ht : (ofFiles c paths sources).traces.get? key with
  | none =>
    rw [ht] at h
    cases h
  | some t =>
    rw [ht] at h
    exact (importers_ne_nil_iff ht).1 (by simpa [Trace.isImported] using h)

/-! ## Declarations imported under other names -/

/-- What must be recorded for an import of one name to count for another: the name has a text, and the
links lead from it to the other one. Where both have one key, an import alone is enough only for types. -/
structure RecordsUse (p : ProjectAnalysis) (table : ExportTable) (s t : String × String) : Prop where
  named : s.2 ≠ ""
  linked : ReflTransGen table.Linked (symbolKey s.1 s.2) (symbolKey t.1 t.2)
  typeOnly : symbolKey s.1 s.2 = symbolKey t.1 t.2 → ∀ e, p.Exports e → e.key = symbolKey t.1 t.2 →
    e.kind.hasRuntimeUsage = false

/-- Of a symbol and the names that re-export it none is used, and only the name `s` is imported. -/
structure OnlyImportedAs (p : ProjectAnalysis) (s t : String × String) : Prop where
  unused : ∀ k, k = symbolKey t.1 t.2 ∨ k ∈ p.reExporters (symbolKey t.1 t.2) → p.isUsed k = false
  imported : ∀ path f source name, p.files.get? path = some f → f.Imports source name →
    symbolKey source name = symbolKey t.1 t.2 ∨
      symbolKey source name ∈ p.reExporters (symbolKey t.1 t.2) → (source, name) = s

/-- A symbol for which a use is recorded is not reported. -/
theorem classify_of_recordsUse (proper : (exportTable c paths sources).Proper)
    (bounded : (exportTable c paths sources).BoundedChains) {path : String} {f : FileAnalysis}
    {s t : String × String} (hf : (ofFiles c paths sources).files.get? path = some f)
    (imports : f.Imports s.1 s.2) (hstar : s.2 ≠ starName)
    (records : (ofFiles c paths sources).RecordsUse (exportTable c paths sources) s t) {e : Export}
    (he : (ofFiles c paths sources).Exports e) (hkey : e.key = symbolKey t.1 t.2) :
    (ofFiles c paths sources).classify e = none := by
  unfold classify
  rw [hkey]
  by_cases same : symbolKey s.1 s.2 = symbolKey t.1 t.2
  · have imported : (ofFiles c paths sources).isImported (symbolKey t.1 t.2) = true :=
      hkey ▸ isImported_of_imports he hf imports records.named hstar (same.trans hkey.symm)
    have type := records.typeOnly same e he hkey
    simp [imported, type]
  · -- the first link shows that the imported name is exported
    have imported : (ofFiles c paths sources).isImported (symbolKey s.1 s.2) = true := by
      rcases ReflTransGen.cases_head records.linked with heq | ⟨_, ⟨s', _, passes, hs', -⟩, -⟩
      · exact absurd heq same
      · obtain ⟨e', he', hkey'⟩ := exists_exports_of_passesOn proper bounded passes
        have key : e'.key = symbolKey s.1 s.2 := hkey'.trans hs'
        exact key ▸ isImported_of_imports he' hf imports records.named hstar key.symm
    have live : (ofFiles c paths sources).isLiveThroughOthers (symbolKey t.1 t.2) = true := by
      refine List.any_eq_true.2 ⟨symbolKey s.1 s.2, (mem_reExporters proper bounded).2 ⟨same, records.linked⟩, ?_⟩
      rw [imported, Bool.true_or]
    simp [live]

/-- The key of an imported name is that of the only one. -/
theorem OnlyImportedAs.of_isImported {s t : String × String} {k : String}
    (only : (ofFiles c paths sources).OnlyImportedAs s t)
    (hk : k = symbolKey t.1 t.2 ∨ k ∈ (ofFiles c paths sources).reExporters (symbolKey t.1 t.2))
    (h : (ofFiles c paths sources).isImported k = true) : s.2 ≠ "" ∧ symbolKey s.1 s.2 = k := by
  obtain ⟨source, name, ⟨path, f, hf, imports⟩, hname, -, rfl⟩ := exists_imports_of_isImported h
  obtain rfl := only.imported path f source name hf imports hk
  exact ⟨hname, rfl⟩

theorem OnlyImportedAs.of_isLiveThroughOthers (proper : (exportTable c paths sources).Proper)
    (bounded : (exportTable c paths sources).BoundedChains) {s t : String × String}
    (only : (ofFiles c paths sources).OnlyImportedAs s t)
    (h : (ofFiles c paths sources).isLiveThroughOthers (symbolKey t.1 t.2) = true) :
    s.2 ≠ "" ∧ symbolKey s.1 s.2 ≠ symbolKey t.1 t.2 ∧
      ReflTransGen (exportTable c paths sources).Linked (symbolKey s.1 s.2) (symbolKey t.1 t.2) := by
  obtain ⟨k, hk, live⟩ := List.any_eq_true.1 h
  rw [only.unused k (Or.inr hk), Bool.or_false] at live
  obtain ⟨hname, rfl⟩ := only.of_isImported (Or.inr hk) live
  exact ⟨hname, (mem_reExporters proper bounded).1 hk⟩

/-- Where nothing else uses a symbol that is not reported, the use is recorded. -/
theorem recordsUse_of_classify (proper : (exportTable c paths sources).Proper)
    (bounded : (exportTable c paths sources).BoundedChains) {s t : String × String}
    (only : (ofFiles c paths sources).OnlyImportedAs s t) {e : Export}
    (he : (ofFiles c paths sources).Exports e) (hkey : e.key = symbolKey t.1 t.2)
    (silent : ∀ e', (ofFiles c paths sources).Exports e' → e'.key = symbolKey t.1 t.2 →
      (ofFiles c paths sources).classify e' = none) :
    (ofFiles c paths sources).RecordsUse (exportTable c paths sources) s t := by
  have unused : (ofFiles c paths sources).isUsed (symbolKey t.1 t.2) = false := only.unused _ (Or.inl rfl)
  cases live : (ofFiles c paths sources).isLiveThroughOthers (symbolKey t.1 t.2) with
  | true =>
    obtain ⟨hname, apart, linked⟩ := only.of_isLiveThroughOthers proper bounded live
    exact ⟨hname, linked, fun same => absurd same apart⟩
  | false =>
    -- only the import of the symbol itself is left, and that is enough for types alone
    have kinds (e' : Export) (he' : (ofFiles c paths sources).Exports e')
        (hkey' : e'.key = symbolKey t.1 t.2) :
        (ofFiles c paths sources).isImported (symbolKey t.1 t.2) = true ∧
          e'.kind.hasRuntimeUsage = false := by
      have none := silent e' he' hkey'
      unfold classify at none
      rw [hkey', unused, live, Bool.or_false, if_neg Bool.false_ne_true] at none
      split_ifs at none with imported runtime
      exact ⟨by simpa using imported, by simpa using runtime⟩
    obtain ⟨hname, same⟩ := only.of_isImported (Or.inl rfl) (kinds e he hkey).1
    exact ⟨hname, by rw [same], fun _ e' he' hkey' => (kinds e' he' hkey').2⟩

/-- A file imports a name of another file that leads through re-exports to one declaration. The
declaration is not reported as unused if the links record the use, and if nothing else uses it, only
then. They do record it where re-exports run in no circle and lead nowhere else than to declarations. -/
theorem unreported_iff_recordsUse (scripts : ∀ f ∈ sources, f.IsScript)
    (bounded : (exportTable c paths sources).BoundedChains) {path a m b n : String} {f : FileAnalysis}
    (hf : (ofFiles c paths sources).files.get? path = some f) (imports : f.Imports b n)
    (sole : (exportTable c paths sources).SoleOrigin (b, n) (a, m)) :
    let p := ofFiles c paths sources
    let table := exportTable c paths sources
    (p.RecordsUse table (b, n) (a, m) →
      ∀ entry strict, ∀ u ∈ p.unused entry strict, u.symbol.key ≠ symbolKey a m) ∧
    (p.OnlyImportedAs (b, n) (a, m) →
      ∀ entry, (∀ u ∈ p.unused entry true, u.symbol.key ≠ symbolKey a m) ↔
        p.RecordsUse table (b, n) (a, m)) ∧
    (n ≠ "" → symbolKey b n ≠ symbolKey a m → (∀ file, ¬ TransGen table.ReExportEdge file file) →
      (∀ file name source, ReflTransGen table.Hop (b, n) (file, name) → table.StarEdge file source →
        table.Offers source name →
          ∃ t, ReflTransGen table.Hop (source, name) t ∧ table.declares t = true) →
      p.RecordsUse table (b, n) (a, m)) := by
  intro p table
  have proper : table.Proper := proper_exportTable scripts
  have silent (records : p.RecordsUse table (b, n) (a, m)) (entry : EntryPoints) (strict : Bool) :
      ∀ u ∈ p.unused entry strict, u.symbol.key ≠ symbolKey a m := by
    intro u hu hkey
    obtain ⟨exported, kind, hkind⟩ := mem_unused hu
    rw [classify_of_recordsUse proper bounded hf imports sole.ne_starName records exported hkey] at hkind
    cases hkind
  refine ⟨silent, fun only entry => ⟨fun unreported => ?_, fun records => silent records entry true⟩,
    fun hname apart acyclic alive => ?_⟩
  · obtain ⟨e, he, -⟩ := ExportTable.declares_iff.1 ((sole (a, m)).2 rfl).2
    obtain ⟨mem, hname, hstar⟩ := ExportTable.own?_eq_some he
    have exported : p.Exports (table.fill e) :=
      exports_iff.2 ⟨by rw [ExportTable.fill_isStar, hstar], a, Or.inl ⟨e, mem, rfl⟩⟩
    have key : (table.fill e).key = symbolKey a m := by
      rw [ExportTable.fill_key, Export.key, proper.file_eq a e mem, hname]
    refine recordsUse_of_classify proper bounded only exported key fun e' he' hkey' => ?_
    by_contra reported
    obtain ⟨kind, hkind⟩ := Option.ne_none_iff_exists'.1 reported
    obtain ⟨path', f', hf', mem', hstar'⟩ := he'
    obtain ⟨u, hu, rfl⟩ := exists_mem_unused entry true hf' mem' hstar' hkind (Bool.and_false _)
    exact unreported u hu hkey'
  · have passes := ExportTable.passesOn_of_acyclic bounded proper acyclic sole alive
    have linked : ∀ s t, table.PassesOn s t → table.Linked (symbolKey s.1 s.2) (symbolKey t.1 t.2) :=
      fun s t h => ⟨s, t, h, rfl, rfl⟩
    exact ⟨hname, passes.lift (fun s => symbolKey s.1 s.2) linked, fun same => absurd same apart⟩

/-- A function that is imported through a star re-export. -/
theorem unreported_through_star :
    let c : Config := { rootDir := "/r" }
    let paths := ["b.ts", "main.ts", "r.ts"]
    let sources : List SourceFile := [.script "b.ts" "export * from './r';\n",
      .script "main.ts" "import \x7b n \x7d from './b';\nn();\n",
      .script "r.ts" "export function n() \x7b return 1; \x7d\n"]
    ∀ entry strict, ∀ u ∈ (ofFiles c paths sources).unused entry strict,
      u.symbol.key ≠ symbolKey "r.ts" "n" := by
  intro c paths sources
  have scripts : ∀ f ∈ sources, f.IsScript := by
    intro f hf
    simp only [sources, List.mem_cons, List.not_mem_nil, or_false] at hf
    rcases hf with rfl | rfl | rfl <;> exact SourceFile.isScript_script (by decide +kernel) _
  have table : exportTable c paths sources = .ofList
      [("b.ts", [⟨"*", .unknown, "b.ts", 1, false, true, some "r.ts", none, none⟩]), ("main.ts", []),
        ("r.ts", [⟨"n", .function, "r.ts", 1, false, false, none, none, some "()"⟩])] := by
    decide +kernel
  have bounded : (exportTable c paths sources).BoundedChains :=
    ExportTable.boundedChains_of_size (by rw [table]; decide +kernel)
  have sole : (exportTable c paths sources).SoleOrigin ("b.ts", "n") ("r.ts", "n") := by
    rw [table]
    exact ExportTable.soleOrigin_of_closed [("r.ts", "n")] (by decide +kernel)
      (TransGen.single (show _ ∈ ExportTable.hops _ _ by decide +kernel)) (by decide +kernel)
      (by decide +kernel)
  obtain ⟨path, f, hf, imports⟩ : ∃ path f, (ofFiles c paths sources).files.get? path = some f ∧
      f.Imports "b.ts" "n" := exists_imports_iff.2 (by decide +kernel)
  have linked : (exportTable c paths sources).Linked "b.ts:n" "r.ts:n" :=
    (ExportTable.mem_links (proper_exportTable scripts) bounded).1 (by rw [table]; decide +kernel)
  exact (unreported_iff_recordsUse scripts bounded hf imports sole).1
    ⟨by decide, ReflTransGen.single linked, fun same => absurd same (by decide)⟩

/-- Two files name each other in star re-exports, and the first of them also names the file that declares
the function. The function is imported from the first file and still reported. -/
theorem reported_behind_circle :
    let c : Config := { rootDir := "/r" }
    let paths := ["b.ts", "main.ts", "q.ts", "r.ts"]
    let sources : List SourceFile := [.script "b.ts" "export * from './q';\nexport * from './r';\n",
      .script "main.ts" "import \x7b n \x7d from './b';\nn();\n", .script "q.ts" "export * from './b';\n",
      .script "r.ts" "export function n() \x7b return 1; \x7d\n"]
    let p := ofFiles c paths sources
    let table := exportTable c paths sources
    (∀ f ∈ sources, f.IsScript) ∧ table.BoundedChains ∧
      (∃ path f, p.files.get? path = some f ∧ f.Imports "b.ts" "n") ∧
      table.SoleOrigin ("b.ts", "n") ("r.ts", "n") ∧
      ∀ strict, ∃ u ∈ p.unused {} strict, u.symbol.key = symbolKey "r.ts" "n" := by
  intro c paths sources p table
  have scripts : ∀ f ∈ sources, f.IsScript := by
    intro f hf
    simp only [sources, List.mem_cons, List.not_mem_nil, or_false] at hf
    rcases hf with rfl | rfl | rfl | rfl <;> exact SourceFile.isScript_script (by decide +kernel) _
  have exports : table = .ofList
      [("b.ts", [⟨"*", .unknown, "b.ts", 1, false, true, some "q.ts", none, none⟩,
          ⟨"*", .unknown, "b.ts", 2, false, true, some "r.ts", none, none⟩]), ("main.ts", []),
        ("q.ts", [⟨"*", .unknown, "q.ts", 1, false, true, some "b.ts", none, none⟩]),
        ("r.ts", [⟨"n", .function, "r.ts", 1, false, false, none, none, some "()"⟩])] := by
    decide +kernel
  have sole : table.SoleOrigin ("b.ts", "n") ("r.ts", "n") := by
    rw [exports]
    exact ExportTable.soleOrigin_of_closed [("b.ts", "n"), ("q.ts", "n"), ("r.ts", "n")]
      (by decide +kernel) (TransGen.single (show _ ∈ ExportTable.hops _ _ by decide +kernel))
      (by decide +kernel) (by decide +kernel)
  refine ⟨scripts, ExportTable.boundedChains_of_size (by rw [exports]; decide +kernel),
    exists_imports_iff.2 (by decide +kernel), sole, fun strict => ?_⟩
  have reported : ∃ q ∈ p.files.toList, q.1 = "r.ts" ∧ ∃ e ∈ q.2.exports, e.isStar = false ∧
      e.key = symbolKey "r.ts" "n" ∧ p.classify e = some .neverUsed := by
    decide +kernel
  obtain ⟨⟨_, f⟩, hf, rfl, e, he, hstar, hkey, hkind⟩ := reported
  have inner : EntryPoints.covers {} "r.ts" = false := by decide +kernel
  obtain ⟨u, hu, rfl⟩ := exists_mem_unused {} strict (KeyMap.mem_toList.1 hf) he hstar hkind
    (by rw [inner, Bool.false_and])
  exact ⟨u, hu, hkey⟩

end SymbolGraph.ProjectAnalysis
