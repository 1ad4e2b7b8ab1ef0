import Mathlib.Data.Prod.Lex
import SymbolGraph.Project.Unused
import SymbolGraph.Proofs.Project.ImportGraph

/-!
# What is reported as unused

An export is unused if it is not used itself, no other symbol that re-exports it is imported or used, and
an import of it is not all that a type can show. The report has each unused export of the files that it
covers once, in the order of file, line and name.
-/
namespace SymbolGraph
open Relation

/-- Where an export stands in the order of reports. -/
def Export.place (e : Export) : String ×ₗ ℕ ×ₗ String := toLex (e.file, toLex (e.line, e.name))

namespace ProjectAnalysis

variable {p : ProjectAnalysis} {entry : EntryPoints} {strict : Bool} {key : String} {e : Export}

/-! ## Liveness -/

def HasImporters (p : ProjectAnalysis) (key : String) : Prop :=
  ∃ t, p.traces.get? key = some t ∧ t.importers ≠ []

def HasUsages (p : ProjectAnalysis) (key : String) : Prop :=
  ∃ t, p.traces.get? key = some t ∧ t.usages ≠ []

theorem isImported_iff : p.isImported key = true ↔ p.HasImporters key := by
  simp [isImported, HasImporters, Trace.isImported, Option.any_eq_true]

theorem isUsed_iff : p.isUsed key = true ↔ p.HasUsages key := by
  simp [isUsed, HasUsages, Trace.isUsed, Option.any_eq_true]

/-- The search along the links finds what one or more of them lead to, apart from where it starts. -/
theorem mem_reExporters_iff {k : String} :
    k ∈ p.reExporters key ↔ k ≠ key ∧ TransGen (FileGraph.Edge p.reExportLinks) key k := by
  unfold reExporters
  rw [List.mem_filter, Digraph.mem_breadthFirst, bne_iff_ne]
  simp only [List.mem_singleton, exists_eq_left, Digraph.Reaches, FileGraph.edge_digraph]
  constructor
  · rintro ⟨reaches, hne⟩
    exact ⟨hne, (reflTransGen_iff_eq_or_transGen.1 reaches).resolve_left hne⟩
  · rintro ⟨hne, leads⟩
    exact ⟨leads.to_reflTransGen, hne⟩

theorem isLiveThroughOthers_iff : p.isLiveThroughOthers key = true ↔
    ∃ k, k ≠ key ∧ TransGen (FileGraph.Edge p.reExportLinks) key k ∧ (p.HasImporters k ∨ p.HasUsages k) := by
  unfold isLiveThroughOthers
  simp only [List.any_eq_true, mem_reExporters_iff, Bool.or_eq_true, isImported_iff, isUsed_iff, and_assoc]

/-- No use of the export is recorded, neither its own nor one of a symbol that re-exports it. -/
structure IsUnused (p : ProjectAnalysis) (e : Export) : Prop where
  not_used : ¬ p.HasUsages e.key
  not_live : ∀ k, k ≠ e.key → TransGen (FileGraph.Edge p.reExportLinks) e.key k →
    ¬ p.HasImporters k ∧ ¬ p.HasUsages k
  not_type : ¬ p.HasImporters e.key ∨ e.kind ≠ .type ∧ e.kind ≠ .interface

theorem hasRuntimeUsage_iff {k : ExportKind} :
    k.hasRuntimeUsage = true ↔ k ≠ .type ∧ k ≠ .interface := by
  cases k <;> simp [ExportKind.hasRuntimeUsage]

theorem classify_eq_some_iff {kind : UnusedKind} : p.classify e = some kind ↔
    p.IsUnused e ∧ (¬ p.HasImporters e.key ∧ kind = .neverUsed ∨
      p.HasImporters e.key ∧ kind = .importedNotUsed) := by
  have live : (p.isUsed e.key || p.isLiveThroughOthers e.key) = false ↔ ¬ p.HasUsages e.key ∧
      ∀ k, k ≠ e.key → TransGen (FileGraph.Edge p.reExportLinks) e.key k →
        ¬ p.HasImporters k ∧ ¬ p.HasUsages k := by
    rw [Bool.or_eq_false_iff, ← Bool.not_eq_true, ← Bool.not_eq_true, isUsed_iff, isLiveThroughOthers_iff]
    simp only [not_exists, not_and, not_or]
  unfold classify
  split_ifs with used imported runtime
  · constructor
    · intro h
      cases h
    · rintro ⟨unused, -⟩
      rw [live.2 ⟨unused.not_used, unused.not_live⟩] at used
      cases used
  · obtain ⟨notUsed, notLive⟩ := live.1 (by simpa using used)
    have fresh : ¬ p.HasImporters e.key := by
      rw [← isImported_iff]
      simpa using imported
    have unused : p.IsUnused e := ⟨notUsed, notLive, .inl fresh⟩
    simp [unused, fresh, eq_comm]
  · obtain ⟨notUsed, notLive⟩ := live.1 (by simpa using used)
    have known : p.HasImporters e.key := isImported_iff.1 (by simpa using imported)
    have unused : p.IsUnused e := ⟨notUsed, notLive, .inr (hasRuntimeUsage_iff.1 runtime)⟩
    simp [unused, known, eq_comm]
  · have known : p.HasImporters e.key := isImported_iff.1 (by simpa using imported)
    constructor
    · intro h
      cases h
    · rintro ⟨unused, -⟩
      exact absurd (hasRuntimeUsage_iff.2 (unused.not_type.resolve_left (not_not_intro known))) runtime

theorem isUnused_iff : p.IsUnused e ↔ (p.classify e).isSome = true := by
  rw [Option.isSome_iff_exists]
  simp only [classify_eq_some_iff]
  constructor
  · intro unused
    by_cases known : p.HasImporters e.key
    · exact ⟨.importedNotUsed, unused, .inr ⟨known, rfl⟩⟩
    · exact ⟨.neverUsed, unused, .inl ⟨known, rfl⟩⟩
  · rintro ⟨_, unused, -⟩
    exact unused

instance (p : ProjectAnalysis) (e : Export) : Decidable (p.IsUnused e) :=
  decidable_of_iff _ isUnused_iff.symm

/-! ## Reports -/

theorem unusedIn_of_shown {isEntry : Bool} (shown : isEntry = false ∨ strict = true) (f : FileAnalysis) :
    p.unusedIn isEntry strict f = (f.exports.filter (!·.isStar)).filterMap fun e =>
      (p.classify e).map fun kind => ⟨e, if isEntry then .entryPoint else kind⟩ := by
  have visible : (isEntry && !strict) = false := by rcases shown with h | h <;> simp [h]
  rw [unusedIn, visible, if_neg Bool.false_ne_true]

theorem unusedIn_of_not_shown {isEntry : Bool} (hidden : ¬ (isEntry = false ∨ strict = true))
    (f : FileAnalysis) : p.unusedIn isEntry strict f = [] := by
  have hidden : (isEntry && !strict) = true := by simpa using hidden
  rw [unusedIn, hidden, if_pos rfl]

theorem mem_unusedIn {isEntry : Bool} {f : FileAnalysis} {u : UnusedExport} :
    u ∈ p.unusedIn isEntry strict f ↔ (isEntry = false ∨ strict = true) ∧ u.symbol ∈ f.exports ∧
      u.symbol.isStar = false ∧ ∃ kind, p.classify u.symbol = some kind ∧
        u.kind = if isEntry then .entryPoint else kind := by
  by_cases shown : isEntry = false ∨ strict = true
  · simp only [unusedIn_of_shown shown, List.mem_filterMap, List.mem_filter, Option.map_eq_some_iff,
      Bool.not_eq_true']
    constructor
    · rintro ⟨e, ⟨he, hstar⟩, kind, hkind, rfl⟩
      exact ⟨shown, he, hstar, kind, hkind, rfl⟩
    · rintro ⟨-, he, hstar, kind, hkind, heq⟩
      exact ⟨u.symbol, ⟨he, hstar⟩, kind, hkind, by rw [← heq]⟩
  · simp [unusedIn_of_not_shown shown, shown]

theorem mem_unused_iff {u : UnusedExport} : u ∈ p.unused entry strict ↔
    ∃ path f, p.files.get? path = some f ∧ (entry.covers path = false ∨ strict = true) ∧
      u.symbol ∈ f.exports ∧ u.symbol.isStar = false ∧ ∃ kind, p.classify u.symbol = some kind ∧
        u.kind = if entry.covers path then .entryPoint else kind := by
  unfold unused
  simp only [List.mem_mergeSort, List.mem_flatMap, Prod.exists, mem_unusedIn, KeyMap.mem_toList]

/-- A file adds each of its unused exports as often as it has it. -/
theorem symbols_unusedIn (isEntry : Bool) (f : FileAnalysis) :
    (p.unusedIn isEntry strict f).map (·.symbol) = f.exports.filter fun e =>
      e.isStar = false ∧ p.IsUnused e ∧ (isEntry = false ∨ strict = true) := by
  by_cases shown : isEntry = false ∨ strict = true
  · rw [unusedIn_of_shown shown, List.map_filterMap, List.filterMap_filter, ← List.filterMap_eq_filter]
    refine List.filterMap_congr fun e _ => ?_
    cases hclass : p.classify e with
    | none => simp [isUnused_iff, hclass, Option.guard]
    | some kind => cases hstar : e.isStar <;> simp [isUnused_iff, hclass, Option.guard, shown, hstar]
  · simp [unusedIn_of_not_shown shown, shown]

theorem reportedBefore_iff {u v : UnusedExport} :
    reportedBefore u v = true ↔ u.symbol.place ≤ v.symbol.place := by
  simp only [reportedBefore, Export.place, Prod.Lex.toLex_le_toLex, Bool.or_eq_true, Bool.and_eq_true,
    decide_eq_true_eq, beq_iff_eq]

theorem unused_sorted (p : ProjectAnalysis) (entry : EntryPoints) (strict : Bool) :
    (p.unused entry strict).Pairwise fun u v => u.symbol.place ≤ v.symbol.place := by
  have sorted : (p.unused entry strict).Pairwise fun u v => reportedBefore u v = true :=
    List.pairwise_mergeSort (fun _ _ _ => by simpa only [reportedBefore_iff] using le_trans)
      (fun _ _ => by simpa only [Bool.or_eq_true, reportedBefore_iff] using le_total _ _) _
  exact sorted.imp reportedBefore_iff.1

/-- The files hold exports of their own only, so that the file of an export decides if it is shown. -/
theorem symbols_unused_perm (keyed : ∀ path f, p.files.get? path = some f → ∀ e ∈ f.exports, e.file = path)
    (entry : EntryPoints) (strict : Bool) :
    ((p.unused entry strict).map (·.symbol)).Perm
      ((p.files.values.flatMap (·.exports)).filter fun e =>
        e.isStar = false ∧ p.IsUnused e ∧ (entry.covers e.file = false ∨ strict = true)) := by
  have sorted : (p.unused entry strict).Perm
      (p.files.toList.flatMap fun q => p.unusedIn (entry.covers q.1) strict q.2) :=
    List.mergeSort_perm _ _
  refine (sorted.map _).trans (List.Perm.of_eq ?_)
  rw [List.map_flatMap, List.filter_flatMap, KeyMap.values, List.flatMap_map]
  refine List.flatMap_congr fun q hq => ?_
  rw [symbols_unusedIn]
  refine List.filter_congr fun e he => ?_
  rw [keyed q.1 q.2 (KeyMap.mem_toList.1 hq) e he]

/-- What a report of unused exports says about the exports of an analysis. -/
structure IsExactReport (p : ProjectAnalysis) (entry : EntryPoints) (strict : Bool)
    (report : List UnusedExport) : Prop where
  reported_iff : ∀ path f e, p.files.get? path = some f → e ∈ f.exports → e.isStar = false →
    ((∃ u ∈ report, u.symbol = e) ↔ p.IsUnused e ∧ (entry.covers path = false ∨ strict = true))
  entryPoint : ∀ u ∈ report, entry.covers u.symbol.file = true → u.kind = .entryPoint
  neverUsed : ∀ u ∈ report, entry.covers u.symbol.file = false → ¬ p.HasImporters u.symbol.key →
    u.kind = .neverUsed
  importedNotUsed : ∀ u ∈ report, entry.covers u.symbol.file = false → p.HasImporters u.symbol.key →
    u.kind = .importedNotUsed
  sorted : report.Pairwise fun u v => u.symbol.place ≤ v.symbol.place
  /-- Each export that is to be reported has one entry, and there are no others. -/
  one_each : (report.map (·.symbol)).Perm ((p.files.values.flatMap (·.exports)).filter fun e =>
    e.isStar = false ∧ p.IsUnused e ∧ (entry.covers e.file = false ∨ strict = true))

theorem kind_of_mem_unused (keyed : ∀ path f, p.files.get? path = some f → ∀ e ∈ f.exports, e.file = path)
    {u : UnusedExport} (hu : u ∈ p.unused entry strict) :
    if entry.covers u.symbol.file then u.kind = .entryPoint
    else ¬ p.HasImporters u.symbol.key ∧ u.kind = .neverUsed ∨
      p.HasImporters u.symbol.key ∧ u.kind = .importedNotUsed := by
  obtain ⟨path, f, hf, -, he, -, kind, hclass, hkind⟩ := mem_unused_iff.1 hu
  rw [keyed path f hf u.symbol he]
  split_ifs at hkind ⊢ with inside
  · exact hkind
  · rw [hkind]
    exact (classify_eq_some_iff.1 hclass).2

/-- Where the files of an analysis hold exports of their own only, its report of unused exports is exact. -/
theorem isExactReport_unused
    (keyed : ∀ path f, p.files.get? path = some f → ∀ e ∈ f.exports, e.file = path)
    (entry : EntryPoints) (strict : Bool) : p.IsExactReport entry strict (p.unused entry strict) := by
  have perm := symbols_unused_perm keyed entry strict
  refine ⟨fun path f e hf he hstar => ?_, fun u hu inside => ?_, fun u hu outside fresh => ?_,
    fun u hu outside known => ?_, unused_sorted p entry strict, perm⟩
  · have listed : e ∈ p.files.values.flatMap (·.exports) :=
      List.mem_flatMap.2 ⟨f, KeyMap.mem_values.2 ⟨path, hf⟩, he⟩
    have reported := perm.mem_iff (a := e)
    simpa [listed, hstar, keyed path f hf e he] using reported
  · simpa [inside] using kind_of_mem_unused keyed hu
  · simpa [outside, fresh] using kind_of_mem_unused keyed hu
  · simpa [outside, known] using kind_of_mem_unused keyed hu

/-- `b.ts` and `c.ts` pass `foo` on to each other, and it is imported from `c.ts` alone. That keeps `foo` of
`a.ts` and of `b.ts` from being reported, but not that of `c.ts` itself. -/
theorem isExactReport_unused_circle :
    let symbol (file name : String) (kind : ExportKind) (line : Nat) : Export := { name, kind, file, line }
    let imported (file name : String) : String × Trace :=
      (symbolKey file name, { file, name, importers := [⟨"main.ts", none, 1⟩] })
    let p : ProjectAnalysis :=
      { rootDir := "/r"
        files := .ofList
          [("a.ts", { path := "a.ts", exports := [symbol "a.ts" "foo" .function 3,
              symbol "a.ts" "dead" .function 2, symbol "a.ts" "Shape" .interface 1] }),
            ("b.ts", { path := "b.ts", exports := [symbol "b.ts" "foo" .function 1] }),
            ("c.ts", { path := "c.ts", exports := [symbol "c.ts" "foo" .function 1] }),
            ("index.ts", { path := "index.ts", exports := [symbol "index.ts" "run" .function 1] })]
        traces := .ofList [imported "a.ts" "Shape", imported "c.ts" "foo"]
        reExportLinks := .ofList [("a.ts:foo", .ofList ["b.ts:foo"]), ("b.ts:foo", .ofList ["c.ts:foo"]),
          ("c.ts:foo", .ofList ["b.ts:foo"])] }
    (∀ path f, p.files.get? path = some f → ∀ e ∈ f.exports, e.file = path) ∧
      p.IsExactReport {} true (p.unused {} true) ∧
      ((p.unused {} true).map (·.symbol)).Perm [symbol "a.ts" "dead" .function 2,
        symbol "c.ts" "foo" .function 1, symbol "index.ts" "run" .function 1] := by
  intro symbol imported p
  have all : ∀ q ∈ p.files.toList, ∀ e ∈ q.2.exports, e.file = q.1 := by decide +kernel
  have keyed : ∀ path f, p.files.get? path = some f → ∀ e ∈ f.exports, e.file = path :=
    fun path f hf => all (path, f) (KeyMap.mem_toList.2 hf)
  have report := isExactReport_unused keyed {} true
  refine ⟨keyed, report, report.one_each.trans (List.Perm.of_eq ?_)⟩
  decide +kernel

end ProjectAnalysis
end SymbolGraph
