import SymbolGraph.Proofs.Project.Build
import SymbolGraph.Proofs.Project.ImportGraph

/-!
# What an edit can change

Whatever a script exports again it also imports, so that each step along re-exports is an edge of
the import graph. An edit of one file therefore leaves the exports of all files alone that are not in
its impact.
-/
namespace SymbolGraph

/-! ## Re-exports are imports -/

def Facts.ImportsFrom (facts : Facts) (file specifier : String) : Prop :=
  ∃ i ∈ facts.imports, i.specifier = specifier ∧ i.file = file

/-- Every module that a file takes an exported or bound name from is imported by the file. -/
structure Facts.Covered (facts : Facts) (file : String) : Prop where
  exports : ∀ e ∈ facts.exports, ∀ specifier, e.origin = some specifier →
    facts.ImportsFrom file specifier
  bindings : ∀ name b, facts.bindings.get? name = some b → facts.ImportsFrom file b.specifier

namespace Facts.Covered

variable {facts : Facts} {file : String}

theorem addExport (h : facts.Covered file) {e : Export}
    (he : ∀ specifier, e.origin = some specifier → facts.ImportsFrom file specifier) :
    (facts.addExport e).Covered file := by
  refine ⟨fun e' he' specifier horigin => ?_, h.bindings⟩
  rcases List.mem_append.1 he' with he' | he'
  · exact h.exports e' he' specifier horigin
  · rw [List.mem_singleton.1 he'] at horigin
    exact he specifier horigin

theorem addImport (h : facts.Covered file) (i : Import) : (facts.addImport i).Covered file := by
  have more {specifier : String} (h : facts.ImportsFrom file specifier) :
      (facts.addImport i).ImportsFrom file specifier := by
    obtain ⟨i', hi', from_eq⟩ := h
    exact ⟨i', List.mem_append_left _ hi', from_eq⟩
  exact ⟨fun e he specifier horigin => more (h.exports e he specifier horigin),
    fun name b hb => more (h.bindings name b hb)⟩

theorem bindImport (h : facts.Covered file) {i : Import} (hi : i.file = file) :
    (facts.bindImport i).Covered file := by
  have added := h.addImport i
  refine ⟨added.exports, fun name b hb => ?_⟩
  simp only [Facts.bindImport, KeyMap.get?_insert] at hb
  split_ifs at hb
  · obtain rfl := Option.some_inj.1 hb
    exact ⟨i, List.mem_append_right _ (List.mem_singleton_self i), rfl, hi⟩
  · exact added.bindings name b hb

theorem foldl {α : Type} {f : Facts → α → Facts} (l : List α) (h : facts.Covered file)
    (step : ∀ facts, facts.Covered file → ∀ a ∈ l, (f facts a).Covered file) :
    (l.foldl f facts).Covered file :=
  List.foldlRecOn (motive := fun facts => Facts.Covered facts file) l f h step

/-- Adding an export together with an import from its origin. -/
theorem forward (h : facts.Covered file) {e : Export} {i : Import}
    (horigin : e.origin = some i.specifier) (hi : i.file = file) :
    ((facts.addExport e).addImport i).Covered file := by
  have added : ((facts.addImport i).addExport e).Covered file := by
    refine (h.addImport i).addExport fun specifier hs => ?_
    obtain rfl := Option.some_inj.1 (horigin.symm.trans hs)
    exact ⟨i, List.mem_append_right _ (List.mem_singleton_self i), rfl, hi⟩
  exact added

end Facts.Covered

namespace Script

theorem file_of_mem_importPart {file specifier : String} {line : Nat} {part : Node} {i : Import}
    (h : i ∈ importPart file specifier line part) : i.file = file := by
  unfold importPart at h
  split at h
  · rw [List.mem_singleton.1 h]
  · split at h
    · rw [List.mem_singleton.1 h]
    · cases h
  · obtain ⟨spec, -, h⟩ := List.mem_filterMap.1 h
    obtain ⟨name, -, h⟩ := Option.bind_eq_some_iff.1 h
    rw [← Option.some_inj.1 h]
  · cases h

theorem covered_addImportStatement {facts : Facts} {file : String} (h : facts.Covered file) (t : Node) :
    (addImportStatement file facts t).Covered file := by
  unfold addImportStatement
  split
  · exact h
  · dsimp only
    split_ifs
    · exact h.addImport _
    · refine h.foldl _ fun facts hfacts i hi => ?_
      obtain ⟨part, -, hi⟩ := List.mem_flatMap.1 hi
      exact hfacts.bindImport (file_of_mem_importPart hi)

theorem covered_addForwardingExport {facts : Facts} {file : String} (h : facts.Covered file)
    (specifier : String) (t : Node) : (addForwardingExport file specifier facts t).Covered file := by
  unfold addForwardingExport
  dsimp only
  split_ifs
  · refine h.foldl _ fun facts hfacts c _ => ?_
    split
    · exact hfacts.foldl _ fun facts hfacts names _ => hfacts.forward rfl rfl
    · unfold addNamespaceExport
      split
      · exact hfacts
      · exact hfacts.forward rfl rfl
    · exact hfacts
  · exact h.forward rfl rfl

/-- An export that goes through a binding comes from a module that the file imports. -/
theorem importsFrom_of_origin_throughBinding {facts : Facts} {file : String} (h : facts.Covered file)
    {name : String} {b : Binding} (hb : facts.bindings.get? name = some b) {e : Export}
    {specifier : String} (horigin : (Export.throughBinding e b).origin = some specifier) :
    facts.ImportsFrom file specifier := by
  obtain rfl := Option.some_inj.1 horigin
  exact h.bindings name b hb

theorem importsFrom_of_origin_valueExport {facts : Facts} {file : String} (h : facts.Covered file)
    {line : Nat} {declarations : KeyMap Declaration} {value : Node} {specifier : String}
    (horigin : (valueExport file line declarations facts.bindings value).origin = some specifier) :
    facts.ImportsFrom file specifier := by
  unfold valueExport at horigin
  split at horigin
  · split at horigin
    · rename_i b hb
      exact importsFrom_of_origin_throughBinding h hb horigin
    · cases horigin
  · cases horigin
  · split_ifs at horigin

theorem importsFrom_of_origin_listedExport {facts : Facts} {file : String} (h : facts.Covered file)
    {line : Nat} {declarations : KeyMap Declaration} {names : String × String} {specifier : String}
    (horigin : (listedExport file line declarations facts.bindings names).origin = some specifier) :
    facts.ImportsFrom file specifier := by
  unfold listedExport at horigin
  dsimp only at horigin
  split at horigin
  · rename_i b hb
    exact importsFrom_of_origin_throughBinding h hb horigin
  · cases horigin

/-- Exports alone change neither the imports nor the bindings. -/
theorem covered_foldl_addExport {facts : Facts} {file : String} (h : facts.Covered file)
    {l : List Export} (hl : ∀ e ∈ l, ∀ specifier, e.origin = some specifier →
      facts.ImportsFrom file specifier) : (l.foldl Facts.addExport facts).Covered file := by
  have both : (l.foldl Facts.addExport facts).Covered file ∧
      (l.foldl Facts.addExport facts).imports = facts.imports := by
    refine List.foldlRecOn (motive := fun f : Facts => f.Covered file ∧ f.imports = facts.imports) l
      _ ⟨h, rfl⟩ ?_
    intro facts' hfacts e he
    refine ⟨hfacts.1.addExport fun specifier horigin => ?_, hfacts.2⟩
    rw [Facts.ImportsFrom, hfacts.2]
    exact hl e he specifier horigin
  exact both.1

theorem covered_addExportStatement {facts : Facts} {file : String} (h : facts.Covered file)
    (declarations : KeyMap Declaration) (t : Node) :
    (addExportStatement file declarations facts t).Covered file := by
  unfold addExportStatement
  split
  · exact covered_addForwardingExport h _ t
  · split
    · refine covered_foldl_addExport h fun e he specifier horigin => ?_
      obtain ⟨⟨name, d⟩, -, rfl⟩ := List.mem_map.1 he
      dsimp only at horigin
      split_ifs at horigin
    · split
      · exact h.addExport fun specifier horigin => importsFrom_of_origin_valueExport h horigin
      · refine covered_foldl_addExport h fun e he specifier horigin => ?_
        obtain ⟨names, -, rfl⟩ := List.mem_map.1 he
        exact importsFrom_of_origin_listedExport h horigin

/-- A script imports whatever it exports again. -/
theorem covered_factsOf (file : String) (root : Node) : (factsOf file root).Covered file := by
  have empty : Facts.Covered {} file := ⟨fun e he => (by cases he), fun name b hb => (by cases hb)⟩
  have imports := empty.foldl (root.children.filter (·.kind == .importStatement))
    fun _ h t _ => covered_addImportStatement h t
  exact imports.foldl _ fun _ h t _ => covered_addExportStatement h _ t

end Script

theorem SourceFile.IsScript.covered {f : SourceFile} (h : f.IsScript) : f.facts.Covered f.path := by
  rcases h.facts_eq with facts | facts
  · have heq : f.facts = Script.factsOf f.path (Script.parseFile f.path f.content) :=
      Except.ok.inj (facts.symm.trans (Language.factsOf_script h.language f.content))
    rw [heq]
    exact Script.covered_factsOf _ _
  · rw [facts]
    exact ⟨fun e he => (by cases he), fun name b hb => (by cases hb)⟩

/-- With the specifiers resolved, the origin of a re-export is the target of an import. -/
theorem SourceFile.IsScript.exists_import {f : SourceFile} (h : f.IsScript) (r : Resolver) {e : Export}
    (he : e ∈ (FileAnalysis.ofSource r f).exports) {source : String} (horigin : e.origin = some source) :
    ∃ i ∈ (FileAnalysis.ofSource r f).imports, i.target = some source := by
  unfold FileAnalysis.ofSource at he ⊢
  rw [resolvedFacts_script r h.language] at he ⊢
  obtain ⟨e₀, he₀, rfl⟩ := List.mem_map.1 he
  have resolved : e₀.isReExport = true ∧ e₀.origin.bind (r.script? · f.path) = some source := by
    split_ifs at horigin with reExport
    · exact ⟨reExport, horigin⟩
    · exact absurd ((h.areOf e₀ he₀).isReExport_of_origin source horigin) reExport
  obtain ⟨specifier, hspecifier, target⟩ := Option.bind_eq_some_iff.1 resolved.2
  obtain ⟨i, hi, rfl, hfile⟩ := h.covered.exports e₀ he₀ specifier hspecifier
  refine ⟨Language.script.resolveImport r i, List.mem_map_of_mem hi, ?_⟩
  rw [← hfile] at target
  exact target

/-! ## Tables that agree on some files -/

namespace ExportTable

/-- The tables have the same exports for the files of a set that re-exports do not lead out of. -/
structure AgreeOn (table table' : ExportTable) (files : Set String) : Prop where
  same : ∀ file ∈ files, table'.get? file = table.get? file
  closed : ∀ file ∈ files, ∀ e ∈ table.exportsOf file, ∀ source, e.origin = some source →
    source ∈ files

namespace AgreeOn

variable {table table' : ExportTable} {files : Set String}

theorem originWithin (h : table.AgreeOn table' files) (fuel : Nat) {file : String} (hfile : file ∈ files)
    (name : String) : table'.originWithin fuel file name = table.originWithin fuel file name := by
  induction fuel generalizing file name with
  | zero => rfl
  | succ fuel ih =>
    unfold ExportTable.originWithin
    rw [h.same file hfile]
    cases hexports : table.get? file with
    | none => rfl
    | some exports =>
      have mem {e : Export} (he : e ∈ exports) : e ∈ table.exportsOf file :=
        mem_exportsOf.2 ⟨exports, hexports, he⟩
      dsimp only
      split
      · rename_i e found
        split_ifs
        · rfl
        · cases horigin : e.origin with
          | none => rfl
          | some source =>
            exact ih (h.closed file hfile e (mem (List.mem_of_find?_eq_some found)) source horigin) _
      · split_ifs
        · rfl
        · have each : ∀ source ∈ starOrigins exports,
              table'.originWithin fuel source name = table.originWithin fuel source name := by
            intro source hsource
            obtain ⟨e, he, -, horigin⟩ := mem_starOrigins.1 hsource
            exact ih (h.closed file hfile e (mem he) source horigin) name
          have mapped := List.map_congr_left each
          calc (starOrigins exports).findSome? (fun source => table'.originWithin fuel source name)
              = ((starOrigins exports).map fun source => table'.originWithin fuel source name).findSome? id := by
                rw [List.findSome?_map]
                rfl
            _ = (starOrigins exports).findSome? fun source => table.originWithin fuel source name := by
                rw [mapped, List.findSome?_map]
                rfl

theorem walkStars (h : table.AgreeOn table' files) (fuel : Nat) {file : String} (hfile : file ∈ files)
    (w : StarWalk) : table'.walkStars fuel file w = table.walkStars fuel file w := by
  induction fuel generalizing file w with
  | zero => rfl
  | succ fuel ih =>
    unfold ExportTable.walkStars
    split_ifs
    · rfl
    · rw [h.same file hfile]
      refine List.foldl_ext _ _ _ fun w e he => ?_
      split_ifs
      · cases horigin : e.origin with
        | none => rfl
        | some source => exact ih (h.closed file hfile e he source horigin) w
      · rfl
      · rfl

theorem starNames (h : table.AgreeOn table' files) {file : String} (hfile : file ∈ files) :
    table'.starNames file = table.starNames file := by
  rw [ExportTable.starNames, h.walkStars _ hfile, ExportTable.starNames]

theorem origin? (h : table.AgreeOn table' files) {file : String} (hfile : file ∈ files) (name : String)
    (depth : Nat) : table'.origin? file name depth = table.origin? file name depth :=
  h.originWithin _ hfile name

theorem fill (h : table.AgreeOn table' files) {file : String} (hfile : file ∈ files) {e : Export}
    (he : e ∈ table.exportsOf file) : table'.fill e = table.fill e := by
  unfold ExportTable.fill
  split_ifs
  · cases horigin : e.origin with
    | none => rfl
    | some source =>
      have hsource := h.closed file hfile e he source horigin
      simp only [Option.bind_some, h.origin? hsource]
  · rfl

theorem starExports (h : table.AgreeOn table' files) {file : String} (hfile : file ∈ files) :
    table'.starExports file (table.exportsOf file) = table.starExports file (table.exportsOf file) := by
  unfold ExportTable.starExports
  refine List.foldl_ext _ _ _ fun found e he => ?_
  cases horigin : e.origin with
  | none => rfl
  | some source =>
    have hsource := h.closed file hfile e (List.mem_filter.1 he).1 source horigin
    simp only [h.starNames hsource, ExportTable.starExport, h.origin? hsource]

end AgreeOn
end ExportTable

/-! ## Edits of one file -/

/-- Maps built from lists that correspond for one key find the same under it. -/
theorem KeyMap.map_get?_ofList_of_forall₂ {α β γ : Type} {f : α → γ} {g : β → γ} {k : String}
    {l : List (String × α)} {l' : List (String × β)}
    (h : List.Forall₂ (fun p q => p.1 = q.1 ∧ (p.1 = k → f p.2 = g q.2)) l l') :
    ((ofList l).get? k).map f = ((ofList l').get? k).map g := by
  have folded (m : KeyMap α) (m' : KeyMap β) (hm : (m.get? k).map f = (m'.get? k).map g) :
      ((l.foldl (fun m p => m.insert p.1 p.2) m).get? k).map f =
        ((l'.foldl (fun m p => m.insert p.1 p.2) m').get? k).map g := by
    induction h generalizing m m' with
    | nil => exact hm
    | @cons p q l l' hpq _ ih =>
      refine ih _ _ ?_
      rw [get?_insert, get?_insert, ← hpq.1]
      split_ifs with hk
      · exact congrArg some (hpq.2 hk.symm)
      · exact hm
  exact folded .empty .empty rfl


namespace ProjectAnalysis

variable {c : Config} {paths : List String} {sources sources' : List SourceFile}

/-- The same files, and all but one of them say the same about symbols. -/
def EditedAt (file : String) (sources sources' : List SourceFile) : Prop :=
  List.Forall₂ (fun s s' => s'.path = s.path ∧ (s.path ≠ file → s'.facts = s.facts)) sources sources'

theorem edge_of_origin (scripts : ∀ s ∈ sources, s.IsScript) {file source : String} {e : Export}
    (he : e ∈ (exportTable c paths sources).exportsOf file) (horigin : e.origin = some source) :
    source = file ∨ (ofFiles c paths sources).importGraph.Edge file source := by
  obtain ⟨exports, hfile, he⟩ := ExportTable.mem_exportsOf.1 he
  rw [exportTable, KeyMap.get?_map, Option.map_eq_some_iff] at hfile
  obtain ⟨f, hf, rfl⟩ := hfile
  obtain ⟨s, hs, rfl, rfl⟩ := get?_declaredFiles hf
  by_cases here : source = s.path
  · exact .inl here
  · obtain ⟨i, hi, target⟩ := (scripts s hs).exists_import _ he horigin
    rw [importGraph_ofFiles]
    exact .inr (edge_importGraphOf.2 ⟨_, hf, i, hi, target, here⟩)

theorem get?_exportTable_of_editedAt {file other : String} (edit : EditedAt file sources sources')
    (h : other ≠ file) :
    (exportTable c paths sources').get? other = (exportTable c paths sources).get? other := by
  unfold exportTable declaredFiles
  rw [KeyMap.get?_map, KeyMap.get?_map]
  refine KeyMap.map_get?_ofList_of_forall₂ ?_
  rw [List.forall₂_map_left_iff, List.forall₂_map_right_iff]
  refine edit.flip.imp fun s' s hs => ⟨hs.1, fun same => ?_⟩
  have facts := hs.2 fun edited => h (same.symm.trans (hs.1.trans edited))
  simp only [FileAnalysis.ofSource, hs.1, facts]

/-- What is neither edited nor in the impact of the edit keeps its exports. -/
theorem exportsOf_of_not_mem_impact {file other : String} (scripts : ∀ s ∈ sources, s.IsScript)
    (edit : EditedAt file sources sources') (h : other ≠ file)
    (outside : other ∉ (ofFiles c paths sources).impact file) :
    (ofFiles c paths sources').exportsOf other = (ofFiles c paths sources).exportsOf other := by
  have agree : (exportTable c paths sources).AgreeOn (exportTable c paths sources')
      {x | x ≠ file ∧ x ∉ (ofFiles c paths sources).impact file} := by
    refine ⟨fun x hx => get?_exportTable_of_editedAt edit hx.1, fun x hx e he source horigin => ?_⟩
    rcases edge_of_origin scripts he horigin with rfl | edge
    · exact hx
    · -- a source in the impact, or edited, would put `x` into the impact
      have back := edge_reverseGraph.2 edge
      exact ⟨fun same => hx.2 (FileGraph.mem_impact_of_edge back hx.1 (.inl same)),
        fun mem => hx.2 (FileGraph.mem_impact_of_edge back hx.1 (.inr mem))⟩
  have here : other ∈ {x | x ≠ file ∧ x ∉ (ofFiles c paths sources).impact file} := ⟨h, outside⟩
  have same : (exportTable c paths sources').exportsOf other =
      (exportTable c paths sources).exportsOf other := by
    rw [ExportTable.exportsOf, agree.same other here, ExportTable.exportsOf]
  rw [exportsOf_ofFiles, exportsOf_ofFiles, same, agree.starExports here]
  congr 1
  exact List.map_congr_left fun e he => agree.fill here he

/-- An edit of `g.ts` changes what `h.ts` passes on, and nothing of `x.ts`. -/
theorem exportsOf_outside_edit :
    let c : Config := { rootDir := "/r" }
    let paths := ["g.ts", "h.ts", "x.ts", "y.ts"]
    let rest := [SourceFile.script "h.ts" "export * from './g';",
      SourceFile.script "x.ts" "import d from './y';\nexport * from './y';\nexport \x7b d \x7d;",
      SourceFile.script "y.ts" "export function m() \x7b\x7d\nexport default m;"]
    let sources := SourceFile.script "g.ts" "export const n = 1;" :: rest
    let sources' := SourceFile.script "g.ts" "export function p() \x7b\x7d" :: rest
    (∀ s ∈ sources, s.IsScript) ∧ EditedAt "g.ts" sources sources' ∧
      (ofFiles c paths sources).impact "g.ts" = ["h.ts"] ∧
      (ofFiles c paths sources').exportsOf "h.ts" ≠ (ofFiles c paths sources).exportsOf "h.ts" ∧
      (ofFiles c paths sources').exportsOf "x.ts" = (ofFiles c paths sources).exportsOf "x.ts" := by
  intro c paths rest sources sources'
  have scripts : ∀ s ∈ sources, s.IsScript :=
    List.forall_mem_cons.2 ⟨SourceFile.isScript_script (by decide +kernel) _,
      List.forall_mem_cons.2 ⟨SourceFile.isScript_script (by decide +kernel) _,
        List.forall_mem_cons.2 ⟨SourceFile.isScript_script (by decide +kernel) _,
          List.forall_mem_singleton.2 (SourceFile.isScript_script (by decide +kernel) _)⟩⟩⟩
  have edit : EditedAt "g.ts" sources sources' :=
    .cons ⟨rfl, fun other => absurd rfl other⟩
      (List.forall₂_same.2 fun s _ => ⟨rfl, fun _ => rfl⟩)
  have impact : (ofFiles c paths sources).impact "g.ts" = ["h.ts"] := by decide +kernel
  refine ⟨scripts, edit, impact, by decide +kernel, ?_⟩
  exact exportsOf_of_not_mem_impact scripts edit (by decide) (by rw [impact]; decide)

end ProjectAnalysis
end SymbolGraph
