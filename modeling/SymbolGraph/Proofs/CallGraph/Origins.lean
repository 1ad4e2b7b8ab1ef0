import SymbolGraph.CallGraph.Build
import SymbolGraph.Proofs.CallGraph.Agreement
import SymbolGraph.Proofs.Project.Build

/-!
# Where exported functions are declared

The table of a project of scripts is built from the exports that the analysis of the project follows, so
that an imported name stands for the function that its exports lead to, wherever nothing misleads.
-/
namespace SymbolGraph
open Relation

/-! ## The table of a project -/

namespace NodeTable

theorem forwardsOf_foldl_addForward (path : String) (l : List Forward) (t : NodeTable) (file : String) :
    (l.foldl (fun t f => t.addForward path f.name f.source f.sourceName) t).forwardsOf file =
      t.forwardsOf file ++ if path == file then l else [] := by
  induction l generalizing t with
  | nil => simp
  | cons f rest ih =>
    rw [List.foldl_cons, ih]
    have added : (t.addForward path f.name f.source f.sourceName).forwardsOf file =
        t.forwardsOf file ++ if path == file then [f] else [] := by
      unfold addForward forwardsOf
      rw [KeyMap.get?_upsert]
      by_cases same : path = file
      · simp [same]
      · simp [same, Ne.symm same]
    rw [added, List.append_assoc]
    split_ifs <;> rfl

theorem forwardsOf_ofNodes (nodes : List FunctionNode) (file : String) :
    (ofNodes nodes).forwardsOf file = [] := by
  have none : (ofNodes nodes).forwards = .empty := by
    unfold ofNodes
    refine List.foldlRecOn (motive := fun t : NodeTable => t.forwards = .empty) nodes addNode rfl ?_
    intro t ht f _
    exact ht
  rw [forwardsOf, none]
  rfl

end NodeTable

/-- What a script passes on, by its exports with resolved origins. -/
theorem filterMap_forwardOf? (r : Resolver) {path : String}
    (h : Language.ofPath? Language.all path = some .script) (facts : Facts) :
    facts.exports.filterMap (forwardOf? .script r path) =
      (resolvedFacts r path facts).exports.filterMap (Forward.ofExport? path) := by
  rw [resolvedFacts_script r h, List.filterMap_map]
  congr 1
  funext e
  cases re : e.isReExport with
  | false => simp [forwardOf?, Forward.ofExport?, re]
  | true =>
    cases horigin : e.origin with
    | none => simp [forwardOf?, Forward.ofExport?, re, horigin]
    | some specifier =>
      simp only [forwardOf?, Forward.ofExport?, re, horigin, if_true, Function.comp_apply]
      change (r.script? specifier path).bind _ = (r.script? specifier path).map _
      cases r.script? specifier path <;> rfl

theorem forwardsOf_addFileNames (r : Resolver) (t : NodeTable) {path : String}
    (h : Language.ofPath? Language.all path = some .script) (content file : String) :
    (addFileNames r t (path, content)).forwardsOf file = t.forwardsOf file ++
      if path == file then
        (FileAnalysis.ofSource r (.script path content)).exports.filterMap (Forward.ofExport? path)
      else [] := by
  have facts : Language.script.facts path content =
    .ok (Script.factsOf path (Script.parseFile path content)) := rfl
  have exports (facts : Facts) : (Language.script.resolveFacts r facts).exports = facts.exports := rfl
  have bindings (t : NodeTable) (b : Bindings) : (t.setBindings path b).forwardsOf file = t.forwardsOf file :=
    rfl
  unfold addFileNames FileAnalysis.ofSource SourceFile.script
  dsimp only
  rw [h]
  dsimp only
  rw [facts]
  dsimp only
  rw [bindings, NodeTable.forwardsOf_foldl_addForward, exports, filterMap_forwardOf? r h]

theorem forwardsOf_foldl_addFileNames (r : Resolver) (l : List (String × String)) (t : NodeTable)
    (scripts : ∀ p ∈ l, Language.ofPath? Language.all p.1 = some .script) (file : String) :
    (l.foldl (addFileNames r) t).forwardsOf file = t.forwardsOf file ++
      (l.filter (·.1 == file)).flatMap fun p =>
        (FileAnalysis.ofSource r (.script p.1 p.2)).exports.filterMap (Forward.ofExport? p.1) := by
  induction l generalizing t with
  | nil => simp
  | cons p rest ih =>
    rw [List.foldl_cons, ih _ fun p' hp' => scripts p' (List.mem_cons_of_mem p hp'),
      forwardsOf_addFileNames r t (scripts p List.mem_cons_self), List.filter_cons, List.append_assoc]
    split_ifs <;> rfl

/-- The scripts of a project as they are read. -/
def Sources.scripts (texts : Sources) : List SourceFile :=
  texts.toList.map fun p => .script p.1 p.2

theorem exportTable_scripts (c : Config) (texts : Sources) :
    ProjectAnalysis.exportTable c texts.keys texts.scripts = texts.map fun path content =>
      (FileAnalysis.ofSource (c.resolver texts.keys) (.script path content)).exports := by
  have declared : ProjectAnalysis.declaredFiles c texts.keys texts.scripts =
      texts.map fun path content => .ofSource (c.resolver texts.keys) (.script path content) := by
    unfold ProjectAnalysis.declaredFiles Sources.scripts
    rw [List.map_map]
    exact KeyMap.ofList_entries (texts.map fun path content =>
      FileAnalysis.ofSource (c.resolver texts.keys) (.script path content))
  rw [ProjectAnalysis.exportTable, declared]
  apply KeyMap.ext_get?
  intro path
  rw [KeyMap.get?_map, KeyMap.get?_map, KeyMap.get?_map]
  cases texts.get? path <;> rfl

/-- The files of a project of scripts pass on what their exports say. -/
theorem builtFrom_tableOfSources (c : Config) (nodes : KeyMap FunctionNode) (texts : Sources)
    (scripts : ∀ path ∈ texts.keys, Language.ofPath? Language.all path = some .script) :
    (tableOfSources c nodes texts).BuiltFrom
      (ProjectAnalysis.exportTable c texts.keys texts.scripts) := by
  intro file
  have scripts' : ∀ p ∈ texts.toList, Language.ofPath? Language.all p.1 = some .script :=
    fun p hp => scripts p.1 (List.mem_map_of_mem hp)
  unfold tableOfSources
  rw [forwardsOf_foldl_addFileNames _ _ _ scripts', KeyMap.filter_toList, exportTable_scripts,
    ExportTable.exportsOf, KeyMap.get?_map]
  have none : ((NodeTable.ofNodes nodes.values).withFiles texts.keys).forwardsOf file = [] :=
    NodeTable.forwardsOf_ofNodes nodes.values file
  rw [none, List.nil_append]
  cases texts.get? file with
  | none => rfl
  | some content => simp

/-- The exports of a project of scripts. -/
def Sources.exports (c : Config) (texts : Sources) : ExportTable :=
  ProjectAnalysis.exportTable c texts.keys texts.scripts

/-- The functions of a project with what its names can mean. -/
def Sources.table (c : Config) (texts : Sources) : NodeTable :=
  tableOfSources c (functionsOfSources texts) texts

/-- The function that an imported name stands for is the one that the exports lead to, if nothing
misleads on the way: every pair passed is plain, and either no chain of re-exports returns or only one
declaration is found. -/
theorem exportedId?_eq_of_origin? (c : Config) (texts : Sources)
    (scripts : ∀ path ∈ texts.keys, Language.ofPath? Language.all path = some .script)
    {file name : String} {e : Export} (origin : (texts.exports c).origin? file name 0 = some e)
    (no_namespace : ¬ (e.isReExport = true ∧ e.sourceName = starName))
    (known : (texts.table c).ids.contains (symbolKey e.file e.sourceName) = true)
    (short : ∀ l, ((file, name) :: l).IsChain (texts.exports c).Hop → ((file, name) :: l).Nodup →
      l.length + 2 ≤ ExportTable.maxDepth)
    (plain : (texts.table c).PlainFrom (texts.exports c) (file, name))
    (certain : (∀ s, ReflTransGen (texts.exports c).Hop (file, name) s →
        ¬ TransGen (texts.exports c).Hop s s) ∨
      ∀ s, ReflTransGen (texts.exports c).Hop (file, name) s → (texts.exports c).declares s = true →
        s = (e.file, e.name)) :
    (texts.table c).exportedId? file name = some (symbolKey e.file e.sourceName) := by
  have proper : (texts.exports c).Proper := by
    apply ProjectAnalysis.proper_exportTable
    intro f hf
    obtain ⟨p, hp, rfl⟩ := List.mem_map.1 hf
    exact SourceFile.isScript_script (scripts p.1 (List.mem_map_of_mem hp)) p.2
  have re : e.isReExport = false := by
    obtain ⟨u, -, declared, hown⟩ :=
      @ExportTable.exists_declares_of_originWithin _ _ (file, name) e origin
    obtain ⟨e', hown', declared⟩ := ExportTable.declares_iff.1 declared
    obtain rfl := Option.some_inj.1 (hown.symm.trans hown')
    rcases declared with re | star
    · exact re
    · exact Bool.eq_false_iff.2 fun re => no_namespace ⟨re, star⟩
  have built := builtFrom_tableOfSources c (functionsOfSources texts) texts scripts
  exact built.exportedId?_of_origin proper origin re known short plain certain

/-- The stars of `b.ts` and `p.ts` run in a circle, and `n` is the third name of `k`. -/
theorem exportedId?_renamed_twice :
    let c : Config := { rootDir := "/r" }
    let texts : Sources := .ofList [
      ("b.ts", "export * from './p';\nexport * from './q';"), ("p.ts", "export * from './b';"),
      ("q.ts", "export \x7b m as n \x7d from './r';"),
      ("r.ts", "function k() \x7b\x7d\nexport \x7b k as m \x7d;")]
    (texts.exports c).hops ("p.ts", "n") = [("b.ts", "n")] ∧
      (texts.table c).exportedId? "b.ts" "n" = some "r.ts:k" := by
  intro c texts
  let found := [("b.ts", "n"), ("p.ts", "n"), ("q.ts", "n"), ("r.ts", "m")]
  have evaluated : (∀ x ∈ found, (∀ y ∈ (texts.exports c).hops x, y ∈ found) ∧
        (texts.table c).plainAt (texts.exports c) x = true ∧
        ((texts.exports c).declares x = true → x = ("r.ts", "m"))) ∧
      ((texts.exports c).origin? "b.ts" "n" 0).map (fun e => (e.file, e.name, e.sourceName, e.isReExport)) =
        some ("r.ts", "m", "k", false) ∧
      (texts.table c).ids.contains "r.ts:k" = true ∧
      (texts.exports c).hops ("p.ts", "n") = [("b.ts", "n")] := by
    decide +kernel
  obtain ⟨pairs, origin, known, circle⟩ := evaluated
  obtain ⟨e, origin, fields⟩ := Option.map_eq_some_iff.1 origin
  obtain ⟨hfile, hname, hsource, re⟩ : e.file = "r.ts" ∧ e.name = "m" ∧ e.sourceName = "k" ∧
      e.isReExport = false := by simpa using fields
  have start : ("b.ts", "n") ∈ found := List.mem_cons_self
  have closed : ∀ x ∈ found, ∀ y ∈ (texts.exports c).hops x, y ∈ found := fun x hx => (pairs x hx).1
  have result := exportedId?_eq_of_origin? c texts (by decide +kernel) origin (by simp [re])
    (by rw [hfile, hsource]; exact known)
    (fun l chain nodup => by
      have := ExportTable.length_lt_of_closed start closed chain nodup
      simp only [found, List.length_cons, List.length_nil] at this
      rw [ExportTable.maxDepth]
      omega)
    (fun u reaches => (pairs u (ExportTable.mem_of_closed start closed reaches)).2.1)
    (.inr fun s reaches declared => by
      rw [hfile, hname]
      exact (pairs s (ExportTable.mem_of_closed start closed reaches)).2.2 declared)
  rw [hfile, hsource] at result
  exact ⟨circle, result⟩

/-- A function that `q.ts` keeps to itself stands before the one that `q.ts` passes on. -/
theorem exportedId?_of_private_function :
    let c : Config := { rootDir := "/r" }
    let texts : Sources := .ofList [("b.ts", "export * from './q';"),
      ("q.ts", "export * from './r';\nfunction n() \x7b\x7d"), ("r.ts", "export function n() \x7b\x7d")]
    ((texts.exports c).origin? "b.ts" "n" 0).map (fun e => (e.file, e.sourceName, e.isReExport)) =
        some ("r.ts", "n", false) ∧
      (texts.table c).ids.contains "r.ts:n" = true ∧
      (texts.table c).exportedId? "b.ts" "n" = some "q.ts:n" := by
  decide +kernel

end SymbolGraph
