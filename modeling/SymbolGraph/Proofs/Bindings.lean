import Mathlib.Data.List.Induction
import SymbolGraph.Proofs.Crate.Names
import SymbolGraph.Proofs.Ordered
import SymbolGraph.Proofs.Project.ImportGraph
import SymbolGraph.Proofs.Script.ImportNames

/-!
# Bindings and imports

The names that a file binds are those under which its imports bring something into scope. While the
imports are resolved, and some of them turn out to import modules, the bindings follow: each says what
the last import of its name says. So a reference through a binding and the import behind it lead to the
same symbol.
-/
namespace SymbolGraph

/-- Whether an import brings a name into scope. Re-exports do not, nor do imports of all names or for
effect only; in Rust an underscore is no name. -/
def Import.binds (l : Language) (i : Import) : Bool :=
  !i.isReExport && (i.name != starName || i.boundAs.isSome) && (l == .script || i.localName != "_")

/-- What the name of an import stands for. -/
def Import.binding (i : Import) : Binding :=
  { specifier := i.specifier, target := i.target, name := i.name, isNamespace := i.isNamespace }

/-- The last import that brings a name into scope. -/
def lastImport? (l : Language) (imports : List Import) (name : String) : Option Import :=
  (imports.filter fun i => i.binds l && i.localName == name).getLast?

theorem isReExport_of_binds {l : Language} {i : Import} (h : i.binds l = true) : i.isReExport = false := by
  simp only [Import.binds, Bool.and_eq_true, Bool.not_eq_true'] at h
  exact h.1.1

theorem binds_of_localName_ne {l : Language} {i : Import} (hplain : i.isReExport = false)
    (hstar : i.localName ≠ starName) (hname : (l == .script || i.localName != "_") = true) :
    i.binds l = true := by
  have named : (i.name != starName || i.boundAs.isSome) = true := by
    cases hb : i.boundAs with
    | some g => simp
    | none =>
      have own : i.localName = i.name := by rw [Import.localName, hb, Option.getD_none]
      simpa [← own] using hstar
  rw [Import.binds, hplain, named, hname]
  rfl

theorem mem_of_lastImport? {l : Language} {imports : List Import} {name : String} {i : Import}
    (h : lastImport? l imports name = some i) : i ∈ imports ∧ i.binds l = true ∧ i.localName = name := by
  simpa using List.mem_filter.1 (List.mem_of_getLast? h)

theorem lastImport?_eq_none {l : Language} {imports : List Import} {name : String} :
    lastImport? l imports name = none ↔ ¬ ∃ i ∈ imports, i.binds l = true ∧ i.localName = name := by
  simp [lastImport?]

/-- The key of the symbol that the name of an import stands for. A namespace stands for a symbol only
together with a member. -/
def Import.symbolKey? (i : Import) (member : Option String) : Option String := do
  let target ← i.target
  if i.isNamespace then return symbolKey target (← member) else return symbolKey target i.name

/-! ## While a file is read -/

/-- The names bound so far are those of the imports so far, and none is a star. -/
structure Facts.Bound (l : Language) (facts : Facts) : Prop where
  keys : ∀ name, (facts.bindings.get? name).isSome ↔
    ∃ i ∈ facts.imports, i.binds l = true ∧ i.localName = name
  starless : ∀ i ∈ facts.imports, i.binds l = true → i.localName ≠ starName

namespace Facts.Bound

variable {l : Language} {facts : Facts}

theorem empty (l : Language) : Facts.Bound l {} :=
  ⟨fun name => by simp [KeyMap.get?_empty], fun i hi => absurd hi List.not_mem_nil⟩

/-- An import that binds nothing changes nothing. -/
theorem pass (h : facts.Bound l) {facts' : Facts} {i : Import} (hi : i.binds l = false)
    (himports : facts'.imports = facts.imports ++ [i]) (hbindings : facts'.bindings = facts.bindings) :
    facts'.Bound l where
  keys name := by
    rw [hbindings, himports, h.keys]
    simp [hi, or_and_right, exists_or]
  starless j hj hbinds := by
    rw [himports, List.mem_append, List.mem_singleton] at hj
    rcases hj with hj | rfl
    · exact h.starless j hj hbinds
    · exact absurd hbinds (by simp [hi])

/-- An import that binds a name adds it. -/
theorem bind (h : facts.Bound l) {facts' : Facts} {i : Import} {b : Binding} (hi : i.binds l = true)
    (hname : i.localName ≠ starName) (himports : facts'.imports = facts.imports ++ [i])
    (hbindings : facts'.bindings = facts.bindings.insert i.localName b) : facts'.Bound l where
  keys name := by
    rw [hbindings, himports, KeyMap.get?_insert]
    split_ifs with same
    · simp [hi, same]
    · rw [h.keys]
      simp [or_and_right, exists_or, hi, Ne.symm same]
  starless j hj hbinds := by
    rw [himports, List.mem_append, List.mem_singleton] at hj
    rcases hj with hj | rfl
    · exact h.starless j hj hbinds
    · exact hname

theorem addExport (h : facts.Bound l) (e : Export) : (facts.addExport e).Bound l :=
  ⟨h.keys, h.starless⟩

theorem foldl_addExport (h : facts.Bound l) (exports : List Export) :
    (exports.foldl Facts.addExport facts).Bound l :=
  List.foldlRecOn exports _ h fun _ h e _ => h.addExport e

end Facts.Bound

/-! ## Rust files -/

namespace Crate

theorem localName_useImport (site : UseSite) (modules : List String) (name : String)
    (given : Option String) : (useImport site modules name given).localName = given.getD name := by
  cases given with
  | none => rfl
  | some g => by_cases h : g = name <;> simp [Import.localName, useImport, Option.filter_some, h]

theorem kept_bound (file : String) : Kept file (Facts.Bound .crate) where
  use := by
    intro site modules name given facts hmodules hname hgiven h
    cases htarget : useTarget? modules name with
    | none => rwa [addUse_of_none htarget]
    | some r =>
      obtain ⟨front, target⟩ := r
      obtain ⟨himports, hbindings⟩ := addUse_eq htarget site given facts
      have hstar : target ≠ starName := by
        rcases mem_of_useTarget? htarget with rfl | hmem
        · exact hname
        · exact fun heq => hmodules (heq ▸ hmem)
      have hlocal := localName_useImport site front target given
      have hlocalStar : (useImport site front target given).localName ≠ starName := by
        rw [hlocal]
        cases given with
        | none => exact hstar
        | some g => exact fun heq => hgiven (congrArg some heq)
      rw [← hlocal] at hbindings
      split_ifs at hbindings with underscore
      · exact h.pass (by simp [Import.binds, underscore]) himports hbindings
      · exact h.bind (binds_of_localName_ne rfl hlocalStar (by simpa using underscore)) hlocalStar
          himports hbindings
  glob := by
    intro site modules facts h
    obtain ⟨himports, hbindings⟩ := addGlob_eq site modules facts
    exact h.pass (by simp [Import.binds]) himports hbindings
  module := fun name facts h => h.pass (by simp [Import.binds, moduleImport]) rfl rfl
  exported := fun e facts h => h.addExport e

theorem bound_facts {content : String} {parsed : Parsed} (h : parse? content = some parsed) (file : String) :
    (parsed.facts file).Bound .crate :=
  (kept_bound file).foldl_addExport _
    ((kept_bound file).foldl_addImports (fun _ ht => namesWords_of_parse? h ht) (.empty .crate))

end Crate

/-! ## Scripts -/

namespace Script

theorem bound_bindImport {facts : Facts} (h : facts.Bound .script) {i : Import}
    (hname : i.localName ≠ starName) (hplain : i.isReExport = false) :
    (facts.bindImport i).Bound .script :=
  h.bind (binds_of_localName_ne hplain hname rfl) hname rfl rfl

theorem bound_addImportStatement {file : String} {facts : Facts} (h : facts.Bound .script) {t : Node}
    (ht : ImportsStarless t) (hkind : t.kind = .importStatement) :
    (addImportStatement file facts t).Bound .script := by
  unfold addImportStatement
  split
  · exact h
  · dsimp only
    split_ifs
    · exact h.pass (by simp [Import.binds]) rfl rfl
    · refine List.foldlRecOn _ _ h fun facts h i hi => ?_
      obtain ⟨part, hpart, hi⟩ := List.mem_flatMap.1 hi
      obtain ⟨clause, hclause, hpart⟩ := List.mem_flatMap.1 hpart
      obtain ⟨hclause, hck⟩ := List.mem_filter.1 hclause
      have names := localName_importPart (ht hkind clause hclause (by simpa using hck)) hpart hi
      exact bound_bindImport h names.1 names.2

theorem bound_addForwardingExport {file specifier : String} {facts : Facts} (h : facts.Bound .script)
    (t : Node) : (addForwardingExport file specifier facts t).Bound .script := by
  unfold addForwardingExport
  dsimp only
  split_ifs
  · refine List.foldlRecOn _ _ h fun facts h c _ => ?_
    split
    · refine List.foldlRecOn _ _ h fun facts h names _ => ?_
      exact (h.addExport _).pass (by simp [Import.binds]) rfl rfl
    · unfold addNamespaceExport
      split
      · exact h
      · exact (h.addExport _).pass (by simp [Import.binds]) rfl rfl
    · exact h
  · exact (h.addExport _).pass (by simp [Import.binds]) rfl rfl

theorem bound_addExportStatement {file : String} {declarations : KeyMap Declaration} {facts : Facts}
    (h : facts.Bound .script) (t : Node) : (addExportStatement file declarations facts t).Bound .script := by
  unfold addExportStatement
  split
  · exact bound_addForwardingExport h t
  · split
    · exact h.foldl_addExport _
    · split
      · exact h.addExport _
      · exact h.foldl_addExport _

theorem bound_factsOf (path content : String) :
    (factsOf path (parseFile path content)).Bound .script := by
  have starless := importsStarless_parseFile path content
  refine List.foldlRecOn _ _ (List.foldlRecOn _ _ (.empty .script) fun facts h t ht => ?_)
    fun facts h t _ => bound_addExportStatement h t
  obtain ⟨ht, hkind⟩ := List.mem_filter.1 ht
  exact bound_addImportStatement h (starless t ht) (by simpa using hkind)

end Script

namespace Language

theorem parse?_of_parseCrate {path content : String} {parsed : Crate.Parsed}
    (h : parseCrate path content = .ok parsed) : Crate.parse? content = some parsed := by
  unfold parseCrate at h
  split at h
  · rename_i found hfound
    exact hfound.trans (congrArg some (Except.ok.inj h))
  · cases h

theorem bound_facts {l : Language} {path content : String} {facts : Facts}
    (h : l.facts path content = .ok facts) : facts.Bound l := by
  cases l with
  | script =>
    rw [Language.facts, Except.ok.injEq] at h
    exact h ▸ Script.bound_factsOf path content
  | crate =>
    rw [Language.facts] at h
    cases hparse : parseCrate path content with
    | error e =>
      rw [hparse] at h
      cases h
    | ok parsed =>
      rw [hparse] at h
      cases h
      exact Crate.bound_facts (parse?_of_parseCrate hparse) path

/-! ## Resolution -/

theorem named_of_usedModule? {r : Resolver} {i : Import} {module : String × String}
    (h : usedModule? r i = some module) : i.isReExport = false ∧ i.name ≠ starName := by
  by_cases skipped : (!i.targetsSymbol || i.isReExport) = true
  · simp [usedModule?, skipped] at h
  · simp only [Import.targetsSymbol, Bool.or_eq_true, Bool.not_eq_true', not_or, Bool.not_eq_false,
      Bool.and_eq_true, bne_iff_ne, Bool.not_eq_true] at skipped
    exact ⟨skipped.2, skipped.1.1.2⟩

@[simp] theorem localName_resolveImport (l : Language) (r : Resolver) (i : Import) :
    (l.resolveImport r i).localName = i.localName := by
  cases l with
  | script => rfl
  | crate =>
    simp only [resolveImport]
    split <;> rfl

@[simp] theorem binds_resolveImport (l : Language) (r : Resolver) (i : Import) :
    (l.resolveImport r i).binds l = i.binds l := by
  cases l with
  | script => rfl
  | crate =>
    simp only [resolveImport]
    split
    · rename_i h
      obtain ⟨plain, named⟩ := named_of_usedModule? h
      simp [Import.binds, Import.localName, plain, named]
    · rfl

theorem get?_bindResolved (bindings : Bindings) (i : Import) (name : String) :
    (bindResolved bindings i).get? name =
      if i.isReExport = false ∧ i.localName = name then (bindings.get? name).map fun _ => i.binding
      else bindings.get? name := by
  unfold bindResolved
  cases i.isReExport with
  | true => simp
  | false =>
    simp only [Bool.false_eq_true, if_false, KeyMap.get?_modify, true_and]
    by_cases h : i.localName = name
    · simp only [h, if_true]
      rfl
    · simp only [h, Ne.symm h, if_false]

/-- A bound name stands for what the last import says that is no re-export. -/
theorem get?_foldl_bindResolved (bindings : Bindings) (imports : List Import) (name : String) :
    (imports.foldl bindResolved bindings).get? name = (bindings.get? name).map fun b =>
      (imports.filter fun i => !i.isReExport && i.localName == name).getLast?.elim b Import.binding := by
  induction imports using List.reverseRecOn with
  | nil => simp
  | append_singleton imports i ih =>
    rw [List.foldl_append, List.foldl_cons, List.foldl_nil, get?_bindResolved, ih, List.filter_append]
    by_cases h : i.isReExport = false ∧ i.localName = name
    · simp [h, Function.comp_def]
    · have passed : (!i.isReExport && i.localName == name) = false := by simpa using h
      simp only [h, passed, if_false, List.filter_cons, List.filter_nil, Bool.false_eq_true, List.append_nil]

theorem bound_resolveFacts {l : Language} {facts : Facts} (h : facts.Bound l) (r : Resolver) :
    (l.resolveFacts r facts).Bound l where
  keys name := by
    simp [resolveFacts, get?_foldl_bindResolved, h.keys]
  starless i hi hbinds := by
    obtain ⟨j, hj, rfl⟩ := List.mem_map.1 hi
    rw [localName_resolveImport]
    exact h.starless j hj (by rwa [binds_resolveImport] at hbinds)

/-- All imports under a bound name bind it, re-exports apart. -/
theorem binds_of_bound {l : Language} {facts : Facts} (h : facts.Bound l) {i j : Import}
    (hj : j ∈ facts.imports) (hbinds : j.binds l = true) (hname : i.localName = j.localName)
    (hplain : i.isReExport = false) : i.binds l = true := by
  have star := h.starless j hj hbinds
  simp only [Import.binds, Bool.and_eq_true] at hbinds
  exact binds_of_localName_ne hplain (hname ▸ star) (hname ▸ hbinds.2)

theorem get?_bindings_resolveFacts {l : Language} {facts : Facts} (h : facts.Bound l) (r : Resolver)
    (name : String) : (l.resolveFacts r facts).bindings.get? name =
      (lastImport? l (l.resolveFacts r facts).imports name).map Import.binding := by
  have bound := bound_resolveFacts h r
  have folded := get?_foldl_bindResolved facts.bindings (l.resolveFacts r facts).imports name
  cases hlast : lastImport? l (l.resolveFacts r facts).imports name with
  | none => simpa using mt (bound.keys name).1 (lastImport?_eq_none.1 hlast)
  | some i =>
    obtain ⟨hi, hbinds, hname⟩ := mem_of_lastImport? hlast
    have same : ((l.resolveFacts r facts).imports.filter fun j => !j.isReExport && j.localName == name) =
        (l.resolveFacts r facts).imports.filter fun j => j.binds l && j.localName == name := by
      refine List.filter_congr fun j _ => ?_
      rw [Bool.eq_iff_iff, Bool.and_eq_true, Bool.and_eq_true, Bool.not_eq_true', beq_iff_eq]
      refine and_congr_left fun hj => ⟨fun hplain => ?_, isReExport_of_binds⟩
      exact binds_of_bound bound hi hbinds (hj.trans hname.symm) hplain
    obtain ⟨b, hb⟩ := Option.isSome_iff_exists.1 ((bound.keys name).2 ⟨i, hi, hbinds, hname⟩)
    obtain ⟨_, -, heq⟩ := Option.map_eq_some_iff.1 (folded.symm.trans hb)
    rw [same, show List.getLast? _ = some i from hlast] at heq
    rw [hb, ← heq]
    rfl

/-- Once its imports are resolved, the names that a file binds are those that its imports bring into
scope, each with what the last import of the name says. So a reference to a name uses the symbol under
which the import of the name is recorded. -/
theorem bindings_agree_with_imports (l : Language) (r : Resolver) {path content : String} {facts : Facts}
    (h : l.facts path content = .ok facts) :
    let imports := (l.resolveFacts r facts).imports
    let bindings := (l.resolveFacts r facts).bindings
    (∀ name, name ∈ bindings.keys ↔ ∃ i ∈ imports, i.binds l = true ∧ i.localName = name) ∧
    (∀ name, bindings.get? name = (lastImport? l imports name).map Import.binding) ∧
    ∀ f : FileAnalysis, f.imports = imports → f.bindings = bindings →
      (∀ name member, f.importedKey? name member =
        (lastImport? l imports name).bind (·.symbolKey? member)) ∧
      ∀ name i target, lastImport? l imports name = some i → i.target = some target →
        target ≠ f.path → i.targetsSymbol = true →
        (symbolKey target i.name, { file := f.path, boundAs := i.boundAs, line := i.line }) ∈
            f.importedSymbols ∧
          ∀ member, f.importedKey? name member = some (symbolKey target i.name) := by
  intro imports bindings
  have bound := bound_facts h
  have stands (name : String) : bindings.get? name = (lastImport? l imports name).map Import.binding :=
    get?_bindings_resolveFacts bound r name
  refine ⟨fun name => ?_, stands, fun f himports hbindings => ?_⟩
  · rw [KeyMap.mem_keys, ← Option.isSome_iff_exists]
    exact (bound_resolveFacts bound r).keys name
  have used (name : String) (member : Option String) : f.importedKey? name member =
      (lastImport? l imports name).bind (·.symbolKey? member) := by
    rw [FileAnalysis.importedKey?, hbindings, stands]
    cases lastImport? l imports name <;> rfl
  refine ⟨used, fun name i target hlast htarget hother hsymbol => ⟨?_, fun member => ?_⟩⟩
  · obtain ⟨hi, hbinds, -⟩ := mem_of_lastImport? hlast
    exact FileAnalysis.mem_importedSymbols.2
      ⟨i, himports ▸ hi, target, htarget, hother, hsymbol, isReExport_of_binds hbinds, rfl, rfl⟩
  · have single : i.isNamespace = false := by
      simp only [Import.targetsSymbol, Bool.and_eq_true, Bool.not_eq_true'] at hsymbol
      exact hsymbol.1.1
    rw [used, hlast, Option.bind_some, Import.symbolKey?, htarget]
    simp [single]

theorem exists_facts (l : Language) (path content : String) (p : Facts → Bool)
    (h : (l.facts path content).toOption.any p = true) :
    ∃ facts, l.facts path content = .ok facts ∧ p facts = true := by
  cases hfacts : l.facts path content with
  | error e => simp [hfacts, Except.toOption] at h
  | ok facts => exact ⟨facts, rfl, by simpa [hfacts, Except.toOption] using h⟩

/-- The second declaration takes the name `f` over, and `net` turns out to be a module. -/
theorem bindings_of_module_and_shadowed_name :
    let r : Resolver := { files := .ofList ["src/io.rs", "src/lib.rs", "src/net.rs"] }
    ∃ facts, crate.facts "src/lib.rs" "use crate::net::\x7bself, f\x7d;\nuse crate::io::g as f;\n" =
        .ok facts ∧
      let resolved := crate.resolveFacts r facts
      let f : FileAnalysis :=
        { path := "src/lib.rs", imports := resolved.imports, bindings := resolved.bindings }
      resolved.bindings.get? "net" = some ⟨"crate::net", some "src/net.rs", starName, true⟩ ∧
      resolved.bindings.get? "f" = some ⟨"crate::io", some "src/io.rs", "g", false⟩ ∧
      f.importedKey? "net" (some "send") = some (symbolKey "src/net.rs" "send") ∧
      (symbolKey "src/io.rs" "g", ⟨"src/lib.rs", some "f", 2⟩) ∈ f.importedSymbols ∧
      f.importedKey? "f" none = some (symbolKey "src/io.rs" "g") := by
  intro r
  let net : Import :=
    { name := starName, boundAs := some "net", specifier := "crate::net", file := "src/lib.rs", line := 1
      isNamespace := true, target := some "src/net.rs" }
  let g : Import :=
    { name := "g", boundAs := some "f", specifier := "crate::io", file := "src/lib.rs", line := 2
      target := some "src/io.rs" }
  obtain ⟨facts, hfacts, last⟩ := exists_facts crate "src/lib.rs"
    "use crate::net::\x7bself, f\x7d;\nuse crate::io::g as f;\n"
    (fun facts => lastImport? crate (crate.resolveFacts r facts).imports "net" == some net &&
      lastImport? crate (crate.resolveFacts r facts).imports "f" == some g) (by decide +kernel)
  rw [Bool.and_eq_true, beq_iff_eq, beq_iff_eq] at last
  obtain ⟨hnet, hf⟩ := last
  obtain ⟨-, stands, used⟩ := bindings_agree_with_imports crate r hfacts
  obtain ⟨key, recorded⟩ := used { path := "src/lib.rs", imports := _, bindings := _ } rfl rfl
  obtain ⟨importer, own⟩ := recorded "f" g "src/io.rs" hf rfl
    (show "src/io.rs" ≠ "src/lib.rs" by decide) (by decide)
  refine ⟨facts, hfacts, ?_, ?_, ?_, importer, own none⟩
  · rw [stands, hnet]
    rfl
  · rw [stands, hf]
    rfl
  · rw [key, hnet]
    rfl

/-- In a script an underscore is a name like any other. -/
theorem script_binds_underscore :
    ∃ facts, script.facts "src/a.ts" "import _ from 'lodash';\n" = .ok facts ∧
      (script.resolveFacts {} facts).imports.map (·.boundAs) = [some "_"] ∧
      (script.resolveFacts {} facts).bindings.keys = ["_"] := by
  obtain ⟨facts, hfacts, h⟩ := exists_facts script "src/a.ts" "import _ from 'lodash';\n"
    (fun facts => (script.resolveFacts {} facts).imports.map (·.boundAs) == [some "_"] &&
      (script.resolveFacts {} facts).bindings.keys == ["_"]) (by decide +kernel)
  rw [Bool.and_eq_true, beq_iff_eq, beq_iff_eq] at h
  exact ⟨facts, hfacts, h⟩

end Language
end SymbolGraph
