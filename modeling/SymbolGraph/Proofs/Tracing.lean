import SymbolGraph.Language
import SymbolGraph.Proofs.Crate.References
import SymbolGraph.Proofs.Ordered

/-!
# Tracing one name and tracing many

Both walks look for the names that imports bind and for given names of the file itself. Asked for fewer
names of the file, a walk finds what it found before, less the references to the names left out. So the
references to one name are the same, and in the same order, whatever else is looked for.
-/
namespace SymbolGraph

/-- Whether a search with these bindings for these names of the file looks for a name. -/
def looksFor (bindings : Bindings) (names : KeySet) (name : String) : Bool :=
  bindings.contains name || names.contains name

variable {content : String} {bindings : Bindings} {names others : KeySet}

theorem KeySet.contains_of_subset (h : ∀ a ∈ names, a ∈ others) {a : String}
    (ha : names.contains a = true) : others.contains a = true :=
  List.contains_iff_mem.2 (h a (List.contains_iff_mem.1 ha))

/-! ## Scripts -/

namespace Script

theorem nameReference_restrict (h : ∀ a ∈ names, a ∈ others) (scopes : List (List String))
    (name : String) (line : Nat) (usageType : UsageType) :
    nameReference ⟨content, bindings, names⟩ scopes name line usageType =
      (nameReference ⟨content, bindings, others⟩ scopes name line usageType).filter fun r =>
        looksFor bindings names r.localName := by
  simp only [nameReference, Search.target?]
  split_ifs with hs hb hn hn' hn'
  · rfl
  · simp [Search.found, looksFor, Reference.localName, hb]
  · simp [Search.found, looksFor, Reference.localName, hn]
  · exact absurd (KeySet.contains_of_subset h hn) hn'
  · simp [Search.found, looksFor, Reference.localName, hb, hn]
  · rfl

/-- A member of a namespace is found whatever names of the file are looked for. -/
theorem found_restrict {scopes : List (List String)} {object member : Node} {target : ReferenceTarget}
    (ht : memberReference? ⟨content, bindings, others⟩ scopes object member = some target)
    (names : KeySet) (line : Nat) (usageType : UsageType) :
    [Search.found ⟨content, bindings, names⟩ target line usageType] =
      [Search.found ⟨content, bindings, others⟩ target line usageType].filter fun r =>
        looksFor bindings names r.localName := by
  simp only [memberReference?, Search.isNamespace, Bool.and_eq_true] at ht
  split_ifs at ht with hn
  obtain rfl := Option.some.inj ht
  obtain ⟨b, hb, -⟩ := (Option.any_eq_true _ _).1 hn.2
  simp [looksFor, Search.found, Reference.localName, KeyMap.contains_iff.2 ⟨b, hb⟩]

mutual

theorem referencesIn_restrict (h : ∀ a ∈ names, a ∈ others) (scopes : List (List String))
    (parent : Kind) : ∀ t : Node, referencesIn ⟨content, bindings, names⟩ scopes parent t =
      (referencesIn ⟨content, bindings, others⟩ scopes parent t).filter fun r =>
        looksFor bindings names r.localName
  | .node kind role text span children => by
    have all (scopes : List (List String)) (parent : Node) :=
      referencesInAll_restrict h scopes parent children
    have member : memberReference? ⟨content, bindings, names⟩ =
        memberReference? ⟨content, bindings, others⟩ := rfl
    simp only [referencesIn, member, nameReference_restrict h, all]
    split; · rfl
    split; · rfl
    split; · rfl
    split; · rfl
    split
    · split
      · split
        · rename_i ht
          exact found_restrict ht names span.line _
        · exact referencesInRole_restrict h scopes kind .object children
      · rfl
    split
    · split
      · split
        · rename_i ht
          exact found_restrict ht names span.line _
        · exact referencesInNamed_restrict h scopes kind children
      · rfl
    split_ifs <;> rfl

theorem referencesInAll_restrict (h : ∀ a ∈ names, a ∈ others) (scopes : List (List String))
    (parent : Node) : ∀ l : List Node, referencesInAll ⟨content, bindings, names⟩ scopes parent l =
      (referencesInAll ⟨content, bindings, others⟩ scopes parent l).filter fun r =>
        looksFor bindings names r.localName
  | [] => by simp [referencesInAll]
  | t :: rest => by
    rw [referencesInAll, referencesInAll, List.filter_append,
      ← referencesInAll_restrict h scopes parent rest]
    split_ifs
    · rw [← referencesIn_restrict h scopes parent.kind t]
    · rfl

theorem referencesInRole_restrict (h : ∀ a ∈ names, a ∈ others) (scopes : List (List String))
    (parent : Kind) (role : Role) : ∀ l : List Node,
      referencesInRole ⟨content, bindings, names⟩ scopes parent role l =
      (referencesInRole ⟨content, bindings, others⟩ scopes parent role l).filter fun r =>
        looksFor bindings names r.localName
  | [] => by simp [referencesInRole]
  | t :: rest => by
    rw [referencesInRole, referencesInRole]
    split_ifs
    · exact referencesIn_restrict h scopes parent t
    · exact referencesInRole_restrict h scopes parent role rest

theorem referencesInNamed_restrict (h : ∀ a ∈ names, a ∈ others) (scopes : List (List String))
    (parent : Kind) : ∀ l : List Node,
      referencesInNamed ⟨content, bindings, names⟩ scopes parent l =
      (referencesInNamed ⟨content, bindings, others⟩ scopes parent l).filter fun r =>
        looksFor bindings names r.localName
  | [] => by simp [referencesInNamed]
  | t :: rest => by
    rw [referencesInNamed, referencesInNamed]
    split_ifs
    · exact referencesIn_restrict h scopes parent t
    · exact referencesInNamed_restrict h scopes parent rest

end

/-- A search for fewer names of the file finds the references to the names that are left. -/
theorem references_restrict (h : ∀ a ∈ names, a ∈ others) (root : Node) :
    references ⟨content, bindings, names⟩ root =
      (references ⟨content, bindings, others⟩ root).filter fun r =>
        looksFor bindings names r.localName :=
  referencesInAll_restrict h [] root root.children

end Script

/-! ## Rust files -/

namespace Crate

theorem pathReference?_restrict (h : ∀ a ∈ names, a ∈ others) (scopes : Scopes)
    (usageType : UsageType) (path : Node) :
    Search.pathReference? ⟨content, bindings, names⟩ scopes usageType path =
      (Search.pathReference? ⟨content, bindings, others⟩ scopes usageType path).filter fun r =>
        looksFor bindings names r.localName := by
  simp only [Search.pathReference?]
  by_cases hk : path.kind != .path
  · simp [hk]
  cases path.children.head? with
  | none => simp [hk]
  | some first =>
    by_cases hs : scopes.binds first.text
    · simp [hk, hs]
    by_cases hb : bindings.contains first.text
    · simp [hk, hs, hb, looksFor, Reference.localName, Option.filter_some]
    by_cases hn : names.contains first.text
    · simp [hk, hs, hb, hn, KeySet.contains_of_subset h hn, looksFor, Reference.localName,
        Option.filter_some]
    · by_cases ho : others.contains first.text <;>
        simp [hk, hs, hb, hn, ho, looksFor, Reference.localName, Option.filter_some]

theorem ownReference?_restrict (h : ∀ a ∈ names, a ∈ others) (scopes : Scopes) (t : Node) :
    ownReference? ⟨content, bindings, names⟩ scopes t =
      (ownReference? ⟨content, bindings, others⟩ scopes t).filter fun r =>
        looksFor bindings names r.localName := by
  simp only [ownReference?, pathReference?_restrict h]
  cases referringPath? t <;> rfl

/-- The open scopes do not depend on what is looked for, so both walks see the same ones. -/
theorem referencesInAll_restrict {parent : Node} {l : List Node} (scopes : Scopes)
    (hl : ∀ c ∈ l, ∀ scopes, (referencesIn ⟨content, bindings, names⟩ scopes c).1 =
      (referencesIn ⟨content, bindings, others⟩ scopes c).1.filter fun r =>
        looksFor bindings names r.localName) :
    (referencesInAll ⟨content, bindings, names⟩ parent scopes l).1 =
      (referencesInAll ⟨content, bindings, others⟩ parent scopes l).1.filter fun r =>
        looksFor bindings names r.localName := by
  induction l generalizing scopes with
  | nil => simp [referencesInAll]
  | cons c rest ih =>
    have hrest := fun scopes => ih scopes fun c hc => hl c (List.mem_cons_of_mem _ hc)
    simp only [referencesInAll]
    split_ifs with hc
    · simp only [List.filter_append, ← hl c List.mem_cons_self, snd_referencesIn_eq_declare, hrest]
    · exact hrest _

theorem referencesIn_restrict (h : ∀ a ∈ names, a ∈ others) (scopes : Scopes) (t : Node) :
    (referencesIn ⟨content, bindings, names⟩ scopes t).1 =
      (referencesIn ⟨content, bindings, others⟩ scopes t).1.filter fun r =>
        looksFor bindings names r.localName := by
  induction hn : sizeOf t using Nat.strongRecOn generalizing scopes t with
  | ind n ih =>
    rw [fst_referencesIn, fst_referencesIn, List.filter_append, ownReference?_restrict h,
      Option.toList_filter]
    congr 1
    exact referencesInAll_restrict _ fun c hc scopes =>
      ih _ (hn ▸ Tree.sizeOf_lt_of_mem_children hc) scopes c rfl

/-- A search for fewer names of the file finds the references to the names that are left. -/
theorem references_restrict (h : ∀ a ∈ names, a ∈ others) (root : Node) :
    references ⟨content, bindings, names⟩ root =
      (references ⟨content, bindings, others⟩ root).filter fun r =>
        looksFor bindings names r.localName :=
  referencesIn_restrict h [] root

end Crate

/-! ## Files of either language -/

namespace Language

theorem references_restrict (h : ∀ a ∈ names, a ∈ others) (l : Language) (path : String) :
    l.references path content bindings names =
      (l.references path content bindings others).map
        (·.filter fun r => looksFor bindings names r.localName) := by
  cases l with
  | script => exact congrArg Except.ok (Script.references_restrict h _)
  | crate =>
    simp only [references]
    cases parseCrate path content with
    | error e => rfl
    | ok parsed => exact congrArg Except.ok (Crate.references_restrict h _)

/-- The references to one name depend on whether it is looked for, and on no other name. -/
theorem references_to_name (l : Language) (path : String) {symbol : String}
    (h : looksFor bindings names symbol = looksFor bindings others symbol) :
    (l.references path content bindings names).map (·.filter (·.localName == symbol)) =
      (l.references path content bindings others).map (·.filter (·.localName == symbol)) := by
  have both {set : KeySet} (hs : ∀ a ∈ set, a ∈ names.union others)
      (hsymbol : looksFor bindings set symbol = looksFor bindings names symbol) :
      (l.references path content bindings set).map (·.filter (·.localName == symbol)) =
        (l.references path content bindings (names.union others)).map
          (·.filter fun r => r.localName == symbol && looksFor bindings names symbol) := by
    rw [references_restrict hs]
    cases l.references path content bindings (names.union others) with
    | error e => rfl
    | ok found =>
      simp only [Except.map, List.filter_filter]
      congr 1
      refine List.filter_congr fun r _ => ?_
      by_cases hr : r.localName = symbol
      · rw [hr, hsymbol]
      · simp [beq_false_of_ne hr]
  rw [both (fun a ha => KeySet.mem_insertAll.2 (.inl ha)) rfl,
    both (fun a ha => KeySet.mem_insertAll.2 (.inr ha)) h.symm]

/-- Looking for one name alone gives the usages of the references to it among those found for any set of
names that holds it. Names looked for besides, or no longer, neither add nor drop nor move a reference
to it. -/
theorem usages_of_name_independent (l : Language) (path content symbol : String) (bindings : Bindings) :
    (∀ names : KeySet, symbol ∈ names →
      l.usagesOf path content symbol bindings =
        (l.references path content bindings names).map fun found =>
          (found.filter (·.localName == symbol)).map (·.toUsage path)) ∧
    ∀ names others : KeySet, (symbol ∈ names ↔ symbol ∈ others) →
      (l.references path content bindings names).map (·.filter (·.localName == symbol)) =
        (l.references path content bindings others).map (·.filter (·.localName == symbol)) := by
  have agree {names others : KeySet} (h : symbol ∈ names ↔ symbol ∈ others) :
      looksFor bindings names symbol = looksFor bindings others symbol := by
    have contains : names.contains symbol = others.contains symbol := by
      rw [Bool.eq_iff_iff]
      simpa [KeySet.contains, KeySet.mem_toList] using h
    simp [looksFor, contains]
  refine ⟨fun names h => ?_, fun names others h => l.references_to_name path (agree h)⟩
  have alone : symbol ∈ KeySet.ofList [symbol] ↔ symbol ∈ names := by simp [h]
  have usages (set : KeySet) : (l.references path content bindings set).map (fun found =>
      (found.filter (·.localName == symbol)).map (·.toUsage path)) =
      ((l.references path content bindings set).map (·.filter (·.localName == symbol))).map
        (·.map (·.toUsage path)) := by
    cases l.references path content bindings set <;> rfl
  calc l.usagesOf path content symbol bindings
      = (l.references path content bindings (.ofList [symbol])).map fun found =>
          (found.filter (·.localName == symbol)).map (·.toUsage path) := by
        simp only [usagesOf]
        cases l.references path content bindings (.ofList [symbol]) <;> rfl
    _ = _ := by rw [usages, l.references_to_name path (agree alone), ← usages]

/-- The first line binds the name `b` anew, and `ns.b` belongs to the namespace, so one usage is left
among three references. -/
theorem usages_beside_namespace_and_scope :
    let text := "const c = b => b.c;\nexport function b() \x7b return ns.b(c, b); \x7d\n"
    let bindings : Bindings := .ofList [("ns", ⟨"./x", none, "*", true⟩)]
    let names : KeySet := .ofList ["b", "c"]
    "b" ∈ names ∧
    usagesOf .script "src/a.ts" text "b" bindings =
      (references .script "src/a.ts" text bindings names).map (fun found =>
        (found.filter (·.localName == "b")).map (·.toUsage "src/a.ts")) ∧
    ((references .script "src/a.ts" text bindings names).toOption.map fun found =>
      found.map fun r => (r.target, r.usageType)) =
      some [(.imported "ns" (some "b"), .call), (.sameFile "c", .reference),
        (.sameFile "b", .reference)] := by
  intro text bindings names
  have held : "b" ∈ names := by decide
  exact ⟨held, (usages_of_name_independent .script "src/a.ts" text "b" bindings).1 names held,
    by decide +kernel⟩

end Language
end SymbolGraph
