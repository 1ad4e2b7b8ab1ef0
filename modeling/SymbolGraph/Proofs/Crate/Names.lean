import SymbolGraph.Crate.Facts
import SymbolGraph.Proofs.Readers
import SymbolGraph.Proofs.Tree
import Mathlib.Tactic.SplitIfs

/-!
# Names in the trees of Rust files

The names that modules and use declarations are written with are words, however the items around them
are read.
-/
namespace SymbolGraph.Crate
open Text

namespace Parse

variable {α : Type} {p : Parse α} {P : α → Prop}

theorem gives_phraseOf {p : Parse (Kind × List Node)} {P : Node → Prop}
    (h : Gives p fun r => ∀ span, P (.node r.1 none "" span r.2)) : Gives (phraseOf p) P :=
  .after fun _ => .after fun _ => h.bind fun _ hr => .after fun _ => gives_pure (hr _)

theorem gives_phrase {kind : Kind} {p : Parse (List Node)} {P : Node → Prop}
    (h : Gives p fun children => ∀ span, P (.node kind none "" span children)) :
    Gives (phrase kind p) P :=
  gives_phraseOf (h.bind fun _ hc => gives_pure hc)

theorem gives_within {d : Delimiter} (h : Gives p P) : Gives (within d p) fun r => P r.1 := by
  refine .after fun ts => ?_
  split
  · refine .after fun _ => ?_
    split
    · rename_i content opening _ _ _ a _ heq
      exact .after fun _ => gives_pure (h _ a _ heq)
    · exact gives_fail
  · exact gives_fail

theorem gives_inside {d : Delimiter} (h : Gives p P) : Gives (inside d p) P :=
  (gives_within h).bind fun _ hr => gives_pure hr

theorem gives_whileTrue {more : List Token → Bool} (h : Gives p P) :
    Gives (whileTrue more p) fun l => ∀ a ∈ l, P a := by
  have collected : ∀ fuel cur acc l next, (∀ a ∈ acc, P a) →
      whileTrue.go more p fuel cur acc = some (l, next) → ∀ a ∈ l, P a := by
    intro fuel
    induction fuel with
    | zero => intro cur acc l next _ heq; exact nomatch heq
    | succ fuel ih =>
      intro cur acc l next hacc heq
      rw [whileTrue.go] at heq
      split at heq
      · split at heq
        · rename_i a mid ha
          exact ih mid (a :: acc) l next (List.forall_mem_cons.2 ⟨h cur a mid ha, hacc⟩) heq
        · exact nomatch heq
      · obtain ⟨rfl, rfl⟩ := Prod.mk.inj (Option.some.inj heq)
        exact fun a ha => hacc a (List.mem_reverse.1 ha)
  intro cur l next heq
  exact collected _ cur [] l next (List.forall_mem_nil _) heq

theorem gives_commaList (h : Gives p P) : Gives (commaList p) fun l => ∀ a ∈ l, P a := by
  unfold commaList untilEnd
  refine gives_whileTrue (h.bind fun a ha => .after fun _ => ?_)
  split
  · exact .after fun _ => gives_pure ha
  · exact gives_pure ha

end Parse

/-! ## Words -/

/-- The node is written with a name or keyword. -/
def IsWord (t : Node) : Prop := ∃ w : Word, t.text = w.text

/-- All texts in the tree are words. -/
def HoldsWords (t : Node) : Prop := ∀ d ∈ t.nodes, d.text = "" ∨ IsWord d

theorem holdsWords_node {kind : Kind} {role : Option Role} {text : String} {span : Span}
    {children : List Node} : HoldsWords (.node kind role text span children) ↔
      (text = "" ∨ ∃ w : Word, text = w.text) ∧ ∀ c ∈ children, HoldsWords c := by
  simp only [HoldsWords, IsWord, Tree.nodes, Tree.nodesAll_eq, List.forall_mem_cons,
    List.forall_mem_flatMap]
  rfl

theorem holdsWords_withRole {t : Node} {r : Role} : HoldsWords (t.withRole r) ↔ HoldsWords t := by
  obtain ⟨kind, role, text, span, children⟩ := t
  exact holdsWords_node.trans holdsWords_node.symm

namespace Parse

theorem gives_anyName : Gives anyName fun t => IsWord t ∧ HoldsWords t := by
  refine .after fun ts => ?_
  split
  · rename_i w span _
    refine .after fun _ => gives_pure ⟨⟨w, rfl⟩, holdsWords_node.2 ⟨.inr ⟨w, rfl⟩, ?_⟩⟩
    exact List.forall_mem_nil _
  · exact gives_fail

theorem gives_name : Gives name fun t => IsWord t ∧ HoldsWords t :=
  .after fun _ => .after fun _ => gives_anyName

/-! ## Use trees -/

theorem gives_newName : Gives newName fun t => IsWord t ∧ HoldsWords t :=
  .after fun _ => .ite gives_anyName gives_name

variable {self : Self}

theorem gives_useTree (h : Gives (self .useTree) HoldsWords) : Gives (useTree self) HoldsWords := by
  refine .after fun _ => .ite ?_ (.after fun _ => .ite ?_ ?_)
  · refine gives_phraseOf (gives_anyName.bind fun n hn => .after fun _ => .ite ?_ ?_)
    · refine h.bind fun t ht => gives_pure fun _ => holdsWords_node.2 ⟨.inl rfl, ?_⟩
      simp [holdsWords_withRole, hn.2, ht]
    refine .after fun _ => .ite ?_ ?_
    · refine gives_newName.bind fun g hg => gives_pure fun _ => holdsWords_node.2 ⟨.inl rfl, ?_⟩
      simp [holdsWords_withRole, hn.2, hg.2]
    · refine gives_pure fun _ => holdsWords_node.2 ⟨.inl rfl, ?_⟩
      simp [holdsWords_withRole, hn.2]
  · exact gives_phrase (.after fun _ => gives_pure fun _ =>
      holdsWords_node.2 ⟨.inl rfl, List.forall_mem_nil _⟩)
  · refine gives_phrase ((gives_inside (gives_commaList h)).bind fun trees htrees =>
      gives_pure fun _ => holdsWords_node.2 ⟨.inl rfl, ?_⟩)
    simpa [holdsWords_withRole] using htrees

theorem gives_useGroupTree (h : Gives (self .useTree) HoldsWords)
    (hgroup : Gives (self .useGroupTree) HoldsWords) : Gives (useGroupTree self) HoldsWords := by
  refine .after fun _ => .ite (gives_phraseOf ?_) h
  have tree : Gives (do
      if ← optionalMark "::" then
        discard (self .useTree)
        return none
      else return some (← self .useGroupTree)) fun o => ∀ t, o = some t → HoldsWords t :=
    .after fun _ => .ite (.after fun _ => gives_pure fun _ hnone => nomatch hnone)
      (hgroup.bind fun t ht => gives_pure fun _ heq => Option.some.inj heq ▸ ht)
  refine (gives_inside (gives_commaList tree)).bind fun trees htrees => .ite ?_ ?_
  · refine gives_pure fun _ => holdsWords_node.2 ⟨.inl rfl, ?_⟩
    simp only [List.mem_map, List.mem_filterMap, id_eq, forall_exists_index, and_imp]
    rintro c t o ho heq rfl
    exact holdsWords_withRole.2 (htrees o ho t heq)
  · exact gives_pure fun _ => holdsWords_node.2 ⟨.inl rfl, List.forall_mem_nil _⟩

end Parse

theorem gives_run_useTree (depth : Nat) : Gives (Rule.run depth .useTree) HoldsWords := by
  induction depth with
  | zero => exact gives_fail
  | succ depth ih => exact Parse.gives_useTree ih

theorem gives_run_useGroupTree (depth : Nat) :
    Gives (Rule.run depth .useGroupTree) HoldsWords := by
  induction depth with
  | zero => exact gives_fail
  | succ depth ih => exact Parse.gives_useGroupTree (gives_run_useTree depth) ih

/-! ## Items -/

/-- What an item names when it imports something: the trees of use declarations hold words only and
the name of a module is one. -/
structure NamesWords (item : Node) : Prop where
  use : item.kind = .useItem → ∀ tree, item.child? .tree = some tree → HoldsWords tree
  module : item.kind = .moduleItem → ∀ name, nameOf? item = some name → IsWord name

/-- Items of other kinds import nothing. -/
theorem namesWords_of_kind {item : Node} (h : item.kind ≠ .useItem ∧ item.kind ≠ .moduleItem) :
    NamesWords item :=
  ⟨fun heq => absurd heq h.1, fun heq => absurd heq h.2⟩

namespace Parse

variable {self : Self}

theorem gives_otherPhrase {kind : Kind} {p : Parse (List Node)}
    (h : kind ≠ .useItem ∧ kind ≠ .moduleItem) : Gives (phrase kind p) NamesWords :=
  gives_phrase fun _ _ _ _ _ => namesWords_of_kind h

theorem gives_otherPhraseOf {p : Parse (Kind × List Node)}
    (h : Gives p fun r => r.1 ≠ .useItem ∧ r.1 ≠ .moduleItem) : Gives (phraseOf p) NamesWords :=
  gives_phraseOf (h.mono fun _ hr _ => namesWords_of_kind hr)

theorem gives_functionItem : Gives (functionItem self) NamesWords :=
  gives_otherPhraseOf <| .after fun _ => .after fun _ => .after fun _ =>
    .ite (gives_pure (by simp)) (.after fun _ => gives_pure (by simp))

theorem gives_typeItem : Gives (typeItem self) NamesWords := by
  refine gives_otherPhraseOf (.after fun _ => .after fun _ => .after fun ⟨_, _, _, value⟩ =>
    .after fun _ => ?_)
  split
  · exact .ite (gives_pure (by simp)) (gives_pure (by simp))
  · exact gives_pure (by simp)

theorem gives_constItem : Gives (constItem self) NamesWords := by
  refine gives_otherPhraseOf (.after fun _ => .after fun _ => .after fun _ => ?_)
  split <;> exact gives_pure (by simp)

theorem gives_staticItem : Gives (staticItem self) NamesWords := by
  refine gives_otherPhraseOf (.after fun _ => .after fun _ => .after fun _ => .after fun _ =>
    .after fun _ => .ite (.after fun _ => .after fun _ => gives_pure (by simp)) ?_)
  refine .after fun _ => .after fun _ => .after fun _ => .ite (gives_pure (by simp)) ?_
  exact .after fun _ => .after fun _ => .after fun _ => gives_pure (by simp)

theorem gives_traitItem : Gives (traitItem self) NamesWords := by
  refine gives_otherPhraseOf (.after fun _ => .after fun _ => .after fun _ => .after fun _ =>
    .after fun _ => .after fun _ => .after fun _ => .ite ?_ (.after fun _ => .afterIte fun _ => ?_))
  · exact .after fun _ => .after fun _ => .after fun _ => gives_pure (by simp)
  · exact .after fun _ => .after fun _ => gives_pure (by simp)

theorem gives_implItem : Gives (implItem self) NamesWords := by
  refine gives_otherPhraseOf (.after fun _ => .after fun _ => .after fun _ => .after fun _ =>
    .after fun _ => .afterIte fun _ => .after fun _ => .afterIte fun _ => .after fun _ =>
    .afterIte fun _ => .after fun _ => .after fun _ => .after fun _ => .afterIte fun _ =>
    .after fun _ => .after fun _ => .ite ?_ ?_)
  · exact gives_pure (by simp)
  · exact gives_pure (by simp)

theorem gives_visibility : Gives visibility fun l => ∀ t ∈ l, t.role = some .visibility :=
  .after fun _ => .ite (.after fun _ => gives_pure (by simp)) (gives_pure (by simp))

theorem gives_useItem (h : Gives (self .useTree) HoldsWords)
    (hgroup : Gives (self .useGroupTree) HoldsWords) : Gives (useItem self) NamesWords := by
  refine gives_phraseOf (gives_visibility.bind fun vis hvis => .after fun useWord => .after fun _ =>
    .bindIte h hgroup fun tree htree => .after fun _ => .ite (gives_pure fun _ => ?_)
      (gives_pure fun _ => ⟨fun _ t ht => ?_, by simp [Tree.kind]⟩))
  · exact namesWords_of_kind (by simp [Tree.kind])
  · have hrole := Tree.role_of_child? ht
    have hmem := Tree.mem_children_of_child? ht
    simp only [Tree.children, List.mem_append, List.mem_cons, List.not_mem_nil, or_false] at hmem
    rcases hmem with hmem | rfl | rfl
    · simp [hvis t hmem] at hrole
    · simp at hrole
    · exact holdsWords_withRole.2 htree

/-- The front of a module holds one name. -/
theorem isWord_of_moduleFront {vis : List Node} {n c : Node} (hvis : ∀ t ∈ vis, t.role = some .visibility)
    (hn : IsWord n) (hrole : c.role = some .name) (hmem : c ∈ vis ++ [n.withRole .name]) :
    IsWord c := by
  simp only [List.mem_append, List.mem_cons, List.not_mem_nil, or_false] at hmem
  rcases hmem with hmem | rfl
  · simp [hvis c hmem] at hrole
  · simpa [IsWord] using hn

theorem gives_moduleItem : Gives (moduleItem self) NamesWords := by
  refine gives_phrase (gives_visibility.bind fun vis hvis => .after fun _ => .after fun _ =>
    .after fun _ => .bindIte gives_anyName gives_name fun n hn => .after fun _ =>
    .ite (gives_pure fun _ => ⟨by simp [Tree.kind], fun _ name hname => ?_⟩)
      (.after fun body => gives_pure fun _ => ⟨by simp [Tree.kind], fun _ name hname => ?_⟩))
  · exact isWord_of_moduleFront hvis hn.1 (Tree.role_of_child? hname)
      (Tree.mem_children_of_child? hname)
  · have hrole := Tree.role_of_child? hname
    have hmem := Tree.mem_children_of_child? hname
    rw [Tree.children, List.mem_append, List.mem_append, List.mem_singleton] at hmem
    rcases hmem with (hmem | hmem) | rfl
    · have hattr : name.role = some .attribute := by
        simpa [isAttribute] using (List.mem_filter.1 hmem).2
      simp [hattr] at hrole
    · exact isWord_of_moduleFront hvis hn.1 hrole hmem
    · simp at hrole

theorem gives_itemRest (h : Gives (self .useTree) HoldsWords)
    (hgroup : Gives (self .useGroupTree) HoldsWords) : Gives (itemRest self) NamesWords := by
  have foreign : Gives (do let _ ← visibility; foreignModule self) NamesWords :=
    .after fun _ => gives_otherPhrase (by simp)
  exact .after fun _ =>
    .ite gives_functionItem <|
    .ite (.ite (gives_otherPhrase (by simp)) foreign) <|
    .ite (gives_useItem h hgroup) <|
    .ite gives_staticItem <|
    .ite gives_constItem <|
    .ite (.ite gives_traitItem (.ite gives_implItem (.ite foreign gives_moduleItem))) <|
    .ite gives_moduleItem <|
    .ite gives_typeItem <|
    .ite (gives_otherPhrase (by simp)) <|
    .ite (gives_otherPhrase (by simp)) <|
    .ite (gives_otherPhrase (by simp)) <|
    .ite gives_traitItem <|
    .ite gives_traitItem <|
    .ite gives_implItem <|
    .ite (gives_otherPhrase (by simp)) <|
    .ite (gives_otherPhrase (by simp)) gives_fail

/-! ## Files -/

/-- The nodes are attributes. -/
def AreAttributes (l : List Node) : Prop :=
  ∀ t ∈ l, t.kind = .attribute ∧ t.role = some .attribute

theorem gives_attributeContent :
    Gives (attributeContent self) fun l => ∀ t ∈ l, t.kind = .attribute := by
  have value (p : Parse (List Node)) : Gives (phrase .attribute p) fun t => t.kind = .attribute :=
    gives_phrase fun _ _ _ _ _ => rfl
  refine .after fun _ => .afterIte fun _ => .after fun _ => .ite (.after fun _ => ?_) ?_
  · refine .after fun _ => .ite (.after fun _ => gives_pure (by simp)) ?_
    exact .after fun _ => .after fun _ => .after fun _ => (value _).bind fun t ht =>
      gives_pure (by simpa using ht)
  · exact .after fun _ => .ite (.after fun _ => gives_pure (by simp)) (gives_pure (by simp))

theorem areAttributes_of_found {found : List (List Node)}
    (h : ∀ l ∈ found, ∀ t ∈ l, t.kind = .attribute) :
    AreAttributes (found.flatten.map (Tree.withRole .attribute)) := by
  intro c hc
  obtain ⟨t, ht, rfl⟩ := List.mem_map.1 hc
  obtain ⟨l, hl, htl⟩ := List.mem_flatten.1 ht
  exact ⟨by simpa using h l hl t htl, by simp⟩

theorem gives_attributes : Gives (attributes self) AreAttributes :=
  (gives_whileTrue (.after fun _ => gives_inside gives_attributeContent)).bind fun _ h =>
    gives_pure (areAttributes_of_found h)

theorem gives_innerAttributes : Gives (innerAttributes self) AreAttributes :=
  (gives_whileTrue (.after fun _ => .after fun _ => gives_inside gives_attributeContent)).bind
    fun _ h => gives_pure (areAttributes_of_found h)

/-- Attributes in front of an item do not change what it names. -/
theorem child?_withAttributes {attrs : List Node} (hattrs : AreAttributes attrs) {t : Node}
    {role : Role} (hrole : role ≠ .attribute) :
    (withAttributes attrs t).child? role = t.child? role := by
  have none : attrs.find? (fun c => c.role == some role) = none := by
    rw [List.find?_eq_none]
    intro c hc
    simpa [(hattrs c hc).2] using Ne.symm hrole
  unfold withAttributes
  split
  · rfl
  · rw [Tree.child?, Tree.children, List.find?_append, none, Option.none_or, Tree.child?]

theorem kind_withAttributes (attrs : List Node) (t : Node) : (withAttributes attrs t).kind = t.kind := by
  unfold withAttributes
  split <;> rfl

theorem gives_item (h : Gives (self .useTree) HoldsWords)
    (hgroup : Gives (self .useGroupTree) HoldsWords) : Gives (item self) NamesWords := by
  refine gives_attributes.bind fun attrs hattrs => (gives_itemRest h hgroup).bind fun t ht =>
    gives_pure ⟨fun hkind tree htree => ?_, fun hkind name hname => ?_⟩
  · rw [kind_withAttributes] at hkind
    rw [child?_withAttributes hattrs (by simp)] at htree
    exact ht.use hkind tree htree
  · rw [kind_withAttributes] at hkind
    rw [nameOf?, child?_withAttributes hattrs (by simp)] at hname
    exact ht.module hkind name hname

end Parse

theorem gives_run_item (depth : Nat) : Gives (Rule.run depth .item) NamesWords := by
  cases depth with
  | zero => exact gives_fail
  | succ depth => exact Parse.gives_item (gives_run_useTree depth) (gives_run_useGroupTree depth)

theorem gives_file (depth : Nat) : Gives (file depth) fun root => ∀ t ∈ root.children, NamesWords t := by
  refine Parse.gives_phrase (Parse.gives_innerAttributes.bind fun attrs hattrs =>
    (Parse.gives_whileTrue (gives_run_item depth)).bind fun items hitems =>
      gives_pure fun _ t ht => ?_)
  rcases List.mem_append.1 ht with ht | ht
  · exact namesWords_of_kind (by simp [(hattrs t ht).1])
  · exact hitems t ht

/-- The items of a file name what they import with words. -/
theorem namesWords_of_parse? {content : String} {parsed : Parsed} (h : parse? content = some parsed)
    {t : Node} (ht : t ∈ parsed.root.children) : NamesWords t := by
  obtain ⟨ts, -, h⟩ := Option.bind_eq_some_iff.1 h
  split at h
  · rename_i root _ hroot
    obtain rfl := Option.some.inj h
    exact gives_file _ _ _ _ hroot t ht
  · exact nomatch h

/-! ## What items import -/

theorem Word.not_mem (w : Word) {c : Char} (h : isNameChar c = false) : c ∉ w.text.toList := fun hc =>
  Bool.false_ne_true (h.symm.trans (w.isNameChar_of_mem c hc))

theorem HoldsWords.text_ne_starName {t d : Node} (h : HoldsWords t) (hd : d ∈ t.nodes) :
    d.text ≠ starName := by
  intro heq
  rcases h d hd with hempty | ⟨w, hw⟩
  · exact absurd (hempty.symm.trans heq) (by decide)
  · exact w.not_mem (c := '*') (by decide) (hw ▸ heq ▸ by decide)

theorem HoldsWords.child? {t c : Node} {role : Role} (h : HoldsWords t) (hc : t.child? role = some c) :
    c.text ≠ starName :=
  h.text_ne_starName (Tree.mem_nodes_of_mem_children (Tree.mem_children_of_child? hc) c.mem_nodes_self)

/-- The import that a name in a use declaration makes. -/
def useImport (site : UseSite) (modules : List String) (name : String) (given : Option String) : Import :=
  { name, boundAs := given.filter (· != name), specifier := joinWith "::" modules, file := site.file
    line := site.line }

theorem mem_of_useTarget? {modules front : List String} {name target : String}
    (h : useTarget? modules name = some (front, target)) : target = name ∨ target ∈ modules := by
  unfold useTarget? at h
  split_ifs at h
  · obtain ⟨m, hm, heq⟩ := Option.map_eq_some_iff.1 h
    obtain ⟨-, rfl⟩ := Prod.mk.inj heq
    exact .inr (List.mem_of_getLast? hm)
  · obtain ⟨-, rfl⟩ := Prod.mk.inj (Option.some.inj h)
    exact .inl rfl

/-- A name in a use declaration adds one import and binds the name it is given, unless that is an
underscore. -/
theorem addUse_eq {modules front : List String} {name target : String}
    (h : useTarget? modules name = some (front, target)) (site : UseSite) (given : Option String)
    (facts : Facts) :
    (addUse site modules name given facts).imports =
        facts.imports ++ [useImport site front target given] ∧
      (addUse site modules name given facts).bindings =
        if given.getD target = "_" then facts.bindings
        else facts.bindings.insert (given.getD target)
          { specifier := joinWith "::" front, name := target } := by
  unfold addUse
  simp only [h, beq_iff_eq]
  split_ifs <;> exact ⟨rfl, rfl⟩

theorem addUse_of_none {modules : List String} {name : String} (h : useTarget? modules name = none)
    (site : UseSite) (given : Option String) (facts : Facts) :
    addUse site modules name given facts = facts := by
  simp only [addUse, h]

/-- A glob adds one import and binds nothing. -/
theorem addGlob_eq (site : UseSite) (modules : List String) (facts : Facts) :
    (addGlob site modules facts).imports = facts.imports ++
        [{ name := starName, specifier := joinWith "::" modules, file := site.file, line := site.line
           isReExport := site.isVisible }] ∧
      (addGlob site modules facts).bindings = facts.bindings := by
  unfold addGlob
  dsimp only
  split_ifs <;> exact ⟨rfl, rfl⟩

/-- The import that a module in another file makes. -/
def moduleImport (file : String) (name : Node) : Import :=
  { name := starName, specifier := "self::" ++ name.text, file, line := name.line }

/-- A property of facts that is kept by everything that the items of a file add. -/
structure Kept (file : String) (P : Facts → Prop) : Prop where
  use : ∀ site modules name given facts, starName ∉ modules → name ≠ starName →
    given ≠ some starName → P facts → P (addUse site modules name given facts)
  glob : ∀ site modules facts, P facts → P (addGlob site modules facts)
  module : ∀ name facts, P facts → P (facts.addImport (moduleImport file name))
  exported : ∀ e facts, P facts → P (facts.addExport e)

namespace Kept

variable {file : String} {P : Facts → Prop}

mutual

theorem addUseTree (kept : Kept file P) (site : UseSite) : ∀ (t : Node) (modules : List String)
    (facts : Facts), HoldsWords t → starName ∉ modules → P facts → P (addUseTree site modules t facts)
  | .node kind role text span children, modules, facts, ht, hmodules, h => by
    have hchildren := (holdsWords_node.1 ht).2
    have hname : ((nameOf? (.node kind role text span children)).map Tree.text).getD "" ≠ starName := by
      cases hn : nameOf? (.node kind role text span children) with
      | none => simp [starName]
      | some n => exact ht.child? hn
    unfold Crate.addUseTree
    split
    · exact kept.addUseTrees site children _ facts hchildren (by simp [hmodules, Ne.symm hname]) h
    · exact kept.use site modules _ none facts hmodules hname (by simp) h
    · refine kept.use site modules _ _ facts hmodules hname ?_ h
      intro hgiven
      obtain ⟨g, hg, htext⟩ := Option.map_eq_some_iff.1 hgiven
      exact ht.child? hg htext
    · exact kept.addUseTrees site children modules facts hchildren hmodules h
    · exact kept.glob site modules facts h
    · exact h

theorem addUseTrees (kept : Kept file P) (site : UseSite) : ∀ (l : List Node) (modules : List String)
    (facts : Facts), (∀ t ∈ l, HoldsWords t) → starName ∉ modules → P facts →
      P (addUseTrees site modules l facts)
  | [], _, _, _, _, h => h
  | t :: rest, modules, facts, hl, hmodules, h => by
    obtain ⟨ht, hrest⟩ := List.forall_mem_cons.1 hl
    exact kept.addUseTrees site rest modules _ hrest hmodules
      (kept.addUseTree site t modules facts ht hmodules h)

end

theorem addImports (kept : Kept file P) {item : Node} (hitem : NamesWords item) {facts : Facts}
    (h : P facts) : P (addImports file facts item) := by
  unfold Crate.addImports
  split
  · rename_i hkind
    dsimp only
    split
    · rename_i tree htree
      exact kept.addUseTree _ tree [] facts (hitem.use hkind tree htree) List.not_mem_nil h
    · exact h
  · split
    · exact kept.module _ facts h
    · exact h
  · exact h

theorem foldl_addImports (kept : Kept file P) {items : List Node} (hitems : ∀ t ∈ items, NamesWords t)
    {facts : Facts} (h : P facts) : P (items.foldl (Crate.addImports file) facts) :=
  List.foldlRecOn items _ h fun _ h t ht => kept.addImports (hitems t ht) h

theorem foldl_addExport (kept : Kept file P) (exports : List Export) {facts : Facts} (h : P facts) :
    P (exports.foldl Facts.addExport facts) :=
  List.foldlRecOn exports _ h fun facts h e _ => kept.exported e facts h

end Kept
end SymbolGraph.Crate
