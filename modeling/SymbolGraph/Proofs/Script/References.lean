import SymbolGraph.Proofs.Script.Scopes

/-!
# Names that are evaluated and the references found

Each child of a node stands in a slot that says what becomes of the names in it. A name is evaluated
if the slots on the way to it say so. The walk for references comes to every such name but those
inside a pattern that binds names, or inside the name of a method or field: it looks at nothing in
there, so it overlooks default values and computed keys. Every other evaluated name that is not bound
locally is found.
-/
namespace SymbolGraph.Script

/-! ## Slots -/

/-- What a node is to the names inside one of its children. -/
inductive Slot
  /-- They are evaluated if the node itself is. -/
  | evaluated
  /-- They are evaluated for the value that a part of a pattern has by default. -/
  | default
  /-- They are evaluated for a computed key. -/
  | key
  /-- They are bound: the pattern of a parameter, a declarator, a `catch` clause or a loop. -/
  | bound
  /-- They name a method or field. -/
  | memberName
  /-- They are not evaluated: an import or export list, the property of an access, the name of a
  declaration, a closing tag or a comment. -/
  | apart
  deriving DecidableEq, Repr

/-- The slot of a child with its index among the children. -/
def slotOf (parent : Node) (i : Nat) (child : Node) : Slot :=
  match parent.kind with
  | .importStatement | .jsxClosingElement | .comment | .propertyIdentifier
  | .privatePropertyIdentifier | .identifier | .shorthandPropertyIdentifier | .typeIdentifier => .apart
  | .exportStatement =>
    if (parent.child? .source).isSome || child.kind == .exportClause ||
      (child.role == some .value && child.kind == .identifier) then .apart
    else .evaluated
  | .memberExpression =>
    if parent.children.findIdx? (·.role == some .object) == some i then .evaluated else .apart
  | .nestedTypeIdentifier =>
    if parent.children.findIdx? isNamed == some i && 2 ≤ (namedChildren parent).length then .evaluated
    else .apart
  | .variableDeclarator => match child.role with
    | some .name => .bound
    | some .type | some .value => .evaluated
    | _ => .apart
  | .requiredParameter | .optionalParameter =>
    if child.role == some .pattern then .bound else .evaluated
  | .catchClause => if child.role == some .parameter then .bound else .evaluated
  | .forInStatement =>
    if child.role == some .left && (parent.child? .kind).isSome then .bound else .evaluated
  | .functionDeclaration | .generatorFunctionDeclaration | .functionExpression | .generatorFunction
  | .arrowFunction =>
    if child.role == some .name then .apart
    else if child.role == some .parameter then .bound
    else .evaluated
  | .methodDefinition =>
    if child.role == some .name then .memberName
    else if child.role == some .parameter then .bound
    else .evaluated
  | .publicFieldDefinition => if child.role == some .name then .memberName else .evaluated
  | .classDeclaration | .abstractClassDeclaration | .classExpression | .interfaceDeclaration
  | .typeAliasDeclaration | .enumDeclaration | .typeParameter =>
    if child.role == some .name then .apart else .evaluated
  | .assignmentPattern | .objectAssignmentPattern =>
    if child.role == some .right then .default else .evaluated
  | .computedPropertyName => .key
  | _ => .evaluated

/-- The slots on the way to a node, the innermost first. -/
def slots : List Nat → List Node → Node → List Slot
  | i :: place, parent :: around, t => slotOf parent i t :: slots place around parent
  | _, _, _ => []

/-- Whether a name is evaluated, by the slots on the way to it. What a pattern binds and the name of
a member are not, but a default value or a computed key inside them is. -/
def isEvaluated : List Slot → Bool
  | [] => true
  | .evaluated :: outer => isEvaluated outer
  | .default :: outer | .key :: outer => !outer.contains .apart
  | .bound :: _ | .memberName :: _ | .apart :: _ => false

/-- Whether a name stands inside a pattern that binds names or inside the name of a member. -/
def isOverlooked (slots : List Slot) : Bool := slots.contains .bound || slots.contains .memberName

/-- Slots of children that the walk goes to. -/
def Slot.isEntered : Slot → Bool
  | .evaluated | .default | .key => true
  | .bound | .memberName | .apart => false

theorem not_mem_apart_of_isEvaluated {l : List Slot} (h : isEvaluated l) : Slot.apart ∉ l := by
  induction l with
  | nil => simp
  | cons slot outer ih => cases slot <;> simp_all [isEvaluated]

theorem isEntered_of_isEvaluated {l : List Slot} (he : isEvaluated l) (ho : ¬isOverlooked l) :
    ∀ slot ∈ l, slot.isEntered := by
  intro slot hslot
  have hapart := not_mem_apart_of_isEvaluated he
  simp only [isOverlooked, Bool.or_eq_true, List.contains_iff_mem, not_or] at ho
  cases slot with
  | bound => exact absurd hslot ho.1
  | memberName => exact absurd hslot ho.2
  | apart => exact absurd hslot hapart
  | evaluated | default | key => rfl

/-! ## Slots and the steps of the walk -/

theorem find?_of_findIdx? {l : List Node} {p : Node → Bool} {i : Nat} {t : Node}
    (hi : l.findIdx? p = some i) (ht : l[i]? = some t) : l.find? p = some t := by
  obtain ⟨hlt, hp, hbefore⟩ := List.findIdx?_eq_some_iff_getElem.1 hi
  obtain ⟨_, rfl⟩ := List.getElem?_eq_some_iff.1 ht
  exact List.find?_eq_some_iff_getElem.2 ⟨hp, i, hlt, rfl, by simpa using hbefore⟩

section Step

variable {parent child : Node} {i : Nat}

theorem enters_object (hk : parent.kind = .memberExpression) (hc : parent.children[i]? = some child)
    (hi : parent.children.findIdx? (·.role == some .object) = some i) : Enters parent child := by
  have hobject : parent.child? .object = some child := find?_of_findIdx? hi hc
  cases hmember : parent.child? .property with
  | some member => exact .object hk hobject hmember
  | none =>
    have hopen : isOpen parent := by simp [isOpen, isAccess, hk, hmember, Kind.isSilent, Kind.isName]
    exact .child hopen (List.mem_of_getElem? hc) (by simp [isWalked, hk, Kind.isFunctionScope])

theorem enters_qualifier (hk : parent.kind = .nestedTypeIdentifier)
    (hc : parent.children[i]? = some child) (hi : parent.children.findIdx? isNamed = some i)
    (hlong : 2 ≤ (namedChildren parent).length) : Enters parent child := by
  have hhead : (namedChildren parent).head? = some child := by
    rw [namedChildren, List.head?_filter]
    exact find?_of_findIdx? hi hc
  match hn : namedChildren parent with
  | [] | [_] => simp [hn] at hlong
  | first :: next :: rest =>
    obtain rfl : first = child := by simpa [hn] using hhead
    exact .qualifier hk hn

theorem isOpen_of_isEntered (hm : parent.kind ≠ .memberExpression)
    (hq : parent.kind ≠ .nestedTypeIdentifier) (h : (slotOf parent i child).isEntered) :
    isOpen parent := by
  by_cases he : parent.kind = .exportStatement
  · have hsource : ¬(parent.child? .source).isSome := by
      intro hsource
      simp only [slotOf, he, hsource, Bool.true_or, if_true] at h
      cases h
    simp [isOpen, isAccess, he, hsource, Kind.isSilent, Kind.isName]
  · unfold slotOf at h
    split at h <;> simp_all [isOpen, isAccess, Kind.isSilent, Kind.isName, Slot.isEntered]

/-- Among children that are looked at one by one, the walk goes to those in which names are
evaluated. -/
theorem isWalked_iff_isEntered (ho : isOpen parent) (hm : parent.kind ≠ .memberExpression) :
    isWalked parent child ↔ (slotOf parent i child).isEntered := by
  by_cases hd : parent.kind = .variableDeclarator
  · simp only [isWalked, slotOf, hd]
    split <;> simp_all [Slot.isEntered]
  have hsource : parent.kind = .exportStatement → (parent.child? .source).isSome = false := by
    intro hk
    simpa [isOpen, hk, isAccess, Kind.isSilent, Kind.isName] using ho
  unfold slotOf
  split <;> simp_all +decide [isWalked, isOpen, Kind.isSilent, Kind.isName, Kind.isFunctionScope,
    apply_ite Slot.isEntered, imp_iff_not_or]

theorem enters_of_isEntered (hc : parent.children[i]? = some child)
    (h : (slotOf parent i child).isEntered) : Enters parent child := by
  by_cases hm : parent.kind = .memberExpression
  · have hi : parent.children.findIdx? (·.role == some .object) = some i := by
      simpa +decide [slotOf, hm, apply_ite Slot.isEntered] using h
    exact enters_object hm hc hi
  by_cases hq : parent.kind = .nestedTypeIdentifier
  · have hi : parent.children.findIdx? isNamed = some i ∧ 2 ≤ (namedChildren parent).length := by
      simpa +decide [slotOf, hq, apply_ite Slot.isEntered] using h
    exact enters_qualifier hq hc hi.1 hi.2
  have ho := isOpen_of_isEntered hm hq h
  exact .child ho (List.mem_of_getElem? hc) ((isWalked_iff_isEntered ho hm).2 h)

/-- The walk never goes into a pattern or into the name of a member. -/
theorem Enters.not_isOverlooked (h : Enters parent child) : ¬isOverlooked [slotOf parent i child] := by
  have hslot : parent.kind = .memberExpression ∨ parent.kind = .nestedTypeIdentifier ∨
      (slotOf parent i child).isEntered := by
    cases h with
    | child ho _ hw =>
      by_cases hm : parent.kind = .memberExpression
      · exact .inl hm
      · exact .inr (.inr ((isWalked_iff_isEntered ho hm).1 hw))
    | object hk => exact .inl hk
    | qualifier hk => exact .inr (.inl hk)
  rcases hslot with hk | hk | h
  · simp only [slotOf, hk]
    split <;> decide
  · simp only [slotOf, hk]
    split <;> decide
  · cases hs : slotOf parent i child <;> simp_all +decide

end Step

/-! ## Whole walks -/

section Walk

variable {root t : Node} {place : List Nat} {around : List Node}

theorem exists_reached (ht : root.at? place = some (around, t))
    (h : ∀ slot ∈ slots place around t, slot.isEntered) :
    ∃ scopes, Visit.Reached root ⟨scopes, around, t⟩ := by
  induction place generalizing around t with
  | nil =>
    obtain ⟨rfl, rfl⟩ : [] = around ∧ root = t := by simpa [Tree.at?] using ht
    exact ⟨[], .refl⟩
  | cons i place ih =>
    obtain ⟨outer, parent, hparent, hchild, rfl⟩ := Tree.at?_cons.1 ht
    simp only [slots, List.forall_mem_cons] at h
    obtain ⟨scopes, hreached⟩ := ih hparent h.2
    exact ⟨scopesInside scopes parent, hreached.tail (.into (enters_of_isEntered hchild h.1))⟩

theorem isOverlooked_cons (slot : Slot) (outer : List Slot) :
    isOverlooked (slot :: outer) = (isOverlooked [slot] || isOverlooked outer) := by
  simp only [isOverlooked, List.contains_cons, List.contains_nil, Bool.or_false]
  ac_rfl

theorem Visit.Reached.not_isOverlooked {scopes : List (List String)}
    (ht : root.at? place = some (around, t)) (h : Visit.Reached root ⟨scopes, around, t⟩) :
    ¬isOverlooked (slots place around t) := by
  induction place generalizing scopes around t with
  | nil => simp [slots, isOverlooked]
  | cons i place ih =>
    obtain ⟨outer, parent, hparent, -, rfl⟩ := Tree.at?_cons.1 ht
    -- The last step of the walk comes from the node around, which lies at the rest of the place.
    cases h with
    | tail hbefore hgoes =>
      obtain ⟨henters⟩ := hgoes
      rw [slots, isOverlooked_cons, Bool.or_eq_true, not_or]
      exact ⟨henters.not_isOverlooked, ih hparent hbefore⟩

end Walk

/-! ## What is found -/

/-- A name that the walk comes to and that is not bound locally is found. -/
theorem mem_references_of_reached {s : Search} {root : Node} (hroot : root.kind = .program) {v : Visit}
    (hv : Visit.Reached root v) (hname : v.node.kind.isName)
    (hfree : localBinding v.around v.node.text = none) {r : Reference}
    (hr : referenceAt s v.around v.node = some r) : r ∈ references s root := by
  refine (mem_references hroot).2 ⟨v, hv, hname, ?_, hr⟩
  rw [hv.agrees, hfree]
  rfl

theorem referenceAt_of_not_isNamespace {s : Search} {around : List Node} {t : Node}
    {target : ReferenceTarget} (ht : s.target? t.text = some target)
    (h : ¬s.isNamespace t.text ∨ ∀ parent ∈ around.head?, accessed? parent t = none) :
    referenceAt s around t = some (s.found target t.line (nameUsage (parentKind around) t)) := by
  cases around with
  | nil => simp [referenceAt, ht]
  | cons parent outer =>
    simp only [referenceAt, ht, Option.map_some]
    cases ha : accessed? parent t with
    | none => rfl
    | some member =>
      have hs : ¬s.isNamespace t.text := h.resolve_right fun h => by simp [h parent rfl] at ha
      simp [hs]

/-- The walk comes to an evaluated name exactly if the name stands in no pattern that binds names and
in no name of a member. If it comes there and the name is not bound locally, the reference is found
at the line of the name. A namespace in front of a member is found with that member, at the line of
the access. -/
theorem evaluated_name_found_unless_overlooked (s : Search) {root t : Node} {place : List Nat}
    {around : List Node} {target : ReferenceTarget} (hroot : root.kind = .program)
    (ht : root.at? place = some (around, t)) (hname : t.kind.isName)
    (heval : isEvaluated (slots place around t)) (htarget : s.target? t.text = some target)
    (hfree : localBinding around t.text = none) :
    ((∃ scopes, Visit.Reached root ⟨scopes, around, t⟩) ↔ ¬isOverlooked (slots place around t)) ∧
    (¬isOverlooked (slots place around t) →
      (∀ parent ∈ around.head?, ∀ member ∈ accessed? parent t, s.isNamespace t.text →
        ∃ r ∈ references s root,
          r.target = .imported t.text (some member.text) ∧ r.line = parent.line) ∧
      ((¬s.isNamespace t.text ∨ ∀ parent ∈ around.head?, accessed? parent t = none) →
        ∃ r ∈ references s root, r.target = target ∧ r.line = t.line)) := by
  have hreached (h : ¬isOverlooked (slots place around t)) :=
    exists_reached ht (isEntered_of_isEvaluated heval h)
  refine ⟨⟨fun ⟨_, h⟩ => h.not_isOverlooked ht, hreached⟩, fun hseen => ?_⟩
  obtain ⟨scopes, hv⟩ := hreached hseen
  constructor
  · intro parent hparent member hmember hspace
    obtain ⟨outer, rfl⟩ : ∃ outer, around = parent :: outer := List.head?_eq_some_iff.1 hparent
    have hr : referenceAt s (parent :: outer) t = some (s.found (.imported t.text (some member.text))
        parent.line (accessUsage parent outer)) := by
      simp [referenceAt, Option.mem_def.1 hmember, hspace]
    exact ⟨_, mem_references_of_reached hroot hv hname hfree hr, rfl, rfl⟩
  · intro halone
    have hr := referenceAt_of_not_isNamespace htarget halone
    exact ⟨_, mem_references_of_reached hroot hv hname hfree hr, rfl, rfl⟩

/-- The namespace in front of `g` is evaluated, so the walk finds it with the member. -/
theorem namespace_member_found :
    let text := "import * as ns from './n';\nfunction f(a) \x7b return ns.g(a); \x7d\n"
    let root := parseFile "f.ts" text
    let s : Search := ⟨text, (factsOf "f.ts" root).bindings, .empty⟩
    let place := [0, 0, 1, 1, 3, 1]
    ∃ around t, root.at? place = some (around, t) ∧ t.text = "ns" ∧
      isEvaluated (slots place around t) ∧ ¬isOverlooked (slots place around t) ∧
      ∃ r ∈ references s root, r.target = .imported "ns" (some "g") ∧ r.line = 2 := by
  intro text root s place
  have hfacts : ((root.at? place).any fun (around, t) => t.text == "ns" && t.kind.isName &&
      isEvaluated (slots place around t) && !isOverlooked (slots place around t) &&
      s.target? t.text == some (.imported "ns" none) && localBinding around t.text == none &&
      s.isNamespace t.text && around.head?.any fun parent => parent.line == 2 &&
        (accessed? parent t).any (·.text == "g")) = true := by
    decide +kernel
  simp only [Option.any_eq_true, Prod.exists, Bool.and_eq_true, beq_iff_eq, Bool.not_eq_true'] at hfacts
  obtain ⟨around, t, ht, ⟨⟨⟨⟨⟨⟨htext, hname⟩, heval⟩, hseen⟩, htarget⟩, hfree⟩, hspace⟩, parent,
    hparent, hline, member, hmember, hg⟩ := hfacts
  have hseen' : ¬isOverlooked (slots place around t) := by simp [hseen]
  have hfound := ((evaluated_name_found_unless_overlooked s (kind_parse _ _) ht hname heval htarget
    hfree).2 hseen').1 parent hparent member hmember hspace
  rw [htext, hg, hline] at hfound
  exact ⟨around, t, ht, htext, heval, hseen', hfound⟩

/-- The default value inside a pattern of the parameters calls an imported function that no scope
binds, and nothing is found. -/
theorem default_in_pattern_overlooked :
    let text := "import \x7b fmt \x7d from './u';\nexport function f(\x7b a = fmt() \x7d) \x7b return a; \x7d\n"
    let root := parseFile "src/a.ts" text
    let s : Search := ⟨text, (factsOf "src/a.ts" root).bindings, .empty⟩
    let place := [0, 2, 1, 0, 1, 2, 1, 1]
    (∃ around t, root.at? place = some (around, t) ∧ t.kind = .identifier ∧
      isEvaluated (slots place around t) ∧ s.target? t.text = some (.imported "fmt" none) ∧
      localBinding around t.text = none ∧ t.line = 2) ∧
    references s root = [] := by
  intro text root s place
  have hfacts : ((root.at? place).any fun (around, t) => t.kind == .identifier &&
      isEvaluated (slots place around t) && s.target? t.text == some (.imported "fmt" none) &&
      localBinding around t.text == none && t.line == 2) = true ∧
      (references s root).isEmpty = true := by
    decide +kernel
  simp only [Option.any_eq_true, Prod.exists, Bool.and_eq_true, beq_iff_eq] at hfacts
  obtain ⟨⟨around, t, ht, ⟨⟨⟨hk, heval⟩, htarget⟩, hfree⟩, hline⟩, hnone⟩ := hfacts
  exact ⟨⟨around, t, ht, hk, heval, htarget, hfree, hline⟩, List.isEmpty_iff.1 hnone⟩

end SymbolGraph.Script
