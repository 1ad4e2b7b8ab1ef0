import SymbolGraph.Proofs.Tree
import SymbolGraph.Script.Grammar
import SymbolGraph.Script.Mutations

/-!
# Which writes count as changes of outer state

A write is followed from its target to the name at its root: through accesses, and through parentheses
and signs that a value is there. What is written through a pattern or behind the assertion of a type is
not followed. A name counts as local if a declaration of it in the function is seen, and also if it is
the name of a method in the function.
-/
namespace SymbolGraph.Script

/-! ## Names that patterns bind -/

/-- The parts of a pattern in which names are bound. -/
def bindingParts (p : Node) : List Node :=
  match p.kind with
  | .pairPattern => (p.child? .value).toList
  | .assignmentPattern | .objectAssignmentPattern => (p.child? .left).toList
  | .requiredParameter | .optionalParameter => (p.child? .pattern).toList
  | .objectPattern | .arrayPattern | .restPattern | .formalParameters => namedChildren p
  | _ => []

/-- A pattern binds the names in it, at any depth. -/
inductive Binds : Node → String → Prop
  | name {p : Node} : p.kind = .identifier ∨ p.kind = .shorthandPropertyIdentifierPattern →
      Binds p p.text
  | part {p c : Node} {x : String} : c ∈ bindingParts p → Binds c x → Binds p x

theorem mem_children_of_mem_bindingParts {p c : Node} (h : c ∈ bindingParts p) : c ∈ p.children := by
  unfold bindingParts at h
  split at h
  case h_1 | h_2 | h_3 | h_4 | h_5 => exact Tree.mem_children_of_child? (Option.mem_toList.1 h)
  case h_6 | h_7 | h_8 | h_9 => exact (List.mem_filter.1 h).1
  case h_10 => cases h

theorem mem_namesInRole {role : Role} {l : List Node} {x : String} : x ∈ namesInRole role l ↔
    ∃ c, l.find? (·.role == some role) = some c ∧ x ∈ patternNames c := by
  induction l with
  | nil => simp [namesInRole]
  | cons t rest ih =>
    rw [namesInRole, List.find?_cons]
    cases ht : t.role == some role with
    | true => simp
    | false => simpa using ih

theorem mem_namesInAll {l : List Node} {x : String} :
    x ∈ namesInAll l ↔ ∃ c ∈ l.filter isNamed, x ∈ patternNames c := by
  induction l with
  | nil => simp [namesInAll]
  | cons t rest ih =>
    rw [namesInAll, List.mem_append, ih, List.filter_cons]
    cases isNamed t <;> simp

theorem mem_patternNames_iff {p : Node} {x : String} : x ∈ patternNames p ↔
    ((p.kind = .identifier ∨ p.kind = .shorthandPropertyIdentifierPattern) ∧ x = p.text) ∨
      ∃ c ∈ bindingParts p, x ∈ patternNames c := by
  obtain ⟨kind, role, text, span, children⟩ := p
  rw [patternNames.eq_def (.node kind role text span children), bindingParts]
  simp only [Tree.kind, Tree.text]
  split <;> simp_all [mem_namesInRole, mem_namesInAll, Tree.child?, Tree.children, namedChildren]

theorem mem_patternNames {p : Node} {x : String} : x ∈ patternNames p ↔ Binds p x := by
  constructor
  · intro h
    induction hn : sizeOf p using Nat.strongRecOn generalizing p with
    | ind n ih =>
      rcases mem_patternNames_iff.1 h with ⟨hk, rfl⟩ | ⟨c, hc, h⟩
      · exact .name hk
      · have smaller := Tree.sizeOf_lt_of_mem_children (mem_children_of_mem_bindingParts hc)
        exact .part hc (ih _ (hn ▸ smaller) h rfl)
  · intro h
    induction h with
    | name hk => exact mem_patternNames_iff.2 (.inl ⟨hk, rfl⟩)
    | part hc _ ih => exact mem_patternNames_iff.2 (.inr ⟨_, hc, ih⟩)

theorem mem_namesIn {t : Node} {role : Role} {x : String} :
    x ∈ namesIn t role ↔ ∃ p, t.child? role = some p ∧ Binds p x := by
  simp only [namesIn, ← mem_patternNames]
  cases t.child? role <;> simp

/-- A function has a parameter of this name. -/
def HasParameter (function : Node) (x : String) : Prop :=
  ∃ p, (function.child? .parameters = some p ∨ function.child? .parameter = some p) ∧ Binds p x

theorem mem_parameterNames {function : Node} {x : String} :
    x ∈ parameterNames function ↔ HasParameter function x := by
  simp only [parameterNames, List.mem_append, mem_namesIn, HasParameter, or_and_right, exists_or]

/-! ## What nodes declare -/

/-- A node declares a name in the function around it. The names of enums, of namespaces, of abstract
classes and of function values are not seen. -/
inductive Declares : Node → String → Prop
  | declared {t p : Node} {x : String} : t.kind = .variableDeclarator → t.child? .name = some p →
      Binds p x → Declares t x
  | parameter {t : Node} {x : String} : t.kind.isFunctionValue = true → HasParameter t x → Declares t x
  | caught {t p : Node} {x : String} : t.kind = .catchClause → t.child? .parameter = some p →
      Binds p x → Declares t x
  | looped {t p : Node} {x : String} : t.kind = .forInStatement → (t.child? .kind).isSome = true →
      t.child? .left = some p → Binds p x → Declares t x
  /-- A function or a class. -/
  | named {t n : Node} : t.kind.isSeparate = true → t.kind ≠ .methodDefinition →
      t.child? .name = some n → Declares t n.text

/-- A method has this name. -/
def IsMethod (t : Node) (x : String) : Prop := t.kind = .methodDefinition ∧ textIn? t .name = some x

theorem mem_declaredBy {t : Node} {x : String} : x ∈ declaredBy t ↔ Declares t x ∨ IsMethod t x := by
  constructor
  · intro h
    unfold declaredBy at h
    split at h
    · rename_i hseparate
      have h : textIn? t .name = some x := Option.mem_toList.1 h
      by_cases hmethod : t.kind = .methodDefinition
      · exact .inr ⟨hmethod, h⟩
      · obtain ⟨n, hn, rfl⟩ := Option.map_eq_some_iff.1 h
        exact .inl (.named hseparate hmethod hn)
    · split at h
      · rename_i hfunction
        exact .inl (.parameter hfunction (mem_parameterNames.1 h))
      · split at h
        · rename_i hk
          obtain ⟨p, hp, hx⟩ := mem_namesIn.1 h
          exact .inl (.declared hk hp hx)
        · rename_i hk
          obtain ⟨p, hp, hx⟩ := mem_namesIn.1 h
          exact .inl (.caught hk hp hx)
        · rename_i hk
          unfold loopNames at h
          split at h
          · rename_i hloop
            obtain ⟨p, hp, hx⟩ := mem_namesIn.1 h
            exact .inl (.looped hk hloop hp hx)
          · cases h
        · cases h
  · rintro (h | ⟨hk, h⟩)
    · cases h with
      | declared hk hp hx =>
        simpa [declaredBy, hk, Kind.isSeparate, Kind.isFunctionValue] using mem_namesIn.2 ⟨_, hp, hx⟩
      | parameter hk hx =>
        have apart : t.kind.isSeparate = false := by
          unfold Kind.isFunctionValue at hk
          split at hk <;> simp_all [Kind.isSeparate]
        simpa [declaredBy, hk, apart] using mem_parameterNames.2 hx
      | caught hk hp hx =>
        simpa [declaredBy, hk, Kind.isSeparate, Kind.isFunctionValue] using mem_namesIn.2 ⟨_, hp, hx⟩
      | looped hk hloop hp hx =>
        simpa [declaredBy, loopNames, hk, hloop, Kind.isSeparate, Kind.isFunctionValue] using
          mem_namesIn.2 ⟨_, hp, hx⟩
      | named hseparate _ hn => simp [declaredBy, hseparate, textIn?, hn]
    · simp [declaredBy, hk, h, Kind.isSeparate]

/-! ## From a target to the name at its root -/

/-- Parentheses, and the sign that a value is there. -/
def Kind.isWrapper : Kind → Bool
  | .parenthesizedExpression | .nonNullExpression => true
  | _ => false

/-- Assertions of types. -/
def Kind.isAssertion : Kind → Bool
  | .asExpression | .satisfiesExpression | .typeAssertion => true
  | _ => false

def isOperand (t : Node) : Bool := isNamed t && t.kind != .comment && t.kind != .typeArguments

/-- The parts of a pattern that receive values. -/
def receivingParts (p : Node) : List Node :=
  match p.kind with
  | .pairPattern => (p.child? .value).toList
  | .assignmentPattern | .objectAssignmentPattern => (p.child? .left).toList
  | .objectPattern | .arrayPattern | .restPattern => namedChildren p
  | _ => []

/-- What is written through a target changes the value of a name. The list has the nodes on the way
from the target to the name, the outermost first. -/
inductive Reaches : Node → List Node → String → Prop
  | name {t : Node} : t.kind = .identifier → Reaches t [] t.text
  | access {t object : Node} {way : List Node} {x : String} :
      t.kind = .memberExpression ∨ t.kind = .subscriptExpression → t.child? .object = some object →
      Reaches object way x → Reaches t (t :: way) x
  | inner {t e : Node} {way : List Node} {x : String} :
      t.kind.isWrapper = true ∨ t.kind.isAssertion = true → t.children.find? isOperand = some e →
      Reaches e way x → Reaches t (t :: way) x
  | part {t p : Node} {way : List Node} {x : String} : p ∈ receivingParts t → Reaches p way x →
      Reaches t (t :: way) x
  | shorthand {t : Node} : t.kind = .shorthandPropertyIdentifierPattern → Reaches t [t] t.text

/-- The nodes that are followed to the name behind them. Behind a comment nothing is found. -/
def isFollowed (t : Node) : Bool :=
  match t.kind with
  | .memberExpression | .subscriptExpression => true
  | .parenthesizedExpression | .nonNullExpression => (t.children.find? isNamed).any isOperand
  | _ => false

theorem targetRootIn_eq (role : Role) (l : List Node) :
    targetRootIn role l = (l.find? (·.role == some role)).bind targetRoot := by
  induction l with
  | nil => rfl
  | cons t rest ih =>
    rw [targetRootIn, List.find?_cons]
    cases ht : t.role == some role with
    | true => rfl
    | false => exact ih

theorem targetRootNamed_eq (l : List Node) :
    targetRootNamed l = (l.find? isNamed).bind targetRoot := by
  induction l with
  | nil => rfl
  | cons t rest ih =>
    rw [targetRootNamed, List.find?_cons]
    cases ht : isNamed t with
    | true => rfl
    | false => exact ih

theorem targetRoot_of_identifier {t : Node} (hk : t.kind = .identifier) :
    targetRoot t = some (.variable t.text) := by
  obtain ⟨kind, role, text, span, children⟩ := t
  obtain rfl : kind = .identifier := hk
  rw [targetRoot]
  rfl

theorem targetRoot_of_access {t : Node}
    (hk : t.kind = .memberExpression ∨ t.kind = .subscriptExpression) :
    targetRoot t = (t.child? .object).bind fun object =>
      if object.kind == .this then some (.ownMember ((textIn? t .property).getD ""))
      else targetRoot object := by
  obtain ⟨kind, role, text, span, children⟩ := t
  have found : targetRootIn .object children =
      ((Tree.node kind role text span children : Node).child? .object).bind targetRoot :=
    targetRootIn_eq .object children
  rcases hk with hk | hk <;>
  · simp only [Tree.kind] at hk
    subst hk
    simp only [targetRoot, found]
    cases (Tree.node _ role text span children : Node).child? .object <;> rfl

theorem targetRoot_of_isWrapper {t : Node} (hk : t.kind.isWrapper = true) :
    targetRoot t = (t.children.find? isNamed).bind targetRoot := by
  obtain ⟨kind, role, text, span, children⟩ := t
  unfold Kind.isWrapper at hk
  split at hk
  · rename_i heq
    obtain rfl : kind = _ := heq
    rw [targetRoot, targetRootNamed_eq]
    rfl
  · rename_i heq
    obtain rfl : kind = _ := heq
    rw [targetRoot, targetRootNamed_eq]
    rfl
  · cases hk

theorem followed_cases (t : Node) : t.kind = .identifier ∨
    (t.kind = .memberExpression ∨ t.kind = .subscriptExpression) ∨ t.kind.isWrapper = true ∨
      targetRoot t = none := by
  obtain ⟨kind, role, text, span, children⟩ := t
  rw [targetRoot.eq_def]
  simp only [Tree.kind]
  split <;> simp [Kind.isWrapper]

theorem isOperand_of_targetRoot {t : Node} {w : WriteTarget} (h : targetRoot t = some w) :
    isOperand t = true := by
  rcases followed_cases t with hk | (hk | hk) | hk | hnone
  · simp [isOperand, isNamed, hk]
  · simp [isOperand, isNamed, hk]
  · simp [isOperand, isNamed, hk]
  · unfold Kind.isWrapper at hk
    split at hk <;> simp_all [isOperand, isNamed]
  · rw [hnone] at h
    cases h

/-- The first named node is the operand unless a comment stands in front of it. -/
theorem find?_isOperand {l : List Node} {e : Node} (he : l.find? isNamed = some e)
    (hoperand : isOperand e = true) : l.find? isOperand = some e := by
  obtain ⟨-, before, after, rfl, hbefore⟩ := List.find?_eq_some_iff_append.1 he
  refine List.find?_eq_some_iff_append.2 ⟨hoperand, before, after, rfl, fun c hc => ?_⟩
  have unnamed : isNamed c = false := by simpa using hbefore c hc
  simp [isOperand, unnamed]

theorem isFollowed_of_isWrapper {t : Node} (hk : t.kind.isWrapper = true) :
    isFollowed t = (t.children.find? isNamed).any isOperand := by
  unfold Kind.isWrapper at hk
  split at hk <;> simp_all [isFollowed]

theorem Reaches.kind_ne_this {t : Node} {way : List Node} {x : String} (h : Reaches t way x) :
    t.kind ≠ .this := by
  intro hk
  cases h <;> simp_all [Kind.isWrapper, Kind.isAssertion, receivingParts]

theorem not_isFollowed_of_part {t p : Node} (h : p ∈ receivingParts t) : isFollowed t = false := by
  unfold receivingParts at h
  split at h <;> simp_all [isFollowed]

/-- The root of a target is the name that it reaches on a way that is followed. -/
theorem targetRoot_eq_variable {t : Node} {x : String} : targetRoot t = some (.variable x) ↔
    ∃ way, Reaches t way x ∧ ∀ n ∈ way, isFollowed n = true := by
  constructor
  · intro h
    induction hn : sizeOf t using Nat.strongRecOn generalizing t with
    | ind n ih =>
      rcases followed_cases t with hk | hk | hk | hnone
      · rw [targetRoot_of_identifier hk] at h
        cases h
        exact ⟨[], .name hk, by simp⟩
      · rw [targetRoot_of_access hk, Option.bind_eq_some_iff] at h
        obtain ⟨object, hobject, h⟩ := h
        split at h
        · cases h
        · have smaller := Tree.sizeOf_lt_of_mem_children (Tree.mem_children_of_child? hobject)
          obtain ⟨way, hreaches, hway⟩ := ih _ (hn ▸ smaller) h rfl
          have followed : isFollowed t = true := by rcases hk with hk | hk <;> simp [isFollowed, hk]
          exact ⟨t :: way, .access hk hobject hreaches, List.forall_mem_cons.2 ⟨followed, hway⟩⟩
      · rw [targetRoot_of_isWrapper hk, Option.bind_eq_some_iff] at h
        obtain ⟨e, he, h⟩ := h
        have smaller := Tree.sizeOf_lt_of_mem_children (List.mem_of_find?_eq_some he)
        obtain ⟨way, hreaches, hway⟩ := ih _ (hn ▸ smaller) h rfl
        have hoperand := isOperand_of_targetRoot h
        have followed : isFollowed t = true := by rw [isFollowed_of_isWrapper hk, he]; exact hoperand
        exact ⟨t :: way, .inner (.inl hk) (find?_isOperand he hoperand) hreaches,
          List.forall_mem_cons.2 ⟨followed, hway⟩⟩
      · rw [hnone] at h
        cases h
  · rintro ⟨way, hreaches, hway⟩
    induction hreaches with
    | name hk => exact targetRoot_of_identifier hk
    | access hk hobject hreaches ih =>
      have other : (_ == Kind.this) = false := beq_eq_false_iff_ne.2 hreaches.kind_ne_this
      rw [targetRoot_of_access hk, hobject, Option.bind_some, other]
      exact ih (List.forall_mem_cons.1 hway).2
    | inner hk he _ ih =>
      obtain ⟨followed, hway⟩ := List.forall_mem_cons.1 hway
      rcases hk with hk | hk
      · rw [isFollowed_of_isWrapper hk, Option.any_eq_true] at followed
        obtain ⟨e', he', hoperand⟩ := followed
        obtain rfl := Option.some_inj.1 (he.symm.trans (find?_isOperand he' hoperand))
        rw [targetRoot_of_isWrapper hk, he', Option.bind_some]
        exact ih hway
      · unfold Kind.isAssertion at hk
        split at hk <;> simp_all [isFollowed]
    | part hp => simp [not_isFollowed_of_part hp] at hway
    | shorthand hk => simp [isFollowed, hk] at hway

/-! ## What nodes write -/

/-- A node writes to what a name stands for: by an assignment, an increment or decrement, or a call of
a method that changes its object. -/
inductive WritesTo : Node → List Node → String → Prop
  | assigned {t left : Node} {way : List Node} {x : String} :
      t.kind = .assignmentExpression ∨ t.kind = .augmentedAssignmentExpression →
      t.child? .left = some left → Reaches left way x → WritesTo t way x
  | updated {t argument : Node} {way : List Node} {x : String} : t.kind = .updateExpression →
      t.child? .argument = some argument → Reaches argument way x → WritesTo t way x
  | called {t f method object : Node} {way : List Node} {x : String} : t.kind = .callExpression →
      t.child? .function = some f → f.kind = .memberExpression → f.child? .property = some method →
      method.text ∈ mutatingMethods → f.child? .object = some object → Reaches object way x →
      WritesTo t way x

theorem writeOf_eq_variable {t : Node} {x : String} : writeOf t = some (.variable x) ↔
    ∃ way, WritesTo t way x ∧ ∀ n ∈ way, isFollowed n = true := by
  constructor
  · intro h
    unfold writeOf at h
    split at h
    case h_1 hk | h_2 hk =>
      obtain ⟨left, hleft, h⟩ := Option.bind_eq_some_iff.1 h
      obtain ⟨way, hreaches, hway⟩ := targetRoot_eq_variable.1 h
      exact ⟨way, .assigned (by simp [hk]) hleft hreaches, hway⟩
    case h_3 hk =>
      obtain ⟨argument, hargument, h⟩ := Option.bind_eq_some_iff.1 h
      obtain ⟨way, hreaches, hway⟩ := targetRoot_eq_variable.1 h
      exact ⟨way, .updated hk hargument hreaches, hway⟩
    case h_4 hk =>
      obtain ⟨f, hf, h⟩ := Option.bind_eq_some_iff.1 h
      split at h
      · cases h
      · rename_i hfk
        have hfk : f.kind = .memberExpression := by simpa using hfk
        obtain ⟨method, hmethod, h⟩ := Option.bind_eq_some_iff.1 h
        split at h
        · cases h
        · rename_i hlisted
          have hlisted : method.text ∈ mutatingMethods := by simpa using hlisted
          obtain ⟨object, hobject, h⟩ := Option.bind_eq_some_iff.1 h
          obtain ⟨way, hreaches, hway⟩ := targetRoot_eq_variable.1 h
          exact ⟨way, .called hk hf hfk hmethod hlisted hobject hreaches, hway⟩
    case h_5 => cases h
  · rintro ⟨way, hwrites, hway⟩
    cases hwrites with
    | assigned hk hleft hreaches =>
      have root := targetRoot_eq_variable.2 ⟨way, hreaches, hway⟩
      rcases hk with hk | hk <;> simp [writeOf, hk, hleft, root]
    | updated hk hargument hreaches =>
      have root := targetRoot_eq_variable.2 ⟨way, hreaches, hway⟩
      simp [writeOf, hk, hargument, root]
    | called hk hf hfk hmethod hlisted hobject hreaches =>
      have root := targetRoot_eq_variable.2 ⟨way, hreaches, hway⟩
      simp [writeOf, hk, hf, hfk, hmethod, hlisted, hobject, root]

/-! ## The body of a function -/

/-- A node of the body of a function that stands in no function, method or class declared there. -/
def Scanned (function t : Node) : Prop :=
  ∃ body place around, function.child? .body = some body ∧ body.at? place = some (around, t) ∧
    ∀ parent ∈ around, parent.kind.isSeparate = false

/-- The function declares the name: as a parameter or in its body. -/
def DeclaredIn (function : Node) (x : String) : Prop :=
  HasParameter function x ∨ ∃ t, Scanned function t ∧ Declares t x

/-- The body of the function has a method of this name. -/
def NamesMethod (function : Node) (x : String) : Prop := ∃ t, Scanned function t ∧ IsMethod t x

theorem writesInAll_eq (l : List Node) : writesInAll l =
    ⟨l.flatMap fun t => (writesIn t).declared, l.flatMap fun t => (writesIn t).targets⟩ := by
  induction l with
  | nil => rfl
  | cons t rest ih => simp [writesInAll, ih, Writes.append]

theorem writesIn_eq (t : Node) : writesIn t =
    ⟨declaredBy t ++ if t.kind.isSeparate then [] else t.children.flatMap fun c => (writesIn c).declared,
      (writeOf t).toList ++
        if t.kind.isSeparate then [] else t.children.flatMap fun c => (writesIn c).targets⟩ := by
  obtain ⟨kind, role, text, span, children⟩ := t
  rw [writesIn, writesInAll_eq]
  simp only [Tree.kind, Tree.children]
  split <;> simp_all [Writes.append]

/-- What a walk collects that passes over the inside of functions, methods and classes. -/
theorem mem_collected_scanned {A : Type} {collect own : Node → List A}
    (step : ∀ t, collect t = own t ++ if t.kind.isSeparate then [] else t.children.flatMap collect)
    {f : Node} {a : A} :
    a ∈ ((f.child? .body).map collect).getD [] ↔ ∃ t, Scanned f t ∧ a ∈ own t := by
  have goes (t : Node) (a : A) : a ∈ collect t ↔ a ∈ own t ∨
      ∃ c ∈ t.children, t.kind.isSeparate = false ∧ a ∈ collect c := by
    rw [step]
    cases t.kind.isSeparate <;> simp
  cases hbody : f.child? .body with
  | none => simp [Scanned, hbody]
  | some body =>
    rw [Option.map_some, Option.getD_some, Tree.mem_collected_along goes]
    simp only [Tree.along_parents]
    constructor
    · rintro ⟨place, around, t, ht, outside, ha⟩
      exact ⟨t, ⟨body, place, around, hbody, ht, outside⟩, ha⟩
    · rintro ⟨t, ⟨body', place, around, hbody', ht, outside⟩, ha⟩
      obtain rfl := Option.some_inj.1 (hbody.symm.trans hbody')
      exact ⟨place, around, t, ht, outside, ha⟩

section Function

variable {f : Node} {x : String}

/-- What a function declares in its body, and what it writes to. -/
def writesOf (f : Node) : Writes := ((f.child? .body).map writesIn).getD {}

theorem mem_declared_writesOf :
    x ∈ (writesOf f).declared ↔ (∃ t, Scanned f t ∧ Declares t x) ∨ NamesMethod f x := by
  have split_off : (writesOf f).declared =
      ((f.child? .body).map fun body => (writesIn body).declared).getD [] := by
    unfold writesOf
    cases f.child? .body <;> rfl
  rw [split_off, mem_collected_scanned fun t => congrArg Writes.declared (writesIn_eq t)]
  simp only [mem_declaredBy, and_or_left, exists_or, NamesMethod]

theorem mem_targets_writesOf : .variable x ∈ (writesOf f).targets ↔
    ∃ t way, Scanned f t ∧ WritesTo t way x ∧ ∀ n ∈ way, isFollowed n = true := by
  have split_off : (writesOf f).targets =
      ((f.child? .body).map fun body => (writesIn body).targets).getD [] := by
    unfold writesOf
    cases f.child? .body <;> rfl
  rw [split_off, mem_collected_scanned fun t => congrArg Writes.targets (writesIn_eq t)]
  simp only [Option.mem_toList, writeOf_eq_variable, ← exists_and_left]

/-! ## Reasons -/

theorem mem_foldl_addOnce {reasons found : List String} {r : String} :
    r ∈ found.foldl addOnce reasons ↔ r ∈ reasons ∨ r ∈ found := by
  induction found generalizing reasons with
  | nil => simp
  | cons s rest ih =>
    rw [List.foldl_cons, ih, addOnce]
    split
    · rename_i known
      have known : s ∈ reasons := List.contains_iff_mem.1 known
      grind
    · grind

theorem reason_ownMember_ne {y : String} :
    (WriteTarget.ownMember y).reason ≠ (WriteTarget.variable x).reason := by
  intro h
  -- the texts part after `mutates `
  have ninth : ("mutates this." ++ y).toList[8]? = ("mutates outer variable " ++ x).toList[8]? :=
    congrArg (·.toList[8]?) h
  rw [String.toList_append, String.toList_append, List.getElem?_append_left (by decide),
    List.getElem?_append_left (by decide)] at ninth
  exact absurd ninth (by decide)

theorem reason_variable_injective {w : WriteTarget} (h : w.reason = (WriteTarget.variable x).reason) :
    w = .variable x := by
  rcases w with y | y
  · have chars : "mutates outer variable ".toList ++ y.toList =
        "mutates outer variable ".toList ++ x.toList := by
      rw [← String.toList_append, ← String.toList_append]
      exact congrArg String.toList h
    rw [String.toList_injective (List.append_cancel_left chars)]
  · exact absurd h reason_ownMember_ne

theorem mem_outerMutations : (WriteTarget.variable x).reason ∈ outerMutations f ↔
    .variable x ∈ (writesOf f).targets ∧ x ∉ parameterNames f ++ (writesOf f).declared := by
  rw [outerMutations, mem_foldl_addOnce, or_iff_right List.not_mem_nil, List.mem_map, ← writesOf]
  constructor
  · rintro ⟨w, hw, hreason⟩
    obtain rfl := reason_variable_injective hreason
    simpa using hw
  · rintro ⟨htarget, hfree⟩
    exact ⟨.variable x, List.mem_filter.2 ⟨htarget, by simpa using hfree⟩, rfl⟩

theorem mem_local_names : x ∈ parameterNames f ++ (writesOf f).declared ↔
    DeclaredIn f x ∨ NamesMethod f x := by
  rw [List.mem_append, mem_parameterNames, mem_declared_writesOf, DeclaredIn, or_assoc]

/-- A function is said to change an outer variable exactly if its body has a write that is followed to
that name, and the name neither is declared in the function nor is the name of a method in it. -/
theorem outer_writes_listed_exactly (f : Node) (x : String) :
    (WriteTarget.variable x).reason ∈ outerMutations f ↔
      (∃ t way, Scanned f t ∧ WritesTo t way x ∧ ∀ n ∈ way, isFollowed n = true) ∧
      ¬ DeclaredIn f x ∧ ¬ NamesMethod f x := by
  rw [mem_outerMutations, mem_targets_writesOf, mem_local_names, not_or]

end Function

/-- The assignment writes to `a`, which is declared outside of the function, and is not listed: the
pattern on its left is not followed. -/
theorem destructuring_write_unlisted :
    let root := parseFile "f.ts" "let a = 0;\nfunction f(xs) \x7b [a] = xs; \x7d\n"
    ∃ around f t way, root.at? [1] = some (around, f) ∧ f.kind = .functionDeclaration ∧ Scanned f t ∧
      WritesTo t way "a" ∧ ¬ DeclaredIn f "a" ∧ ¬ NamesMethod f "a" ∧ outerMutations f = [] := by
  intro root
  have evaluated : ((root.at? [1]).any fun (_, f) => f.kind == .functionDeclaration &&
      (outerMutations f == [] && !(parameterNames f ++ (writesOf f).declared).contains "a") &&
      (f.child? .body).any fun body => (body.at? [0, 1]).any fun (around, t) =>
      around.all (!·.kind.isSeparate) && t.kind == .assignmentExpression &&
      (t.child? .left).any fun left => left.kind == .arrayPattern &&
      (namedChildren left).any fun p => p.kind == .identifier && p.text == "a") = true := by
    decide +kernel
  simp only [Option.any_eq_true, Prod.exists, Bool.and_eq_true, beq_iff_eq, Bool.not_eq_true',
    List.contains_eq_mem, decide_eq_false_iff_not, List.all_eq_true, List.any_eq_true] at evaluated
  obtain ⟨around, f, hf, ⟨hkind, hnone, hfree⟩, body, hbody, outer, t, ht, ⟨houter, htk⟩, left, hleft, hlk,
    p, hp, hpk, hname⟩ := evaluated
  obtain ⟨undeclared, noMethod⟩ := not_or.1 (mt mem_local_names.2 hfree)
  have received : p ∈ receivingParts left := by simpa [receivingParts, hlk] using hp
  have written : WritesTo t [left] "a" := .assigned (.inl htk) hleft (hname ▸ .part received (.name hpk))
  exact ⟨around, f, t, [left], hf, hkind, ⟨body, _, outer, hbody, ht, houter⟩, written, undeclared, noMethod,
    hnone⟩

end SymbolGraph.Script
