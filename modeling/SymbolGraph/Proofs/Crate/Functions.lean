import SymbolGraph.Crate.Calls
import SymbolGraph.Proofs.CallGraph.Functions
import SymbolGraph.Proofs.Tree

/-!
# Functions that walks over Rust files enter

The walk for functions and the walk for calls name functions alike, but do not go to the same children.
Each comes to a function if it may take every step on the way there, and both come to the same functions
unless one stands in a part of the file that only one of them looks at.
-/
namespace SymbolGraph.Crate

/-! ## Functions and their surroundings -/

/-- A function or method with a name and a body. -/
def isFunction (t : Node) : Bool :=
  (t.kind == .functionItem || t.kind == .method) && ((t.child? .signature).bind nameOf?).isSome &&
    (t.child? .body).isSome

/-- A function as a walk enters it. -/
structure Entry where
  surroundings : Surroundings
  function : Node
  name : String
  body : Node

def entryOf? (s : Surroundings) (t : Node) : Option Entry := do
  let name ← functionName? s t
  let body ← t.child? .body
  return ⟨s, t, name, body⟩

theorem entryOf?_eq_some {s : Surroundings} {t : Node} {e : Entry} : entryOf? s t = some e ↔
    functionName? s t = some e.name ∧ t.child? .body = some e.body ∧ e.surroundings = s ∧
      e.function = t := by
  obtain ⟨s', t', name, body⟩ := e
  simp only [entryOf?, bind, pure, Option.bind_eq_some_iff, Option.some.injEq, Entry.mk.injEq]
  grind

theorem isSome_functionName? (s : Surroundings) (t : Node) :
    (functionName? s t).isSome = isFunction t := by
  unfold functionName? isFunction
  cases t.child? .signature with
  | none => simp
  | some signature =>
    cases hname : signature.child? .name with
    | none => simp [nameOf?, hname]
    | some name =>
      cases t.child? .body with
      | none => simp
      | some body =>
        by_cases hf : t.kind = .functionItem
        · simp [nameOf?, hname, hf]
        · by_cases hm : t.kind = .method <;> simp [nameOf?, hname, hf, hm]

theorem functionName?_eq_none {s : Surroundings} {t : Node} (h : isFunction t = false) :
    functionName? s t = none := by
  rw [← Option.isNone_iff_eq_none, ← Option.not_isSome, isSome_functionName?, h]
  rfl

theorem exists_body_of_functionName? {s : Surroundings} {t : Node} {name : String}
    (h : functionName? s t = some name) : ∃ body, t.child? .body = some body := by
  have function : isFunction t = true := by rw [← isSome_functionName? s, h]; rfl
  simp only [isFunction, Bool.and_eq_true] at function
  exact Option.isSome_iff_exists.1 function.2

theorem isSome_entryOf? (s : Surroundings) (t : Node) : (entryOf? s t).isSome = isFunction t := by
  rw [← isSome_functionName? s, entryOf?]
  cases h : functionName? s t with
  | none => rfl
  | some name =>
    obtain ⟨body, hbody⟩ := exists_body_of_functionName? h
    simp [hbody]

theorem isFunction_eq_false {s : Surroundings} {t : Node} (h : ∀ e, entryOf? s t ≠ some e) :
    isFunction t = false := by
  rw [← isSome_entryOf? s, Option.eq_none_iff_forall_ne_some.2 h]
  rfl

theorem entryOf?_eq_none {s : Surroundings} {t : Node} (h : isFunction t = false) : entryOf? s t = none := by
  simp [entryOf?, functionName?_eq_none h]

/-- The place inside the nodes around, the innermost first. -/
def surroundingsIn : List Node → Surroundings
  | [] => {}
  | t :: around => (surroundingsIn around).inside t

/-! ## Walks -/

mutual

/-- The functions that a walk enters in a node, each before those inside it. -/
def entered (goesTo : Kind → Node → Bool) (s : Surroundings) : Node → List Entry
  | .node kind role text span children =>
    let self : Node := .node kind role text span children
    (entryOf? s self).toList ++ enteredAll goesTo (s.inside self) kind children

def enteredAll (goesTo : Kind → Node → Bool) (s : Surroundings) (parent : Kind) : List Node → List Entry
  | [] => []
  | t :: rest =>
    (if goesTo parent t then entered goesTo s t else []) ++ enteredAll goesTo s parent rest

end

section Walks

variable {goesTo : Kind → Node → Bool}

theorem enteredAll_eq (s : Surroundings) (parent : Kind) (l : List Node) : enteredAll goesTo s parent l =
    l.flatMap fun t => if goesTo parent t then entered goesTo s t else [] := by
  induction l with
  | nil => rfl
  | cons t rest ih => rw [enteredAll, ih, List.flatMap_cons]

theorem entered_eq (s : Surroundings) (t : Node) : entered goesTo s t = (entryOf? s t).toList ++
    t.children.flatMap fun c => if goesTo t.kind c then entered goesTo (s.inside t) c else [] := by
  obtain ⟨kind, role, text, span, children⟩ := t
  rw [entered, enteredAll_eq]
  rfl

/-- A walk enters the functions to which it may take every step. -/
theorem mem_entered {root : Node} {e : Entry} : e ∈ entered goesTo {} root ↔
    ∃ place around t, root.at? place = some (around, t) ∧
      Tree.Along (fun parent c => goesTo parent.kind c = true) around t ∧
      entryOf? (surroundingsIn around) t = some e := by
  have step (v : Tree.Position Kind Role) (e : Entry) :
      e ∈ entered goesTo (surroundingsIn v.around) v.node ↔
        e ∈ (entryOf? (surroundingsIn v.around) v.node).toList ∨
          ∃ w : Tree.Position Kind Role, (v.Goes w ∧ goesTo v.node.kind w.node = true) ∧
            e ∈ entered goesTo (surroundingsIn w.around) w.node := by
    obtain ⟨place, around, t⟩ := v
    rw [entered_eq, List.mem_append, List.mem_flatMap]
    refine or_congr_right ⟨?_, ?_⟩
    · rintro ⟨c, hc, he⟩
      obtain ⟨i, hi⟩ := List.getElem?_of_mem hc
      split at he
      · rename_i hgoes
        exact ⟨_, ⟨.into hi, hgoes⟩, he⟩
      · cases he
    · rintro ⟨_, ⟨⟨hc⟩, hgoes⟩, he⟩
      exact ⟨_, List.mem_of_getElem? hc, by rw [if_pos hgoes]; exact he⟩
  have collected := mem_collected (fun v : Tree.Position Kind Role => sizeOf v.node)
    (fun h => h.1.sizeOf_lt) step (v := ⟨[], [], root⟩) (a := e)
  rw [surroundingsIn] at collected
  rw [collected]
  constructor
  · rintro ⟨⟨place, around, t⟩, h, he⟩
    have along : root.at? place = some (around, t) ∧
        Tree.Along (fun parent c => goesTo parent.kind c = true) around t := Tree.reached_along_iff.1 h
    exact ⟨place, around, t, along.1, along.2, Option.mem_toList.1 he⟩
  · rintro ⟨place, around, t, ht, halong, he⟩
    exact ⟨_, Tree.reached_along_iff.2 ⟨ht, halong⟩, Option.mem_toList.2 he⟩

theorem entered_eq_nil {s : Surroundings} {t : Node} (h : ∀ f ∈ t.nodes, isFunction f = false) :
    entered goesTo s t = [] := by
  induction hn : sizeOf t using Nat.strongRecOn generalizing s t with
  | ind n ih =>
    rw [entered_eq, entryOf?_eq_none (h t t.mem_nodes_self)]
    refine List.flatMap_eq_nil_iff.2 fun c hc => ?_
    have below (f : Node) (hf : f ∈ c.nodes) : isFunction f = false :=
      h f (Tree.mem_nodes_of_mem_children hc hf)
    rw [ih _ (hn ▸ Tree.sizeOf_lt_of_mem_children hc) below rfl]
    exact ite_self _

end Walks

/-! ## The walk for functions -/

/-- The node that the walk for functions makes. -/
def Entry.node (p : Parsed) (file : String) (e : Entry) : FunctionNode :=
  p.functionNode file e.surroundings e.function e.name

theorem functionsInAll_eq (p : Parsed) (file : String) (s : Surroundings) (parent : Kind)
    (l : List Node) : p.functionsInAll file s parent l =
      l.flatMap fun t => if holdsFunctions parent t then p.functionsIn file s t else [] := by
  induction l with
  | nil => rfl
  | cons t rest ih => rw [Parsed.functionsInAll, ih, List.flatMap_cons]

theorem functionsIn_eq_entered (p : Parsed) (file : String) (s : Surroundings) (t : Node) :
    p.functionsIn file s t = (entered holdsFunctions s t).map (Entry.node p file) := by
  induction hn : sizeOf t using Nat.strongRecOn generalizing s t with
  | ind n ih =>
    have own : ((functionName? s t).map (p.functionNode file s t)).toList =
        (entryOf? s t).toList.map (Entry.node p file) := by
      cases h : functionName? s t with
      | none => simp [entryOf?, h]
      | some name =>
        obtain ⟨body, hbody⟩ := exists_body_of_functionName? h
        simp [entryOf?, h, hbody, Entry.node]
    have children : (p.functionsInAll file (s.inside t) t.kind t.children) =
        (t.children.flatMap fun c => if holdsFunctions t.kind c then entered holdsFunctions (s.inside t) c
          else []).map (Entry.node p file) := by
      rw [functionsInAll_eq, List.map_flatMap]
      refine List.flatMap_congr fun c hc => ?_
      rw [ih _ (hn ▸ Tree.sizeOf_lt_of_mem_children hc) _ c rfl]
      split <;> rfl
    rw [entered_eq, List.map_append, ← own, ← children]
    obtain ⟨kind, role, text, span, children⟩ := t
    rfl

/-! ## Parts that only one walk looks at -/

/-- Arguments of macros, patterns of `let` statements and loops, and the parameters and the type in
front of the body of a closure. -/
def isPassedOver (parent child : Node) : Bool :=
  match parent.kind with
  | .invocation => true
  | .localStatement | .loopBody => child.role == some .pattern
  | .closure => child.role != some .body && !isAttribute child
  | _ => false

/-- Attributes of the nodes that bind names. -/
def isBindingAttribute (parent child : Node) : Bool :=
  isAttribute child && match parent.kind with
    | .localStatement | .closure | .forLoop | .arm | .letExpression => true
    | _ => false

theorem onlyBinds_eq (parent child : Node) : onlyBinds parent.kind child =
    (parent.kind != .invocation && isPassedOver parent child || isBindingAttribute parent child) := by
  unfold onlyBinds isPassedOver isBindingAttribute
  split <;> simp_all [Bool.and_comm, Bool.or_comm]
  case h_1 => rfl
  case h_3 =>
    cases h : isAttribute child with
    | true =>
      have role : child.role = some .attribute := by simpa [isAttribute] using h
      simp [role]
    | false => rfl

theorem holdsCalls_eq_holdsFunctions {parent child : Node} (passed : isPassedOver parent child = false)
    (plain : isBindingAttribute parent child = false) :
    holdsCalls parent.kind child = holdsFunctions parent.kind child := by
  unfold holdsCalls
  split
  case h_6 =>
    rw [onlyBinds_eq, passed, plain]
    unfold holdsFunctions
    split <;> simp_all [isPassedOver]
  all_goals rfl

/-- No function stands below a child that its parent hides. -/
def HidesNone (hides : Node → Node → Bool) (root : Node) : Prop :=
  ∀ parent ∈ root.nodes, ∀ child ∈ parent.children, hides parent child = true →
    ∀ f ∈ child.nodes, isFunction f = false

instance (hides : Node → Node → Bool) (root : Node) : Decidable (HidesNone hides root) :=
  inferInstanceAs (Decidable (∀ parent ∈ root.nodes, ∀ child ∈ parent.children,
    hides parent child = true → ∀ f ∈ child.nodes, isFunction f = false))

theorem HidesNone.of_mem_children {hides : Node → Node → Bool} {t c : Node} (h : HidesNone hides t)
    (hc : c ∈ t.children) : HidesNone hides c :=
  fun parent hparent => h parent (Tree.mem_nodes_of_mem_children hc hparent)

/-- Both walks enter the same functions if none stands where only one of them looks. -/
theorem entered_holdsCalls {s : Surroundings} {t : Node} (passed : HidesNone isPassedOver t)
    (attributes : HidesNone isBindingAttribute t) :
    entered holdsCalls s t = entered holdsFunctions s t := by
  induction hn : sizeOf t using Nat.strongRecOn generalizing s t with
  | ind n ih =>
    rw [entered_eq, entered_eq]
    refine congrArg _ (List.flatMap_congr fun c hc => ?_)
    have same : entered holdsCalls (s.inside t) c = entered holdsFunctions (s.inside t) c :=
      ih _ (hn ▸ Tree.sizeOf_lt_of_mem_children hc) (passed.of_mem_children hc)
        (attributes.of_mem_children hc) rfl
    by_cases hidden : isPassedOver t c = true ∨ isBindingAttribute t c = true
    · have none (goesTo : Kind → Node → Bool) : entered goesTo (s.inside t) c = [] :=
        entered_eq_nil (hidden.elim (passed t t.mem_nodes_self c hc) (attributes t t.mem_nodes_self c hc))
      rw [none, none, ite_self, ite_self]
    · obtain ⟨seen, plain⟩ := not_or.1 hidden
      rw [same, holdsCalls_eq_holdsFunctions (by simpa using seen) (by simpa using plain)]

end SymbolGraph.Crate
