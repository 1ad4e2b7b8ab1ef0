import Mathlib.Tactic.SplitIfs
import SymbolGraph.Crate.Facts
import SymbolGraph.Crate.References
import SymbolGraph.Proofs.Tree

/-!
# Variables and the references found in Rust files

The walk for references keeps a stack of scopes that it extends in place and empties for functions.
Which names are variables at a node also follows from where the node stands: from the patterns and
conditions that come before it in the nodes around. Both agree, so a path is found if the walk comes to
it and its first name is no variable. The bindings of a condition count for the rest of the block that
the condition stands in. The walk passes over the patterns of `let` statements, loops and parameters,
the types of closure parameters, the generics of signatures and the arguments of paths in expressions.
-/
namespace SymbolGraph.Crate
open Relation

/-! ## Parts of nodes -/

/-- What becomes of the paths inside a child of a node. -/
inductive Part
  /-- They refer. -/
  | seen
  /-- They are no usages: use declarations, the head of an implementation, the visibility of a function,
  and the attributes of functions, statements and expressions that the walk passes over. -/
  | aside
  /-- They refer and are passed over. -/
  | overlooked
  deriving DecidableEq, Repr

def partOf (parent child : Node) : Part :=
  match parent.kind with
  | .useItem => .aside
  | .implItem => if child.role == some .content then .seen else .aside
  | .functionItem | .method =>
    if child.role == some .signature || child.role == some .body then .seen else .aside
  | .signature =>
    if child.role == some .parameter || child.role == some .output then .seen else .overlooked
  | .typedParameter => if child.role == some .type then .seen else .overlooked
  | .localStatement =>
    if isAttribute child then .aside else if child.role == some .pattern then .overlooked else .seen
  | .loopBody => if child.role == some .pattern then .overlooked else .seen
  | .closure =>
    if isAttribute child then .aside else if child.role == some .body then .seen else .overlooked
  | .forLoop | .arm | .letExpression => if isAttribute child then .aside else .seen
  -- The path that is called or that is a value refers by itself; its arguments are passed over.
  | .callExpression =>
    if isAttribute child && callsPath parent then .aside
    else if child.role == some .function && child.kind == .pathExpression then .overlooked
    else .seen
  | .pathExpression =>
    if !(parent.children.find? (!isAttribute ·)).any isPath then .seen
    else if isAttribute child then .aside else .overlooked
  | _ => .seen

/-- The parts on the way to a node, the innermost first. -/
def parts : List Node → Node → List Part
  | parent :: around, t => partOf parent t :: parts around parent
  | [], _ => []

theorem isNone_plainPathOf? (t : Node) :
    (plainPathOf? t).isNone = !(t.children.find? (!isAttribute ·)).any isPath := by
  unfold plainPathOf?
  cases t.children.find? (!isAttribute ·) with
  | none => rfl
  | some p => by_cases hp : isPath p <;> simp [hp]

theorem isSearched_iff {parent child : Node} : isSearched parent child ↔ partOf parent child = .seen := by
  unfold partOf
  split <;> simp_all [isSearched, onlyBinds, isNone_plainPathOf?, isAttribute]
  all_goals grind

/-! ## Names that patterns bind -/

/-- A pattern binds the names in it, at any depth of patterns. -/
inductive BindsName : Node → String → Prop
  | name {p n : Node} : p.kind = .namePattern → n ∈ p.children → n.role = some .name →
      BindsName p n.text
  | within {p c : Node} {x : String} : p.kind = .namePattern ∨ p.kind.isCompoundPattern →
      c ∈ p.children → BindsName c x → BindsName p x

theorem mem_patternNamesAll {l : List Node} {x : String} :
    x ∈ patternNamesAll l ↔ ∃ c ∈ l, x ∈ patternNames c := by
  induction l with
  | nil => simp [patternNamesAll]
  | cons c rest ih => rw [patternNamesAll, List.mem_append, ih, List.exists_mem_cons_iff]

theorem mem_patternNames_iff {p : Node} {x : String} : x ∈ patternNames p ↔
    (p.kind = .namePattern ∧ ∃ n ∈ p.children, n.role = some .name ∧ n.text = x) ∨
      ((p.kind = .namePattern ∨ p.kind.isCompoundPattern) ∧ ∃ c ∈ p.children, x ∈ patternNames c) := by
  obtain ⟨kind, role, text, span, children⟩ := p
  rw [patternNames]
  simp only [Tree.kind, Tree.children, beq_iff_eq]
  split_ifs with hname hcompound
  · simp [hname, mem_patternNamesAll, and_assoc]
  · simp [hname, hcompound, mem_patternNamesAll]
  · simp [hname, hcompound]

theorem mem_patternNames {p : Node} {x : String} : x ∈ patternNames p ↔ BindsName p x := by
  constructor
  · intro h
    induction hn : sizeOf p using Nat.strongRecOn generalizing p with
    | ind n ih =>
      rcases mem_patternNames_iff.1 h with ⟨hk, m, hm, hrole, rfl⟩ | ⟨hk, c, hc, h⟩
      · exact .name hk hm hrole
      · exact .within hk hc (ih _ (hn ▸ Tree.sizeOf_lt_of_mem_children hc) h rfl)
  · intro h
    induction h with
    | name hk hm hrole => exact mem_patternNames_iff.2 (.inl ⟨hk, _, hm, hrole, rfl⟩)
    | within hk hc _ ih => exact mem_patternNames_iff.2 (.inr ⟨hk, _, hc, ih⟩)

/-! ## Variables at a node -/

/-- The names that a child of a node of the given kind binds as a pattern of that node. -/
def boundBy (parent : Kind) (child : Node) : List String :=
  if parent.bindsPattern && (child.role == some .pattern || child.role == some .parameter) then
    patternNames child
  else []

mutual

/-- The names that a node leaves bound behind it: those of `let` statements and of conditions in it.
Nodes of the kinds in `ends` and functions keep their names to themselves. -/
def lasting (ends : Kind → Bool) : Node → List String
  | .node kind role text span children =>
    let self : Node := .node kind role text span children
    if ends kind || (self.child? .signature).isSome then [] else lastingAll ends self children

def lastingAll (ends : Kind → Bool) (parent : Node) : List Node → List String
  | [] => []
  | c :: rest =>
    (if partOf parent c = .seen then lasting ends c else []) ++ boundBy parent.kind c ++
      lastingAll ends parent rest

end

/-- The variables behind the first children of a node. Behind its signature a function sees its
parameters only. -/
def variablesPast (ends : Kind → Bool) (parent : Node) : Option (List String) → List Node →
    Option (List String)
  | names, [] => names
  | names, c :: rest =>
    let left := (if partOf parent c = .seen then lasting ends c else []) ++ boundBy parent.kind c
    let after := if c.role == some .signature then some (parameterNames c) else names.map (· ++ left)
    variablesPast ends parent after rest

/-- The variables at a place inside the nodes around; none where no block is open. -/
def variablesAt (ends : Kind → Bool) : List Nat → List Node → Option (List String)
  | i :: place, parent :: around =>
    let outer := variablesAt ends place around
    variablesPast ends parent (if ends parent.kind then some (outer.getD []) else outer)
      (parent.children.take i)
  | _, _ => none

/-- The kinds of nodes with which the bindings of a condition in them end by the rules of the
language. -/
def Kind.endsCondition (kind : Kind) : Bool :=
  kind.opensScope || kind == .ifExpression || kind == .loopExpression

/-! ## Scopes behind a node -/

namespace Scopes

@[simp] theorem declare_nil (scopes : Scopes) : scopes.declare [] = scopes := by
  cases scopes <;> simp [declare]

@[simp] theorem declare_declare (scopes : Scopes) (a b : List String) :
    (scopes.declare a).declare b = scopes.declare (a ++ b) := by
  cases scopes <;> simp [declare]

end Scopes

/-- The scopes in front of the children of a node. -/
def scopesInside (scopes : Scopes) (t : Node) : Scopes :=
  if t.kind.opensScope then [] :: scopes else scopes

theorem scopesAfter_eq_declare {parent : Kind} {c : Node} (h : c.role ≠ some .signature)
    (scopes : Scopes) : scopesAfter parent c scopes = scopes.declare (boundBy parent c) := by
  simp only [scopesAfter, boundBy, beq_iff_eq, h, if_false]
  split_ifs <;> simp

/-- The scopes behind the first children of a node. -/
def scopesPast (parent : Node) : Scopes → List Node → Scopes
  | scopes, [] => scopes
  | scopes, c :: rest =>
    let inner := if partOf parent c = .seen then scopes.declare (lasting Kind.opensScope c) else scopes
    scopesPast parent (scopesAfter parent.kind c inner) rest

section Behind

variable (s : Search)

/-- The reference that a node makes by itself. -/
def ownReference? (scopes : Scopes) (t : Node) : Option Reference :=
  (referringPath? t).bind fun (p, usageType) => s.pathReference? scopes usageType p

theorem fst_referencesIn (scopes : Scopes) (t : Node) : (referencesIn s scopes t).1 =
    (ownReference? s scopes t).toList ++
      (referencesInAll s t (scopesInside scopes t) t.children).1 := by
  obtain ⟨kind, role, text, span, children⟩ := t
  rw [referencesIn]
  rfl

theorem snd_referencesIn (scopes : Scopes) (t : Node) : (referencesIn s scopes t).2 =
    if t.kind.opensScope || (t.child? .signature).isSome then scopes
    else (referencesInAll s t (scopesInside scopes t) t.children).2 := by
  obtain ⟨kind, role, text, span, children⟩ := t
  rw [referencesIn]
  rfl

theorem snd_referencesInAll {parent : Node} {scopes : Scopes} {l : List Node}
    (h : ∀ c ∈ l, ∀ scopes, (referencesIn s scopes c).2 = scopes.declare (lasting Kind.opensScope c)) :
    (referencesInAll s parent scopes l).2 = scopesPast parent scopes l := by
  induction l generalizing scopes with
  | nil => rfl
  | cons c rest ih =>
    rw [referencesInAll, scopesPast]
    by_cases hc : partOf parent c = .seen
    · simp [isSearched_iff.2 hc, hc, h c List.mem_cons_self,
        ih fun c hc => h c (List.mem_cons_of_mem _ hc)]
    · simp [mt isSearched_iff.1 hc, hc, ih fun c hc => h c (List.mem_cons_of_mem _ hc)]

theorem scopesPast_eq_declare {parent : Node} {scopes : Scopes} {l : List Node}
    (h : ∀ c ∈ l, c.role ≠ some .signature) :
    scopesPast parent scopes l = scopes.declare (lastingAll Kind.opensScope parent l) := by
  induction l generalizing scopes with
  | nil => simp [scopesPast, lastingAll]
  | cons c rest ih =>
    rw [scopesPast, ih fun c hc => h c (List.mem_cons_of_mem _ hc),
      scopesAfter_eq_declare (h c List.mem_cons_self), lastingAll]
    split_ifs <;> simp [List.append_assoc]

/-- Behind a node the innermost scope has the names that the node leaves bound. -/
theorem snd_referencesIn_eq_declare (scopes : Scopes) (t : Node) :
    (referencesIn s scopes t).2 = scopes.declare (lasting Kind.opensScope t) := by
  induction hn : sizeOf t using Nat.strongRecOn generalizing scopes t with
  | ind n ih =>
    have hchildren : (referencesInAll s t (scopesInside scopes t) t.children).2 =
        scopesPast t (scopesInside scopes t) t.children :=
      snd_referencesInAll s fun c hc scopes =>
        ih _ (hn ▸ Tree.sizeOf_lt_of_mem_children hc) scopes c rfl
    rw [snd_referencesIn, hchildren]
    obtain ⟨kind, role, text, span, children⟩ := t
    rw [lasting]
    split_ifs with hclosed hclosed' hclosed'
    · simp
    · exact absurd hclosed hclosed'
    · exact absurd hclosed' hclosed
    · simp only [Bool.or_eq_true, not_or, Tree.child?, List.find?_isSome, not_exists, not_and,
        beq_iff_eq] at hclosed
      rw [scopesInside, if_neg hclosed.1, scopesPast_eq_declare hclosed.2]
      rfl

end Behind

/-! ## Open scopes and variables -/

/-- The open scopes hold the given names. -/
def Scopes.Holds (scopes : Scopes) (names : Option (List String)) : Prop :=
  (scopes = [] ↔ names = none) ∧ ∀ x, scopes.binds x = true ↔ x ∈ names.getD []

namespace Scopes.Holds

variable {scopes : Scopes} {names : Option (List String)}

theorem nil : Holds [] none := ⟨by simp, by simp [binds]⟩

theorem singleton (l : List String) : Holds [l] (some l) := ⟨by simp, by simp [binds]⟩

theorem push (h : scopes.Holds names) : Holds ([] :: scopes) (some (names.getD [])) :=
  ⟨by simp, fun x => by simpa [binds] using h.2 x⟩

theorem declare (h : scopes.Holds names) (l : List String) :
    Holds (scopes.declare l) (names.map (· ++ l)) := by
  cases scopes with
  | nil =>
    obtain rfl := h.1.1 rfl
    exact .nil
  | cons scope rest =>
    obtain ⟨old, rfl⟩ := Option.ne_none_iff_exists'.1 (mt h.1.2 (List.cons_ne_nil scope rest))
    refine ⟨by simp [Scopes.declare], fun x => ?_⟩
    have hx := h.2 x
    simp only [binds, List.any_cons, Bool.or_eq_true, List.contains_iff_mem, Option.getD_some] at hx
    simp only [Scopes.declare, binds, List.any_cons, Bool.or_eq_true, List.contains_iff_mem,
      List.mem_append, Option.map_some, Option.getD_some, ← hx]
    tauto

theorem past (h : scopes.Holds names) (parent : Node) (l : List Node) :
    (scopesPast parent scopes l).Holds (variablesPast Kind.opensScope parent names l) := by
  induction l generalizing scopes names with
  | nil => exact h
  | cons c rest ih =>
    rw [scopesPast, variablesPast]
    apply ih
    by_cases hs : c.role = some .signature
    · simpa [scopesAfter, hs] using singleton (parameterNames c)
    · rw [if_neg (show ¬(c.role == some .signature) = true by simpa using hs),
        scopesAfter_eq_declare hs]
      split_ifs
      · rw [Scopes.declare_declare]
        exact h.declare _
      · exact h.declare _

end Scopes.Holds

/-! ## Steps of the walk -/

/-- Where the walk stands: the open scopes, the place, the nodes around and the node it has come to. -/
structure Visit where
  scopes : Scopes
  place : List Nat
  around : List Node
  node : Node

namespace Visit

/-- One step of the walk: to a child that it looks at, with what the children before it leave bound. -/
inductive Goes : Visit → Visit → Prop
  | into {scopes : Scopes} {place : List Nat} {around : List Node} {t c : Node} {i : Nat} :
      t.children[i]? = some c → partOf t c = .seen →
      Goes ⟨scopes, place, around, t⟩
        ⟨scopesPast t (scopesInside scopes t) (t.children.take i), i :: place, t :: around, c⟩

/-- The walk over a file comes to a node. -/
def Reached (root : Node) (v : Visit) : Prop := ReflTransGen Goes ⟨[], [], [], root⟩ v

theorem Goes.sizeOf_lt {v w : Visit} (h : v.Goes w) : sizeOf w.node < sizeOf v.node := by
  obtain ⟨hc, -⟩ := h
  exact Tree.sizeOf_lt_of_mem_children (List.mem_of_getElem? hc)

theorem Goes.holds {v w : Visit} (h : v.Goes w)
    (hv : v.scopes.Holds (variablesAt Kind.opensScope v.place v.around)) :
    w.scopes.Holds (variablesAt Kind.opensScope w.place w.around) := by
  obtain ⟨hc, -⟩ := h
  rw [variablesAt]
  refine Scopes.Holds.past ?_ _ _
  unfold scopesInside
  split_ifs
  · exact hv.push
  · exact hv

/-- At every node that the walk comes to, the open scopes hold the variables there. -/
theorem Reached.holds {root : Node} {v : Visit} (h : Reached root v) :
    v.scopes.Holds (variablesAt Kind.opensScope v.place v.around) := by
  induction h with
  | refl => exact .nil
  | tail _ hgoes ih => exact hgoes.holds ih

end Visit

section Walk

variable {root t : Node} {place : List Nat} {around : List Node}

theorem exists_reached (ht : root.at? place = some (around, t))
    (h : ∀ part ∈ parts around t, part = .seen) :
    ∃ scopes, Visit.Reached root ⟨scopes, place, around, t⟩ := by
  induction place generalizing around t with
  | nil =>
    obtain ⟨rfl, rfl⟩ : [] = around ∧ root = t := by simpa [Tree.at?] using ht
    exact ⟨[], .refl⟩
  | cons i place ih =>
    obtain ⟨outer, parent, hparent, hchild, rfl⟩ := Tree.at?_cons.1 ht
    simp only [parts, List.forall_mem_cons] at h
    obtain ⟨scopes, hreached⟩ := ih hparent h.2
    exact ⟨_, hreached.tail (.into hchild h.1)⟩

theorem Visit.Reached.seen {v : Visit} (h : Reached root v) :
    ∀ part ∈ parts v.around v.node, part = .seen := by
  induction h with
  | refl => simp [parts]
  | tail _ hgoes ih =>
    obtain ⟨-, hseen⟩ := hgoes
    simpa [parts, hseen] using ih

theorem reached_iff (ht : root.at? place = some (around, t)) (haside : Part.aside ∉ parts around t) :
    (∃ scopes, Visit.Reached root ⟨scopes, place, around, t⟩) ↔ Part.overlooked ∉ parts around t := by
  constructor
  · rintro ⟨scopes, h⟩ hover
    cases h.seen _ hover
  · intro hover
    refine exists_reached ht fun part hpart => ?_
    cases part with
    | seen => rfl
    | aside => exact absurd hpart haside
    | overlooked => exact absurd hpart hover

end Walk

/-! ## What is found -/

theorem mem_referencesInAll {s : Search} {parent : Node} {scopes : Scopes} {l : List Node}
    {r : Reference} : r ∈ (referencesInAll s parent scopes l).1 ↔
      ∃ i c, l[i]? = some c ∧ partOf parent c = .seen ∧
        r ∈ (referencesIn s (scopesPast parent scopes (l.take i)) c).1 := by
  induction l generalizing scopes with
  | nil => simp [referencesInAll]
  | cons c rest ih =>
    have hpast : (if isSearched parent c then referencesIn s scopes c else ([], scopes)).2 =
        if partOf parent c = .seen then scopes.declare (lasting Kind.opensScope c) else scopes := by
      by_cases hc : partOf parent c = .seen
      · simp [isSearched_iff.2 hc, hc, snd_referencesIn_eq_declare]
      · simp [mt isSearched_iff.1 hc, hc]
    rw [referencesInAll]
    simp only [hpast, List.mem_append, ih]
    constructor
    · rintro (h | ⟨i, u, hu, hseen, h⟩)
      · by_cases hc : partOf parent c = .seen
        · rw [if_pos (isSearched_iff.2 hc)] at h
          exact ⟨0, c, rfl, hc, h⟩
        · simp [mt isSearched_iff.1 hc] at h
      · exact ⟨i + 1, u, hu, hseen, h⟩
    · rintro ⟨_ | i, u, hu, hseen, h⟩
      · obtain rfl : c = u := by simpa using hu
        rw [if_pos (isSearched_iff.2 hseen)]
        exact .inl h
      · exact .inr ⟨i, u, hu, hseen, h⟩

/-- The walk finds the references that the nodes it comes to make by themselves. -/
theorem mem_references {s : Search} {root : Node} {r : Reference} : r ∈ references s root ↔
    ∃ v, Visit.Reached root v ∧ ownReference? s v.scopes v.node = some r := by
  have step (v : Visit) (r : Reference) : r ∈ (referencesIn s v.scopes v.node).1 ↔
      r ∈ (ownReference? s v.scopes v.node).toList ∨
        ∃ w, v.Goes w ∧ r ∈ (referencesIn s w.scopes w.node).1 := by
    obtain ⟨scopes, place, around, t⟩ := v
    rw [fst_referencesIn, List.mem_append, mem_referencesInAll]
    refine or_congr_right ⟨?_, ?_⟩
    · rintro ⟨i, c, hc, hseen, h⟩
      exact ⟨_, .into hc hseen, h⟩
    · rintro ⟨w, ⟨hc, hseen⟩, h⟩
      exact ⟨_, _, hc, hseen, h⟩
  have hcollected := mem_collected (fun v : Visit => sizeOf v.node) Visit.Goes.sizeOf_lt step
    (v := ⟨[], [], [], root⟩) (a := r)
  simpa [references, Visit.Reached] using hcollected

/-- A node refers by a path: a call by the path that is called, an expression, a struct literal, a
type or a pattern by its own, and a macro call by the one in front. -/
inductive RefersBy (t p : Node) : Prop
  | called {callee : Node} : t.kind = .callExpression → t.child? .function = some callee →
      callee.kind = .pathExpression → callee.children.find? (!isAttribute ·) = some p → RefersBy t p
  | own : t.kind = .pathExpression ∨ t.kind = .structExpression ∨ t.kind = .pathType →
      t.children.find? (!isAttribute ·) = some p → RefersBy t p
  | pattern : t.kind = .pathPattern ∨ t.kind = .tupleStructPattern ∨ t.kind = .structPattern →
      t.children.find? isPath = some p → RefersBy t p
  | invoked : t.kind = .invocation → t.child? .path = some p → RefersBy t p

theorem RefersBy.exists_referringPath? {t p : Node} (h : RefersBy t p) (hp : p.kind = .path) :
    ∃ usageType, referringPath? t = some (p, usageType) := by
  have hpath : isPath p := by simp [isPath, hp]
  cases h with
  | called hk hf hc hchildren =>
    exact ⟨.call, by simp [referringPath?, plainPathOf?, hk, hf, hc, hchildren, hpath]⟩
  | own hk hchildren =>
    rcases hk with hk | hk | hk <;> simp [referringPath?, plainPathOf?, hk, hchildren, hpath]
  | pattern hk hfind => rcases hk with hk | hk | hk <;> simp [referringPath?, hk, hfind]
  | invoked hk hc => simp [referringPath?, hk, hc]

theorem exists_pathReference? {s : Search} {scopes : Scopes} {p first : Node} (hp : p.kind = .path)
    (hfirst : p.children.head? = some first)
    (htarget : s.bindings.contains first.text ∨ s.sameFile.contains first.text)
    (hfree : ¬scopes.binds first.text) (usageType : UsageType) :
    ∃ r, s.pathReference? scopes usageType p = some r ∧ r.localName = first.text ∧
      r.line = first.line := by
  by_cases hb : s.bindings.contains first.text
  · simp [Search.pathReference?, hp, hfirst, hfree, hb, Reference.localName]
  · have hs := htarget.resolve_left hb
    simp [Search.pathReference?, hp, hfirst, hfree, hb, hs, Reference.localName]

/-- A pattern binds the names in it, and the walk comes to a node exactly if nothing on the way is
passed over. A path there whose first name is imported or declared in the file and is no variable is
found at its line. -/
theorem free_path_found_unless_overlooked (s : Search) {root t path first : Node} {place : List Nat}
    {around : List Node} (ht : root.at? place = some (around, t))
    (haside : Part.aside ∉ parts around t) (hrefers : RefersBy t path) (hpath : path.kind = .path)
    (hfirst : path.children.head? = some first)
    (htarget : s.bindings.contains first.text ∨ s.sameFile.contains first.text)
    (hfree : first.text ∉ (variablesAt Kind.opensScope place around).getD []) :
    (∀ p x, x ∈ patternNames p ↔ BindsName p x) ∧
    ((∃ scopes, Visit.Reached root ⟨scopes, place, around, t⟩) ↔ Part.overlooked ∉ parts around t) ∧
    (Part.overlooked ∉ parts around t →
      ∃ r ∈ references s root, r.localName = first.text ∧ r.line = first.line) := by
  refine ⟨fun p x => mem_patternNames, reached_iff ht haside, fun hseen => ?_⟩
  obtain ⟨scopes, hreached⟩ := (reached_iff ht haside).2 hseen
  have hunbound : ¬scopes.binds first.text := mt (hreached.holds.2 first.text).1 hfree
  obtain ⟨usageType, hrefers⟩ := hrefers.exists_referringPath? hpath
  obtain ⟨r, hr, hname, hline⟩ := exists_pathReference? hpath hfirst htarget hunbound usageType
  exact ⟨r, mem_references.2 ⟨_, hreached, by simp [ownReference?, hrefers, hr]⟩, hname, hline⟩

/-- The name `f` is a parameter of the closure only, so the call behind the closure is found. -/
theorem call_behind_closure_found :
    let text := "use crate::m::f;\nfn g(v: u32) \x7b\n    let w = |f: u32| f + v;\n    f(w);\n\x7d\n"
    ∃ parsed, parse? text = some parsed ∧
      let s : Search := ⟨text, (parsed.facts "src/lib.rs").bindings, .empty⟩
      ∃ r ∈ references s parsed.root, r.localName = "f" ∧ r.line = 4 := by
  intro text
  let place := [1, 1, 1]
  have hfacts : ((parse? text).any fun parsed => (parsed.root.at? place).any fun (around, t) =>
      (!(parts around t).contains .aside && !(parts around t).contains .overlooked &&
        t.kind == .callExpression) && (t.child? .function).any fun callee =>
      callee.kind == .pathExpression && (callee.children.find? (!isAttribute ·)).any fun path =>
      path.kind == .path &&
      path.children.head?.any fun first => first.text == "f" && first.line == 4 &&
        (parsed.facts "src/lib.rs").bindings.contains first.text &&
        !((variablesAt Kind.opensScope place around).getD []).contains first.text) = true := by
    decide +kernel
  simp only [Option.any_eq_true, Prod.exists, Bool.and_eq_true, beq_iff_eq, Bool.not_eq_true',
    List.contains_eq_mem, decide_eq_false_iff_not] at hfacts
  obtain ⟨parsed, hparsed, around, t, ht, ⟨⟨haside, hseen⟩, hk⟩, callee, hcallee, hck, path, hpath, hpk,
    first, hfirst, ⟨⟨htext, hline⟩, hbound⟩, hfree⟩ := hfacts
  obtain ⟨r, hr, hname, hrline⟩ := (free_path_found_unless_overlooked
    ⟨text, (parsed.facts "src/lib.rs").bindings, .empty⟩ ht haside (.called hk hcallee hck hpath) hpk
    hfirst (.inl hbound) hfree).2.2 hseen
  exact ⟨parsed, hparsed, r, hr, hname.trans htext, hrline.trans hline⟩

/-- The call stands behind the `if` whose condition binds the name, so by the rules of the language the
name is no variable there, and nothing on the way is passed over. The call is not found. -/
theorem call_behind_condition_missed :
    let text := "use crate::util::helper;\nfn run(v: Option<u32>) \x7b\n    if let Some(helper) = v \x7b\n        drop(helper);\n    \x7d\n    helper();\n\x7d\n"
    let place := [1, 1, 1]
    ∃ parsed, parse? text = some parsed ∧
      let s : Search := ⟨text, (parsed.facts "src/lib.rs").bindings, .empty⟩
      (∃ around t path first, parsed.root.at? place = some (around, t) ∧ RefersBy t path ∧
        path.kind = .path ∧ path.children.head? = some first ∧ first.line = 6 ∧
        (∀ part ∈ parts around t, part = .seen) ∧ s.bindings.contains first.text = true ∧
        first.text ∉ (variablesAt Kind.endsCondition place around).getD []) ∧
      references s parsed.root = [] := by
  intro text place
  have hfacts : ((parse? text).any fun parsed =>
      (references ⟨text, (parsed.facts "src/lib.rs").bindings, .empty⟩ parsed.root).isEmpty &&
      (parsed.root.at? place).any fun (around, t) =>
      ((parts around t).all (· == .seen) && t.kind == .callExpression) &&
      (t.child? .function).any fun callee => callee.kind == .pathExpression &&
      (callee.children.find? (!isAttribute ·)).any fun path => path.kind == .path &&
      path.children.head?.any fun first => first.line == 6 &&
        (parsed.facts "src/lib.rs").bindings.contains first.text &&
        !((variablesAt Kind.endsCondition place around).getD []).contains first.text) = true := by
    decide +kernel
  simp only [Option.any_eq_true, Prod.exists, Bool.and_eq_true, beq_iff_eq, Bool.not_eq_true',
    List.contains_eq_mem, decide_eq_false_iff_not, List.all_eq_true, List.isEmpty_iff] at hfacts
  obtain ⟨parsed, hparsed, hnone, around, t, ht, ⟨hseen, hk⟩, callee, hcallee, hck, path, hpath, hpk,
    first, hfirst, ⟨hline, hbound⟩, hfree⟩ := hfacts
  exact ⟨parsed, hparsed, ⟨around, t, path, first, ht, .called hk hcallee hck hpath, hpk, hfirst,
    hline, hseen, hbound, hfree⟩, hnone⟩

end SymbolGraph.Crate
