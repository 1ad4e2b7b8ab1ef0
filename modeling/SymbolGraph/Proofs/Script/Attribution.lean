import SymbolGraph.Proofs.CallGraph.Functions
import SymbolGraph.Proofs.Script.Calls

/-!
# Who makes a call

The functions that a file names stand at different places of its tree. Of several with one id only the
first is known to the walk for calls. A call is made by the innermost function around it that is known,
so that a call in a later one of the same id is taken for one of the function around, or is lost.
-/
namespace SymbolGraph.Script

/-! ## Places of functions -/

/-- The functions that a file names, also those that share an id with one before. -/
def namedFunctions (file : String) (root : Node) : List Declared :=
  declaredInAll ⟨file, exportedNames root, [], []⟩ none [] 0 root.children

/-- The places at or below the children of a place, from the one with index `i` on. -/
def Below (place : List Nat) (i : Nat) (p : List Nat) : Prop := ∃ j, i ≤ j ∧ (j :: place) <:+ p

theorem below_of_suffix {place p : List Nat} {i : Nat} (h : (i :: place) <:+ p) : Below place i p :=
  ⟨i, le_rfl, h⟩

theorem Below.of_succ {place p : List Nat} {i : Nat} (h : Below place (i + 1) p) : Below place i p := by
  obtain ⟨j, hj, h⟩ := h
  exact ⟨j, Nat.le_of_succ_le hj, h⟩

theorem Below.suffix {place p : List Nat} {i : Nat} (h : Below place i p) : place <:+ p := by
  obtain ⟨j, -, h⟩ := h
  exact (List.suffix_cons j place).trans h

theorem not_below_self {place : List Nat} {i : Nat} : ¬ Below place i place := by
  rintro ⟨j, -, h⟩
  have := h.length_le
  simp at this

theorem not_below_succ {place p : List Nat} {i : Nat} (h : (i :: place) <:+ p) :
    ¬ Below place (i + 1) p := by
  rintro ⟨j, hj, h'⟩
  have same := (List.suffix_of_suffix_length_le h h' (by simp)).eq_of_length (by simp)
  obtain ⟨rfl, -⟩ := List.cons.inj same
  omega

/-- Functions at different places of a region of the tree. -/
structure Placed (root : Node) (region : List Nat → Prop) (l : List Declared) : Prop where
  inside : ∀ d ∈ l, region d.place
  distinct : l.Pairwise fun d e => d.place ≠ e.place
  standing : ∀ d ∈ l, ∃ around f, root.at? d.place = some (around, f) ∧ f.kind.isFunctionScope = true

namespace Placed

variable {root : Node} {region region' : List Nat → Prop} {l l' : List Declared}

theorem nil : Placed root region [] :=
  ⟨fun _ h => (by cases h), .nil, fun _ h => (by cases h)⟩

theorem mono (h : Placed root region l) (le : ∀ p, region p → region' p) : Placed root region' l :=
  ⟨fun d hd => le _ (h.inside d hd), h.distinct, h.standing⟩

/-- A function stands above those in its body. -/
theorem function {place : List Nat} {node : FunctionNode} {around : List Node} {f : Node}
    (body : Placed root (Below place 0) l) (here : root.at? place = some (around, f))
    (hf : f.kind.isFunctionScope = true) : Placed root (place <:+ ·) (⟨node, place⟩ :: l) := by
  refine ⟨fun d hd => ?_, List.pairwise_cons.2 ⟨fun d hd same => ?_, body.distinct⟩, fun d hd => ?_⟩
  · rcases List.mem_cons.1 hd with rfl | hd
    · exact List.suffix_rfl
    · exact (body.inside d hd).suffix
  · exact not_below_self (same ▸ body.inside d hd)
  · rcases List.mem_cons.1 hd with rfl | hd
    · exact ⟨around, f, here, hf⟩
    · exact body.standing d hd

theorem append (h : Placed root region l) (h' : Placed root region' l')
    (apart : ∀ p, region p → ¬ region' p) : Placed root (fun p => region p ∨ region' p) (l ++ l') := by
  refine ⟨fun d hd => ?_, List.pairwise_append.2 ⟨h.distinct, h'.distinct, fun d hd e he same => ?_⟩,
    fun d hd => ?_⟩
  · exact (List.mem_append.1 hd).imp (h.inside d) (h'.inside d)
  · exact apart _ (h.inside d hd) (same ▸ h'.inside e he)
  · exact (List.mem_append.1 hd).elim (h.standing d) (h'.standing d)

end Placed

/-- The function of a form is the node itself or its value. -/
def Form.Fits (t : Node) : Form → Prop
  | .itself _ => t.kind.isFunctionScope = true
  | .value _ => ∃ v, t.child? .value = some v ∧ v.kind.isFunctionScope = true
  | .class _ | .module _ | .other => True

theorem isFunctionScope_of_isFunctionValue {kind : Kind} (h : kind.isFunctionValue = true) :
    kind.isFunctionScope = true := by
  unfold Kind.isFunctionValue at h
  split at h
  · rfl
  · rfl
  · rfl
  · cases h

theorem fits_valueForm (t : Node) (name : Option Node) : (valueForm name (t.child? .value)).Fits t := by
  unfold valueForm
  split
  · rename_i n v hv
    split
    · rename_i hfunction
      exact ⟨v, hv, isFunctionScope_of_isFunctionValue hfunction⟩
    · trivial
  · trivial

theorem fits_formOf (s : Surroundings) (holder : Option String) (t : Node) :
    (formOf s holder t).Fits t := by
  unfold formOf
  split
  case h_1 hkind | h_2 hkind | h_3 hkind =>
    split
    · rw [Form.Fits, hkind]
      rfl
    · trivial
  case h_4 | h_5 => exact fits_valueForm t _
  case h_6 =>
    split
    · rename_i v hv
      split
      · rename_i hfunction
        rw [Bool.and_eq_true] at hfunction
        exact ⟨v, hv, isFunctionScope_of_isFunctionValue hfunction.1⟩
      · trivial
    · trivial
  case h_7 | h_8 | h_9 | h_12 => trivial
  case h_10 | h_11 => split <;> trivial

/-- The children of the node at a place, from the one with index `i` on. -/
def ChildrenFrom (root : Node) (place : List Nat) (i : Nat) (ts : List Node) : Prop :=
  ∃ around t, root.at? place = some (around, t) ∧ t.children.drop i = ts

theorem ChildrenFrom.cons {root c : Node} {place : List Nat} {i : Nat} {rest : List Node}
    (h : ChildrenFrom root place i (c :: rest)) :
    (∃ around, root.at? (i :: place) = some (around, c)) ∧ ChildrenFrom root place (i + 1) rest := by
  obtain ⟨around, t, ht, hrest⟩ := h
  have hc : t.children[i]? = some c := by
    rw [← List.head?_drop, hrest]
    rfl
  refine ⟨⟨t :: around, Tree.at?_cons.2 ⟨around, t, ht, hc, rfl⟩⟩, around, t, ht, ?_⟩
  rw [← List.tail_drop, hrest]
  rfl

-- One statement for each function of the walk. A node keeps to its own region, a list of children to
-- the regions of these.
mutual

theorem placed_declaredIn {root : Node} (s : Surroundings) (holder : Option String) (place : List Nat)
    (t : Node) (h : ∃ around, root.at? place = some (around, t)) :
    Placed root (place <:+ ·) (declaredIn s holder place t) := by
  obtain ⟨kind, role, text, span, children⟩ := t
  have fits := fits_formOf s holder (.node kind role text span children)
  obtain ⟨around, ht⟩ := h
  have hchildren : ChildrenFrom root place 0 children := ⟨around, _, ht, rfl⟩
  rw [declaredIn]
  split
  · rename_i name hform
    rw [hform] at fits
    exact (placed_declaredInBody _ place 0 children hchildren).function ht fits
  · rename_i name hform
    rw [hform] at fits
    obtain ⟨v, hv, hfunction⟩ := fits
    exact (placed_declaredInValue s _ name place 0 children hchildren v hv hfunction).mono
      fun _ => Below.suffix
  · exact (placed_declaredInBody _ place 0 children hchildren).mono fun _ => Below.suffix
  · exact (placed_declaredInBody _ place 0 children hchildren).mono fun _ => Below.suffix
  · exact (placed_declaredInAll s _ place 0 children hchildren).mono fun _ => Below.suffix
termination_by structural t

theorem placed_declaredInAll {root : Node} (s : Surroundings) (holder : Option String)
    (place : List Nat) (i : Nat) (ts : List Node) (h : ChildrenFrom root place i ts) :
    Placed root (Below place i) (declaredInAll s holder place i ts) := by
  cases ts with
  | nil =>
    rw [declaredInAll]
    exact .nil
  | cons c rest =>
    rw [declaredInAll]
    have first := placed_declaredIn s holder (i :: place) c h.cons.1
    have others := placed_declaredInAll s holder place (i + 1) rest h.cons.2
    exact (first.append others fun _ => not_below_succ).mono fun _ hp =>
      hp.elim below_of_suffix Below.of_succ
termination_by structural ts

theorem placed_declaredInBody {root : Node} (s : Surroundings) (place : List Nat) (i : Nat)
    (ts : List Node) (h : ChildrenFrom root place i ts) :
    Placed root (Below place i) (declaredInBody s place i ts) := by
  cases ts with
  | nil =>
    rw [declaredInBody]
    exact .nil
  | cons c rest =>
    obtain ⟨kind, role, text, span, children⟩ := c
    obtain ⟨⟨around, hc⟩, hrest⟩ := h.cons
    rw [declaredInBody]
    split
    · exact (placed_declaredInAll s _ (i :: place) 0 children ⟨around, _, hc, rfl⟩).mono fun _ hp =>
        below_of_suffix hp.suffix
    · exact (placed_declaredInBody s place (i + 1) rest hrest).mono fun _ => Below.of_succ
termination_by structural ts

theorem placed_declaredInValue {root : Node} (s : Surroundings) (declaration : Node) (name : String)
    (place : List Nat) (i : Nat) (ts : List Node) (h : ChildrenFrom root place i ts) (v : Node)
    (hv : ts.find? (·.role == some .value) = some v) (hfunction : v.kind.isFunctionScope = true) :
    Placed root (Below place i) (declaredInValue s declaration name place i ts) := by
  cases ts with
  | nil => cases hv
  | cons c rest =>
    obtain ⟨kind, role, text, span, children⟩ := c
    obtain ⟨⟨around, hc⟩, hrest⟩ := h.cons
    have role_eq : (Tree.node kind role text span children : Node).role = role := rfl
    rw [List.find?_cons, role_eq] at hv
    rw [declaredInValue]
    cases hrole : role == some .value with
    | true =>
      rw [hrole] at hv
      obtain rfl : .node kind role text span children = v := Option.some_inj.1 hv
      rw [if_pos rfl]
      exact ((placed_declaredInBody _ (i :: place) 0 children ⟨around, _, hc, rfl⟩).function hc
        hfunction).mono fun _ => below_of_suffix
    | false =>
      rw [hrole] at hv
      rw [if_neg Bool.false_ne_true]
      exact (placed_declaredInValue s declaration name place (i + 1) rest hrest v hv hfunction).mono
        fun _ => Below.of_succ
termination_by structural ts

end

/-- The functions that a file names stand at different places, each at a node that makes a function. -/
theorem placed_namedFunctions (file : String) (root : Node) :
    Placed root (Below [] 0) (namedFunctions file root) :=
  placed_declaredInAll _ none [] 0 root.children ⟨[], root, rfl, rfl⟩

/-! ## The first of each id -/

/-- No function before it in the list has its id. -/
def IsFirstOfId (l : List Declared) (d : Declared) : Prop :=
  ∃ before after, l = before ++ d :: after ∧ ∀ e ∈ before, e.node.id ≠ d.node.id

theorem isFirstOfId_cons {l : List Declared} {d e : Declared} :
    IsFirstOfId (e :: l) d ↔ d = e ∨ e.node.id ≠ d.node.id ∧ IsFirstOfId l d := by
  constructor
  · rintro ⟨before, after, heq, first⟩
    cases before with
    | nil => exact .inl (List.cons.inj heq).1.symm
    | cons x before =>
      obtain ⟨rfl, rfl⟩ := List.cons.inj heq
      obtain ⟨ne, first⟩ := List.forall_mem_cons.1 first
      exact .inr ⟨ne, before, after, rfl, first⟩
  · rintro (rfl | ⟨ne, before, after, rfl, first⟩)
    · exact ⟨[], l, rfl, fun _ h => (by cases h)⟩
    · exact ⟨e :: before, after, rfl, List.forall_mem_cons.2 ⟨ne, first⟩⟩

theorem mem_firstOfEach_id {seen : List String} {l : List Declared} {d : Declared} :
    d ∈ firstOfEach (·.node.id) seen l ↔ d.node.id ∉ seen ∧ IsFirstOfId l d := by
  induction l generalizing seen with
  | nil => simp [firstOfEach, IsFirstOfId]
  | cons e rest ih =>
    rw [firstOfEach, isFirstOfId_cons]
    split
    · rename_i known
      have known : e.node.id ∈ seen := List.contains_iff_mem.1 known
      rw [ih]
      refine and_congr_right fun fresh => ⟨fun first => .inr ⟨fun same => fresh (same ▸ known), first⟩, ?_⟩
      rintro (rfl | ⟨-, first⟩)
      · exact absurd known fresh
      · exact first
    · rename_i new
      have new : e.node.id ∉ seen := fun h => new (List.contains_iff_mem.2 h)
      rw [List.mem_cons, ih, List.mem_cons, not_or]
      constructor
      · rintro (rfl | ⟨⟨ne, fresh⟩, first⟩)
        · exact ⟨new, .inl rfl⟩
        · exact ⟨fresh, .inr ⟨Ne.symm ne, first⟩⟩
      · rintro ⟨fresh, rfl | ⟨ne, first⟩⟩
        · exact .inl rfl
        · exact .inr ⟨⟨Ne.symm ne, fresh⟩, first⟩

theorem mem_declaredFunctions {file : String} {root : Node} {d : Declared} :
    d ∈ declaredFunctions file root ↔ IsFirstOfId (namedFunctions file root) d :=
  mem_firstOfEach_id.trans (and_iff_right List.not_mem_nil)

/-! ## The function around a call -/

/-- Of the functions in the list, the one that stands around a place with no other one between. -/
structure IsInnermost (l : List Declared) (place : List Nat) (d : Declared) : Prop where
  mem : d ∈ l
  around : d.place <:+ place
  inner : ∀ e ∈ l, e.place <:+ place → e.place <:+ d.place

theorem isInnermost_cons {l : List Declared} {place : List Nat} {i : Nat} {d : Declared}
    (free : ∀ e ∈ l, e.place ≠ i :: place) : IsInnermost l (i :: place) d ↔ IsInnermost l place d := by
  have outside (e : Declared) (he : e ∈ l) : e.place <:+ i :: place ↔ e.place <:+ place := by
    rw [List.suffix_cons_iff, or_iff_right (free e he)]
  constructor
  · rintro ⟨hd, hplace, inner⟩
    exact ⟨hd, (outside d hd).1 hplace, fun e he h => inner e he ((outside e he).2 h)⟩
  · rintro ⟨hd, hplace, inner⟩
    exact ⟨hd, (outside d hd).2 hplace, fun e he h => inner e he ((outside e he).1 h)⟩

theorem find?_place {l : List Declared} (distinct : l.Pairwise fun d e => d.place ≠ e.place)
    {d : Declared} (hd : d ∈ l) : l.find? (·.place == d.place) = some d := by
  induction l with
  | nil => cases hd
  | cons e rest ih =>
    obtain ⟨ne, distinct⟩ := List.pairwise_cons.1 distinct
    rcases List.mem_cons.1 hd with rfl | hd
    · exact List.find?_cons_of_pos (by simp)
    · rw [List.find?_cons_of_neg (by simpa using ne d hd)]
      exact ih distinct hd

/-- At the place of a function, this one is the innermost. -/
theorem isInnermost_place {l : List Declared} (distinct : l.Pairwise fun d e => d.place ≠ e.place)
    {d e : Declared} (hd : d ∈ l) : IsInnermost l d.place e ↔ e = d := by
  constructor
  · rintro ⟨he, around, inner⟩
    have below := inner d hd List.suffix_rfl
    have same : e.place = d.place := around.eq_of_length (le_antisymm around.length_le below.length_le)
    have found := find?_place distinct he
    rw [same, find?_place distinct hd] at found
    exact (Option.some_inj.1 found).symm
  · rintro rfl
    exact ⟨hd, List.suffix_rfl, fun _ _ h => h⟩

namespace CallSearch

variable {s : CallSearch} {place : List Nat}

theorem functionAt?_eq_none (free : ∀ d ∈ s.declared, d.place ≠ place) : s.functionAt? place = none := by
  rw [functionAt?, Option.map_eq_none_iff, List.find?_eq_none]
  intro d hd
  simpa using free d hd

/-- The caller is the innermost function around. -/
theorem callerAt?_eq_some (distinct : s.declared.Pairwise fun d e => d.place ≠ e.place) {id : String} :
    s.callerAt? place = some id ↔ ∃ d, IsInnermost s.declared place d ∧ d.node.id = id := by
  have taken {place : List Nat} (h : ∃ d ∈ s.declared, d.place = place) :
      s.callerAt? place = some id ↔ ∃ d, IsInnermost s.declared place d ∧ d.node.id = id := by
    obtain ⟨d, hd, rfl⟩ := h
    have here : s.functionAt? d.place = some d.node.id := by
      rw [functionAt?, find?_place distinct hd]
      rfl
    rw [callerAt?_eq, here]
    simp [isInnermost_place distinct hd]
  induction place with
  | nil =>
    by_cases h : ∃ d ∈ s.declared, d.place = []
    · exact taken h
    · have free : ∀ d ∈ s.declared, d.place ≠ [] := fun d hd same => h ⟨d, hd, same⟩
      rw [callerAt?_eq, functionAt?_eq_none free]
      refine iff_of_false (by simp [callerAround?]) ?_
      rintro ⟨d, hd, -⟩
      exact free d hd.mem (List.suffix_nil.1 hd.around)
  | cons i place ih =>
    by_cases h : ∃ d ∈ s.declared, d.place = i :: place
    · exact taken h
    · have free : ∀ d ∈ s.declared, d.place ≠ i :: place := fun d hd same => h ⟨d, hd, same⟩
      rw [callerAt?_eq, functionAt?_eq_none free, callerAround?]
      simpa [isInnermost_cons free] using ih

end CallSearch

/-- Every function that a file names stands at a node that makes a function. The calls of a file are
those that its nodes make on behalf of the innermost function around that is the first of its id. So a
call to another function is recorded for the innermost function around it whenever no function before
that one has its id. -/
theorem calls_made_by_first_of_id (file : String) (table : NodeTable) (root : Node) :
    (∀ d ∈ namedFunctions file root, ∃ around f, root.at? d.place = some (around, f) ∧
      f.kind.isFunctionScope = true) ∧
    (∀ c, c ∈ calls file table root ↔ ∃ place around t d, root.at? place = some (around, t) ∧
      IsInnermost (declaredFunctions file root) place d ∧ c.caller = d.node.id ∧
      callTarget? table file c.caller around t = some c.callee ∧ c.callee ≠ c.caller) ∧
    ∀ place around t d target, root.at? place = some (around, t) →
      IsInnermost (namedFunctions file root) place d → IsFirstOfId (namedFunctions file root) d →
      callTarget? table file d.node.id around t = some target → target ≠ d.node.id →
      ⟨d.node.id, target⟩ ∈ calls file table root := by
  let s : CallSearch := ⟨file, table, declaredFunctions file root⟩
  have placed := placed_namedFunctions file root
  have distinct : s.declared.Pairwise fun d e => d.place ≠ e.place :=
    placed.distinct.sublist (firstOfEach_sublist ..)
  have exact_calls (c : Call) : c ∈ calls file table root ↔ ∃ place around t d,
      root.at? place = some (around, t) ∧ IsInnermost (declaredFunctions file root) place d ∧
      c.caller = d.node.id ∧ callTarget? table file c.caller around t = some c.callee ∧
      c.callee ≠ c.caller := by
    rw [mem_calls]
    constructor
    · rintro ⟨place, around, t, ht, hc⟩
      obtain ⟨hcaller, htarget, ne⟩ := s.callAt?_eq_some.1 hc
      obtain ⟨d, hd, hid⟩ := (CallSearch.callerAt?_eq_some distinct).1 hcaller
      exact ⟨place, around, t, d, ht, hd, hid.symm, htarget, ne⟩
    · rintro ⟨place, around, t, d, ht, hd, hid, htarget, ne⟩
      have hcaller := (CallSearch.callerAt?_eq_some distinct).2 ⟨d, hd, hid.symm⟩
      exact ⟨place, around, t, ht, s.callAt?_eq_some.2 ⟨hcaller, htarget, ne⟩⟩
  refine ⟨placed.standing, exact_calls, ?_⟩
  intro place around t d target ht hd first htarget ne
  have known : IsInnermost (declaredFunctions file root) place d :=
    ⟨mem_declaredFunctions.2 first, hd.around, fun e he => hd.inner e ((firstOfEach_sublist ..).subset he)⟩
  exact (exact_calls _).2 ⟨place, around, t, d, ht, known, rfl, htarget, ne⟩

/-- The call in the getter is recorded for it. -/
theorem call_in_first_accessor_recorded :
    let text := "class A \x7b get x() \x7b return f(); \x7d set x(v) \x7b g(); \x7d \x7d\nfunction f() \x7b\x7d\nfunction g() \x7b\x7d\n"
    let root := parseFile "f.ts" text
    let table := NodeTable.ofNodes (functions "f.ts" root)
    ∃ place around t d, root.at? place = some (around, t) ∧ t.kind = .callExpression ∧
      IsInnermost (namedFunctions "f.ts" root) place d ∧ IsFirstOfId (namedFunctions "f.ts" root) d ∧
      d.node.id = "f.ts:A.x" ∧ callTarget? table "f.ts" "f.ts:A.x" around t = some "f.ts:f" ∧
      ⟨"f.ts:A.x", "f.ts:f"⟩ ∈ calls "f.ts" table root := by
  intro text root table
  let place := [1, 1, 3, 1, 2, 0]
  have evaluated : ((namedFunctions "f.ts" root).head?.any fun d => d.node.id = "f.ts:A.x" ∧
        d.place <:+ place ∧ ∀ e ∈ namedFunctions "f.ts" root, e.place <:+ place → e.place <:+ d.place) = true ∧
      ((root.at? place).any fun (around, t) => t.kind == .callExpression &&
        callTarget? table "f.ts" "f.ts:A.x" around t == some "f.ts:f") = true := by
    decide +kernel
  simp only [Option.any_eq_true, Prod.exists, Bool.and_eq_true, beq_iff_eq, decide_eq_true_eq] at evaluated
  obtain ⟨⟨d, hd, hid, hplace, inner⟩, around, t, ht, hk, htarget⟩ := evaluated
  obtain ⟨rest, named⟩ := List.head?_eq_some_iff.1 hd
  have innermost : IsInnermost (namedFunctions "f.ts" root) place d :=
    ⟨List.mem_of_mem_head? hd, hplace, inner⟩
  have first : IsFirstOfId (namedFunctions "f.ts" root) d := ⟨[], rest, named, fun _ h => (by cases h)⟩
  refine ⟨place, around, t, d, ht, hk, innermost, first, hid, htarget, ?_⟩
  rw [← hid] at htarget ⊢
  exact (calls_made_by_first_of_id "f.ts" table root).2.2 place around t d "f.ts:f" ht innermost first
    htarget (by rw [hid]; decide)

/-- The call in the setter, which has the id of the getter, is not. -/
theorem call_in_second_accessor_lost :
    let text := "class A \x7b get x() \x7b return 1; \x7d set x(v) \x7b g(); \x7d \x7d\nfunction g() \x7b\x7d\n"
    let root := parseFile "f.ts" text
    let table := NodeTable.ofNodes (functions "f.ts" root)
    calls "f.ts" table root = [] ∧
      ∃ place around t d, root.at? place = some (around, t) ∧ t.kind = .callExpression ∧
        IsInnermost (namedFunctions "f.ts" root) place d ∧ d.node.id = "f.ts:A.x" ∧
        callTarget? table "f.ts" "f.ts:A.x" around t = some "f.ts:g" := by
  intro text root table
  let place := [0, 1, 3, 2, 2, 0]
  have evaluated : calls "f.ts" table root = [] ∧
      (∃ d ∈ namedFunctions "f.ts" root, d.node.id = "f.ts:A.x" ∧ d.place <:+ place ∧
        ∀ e ∈ namedFunctions "f.ts" root, e.place <:+ place → e.place <:+ d.place) ∧
      ((root.at? place).any fun (around, t) => t.kind == .callExpression &&
        callTarget? table "f.ts" "f.ts:A.x" around t == some "f.ts:g") = true := by
    decide +kernel
  obtain ⟨none, ⟨d, hd, hid, hplace, inner⟩, hcall⟩ := evaluated
  simp only [Option.any_eq_true, Prod.exists, Bool.and_eq_true, beq_iff_eq] at hcall
  obtain ⟨around, t, ht, hk, htarget⟩ := hcall
  exact ⟨none, place, around, t, d, ht, hk, ⟨hd, hplace, inner⟩, hid, htarget⟩

end SymbolGraph.Script
