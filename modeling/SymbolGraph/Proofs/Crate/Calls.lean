import SymbolGraph.Proofs.CallGraph.Edges
import SymbolGraph.Proofs.Crate.Functions
import SymbolGraph.Proofs.Crate.References

/-!
# Who makes a call in a Rust file

The walk for calls carries the function whose calls it collects. If all functions that it enters are
known, this is the innermost function around. It enters the functions that the file has, except that it
does not look into the attributes of statements and expressions that bind names.
-/
namespace SymbolGraph.Crate
open Relation

/-! ## Steps of the walk -/

/-- Where the walk stands: the function around and the open scopes, the place, the nodes around and the
node it has come to. -/
structure CallVisit where
  site : CallSite
  scopes : Scopes
  place : List Nat
  around : List Node
  node : Node

section Walk

variable (c : CallSearch)

/-- The call that a node makes by itself. -/
def ownCall? (site : CallSite) (scopes : Scopes) (t : Node) : Option Call := do
  let caller ← site.caller
  let callee ← c.target? site.surroundings scopes t
  if callee == caller then none
  return ⟨caller, callee⟩

/-- The scopes behind the first children of a node. -/
def callScopes (site : CallSite) (scopes : Scopes) (t : Node) (i : Nat) : Scopes :=
  (callsInAll c (c.inside site t) t.kind (scopesInside scopes t) (t.children.take i)).2

namespace CallVisit

/-- One step of the walk: to a child that it looks at, with what the children before it leave bound. -/
inductive Goes : CallVisit → CallVisit → Prop
  | into {site : CallSite} {scopes : Scopes} {place : List Nat} {around : List Node} {t u : Node}
      {i : Nat} : t.children[i]? = some u → holdsCalls t.kind u = true →
      Goes ⟨site, scopes, place, around, t⟩
        ⟨c.inside site t, callScopes c site scopes t i, i :: place, t :: around, u⟩

/-- The walk over a file comes to a node. -/
def Reached (root : Node) (v : CallVisit) : Prop := ReflTransGen (Goes c) ⟨{}, [], [], [], root⟩ v

end CallVisit

variable {c}

theorem ownCall?_eq_some {site : CallSite} {scopes : Scopes} {t : Node} {call : Call} :
    ownCall? c site scopes t = some call ↔ site.caller = some call.caller ∧
      c.target? site.surroundings scopes t = some call.callee ∧ call.callee ≠ call.caller := by
  obtain ⟨caller, callee⟩ := call
  simp only [ownCall?, bind, Option.bind_eq_some_iff]
  constructor
  · rintro ⟨a, ha, b, hb, h⟩
    split at h
    · cases h
    · rename_i ne
      cases h
      exact ⟨ha, hb, by simpa using ne⟩
  · rintro ⟨ha, hb, ne⟩
    exact ⟨caller, ha, callee, hb, by simp [ne]⟩

theorem fst_callsIn (site : CallSite) (scopes : Scopes) (t : Node) : (callsIn c site scopes t).1 =
    (ownCall? c site scopes t).toList ++
      (callsInAll c (c.inside site t) t.kind (scopesInside scopes t) t.children).1 := by
  obtain ⟨kind, role, text, span, children⟩ := t
  rw [callsIn]
  rfl

theorem mem_callsInAll {site : CallSite} {parent : Kind} {scopes : Scopes} {l : List Node} {call : Call} :
    call ∈ (callsInAll c site parent scopes l).1 ↔ ∃ i u, l[i]? = some u ∧ holdsCalls parent u = true ∧
      call ∈ (callsIn c site (callsInAll c site parent scopes (l.take i)).2 u).1 := by
  induction l generalizing scopes with
  | nil => simp [callsInAll]
  | cons t rest ih =>
    rw [callsInAll]
    simp only [List.mem_append, ih]
    constructor
    · rintro (h | ⟨i, u, hu, holds, h⟩)
      · split at h
        · rename_i holds
          exact ⟨0, t, rfl, holds, h⟩
        · cases h
      · exact ⟨i + 1, u, hu, holds, h⟩
    · rintro ⟨_ | i, u, hu, holds, h⟩
      · obtain rfl : t = u := by simpa using hu
        rw [if_pos holds]
        exact .inl h
      · exact .inr ⟨i, u, hu, holds, h⟩

end Walk

/-- What the walk for the calls of a file knows. -/
def callSearch (file : String) (table : NodeTable) : CallSearch :=
  ⟨file, table, .ofFiles table.files.toList⟩

namespace CallVisit

variable {c : CallSearch} {root t : Node} {v : CallVisit}

theorem Goes.sizeOf_lt {v w : CallVisit} (h : Goes c v w) : sizeOf w.node < sizeOf v.node := by
  obtain ⟨hu, -⟩ := h
  exact Tree.sizeOf_lt_of_mem_children (List.mem_of_getElem? hu)

/-- The calls of a file are those that the nodes make to which the walk comes. -/
theorem mem_calls {p : Parsed} {file : String} {table : NodeTable} {call : Call} :
    call ∈ p.calls file table ↔ ∃ v, Reached (callSearch file table) p.root v ∧
      ownCall? (callSearch file table) v.site v.scopes v.node = some call := by
  let c := callSearch file table
  have step (v : CallVisit) (call : Call) : call ∈ (callsIn c v.site v.scopes v.node).1 ↔
      call ∈ (ownCall? c v.site v.scopes v.node).toList ∨
        ∃ w, Goes c v w ∧ call ∈ (callsIn c w.site w.scopes w.node).1 := by
    obtain ⟨site, scopes, place, around, t⟩ := v
    rw [fst_callsIn, List.mem_append, mem_callsInAll]
    refine or_congr_right ⟨?_, ?_⟩
    · rintro ⟨i, u, hu, holds, h⟩
      exact ⟨_, .into hu holds, h⟩
    · rintro ⟨w, ⟨hu, holds⟩, h⟩
      exact ⟨_, _, hu, holds, h⟩
  have collected := mem_collected (fun v : CallVisit => sizeOf v.node) Goes.sizeOf_lt step
    (v := ⟨{}, [], [], [], p.root⟩) (a := call)
  simpa [Parsed.calls, Reached, c, callSearch] using collected

theorem Reached.along (h : Reached c root v) : root.at? v.place = some (v.around, v.node) ∧
    Tree.Along (fun parent u => holdsCalls parent.kind u = true) v.around v.node := by
  induction h with
  | refl => exact ⟨rfl, trivial⟩
  | tail _ hgoes ih =>
    obtain ⟨hu, holds⟩ := hgoes
    exact ⟨Tree.at?_cons.2 ⟨_, _, ih.1, hu, rfl⟩, holds, ih.2⟩

theorem exists_reached {place : List Nat} {around : List Node} (ht : root.at? place = some (around, t))
    (along : Tree.Along (fun parent u => holdsCalls parent.kind u = true) around t) :
    ∃ site scopes, Reached c root ⟨site, scopes, place, around, t⟩ := by
  induction place generalizing around t with
  | nil =>
    obtain ⟨rfl, rfl⟩ : [] = around ∧ root = t := by simpa [Tree.at?] using ht
    exact ⟨{}, [], .refl⟩
  | cons i place ih =>
    obtain ⟨outer, parent, hparent, hchild, rfl⟩ := Tree.at?_cons.1 ht
    obtain ⟨site, scopes, reached⟩ := ih hparent along.2
    exact ⟨_, _, reached.tail (.into hchild along.1)⟩

/-- The visit at a place, if the walk comes there. -/
def at? (c : CallSearch) (root : Node) : List Nat → Option CallVisit
  | [] => some ⟨{}, [], [], [], root⟩
  | i :: place => (at? c root place).bind fun v =>
    ((v.node.children[i]?).filter (holdsCalls v.node.kind)).map fun u =>
      ⟨c.inside v.site v.node, callScopes c v.site v.scopes v.node i, i :: v.place, v.node :: v.around, u⟩

theorem reached_of_at? {place : List Nat} (h : at? c root place = some v) : Reached c root v := by
  induction place generalizing v with
  | nil =>
    obtain rfl : _ = v := Option.some_inj.1 h
    exact .refl
  | cons i place ih =>
    obtain ⟨w, hw, h⟩ := Option.bind_eq_some_iff.1 h
    obtain ⟨u, hu, rfl⟩ := Option.map_eq_some_iff.1 h
    obtain ⟨hchild, holds⟩ := Option.filter_eq_some_iff.1 hu
    exact (ih hw).tail (.into hchild holds)

theorem Reached.surroundings (h : Reached c root v) :
    v.site.surroundings = surroundingsIn v.around := by
  induction h with
  | refl => rfl
  | tail _ hgoes ih =>
    obtain ⟨-, -⟩ := hgoes
    rw [surroundingsIn, ← ih]
    rfl

end CallVisit

/-! ## The function around a node -/

/-- Of the functions around, the one with no other between. -/
def IsInnermost (around : List Node) (e : Entry) : Prop :=
  ∃ inner t outer, around = inner ++ t :: outer ∧ entryOf? (surroundingsIn outer) t = some e ∧
    ∀ u ∈ inner, isFunction u = false

theorem not_isInnermost_nil {e : Entry} : ¬ IsInnermost [] e := by
  rintro ⟨inner, t, outer, h, -⟩
  simp at h

theorem isInnermost_cons {t : Node} {around : List Node} {e : Entry} : IsInnermost (t :: around) e ↔
    entryOf? (surroundingsIn around) t = some e ∨ isFunction t = false ∧ IsInnermost around e := by
  constructor
  · rintro ⟨_ | ⟨u, inner⟩, f, outer, heq, he, none⟩
    · obtain ⟨rfl, rfl⟩ := List.cons.inj heq
      exact .inl he
    · obtain ⟨rfl, rfl⟩ := List.cons.inj heq
      obtain ⟨hu, none⟩ := List.forall_mem_cons.1 none
      exact .inr ⟨hu, inner, f, outer, rfl, he, none⟩
  · rintro (he | ⟨ht, inner, f, outer, rfl, he, none⟩)
    · exact ⟨[], t, around, rfl, he, by simp⟩
    · exact ⟨t :: inner, f, outer, rfl, he, List.forall_mem_cons.2 ⟨ht, none⟩⟩

namespace CallVisit

variable {c : CallSearch} {root : Node} {v : CallVisit} {e : Entry}

theorem Reached.mem_entered (h : Reached c root v) (he : IsInnermost v.around e) :
    e ∈ entered holdsCalls {} root := by
  induction h with
  | refl => exact absurd he not_isInnermost_nil
  | tail reached hgoes ih =>
    obtain ⟨-, -⟩ := hgoes
    rcases isInnermost_cons.1 he with he | ⟨-, he⟩
    · obtain ⟨ht, along⟩ := Reached.along reached
      exact Crate.mem_entered.2 ⟨_, _, _, ht, along, he⟩
    · exact ih he

theorem caller_inside {site : CallSite} {around : List Node} {t : Node}
    (here : site.surroundings = surroundingsIn around) : (c.inside site t).caller =
      ((functionName? (surroundingsIn around) t).bind (c.table.idIn? c.file) <|> site.caller) := by
  rw [← here]
  rfl

/-- The function whose calls are collected is the innermost one around, if it is known. -/
theorem Reached.caller_of_isInnermost (h : Reached c root v) (he : IsInnermost v.around e) {id : String}
    (known : c.table.idIn? c.file e.name = some id) : v.site.caller = some id := by
  induction h with
  | refl => exact absurd he not_isInnermost_nil
  | tail reached hgoes ih =>
    obtain ⟨-, -⟩ := hgoes
    rw [caller_inside (Reached.surroundings reached)]
    rcases isInnermost_cons.1 he with he | ⟨plain, he⟩
    · simp [(entryOf?_eq_some.1 he).1, known]
    · simpa [functionName?_eq_none plain] using ih he

theorem Reached.caller_eq_none (h : Reached c root v) (free : ∀ e, ¬ IsInnermost v.around e) :
    v.site.caller = none := by
  induction h with
  | refl => rfl
  | tail reached hgoes ih =>
    obtain ⟨-, -⟩ := hgoes
    have outside := fun e => not_or.1 (mt isInnermost_cons.2 (free e))
    have plain := isFunction_eq_false fun e => (outside e).1
    rw [caller_inside (Reached.surroundings reached), functionName?_eq_none plain]
    exact ih fun e he => (outside e).2 ⟨plain, he⟩

/-- If all functions that the walk enters are known, their calls are their own. -/
theorem Reached.caller_eq_some
    (held : ∀ e ∈ entered holdsCalls {} root, c.table.idIn? c.file e.name = some (symbolKey c.file e.name))
    (h : Reached c root v) {id : String} : v.site.caller = some id ↔
      ∃ e, IsInnermost v.around e ∧ symbolKey c.file e.name = id := by
  constructor
  · intro caller
    by_cases inner : ∃ e, IsInnermost v.around e
    · obtain ⟨e, he⟩ := inner
      have own := h.caller_of_isInnermost he (held e (h.mem_entered he))
      exact ⟨e, he, Option.some_inj.1 (own.symm.trans caller)⟩
    · rw [h.caller_eq_none (not_exists.1 inner)] at caller
      cases caller
  · rintro ⟨e, he, rfl⟩
    exact h.caller_of_isInnermost he (held e (h.mem_entered he))

end CallVisit

/-! ## Calls and functions of a file -/

/-- Every function that the walk for functions enters has a node. -/
theorem exists_function {p : Parsed} (file : String) {e : Entry} (he : e ∈ entered holdsFunctions {} p.root) :
    ∃ f ∈ p.functions file, f.id = symbolKey file e.name := by
  have mem : Entry.node p file e ∈ p.functionsIn file {} p.root := by
    rw [functionsIn_eq_entered]
    exact List.mem_map_of_mem he
  exact exists_mem_firstOfEach mem List.not_mem_nil

theorem idIn?_of_entered {p : Parsed} {file : String} {table : NodeTable}
    (held : ∀ f ∈ p.functions file, table.ids.contains f.id = true) {e : Entry}
    (he : e ∈ entered holdsFunctions {} p.root) : table.idIn? file e.name = some (symbolKey file e.name) := by
  obtain ⟨f, hf, hid⟩ := exists_function file he
  have known := held f hf
  rw [hid] at known
  simp [NodeTable.idIn?, known]

/-- The walk for functions makes one node of each function that it enters. If no function stands in the
arguments of a macro, in the pattern of a `let` statement or a loop, in the head of a closure, or in an
attribute of a node that binds names, the walk for calls enters the same functions. The calls of the
file are then those of the nodes to which it comes, each made by the innermost function around. -/
theorem calls_made_by_innermost_function (p : Parsed) (file : String) (table : NodeTable)
    (held : ∀ f ∈ p.functions file, table.ids.contains f.id = true)
    (passed : HidesNone isPassedOver p.root) (attributes : HidesNone isBindingAttribute p.root) :
    p.functionsIn file {} p.root = (entered holdsFunctions {} p.root).map (Entry.node p file) ∧
    entered holdsCalls {} p.root = entered holdsFunctions {} p.root ∧
    (∀ place around t, (∃ site scopes,
        CallVisit.Reached (callSearch file table) p.root ⟨site, scopes, place, around, t⟩) ↔
      p.root.at? place = some (around, t) ∧
        Tree.Along (fun parent u => holdsCalls parent.kind u = true) around t) ∧
    ∀ call, call ∈ p.calls file table ↔
      ∃ v e, CallVisit.Reached (callSearch file table) p.root v ∧ IsInnermost v.around e ∧
        e ∈ entered holdsFunctions {} p.root ∧ call.caller = symbolKey file e.name ∧
        (callSearch file table).target? (surroundingsIn v.around) v.scopes v.node = some call.callee ∧
        call.callee ≠ call.caller := by
  have same : entered holdsCalls {} p.root = entered holdsFunctions {} p.root :=
    entered_holdsCalls passed attributes
  have known (e : Entry) (he : e ∈ entered holdsCalls {} p.root) :
      table.idIn? file e.name = some (symbolKey file e.name) := idIn?_of_entered held (same ▸ he)
  refine ⟨functionsIn_eq_entered .., same, fun place around t => ⟨?_, ?_⟩, fun call => ?_⟩
  · rintro ⟨site, scopes, reached⟩
    exact reached.along
  · rintro ⟨ht, along⟩
    exact CallVisit.exists_reached ht along
  · rw [CallVisit.mem_calls]
    constructor
    · rintro ⟨v, reached, hcall⟩
      obtain ⟨caller, target, ne⟩ := ownCall?_eq_some.1 hcall
      obtain ⟨e, he, hid⟩ := (reached.caller_eq_some known).1 caller
      rw [reached.surroundings] at target
      exact ⟨v, e, reached, he, same ▸ reached.mem_entered he, hid.symm, target, ne⟩
    · rintro ⟨v, e, reached, he, -, hid, target, ne⟩
      have caller := (reached.caller_eq_some known).2 ⟨e, he, hid.symm⟩
      rw [← reached.surroundings] at target
      exact ⟨v, reached, ownCall?_eq_some.2 ⟨caller, target, ne⟩⟩

/-- The function in the closure is entered by both walks. -/
theorem function_in_closure_entered :
    let text := "fn main(v: u32) \x7b\n    let k = |x: u32| \x7b\n        fn g() \x7b h() \x7d\n        x\n    \x7d;\n    k(v)\n\x7d\nfn h() \x7b\x7d\n"
    ∃ parsed, parse? text = some parsed ∧
      (parsed.functions "src/lib.rs").map (·.name) = ["main", "main.g", "h"] ∧
      (entered holdsCalls {} parsed.root).map (·.name) = ["main", "main.g", "h"] := by
  intro text
  have evaluated : ((parse? text).any fun parsed =>
      (parsed.functions "src/lib.rs").map (·.name) = ["main", "main.g", "h"] ∧
      HidesNone isPassedOver parsed.root ∧ HidesNone isBindingAttribute parsed.root ∧
      (entered holdsFunctions {} parsed.root).map (·.name) = ["main", "main.g", "h"] ∧
      ∀ f ∈ parsed.functions "src/lib.rs",
        (NodeTable.ofNodes (parsed.functions "src/lib.rs")).ids.contains f.id = true) = true := by
    decide +kernel
  simp only [Option.any_eq_true, decide_eq_true_eq] at evaluated
  obtain ⟨parsed, hparsed, names, passed, attributes, extracted, held⟩ := evaluated
  have same := (calls_made_by_innermost_function parsed "src/lib.rs"
    (NodeTable.ofNodes (parsed.functions "src/lib.rs")) held passed attributes).2.1
  exact ⟨parsed, hparsed, names, by rw [same, extracted]⟩

/-- The function in the attribute is a function of the file, and makes a call. The walk for calls does
not enter it, and the call is lost. -/
theorem function_in_attribute_not_entered :
    let text := "fn main() \x7b\n    #[a = \x7b fn g() \x7b h() \x7d 1 \x7d]\n    let x = 2;\n\x7d\nfn h() \x7b\x7d\n"
    ∃ parsed, parse? text = some parsed ∧ HidesNone isPassedOver parsed.root ∧
      let table := NodeTable.ofNodes (parsed.functions "src/lib.rs")
      (parsed.functions "src/lib.rs").map (·.name) = ["main", "main.g", "h"] ∧
      (∃ place around t e, parsed.root.at? place = some (around, t) ∧ IsInnermost around e ∧
        e.name = "main.g" ∧ (callSearch "src/lib.rs" table).target? (surroundingsIn around) [] t =
          some "src/lib.rs:h") ∧
      (entered holdsCalls {} parsed.root).map (·.name) = ["main", "h"] ∧
      parsed.calls "src/lib.rs" table = [] := by
  intro text
  let place := [0, 1, 0, 0, 0, 0, 0, 1, 0]
  have evaluated : ((parse? text).any fun parsed =>
      let table := NodeTable.ofNodes (parsed.functions "src/lib.rs")
      decide (HidesNone isPassedOver parsed.root ∧
        (parsed.functions "src/lib.rs").map (·.name) = ["main", "main.g", "h"] ∧
        (entered holdsCalls {} parsed.root).map (·.name) = ["main", "h"] ∧
        parsed.calls "src/lib.rs" table = []) &&
      (parsed.root.at? place).any fun (around, t) =>
        (callSearch "src/lib.rs" table).target? (surroundingsIn around) [] t == some "src/lib.rs:h" &&
        around.head?.any fun body => !isFunction body &&
        around.tail.head?.any fun f => (entryOf? (surroundingsIn around.tail.tail) f).any fun e =>
          e.name == "main.g") = true := by
    decide +kernel
  simp only [Option.any_eq_true, Bool.and_eq_true, decide_eq_true_eq, Prod.exists, beq_iff_eq,
    Bool.not_eq_true'] at evaluated
  obtain ⟨parsed, hparsed, ⟨passed, names, entered, none⟩, around, t, ht, target, body, hbody, plain, f, hf,
    e, he, name⟩ := evaluated
  obtain ⟨around, rfl⟩ := List.head?_eq_some_iff.1 hbody
  obtain ⟨outer, rfl⟩ := List.head?_eq_some_iff.1 hf
  have innermost : IsInnermost (body :: f :: outer) e :=
    isInnermost_cons.2 (.inr ⟨plain, isInnermost_cons.2 (.inl he)⟩)
  exact ⟨parsed, hparsed, passed, names, ⟨place, _, t, e, ht, innermost, name, target⟩, entered, none⟩

end SymbolGraph.Crate
