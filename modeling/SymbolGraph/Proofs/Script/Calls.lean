import Mathlib.Data.List.Infix
import SymbolGraph.CallGraph.Build
import SymbolGraph.Proofs.CallGraph.Edges
import SymbolGraph.Proofs.CallGraph.Functions
import SymbolGraph.Proofs.FileTree
import SymbolGraph.Proofs.Tree

/-!
# What a called name stands for

The calls of a file are those that its nodes make, each on behalf of the innermost function around the
node. Where a plain name is called, the callee is a function that the name can denote: the nearest one
inside the caller or a function around it for a name bound locally to a function, what the import leads to
for an imported name, else a function of the file with this name or a member with this last name. Nothing
is said about imports that lead to no function, and about local functions found below a class.
-/
namespace SymbolGraph.Script
open Text

/-! ## Calls and the nodes that make them -/

namespace CallSearch

variable (s : CallSearch)

/-- The innermost function at a place or around it. -/
def callerAt? (place : List Nat) : Option String := place.tails.findSome? s.functionAt?

/-- The innermost function around a place. -/
def callerAround? : List Nat → Option String
  | [] => none
  | _ :: outer => s.callerAt? outer

/-- The call that the node at a place makes. -/
def callAt? (place : List Nat) (around : List Node) (t : Node) : Option Call := do
  let caller ← s.callerAt? place
  let callee ← callTarget? s.table s.file caller around t
  if callee == caller then none
  return ⟨caller, callee⟩

theorem callerAt?_eq (place : List Nat) :
    s.callerAt? place = (s.functionAt? place <|> s.callerAround? place) := by
  cases place with
  | nil => cases h : s.functionAt? [] <;> simp [callerAt?, callerAround?, h]
  | cons i outer =>
    simp only [callerAt?, callerAround?, List.tails_cons, List.findSome?_cons]
    cases s.functionAt? (i :: outer) <;> rfl

theorem callAt?_eq_some {place : List Nat} {around : List Node} {t : Node} {c : Call} :
    s.callAt? place around t = some c ↔ s.callerAt? place = some c.caller ∧
      callTarget? s.table s.file c.caller around t = some c.callee ∧ c.callee ≠ c.caller := by
  obtain ⟨caller, callee⟩ := c
  simp only [callAt?, bind, Option.bind_eq_some_iff]
  constructor
  · rintro ⟨caller', hcaller, callee', hcallee, h⟩
    by_cases heq : callee' = caller'
    · simp [heq] at h
    · obtain ⟨rfl, rfl⟩ : caller' = caller ∧ callee' = callee := by simpa [heq] using h
      exact ⟨hcaller, hcallee, heq⟩
  · rintro ⟨hcaller, hcallee, hne⟩
    exact ⟨caller, hcaller, callee, hcallee, by simpa using hne⟩

theorem mem_callsInAll {around : List Node} {current : Option String} {place : List Nat} {i : Nat}
    {l : List Node} {c : Call} : c ∈ callsInAll s around current place i l ↔
      ∃ j t, l[j]? = some t ∧ c ∈ callsIn s around current ((i + j) :: place) t := by
  induction l generalizing i with
  | nil => simp [callsInAll]
  | cons t rest ih =>
    rw [callsInAll, List.mem_append, ih]
    constructor
    · rintro (h | ⟨j, u, hu, h⟩)
      · exact ⟨0, t, rfl, h⟩
      · exact ⟨j + 1, u, hu, by rwa [show i + (j + 1) = i + 1 + j by omega]⟩
    · rintro ⟨_ | j, u, hu, h⟩
      · obtain rfl : t = u := by simpa using hu
        exact .inl h
      · exact .inr ⟨j, u, hu, by rwa [show i + 1 + j = i + (j + 1) by omega]⟩

theorem callsIn_eq (place : List Nat) (around : List Node) (t : Node) :
    callsIn s around (s.callerAround? place) place t = (s.callAt? place around t).toList ++
      callsInAll s (t :: around) (s.callerAt? place) place 0 t.children := by
  obtain ⟨kind, role, text, span, children⟩ := t
  rw [callsIn, ← callerAt?_eq]
  rfl

end CallSearch

/-- The calls of a file are those that its nodes make. -/
theorem mem_calls {file : String} {table : NodeTable} {root : Node} {c : Call} :
    c ∈ calls file table root ↔ ∃ place around t, root.at? place = some (around, t) ∧
      (⟨file, table, declaredFunctions file root⟩ : CallSearch).callAt? place around t = some c := by
  let s : CallSearch := ⟨file, table, declaredFunctions file root⟩
  let collect (v : Tree.Position Kind Role) := callsIn s v.around (s.callerAround? v.place) v.place v.node
  have step (v : Tree.Position Kind Role) (c : Call) : c ∈ collect v ↔
      c ∈ (s.callAt? v.place v.around v.node).toList ∨ ∃ w, v.Goes w ∧ c ∈ collect w := by
    obtain ⟨place, around, t⟩ := v
    dsimp only [collect]
    rw [s.callsIn_eq, List.mem_append, s.mem_callsInAll]
    refine or_congr_right ⟨?_, ?_⟩
    · rintro ⟨i, u, hu, h⟩
      exact ⟨_, .into hu, by simpa [CallSearch.callerAround?] using h⟩
    · rintro ⟨w, ⟨hu⟩, h⟩
      exact ⟨_, _, hu, by simpa [CallSearch.callerAround?] using h⟩
  rw [calls, Call.mem_sorted]
  refine (mem_collected (fun v : Tree.Position Kind Role => sizeOf v.node)
    Tree.Position.Goes.sizeOf_lt step (v := ⟨[], [], root⟩)).trans ?_
  constructor
  · rintro ⟨⟨place, around, t⟩, hreached, hc⟩
    exact ⟨place, around, t, Tree.reached_iff_at?.1 hreached, Option.mem_toList.1 hc⟩
  · rintro ⟨place, around, t, ht, hc⟩
    exact ⟨⟨place, around, t⟩, Tree.reached_iff_at?.2 ht, Option.mem_toList.2 hc⟩

/-! ## Dotted names -/

/-- A dotted name or what stands in front of one of its dots. -/
def IsEnclosing (outer owner : String) : Prop := outer = owner ∨ ∃ rest, owner = outer ++ "." ++ rest

theorem append_dot_eq_iff {as bs p : List Char} (hbs : '.' ∉ bs) :
    (∃ r, as ++ '.' :: bs = p ++ '.' :: r) ↔ p = as ∨ ∃ r, as = p ++ '.' :: r := by
  constructor
  · rintro ⟨r, h⟩
    rcases List.append_eq_append_iff.1 h with ⟨front, rfl, hbs'⟩ | ⟨front, rfl, hr⟩
    · rcases List.cons_eq_append_iff.1 hbs' with ⟨rfl, -⟩ | ⟨front', rfl, rfl⟩
      · exact .inl (by simp)
      · exact absurd (by simp) hbs
    · rcases List.cons_eq_append_iff.1 hr with ⟨rfl, -⟩ | ⟨front', rfl, -⟩
      · exact .inl (by simp)
      · exact .inr ⟨front', rfl⟩
  · rintro (rfl | ⟨r, rfl⟩)
    · exact ⟨bs, rfl⟩
    · exact ⟨r ++ '.' :: bs, by simp⟩

theorem isEnclosing_iff_toList {outer owner : String} : IsEnclosing outer owner ↔
    outer.toList = owner.toList ∨ ∃ r, owner.toList = outer.toList ++ '.' :: r := by
  simp only [IsEnclosing, ← String.toList_inj, String.toList_append]
  refine or_congr_right ⟨?_, ?_⟩
  · rintro ⟨rest, h⟩
    exact ⟨rest.toList, by simp [h]⟩
  · rintro ⟨r, h⟩
    exact ⟨String.ofList r, by simp [h]⟩

theorem mem_enclosingOwners {fuel : Nat} {outer owner : String} (h : owner.length < fuel) :
    outer ∈ enclosingOwners fuel owner ↔ IsEnclosing outer owner := by
  induction fuel generalizing owner with
  | zero => omega
  | succ fuel ih =>
    rw [enclosingOwners, List.mem_cons, isEnclosing_iff_toList, String.toList_inj]
    refine or_congr_right ?_
    split
    · rename_i i hi
      obtain ⟨as, bs, howner, hbs, rfl⟩ := lastIndexOf?_eq_some hi
      have htake : take as.length owner = String.ofList as := by simp [take, howner]
      have hlength : as.length + bs.length + 1 = owner.length := by
        rw [← String.length_toList, howner]
        simp
        omega
      rw [htake, ih (by simp; omega), isEnclosing_iff_toList, howner, append_dot_eq_iff hbs]
      simp
    · rename_i hnone
      have hdot := lastIndexOf?_eq_none.1 hnone
      simp only [List.not_mem_nil, false_iff]
      rintro ⟨r, hr⟩
      exact hdot (by simp [hr])

theorem length_take_lastIndexOf? {c : Char} {text : String} {i : Nat}
    (h : lastIndexOf? c text = some i) : (take i text).length < text.length := by
  obtain ⟨as, bs, htext, -, rfl⟩ := lastIndexOf?_eq_some h
  rw [← String.length_toList, ← String.length_toList, take, htext]
  simp

theorem length_le_of_mem_enclosingOwners {fuel : Nat} {outer owner : String}
    (h : outer ∈ enclosingOwners fuel owner) : outer.length ≤ owner.length := by
  induction fuel generalizing owner with
  | zero => cases h
  | succ fuel ih =>
    rw [enclosingOwners, List.mem_cons] at h
    rcases h with rfl | h
    · exact le_rfl
    · split at h
      · rename_i i hi
        exact (ih h).trans (length_take_lastIndexOf? hi).le
      · cases h

/-- Each of the names is longer than those after it. -/
theorem pairwise_enclosingOwners (fuel : Nat) (owner : String) :
    (enclosingOwners fuel owner).Pairwise fun a b => b.length < a.length := by
  induction fuel generalizing owner with
  | zero => exact .nil
  | succ fuel ih =>
    rw [enclosingOwners]
    split
    · rename_i i hi
      refine .cons (fun o ho => ?_) (ih _)
      exact (length_le_of_mem_enclosingOwners ho).trans_lt (length_take_lastIndexOf? hi)
    · exact List.pairwise_singleton _ _

/-! ## What a name denotes -/

/-- The functions that a plain name can denote where it is called by `caller`, inside the nodes
around. -/
inductive Denotes (table : NodeTable) (file caller : String) (around : List Node) (name : String) :
    String → Prop
  /-- The nearest one inside the caller or inside a function around it, for a name that is bound locally
  to a function. -/
  | nested {owner outer : String} : localBinding around name = some .function →
      caller = symbolKey file owner → IsEnclosing outer owner →
      outer = owner ∨ table.ids.contains (symbolKey file outer) →
      table.ids.contains (symbolKey file (outer ++ "." ++ name)) →
      (∀ o, IsEnclosing o owner → outer.length < o.length →
        ¬table.ids.contains (symbolKey file (o ++ "." ++ name))) →
      Denotes table file caller around name (symbolKey file (outer ++ "." ++ name))
  /-- The one that the import leads to. -/
  | imported {id : String} : localBinding around name = none → table.imported? file name = some id →
      Denotes table file caller around name id
  /-- One of the file with this name, at the top level if there is such a one, for a name that is not
  imported. -/
  | declared {f : FunctionNode} : localBinding around name = none → table.binding? file name = none →
      f ∈ table.functionsOf file → f.name = name →
      (∀ g ∈ table.functionsOf file, g.name = name → g.isRelocatable → f.isRelocatable) →
      Denotes table file caller around name f.id
  /-- The first method or nested function of the file with this last name, for a name that is not imported
  and is the whole name of none. -/
  | member {f : FunctionNode} {before after : List FunctionNode} : localBinding around name = none →
      table.binding? file name = none → (∀ g ∈ table.functionsOf file, g.name ≠ name) →
      table.functionsOf file = before ++ f :: after → ¬f.isRelocatable → f.shortName = name →
      (∀ g ∈ before, g.isRelocatable ∨ g.shortName ≠ name) →
      Denotes table file caller around name f.id

/-- The calls for which it is left open where they lead. -/
inductive LeftOpen (table : NodeTable) (file caller : String) (around : List Node) (name : String) : Prop
  /-- The import of the name leads to no function. -/
  | leadsNowhere {b : Binding} : localBinding around name = none → table.binding? file name = some b →
      table.imported? file name = none → LeftOpen table file caller around name
  /-- The name is bound locally to a function, and the nearest one with it stands below what is no
  function, as the methods of a class do. -/
  | belowNoFunction {owner outer : String} : localBinding around name = some .function →
      caller = symbolKey file owner → IsEnclosing outer owner → outer ≠ owner →
      ¬table.ids.contains (symbolKey file outer) →
      table.ids.contains (symbolKey file (outer ++ "." ++ name)) →
      (∀ o, IsEnclosing o owner → outer.length < o.length →
        ¬table.ids.contains (symbolKey file (o ++ "." ++ name))) →
      LeftOpen table file caller around name

section Lookup

variable {table : NodeTable} {file caller name id : String}

theorem idIn?_eq_some_iff : table.idIn? file name = some id ↔
    table.ids.contains (symbolKey file name) ∧ id = symbolKey file name := by
  simp only [NodeTable.idIn?]
  split_ifs with h <;> simp [h, eq_comm]

theorem idIn?_eq_none_iff : table.idIn? file name = none ↔ ¬table.ids.contains (symbolKey file name) := by
  simp [NodeTable.idIn?]

theorem dropStart?_symbolKey {owner : String} :
    ((dropStart? file caller).bind (dropStart? ":")) = some owner ↔ caller = symbolKey file owner := by
  simp only [Option.bind_eq_some_iff, dropStart?_eq_some, symbolKey]
  constructor
  · rintro ⟨_, rfl, rfl⟩
    rw [String.append_assoc]
  · rintro rfl
    exact ⟨_, String.append_assoc .., rfl⟩

theorem nestedInOwner?_eq_some : nestedInOwner? table file caller name = some id ↔
    ∃ owner outer, caller = symbolKey file owner ∧ IsEnclosing outer owner ∧
      table.ids.contains (symbolKey file (outer ++ "." ++ name)) ∧
      (∀ o, IsEnclosing o owner → outer.length < o.length →
        ¬table.ids.contains (symbolKey file (o ++ "." ++ name))) ∧
      id = symbolKey file (outer ++ "." ++ name) := by
  have hunfold : nestedInOwner? table file caller name =
      ((dropStart? file caller).bind (dropStart? ":")).bind fun owner =>
        (enclosingOwners (owner.length + 1) owner).findSome? fun o =>
          table.idIn? file (o ++ "." ++ name) := by
    rw [Option.bind_assoc]
    rfl
  rw [hunfold, Option.bind_eq_some_iff]
  refine exists_congr fun owner => ?_
  rw [dropStart?_symbolKey, List.findSome?_eq_some_iff]
  have hmem (o : String) : o ∈ enclosingOwners (owner.length + 1) owner ↔ IsEnclosing o owner :=
    mem_enclosingOwners (Nat.lt_succ_self owner.length)
  have hshorter := pairwise_enclosingOwners (owner.length + 1) owner
  constructor
  · rintro ⟨hcaller, front, outer, back, hsplit, hid, hfront⟩
    obtain ⟨hin, rfl⟩ := idIn?_eq_some_iff.1 hid
    refine ⟨outer, hcaller, (hmem outer).1 (by simp [hsplit]), hin, fun o ho hlonger => ?_, rfl⟩
    rw [hsplit, List.pairwise_append, List.pairwise_cons] at hshorter
    -- A longer name stands in front of the one found, where the search found nothing.
    have ho' : o ∈ front ++ outer :: back := hsplit ▸ (hmem o).2 ho
    rcases List.mem_append.1 ho' with hfirst | hrest
    · exact idIn?_eq_none_iff.1 (hfront o hfirst)
    · rcases List.mem_cons.1 hrest with rfl | hback
      · exact absurd hlonger (lt_irrefl _)
      · exact absurd hlonger (hshorter.2.1.1 o hback).asymm
  · rintro ⟨outer, hcaller, hencl, hin, hnearest, rfl⟩
    obtain ⟨front, back, hsplit⟩ := List.append_of_mem ((hmem outer).2 hencl)
    refine ⟨hcaller, front, outer, back, hsplit, idIn?_eq_some_iff.2 ⟨hin, rfl⟩, fun o ho => ?_⟩
    rw [hsplit, List.pairwise_append] at hshorter
    exact idIn?_eq_none_iff.2 (hnearest o ((hmem o).1 (by simp [hsplit, ho]))
      (hshorter.2.2 o ho outer List.mem_cons_self))

theorem leastBy_eq_none {key : FunctionNode → Nat × Nat} {l : List FunctionNode} :
    NodeTable.leastBy key l = none ↔ l = [] := by
  cases l with
  | nil => simp [NodeTable.leastBy]
  | cons f rest =>
    simp only [NodeTable.leastBy, reduceCtorEq, iff_false]
    split
    · simp
    · split_ifs <;> simp

theorem leastBy_eq_some {key : FunctionNode → Nat × Nat} {l : List FunctionNode} {f : FunctionNode}
    (h : NodeTable.leastBy key l = some f) : f ∈ l ∧ ∀ g ∈ l, (key f).1 ≤ (key g).1 := by
  induction l generalizing f with
  | nil => simp [NodeTable.leastBy] at h
  | cons e rest ih =>
    rw [NodeTable.leastBy] at h
    split at h
    · rename_i hrest
      obtain rfl := leastBy_eq_none.1 hrest
      simp_all
    · rename_i g hg
      have hbest := ih hg
      split_ifs at h with hlt
      · obtain rfl := Option.some_inj.1 h
        refine ⟨List.mem_cons_of_mem _ hbest.1, ?_⟩
        simp only [Bool.or_eq_true, Bool.and_eq_true, decide_eq_true_eq, beq_iff_eq] at hlt
        intro x hx
        rcases List.mem_cons.1 hx with rfl | hx
        · omega
        · exact hbest.2 x hx
      · obtain rfl := Option.some_inj.1 h
        refine ⟨List.mem_cons_self, ?_⟩
        simp only [Bool.or_eq_true, Bool.and_eq_true, decide_eq_true_eq, beq_iff_eq, not_or] at hlt
        intro x hx
        rcases List.mem_cons.1 hx with rfl | hx
        · exact le_rfl
        · exact (not_lt.1 hlt.1).trans (hbest.2 x hx)

theorem of_local?_eq_some (h : table.local? file name = some id) :
    ∃ f ∈ table.functionsOf file, f.name = name ∧ f.id = id ∧
      ∀ g ∈ table.functionsOf file, g.name = name → g.isRelocatable → f.isRelocatable := by
  obtain ⟨f, hf, rfl⟩ := Option.map_eq_some_iff.1 h
  obtain ⟨hmem, hleast⟩ := leastBy_eq_some hf
  simp only [List.mem_filter, beq_iff_eq] at hmem hleast
  refine ⟨f, hmem.1, hmem.2, rfl, fun g hg hname htop => ?_⟩
  have hle := hleast g ⟨hg, hname⟩
  simp only [FunctionNode.isRelocatable, Bool.and_eq_true, Bool.not_eq_true'] at htop ⊢
  cases hm : f.isMethod <;> cases hn : f.isNested <;> simp_all

theorem local?_eq_none : table.local? file name = none ↔
    ∀ g ∈ table.functionsOf file, g.name ≠ name := by
  simp [NodeTable.local?, leastBy_eq_none, List.filter_eq_nil_iff]

theorem member?_eq_some : table.member? file name = some id ↔
    ∃ before f after, table.functionsOf file = before ++ f :: after ∧ ¬f.isRelocatable ∧
      f.shortName = name ∧ (∀ g ∈ before, g.isRelocatable ∨ g.shortName ≠ name) ∧ f.id = id := by
  have hmember (f : FunctionNode) : (f.isMethod || f.isNested) = !f.isRelocatable := by
    simp [FunctionNode.isRelocatable]
  simp only [NodeTable.member?, Option.map_eq_some_iff, List.find?_eq_some_iff_append, hmember,
    Bool.and_eq_true, Bool.not_eq_true', beq_iff_eq, Bool.and_eq_false_iff, Bool.not_eq_false',
    beq_eq_false_iff_ne, Bool.not_eq_true]
  constructor
  · rintro ⟨f, ⟨⟨hnot, hshort⟩, before, after, hsplit, hbefore⟩, hid⟩
    exact ⟨before, f, after, hsplit, hnot, hshort, hbefore, hid⟩
  · rintro ⟨before, f, after, hsplit, hnot, hshort, hbefore, hid⟩
    exact ⟨f, ⟨⟨hnot, hshort⟩, before, after, hsplit, hbefore⟩, hid⟩

end Lookup

section Resolution

variable {table : NodeTable} {file caller id : String} {around : List Node} {callee : Node}

theorem calleeOf?_of_localBinding_eq_none (hk : callee.kind = .identifier)
    (hfree : localBinding around callee.text = none) :
    calleeOf? table file caller around callee = (table.imported? file callee.text <|>
      table.local? file callee.text <|> table.member? file callee.text) := by
  simp only [calleeOf?, hk, hfree]

theorem calleeOf?_of_localBinding_eq_function (hk : callee.kind = .identifier)
    (hbound : localBinding around callee.text = some .function) :
    calleeOf? table file caller around callee = nestedInOwner? table file caller callee.text := by
  simp only [calleeOf?, hk, hbound]

/-- A called name stands for something that it denotes, unless it is left open. -/
theorem denotes_of_calleeOf? (hk : callee.kind = .identifier)
    (h : calleeOf? table file caller around callee = some id) :
    Denotes table file caller around callee.text id ∨ LeftOpen table file caller around callee.text := by
  match hbinding : localBinding around callee.text with
  | some .value => simp [calleeOf?, hk, hbinding] at h
  | some .function =>
    rw [calleeOf?_of_localBinding_eq_function hk hbinding] at h
    obtain ⟨owner, outer, hcaller, hencl, hin, hnearest, rfl⟩ := nestedInOwner?_eq_some.1 h
    by_cases hfunction : outer = owner ∨ table.ids.contains (symbolKey file outer)
    · exact .inl (.nested hbinding hcaller hencl hfunction hin hnearest)
    · obtain ⟨hne, hno⟩ := not_or.1 hfunction
      exact .inr (.belowNoFunction hbinding hcaller hencl hne hno hin hnearest)
  | none =>
    rw [calleeOf?_of_localBinding_eq_none hk hbinding] at h
    rcases (Option.orElse_eq_some ..).1 h with h | ⟨himport, h⟩
    · exact .inl (.imported hbinding h)
    cases hb : table.binding? file callee.text with
    | some b => exact .inr (.leadsNowhere hbinding hb himport)
    | none =>
      rcases (Option.orElse_eq_some ..).1 h with h | ⟨hlocal, h⟩
      · obtain ⟨f, hf, hname, rfl, htop⟩ := of_local?_eq_some h
        exact .inl (.declared hbinding hb hf hname htop)
      · obtain ⟨before, f, after, hsplit, hnot, hshort, hbefore, rfl⟩ := member?_eq_some.1 h
        exact .inl (.member hbinding hb (local?_eq_none.1 hlocal) hsplit hnot hshort hbefore)

/-- A called name that denotes something stands for a function. -/
theorem isSome_calleeOf?_of_denotes (hk : callee.kind = .identifier)
    (h : Denotes table file caller around callee.text id) :
    (calleeOf? table file caller around callee).isSome := by
  cases h with
  | nested hbound hcaller hencl hfunction hin hnearest =>
    rw [calleeOf?_of_localBinding_eq_function hk hbound, Option.isSome_iff_exists]
    exact ⟨_, nestedInOwner?_eq_some.2 ⟨_, _, hcaller, hencl, hin, hnearest, rfl⟩⟩
  | imported hfree himport => simp [calleeOf?_of_localBinding_eq_none hk hfree, himport]
  | declared hfree hb hf hname htop =>
    have hlocal : table.local? file callee.text ≠ none := fun h => local?_eq_none.1 h _ hf hname
    simp [calleeOf?_of_localBinding_eq_none hk hfree, Option.isSome_iff_ne_none, hlocal]
  | member hfree hb hno hsplit hnot hshort hbefore =>
    have hmember := member?_eq_some.2 ⟨_, _, _, hsplit, hnot, hshort, hbefore, rfl⟩
    simp [calleeOf?_of_localBinding_eq_none hk hfree, hmember]

/-- A name that denotes something is not left open. -/
theorem Denotes.not_leftOpen {name : String} (h : Denotes table file caller around name id) :
    ¬LeftOpen table file caller around name := by
  rintro (⟨hfree, hb, hno⟩ | ⟨hbound, hcaller, hencl, hne, hno, hin, hnearest⟩)
  · cases h with
    | nested hbound => simp [hfree] at hbound
    | imported _ himport => simp [hno] at himport
    | declared _ hnone => simp [hb] at hnone
    | member _ hnone => simp [hb] at hnone
  · cases h with
    | nested _ hcaller' hencl' hfunction hin' hnearest' =>
      -- both are what the search finds first
      have found := nestedInOwner?_eq_some.2 ⟨_, _, hcaller, hencl, hin, hnearest, rfl⟩
      have found' := nestedInOwner?_eq_some.2 ⟨_, _, hcaller', hencl', hin', hnearest', rfl⟩
      have same := symbolKey_injective (Option.some.inj (found.symm.trans found'))
      obtain rfl := symbolKey_injective (hcaller.symm.trans hcaller')
      rw [String.append_left_inj, String.append_left_inj] at same
      exact hfunction.elim (same ▸ hne) (same ▸ hno)
    | imported hfree => simp [hfree] at hbound
    | declared hfree => simp [hfree] at hbound
    | member hfree => simp [hfree] at hbound

end Resolution

/-- The name that a node calls, if it calls a plain name. -/
def IsBareCall (t : Node) (name : String) : Prop :=
  t.kind = .callExpression ∧
    ∃ callee, t.child? .function = some callee ∧ callee.kind = .identifier ∧ callee.text = name

/-- The calls of a file are those that its nodes make on behalf of the innermost function around. A
call of a plain name leads from there to another function that the name denotes, unless that is left open,
and there is one if the name denotes any function but the caller. -/
theorem bare_calls_lead_to_denoted (file : String) (table : NodeTable) (root : Node) :
    let s : CallSearch := ⟨file, table, declaredFunctions file root⟩
    (∀ c, c ∈ calls file table root ↔ ∃ place around t, root.at? place = some (around, t) ∧
      s.callAt? place around t = some c) ∧
    ∀ place around t name, root.at? place = some (around, t) → IsBareCall t name →
      (∀ c, s.callAt? place around t = some c →
        s.callerAt? place = some c.caller ∧ c.callee ≠ c.caller ∧
          (Denotes table file c.caller (t :: around) name c.callee ∨
            LeftOpen table file c.caller (t :: around) name)) ∧
      ∀ caller, s.callerAt? place = some caller →
        (∃ id, Denotes table file caller (t :: around) name id) →
        ∃ id, Denotes table file caller (t :: around) name id ∧
          (id = caller ∨ s.callAt? place around t = some ⟨caller, id⟩) := by
  intro s
  refine ⟨fun c => mem_calls, ?_⟩
  rintro place around t _ - ⟨hcall, callee, hcallee, hk, rfl⟩
  have htarget (caller : String) : callTarget? table file caller around t =
      calleeOf? table file caller (t :: around) callee := by
    simp [callTarget?, hcall, hcallee]
  refine ⟨fun c hc => ?_, ?_⟩
  · obtain ⟨hcaller, hid, hne⟩ := s.callAt?_eq_some.1 hc
    exact ⟨hcaller, hne, denotes_of_calleeOf? hk (htarget _ ▸ hid)⟩
  · rintro caller hcaller ⟨_, hdenotes⟩
    obtain ⟨id, hid⟩ := Option.isSome_iff_exists.1 (isSome_calleeOf?_of_denotes hk hdenotes)
    refine ⟨id, (denotes_of_calleeOf? hk hid).resolve_right hdenotes.not_leftOpen, ?_⟩
    by_cases heq : id = caller
    · exact .inl heq
    · exact .inr (s.callAt?_eq_some.2 ⟨hcaller, (htarget caller).trans hid, heq⟩)

/-- The call stands two functions deep, and the name denotes the function declared in the outer one. -/
theorem bare_call_of_outer_function :
    let text := "function o() \x7b function n() \x7b\x7d function k() \x7b n(); \x7d \x7d\n"
    let root := parseFile "f.ts" text
    let table := NodeTable.ofNodes (functions "f.ts" root)
    calls "f.ts" table root = [⟨"f.ts:o.k", "f.ts:o.n"⟩] ∧
      ∃ place around t, root.at? place = some (around, t) ∧ IsBareCall t "n" ∧
        Denotes table "f.ts" "f.ts:o.k" (t :: around) "n" "f.ts:o.n" := by
  intro text root table
  let s : CallSearch := ⟨"f.ts", table, declaredFunctions "f.ts" root⟩
  let place := [0, 1, 3, 2, 3, 0]
  have hfacts : (calls "f.ts" table root = [⟨"f.ts:o.k", "f.ts:o.n"⟩] ∧
      table.ids.contains (symbolKey "f.ts" "o") = true ∧ enclosingOwners 4 "o.k" = ["o.k", "o"]) ∧
      ((root.at? place).any fun (around, t) => t.kind == .callExpression &&
        localBinding (t :: around) "n" == some .function &&
        s.callAt? place around t == some ⟨"f.ts:o.k", "f.ts:o.n"⟩ &&
        (t.child? .function).any fun callee => callee.kind == .identifier && callee.text == "n") =
          true := by
    decide +kernel
  obtain ⟨⟨hcalls, houter, howners⟩, hnode⟩ := hfacts
  simp only [Option.any_eq_true, Prod.exists, Bool.and_eq_true, beq_iff_eq] at hnode
  obtain ⟨around, t, ht, ⟨⟨hk, hlocal⟩, hcall⟩, callee, hcallee, hidentifier, htext⟩ := hnode
  have hbare : IsBareCall t "n" := ⟨hk, callee, hcallee, hidentifier, htext⟩
  obtain ⟨-, -, hdenotes | hopen⟩ := ((bare_calls_lead_to_denoted "f.ts" table root).2 place around t
    "n" ht hbare).1 _ hcall
  · exact ⟨hcalls, place, around, t, ht, hbare, hdenotes⟩
  · -- nothing is left open: what stands in front of the dot is a function
    cases hopen with
    | leadsNowhere hfree => rw [hlocal] at hfree; cases hfree
    | @belowNoFunction owner outer _ hcaller hencl hne hno =>
      have hkey : symbolKey "f.ts" "o.k" = "f.ts:o.k" := by decide +kernel
      obtain rfl : "o.k" = owner := symbolKey_injective (hkey.trans hcaller)
      have hmem := (mem_enclosingOwners (by decide : "o.k".length < 4)).2 hencl
      rw [howners] at hmem
      rcases List.mem_cons.1 hmem with rfl | hmem
      · exact absurd rfl hne
      · rw [List.mem_singleton.1 hmem] at hno
        exact absurd houter hno

/-- The file declares `load` nowhere but in a class, and does not import it. The call leads to the
method. -/
theorem bare_calls_lead_to_methods :
    let c : Config := { rootDir := "/r" }
    let file := "src/main.ts"
    let text := "class S \x7b load() \x7b\x7d \x7d\nexport function main() \x7b load(); \x7d\n"
    let sources : Sources := .ofList [(file, text)]
    let table := tableOfSources c (functionsOfSources sources) sources
    table.binding? file "load" = none ∧
      (∀ f ∈ table.functionsOf file, f.isRelocatable → f.name = "main") ∧
      callsOfFile table file text = [⟨"src/main.ts:main", "src/main.ts:S.load"⟩] := by
  decide +kernel

end SymbolGraph.Script
