import Mathlib.Data.List.Basic
import Mathlib.Logic.Relation
import SymbolGraph.Tree.Basic

/-!
# Walks over syntax trees

A walk goes from nodes to their children and collects something at every node it comes to. What it
collects in all is what it collects at the nodes that can be reached step by step.
-/
namespace SymbolGraph
open Relation

/-! ## What a walk collects -/

/-- If what is collected from a state on is collected there or from one of the next states on, and
the states get smaller, then it is collected at a state that can be reached. -/
theorem mem_collected {V A : Type} {Goes : V → V → Prop} {collect own : V → List A}
    (size : V → Nat) (smaller : ∀ {v w}, Goes v w → size w < size v)
    (step : ∀ v a, a ∈ collect v ↔ a ∈ own v ∨ ∃ w, Goes v w ∧ a ∈ collect w) {v : V} {a : A} :
    a ∈ collect v ↔ ∃ u, ReflTransGen Goes v u ∧ a ∈ own u := by
  constructor
  · intro h
    induction hn : size v using Nat.strongRecOn generalizing v with
    | ind n ih =>
      rcases (step v a).1 h with h | ⟨w, hgoes, hw⟩
      · exact ⟨v, .refl, h⟩
      · obtain ⟨u, hwu, hu⟩ := ih (size w) (hn ▸ smaller hgoes) hw rfl
        exact ⟨u, .head hgoes hwu, hu⟩
  · rintro ⟨u, hvu, hu⟩
    induction hvu using ReflTransGen.head_induction_on with
    | refl => exact (step u a).2 (.inl hu)
    | head hgoes _ ih => exact (step _ a).2 (.inr ⟨_, hgoes, ih⟩)

/-! ## Nodes in a tree -/

namespace Tree

variable {κ ρ : Type}

theorem sizeOf_lt_of_mem_children [SizeOf κ] [SizeOf ρ] {t c : Tree κ ρ} (h : c ∈ t.children) :
    sizeOf c < sizeOf t := by
  obtain ⟨kind, role, text, span, children⟩ := t
  have hc : sizeOf c < sizeOf children := List.sizeOf_lt_of_mem h
  simp only [Tree.node.sizeOf_spec]
  omega

mutual

/-- A node and all nodes below it. -/
def nodes : Tree κ ρ → List (Tree κ ρ)
  | .node kind role text span children => .node kind role text span children :: nodesAll children

def nodesAll : List (Tree κ ρ) → List (Tree κ ρ)
  | [] => []
  | t :: rest => t.nodes ++ nodesAll rest

end

theorem nodesAll_eq (l : List (Tree κ ρ)) : nodesAll l = l.flatMap nodes := by
  induction l with
  | nil => rfl
  | cons t rest ih => rw [nodesAll, ih, List.flatMap_cons]

theorem mem_nodes_self (t : Tree κ ρ) : t ∈ t.nodes := by
  obtain ⟨kind, role, text, span, children⟩ := t
  exact List.mem_cons_self

theorem mem_nodes_of_mem_children {t c u : Tree κ ρ} (hc : c ∈ t.children) (hu : u ∈ c.nodes) :
    u ∈ t.nodes := by
  obtain ⟨kind, role, text, span, children⟩ := t
  rw [nodes, nodesAll_eq]
  exact List.mem_cons_of_mem _ (List.mem_flatMap.2 ⟨c, hc, hu⟩)

/-- The node at a place, which gives the indexes of the children on the way to it, with the nodes
around it. Both lists have the innermost first. -/
def at? (root : Tree κ ρ) : List Nat → Option (List (Tree κ ρ) × Tree κ ρ)
  | [] => some ([], root)
  | i :: place => (root.at? place).bind fun (around, t) =>
    (t.children[i]?).map fun c => (t :: around, c)

theorem at?_cons {root c : Tree κ ρ} {i : Nat} {place : List Nat} {around : List (Tree κ ρ)} :
    root.at? (i :: place) = some (around, c) ↔ ∃ outer t, root.at? place = some (outer, t) ∧
      t.children[i]? = some c ∧ around = t :: outer := by
  simp only [at?, Option.bind_eq_some_iff, Option.map_eq_some_iff, Prod.exists, Prod.mk.injEq]
  constructor
  · rintro ⟨outer, t, ht, c', hc, rfl, rfl⟩
    exact ⟨outer, t, ht, hc, rfl⟩
  · rintro ⟨outer, t, ht, hc, rfl⟩
    exact ⟨outer, t, ht, c, hc, rfl, rfl⟩

/-- A node with its place and the nodes around it. -/
structure Position (κ ρ : Type) where
  place : List Nat
  around : List (Tree κ ρ)
  node : Tree κ ρ

/-- From a node to one of its children. -/
inductive Position.Goes : Position κ ρ → Position κ ρ → Prop
  | into {place : List Nat} {around : List (Tree κ ρ)} {t c : Tree κ ρ} {i : Nat} :
      t.children[i]? = some c → Goes ⟨place, around, t⟩ ⟨i :: place, t :: around, c⟩

theorem Position.Goes.sizeOf_lt [SizeOf κ] [SizeOf ρ] {v w : Position κ ρ} (h : v.Goes w) :
    sizeOf w.node < sizeOf v.node := by
  obtain ⟨hc⟩ := h
  exact sizeOf_lt_of_mem_children (List.mem_of_getElem? hc)

/-- The positions that are reached from the root are those of the nodes of the tree. -/
theorem reached_iff_at? {root t : Tree κ ρ} {place : List Nat} {around : List (Tree κ ρ)} :
    ReflTransGen Position.Goes ⟨[], [], root⟩ ⟨place, around, t⟩ ↔
      root.at? place = some (around, t) := by
  constructor
  · intro h
    generalize hv : (⟨place, around, t⟩ : Position κ ρ) = v at h
    induction h generalizing place around t with
    | refl =>
      cases hv
      rfl
    | tail _ hgoes ih =>
      obtain ⟨hc⟩ := hgoes
      cases hv
      exact at?_cons.2 ⟨_, _, ih rfl, hc, rfl⟩
  · intro h
    induction place generalizing around t with
    | nil =>
      obtain ⟨rfl, rfl⟩ : [] = around ∧ root = t := by simpa [at?] using h
      exact .refl
    | cons i place ih =>
      obtain ⟨outer, parent, hparent, hc, rfl⟩ := at?_cons.1 h
      exact (ih hparent).tail (.into hc)

/-- Every step on the way to a node, from a node around it to the next, may be taken. -/
def Along (enters : Tree κ ρ → Tree κ ρ → Prop) : List (Tree κ ρ) → Tree κ ρ → Prop
  | [], _ => True
  | parent :: around, t => enters parent t ∧ Along enters around parent

theorem along_parents {P : Tree κ ρ → Prop} {around : List (Tree κ ρ)} {t : Tree κ ρ} :
    Along (fun parent _ => P parent) around t ↔ ∀ parent ∈ around, P parent := by
  induction around generalizing t with
  | nil => simp [Along]
  | cons parent around ih => simp [Along, ih]

theorem reached_along_iff {enters : Tree κ ρ → Tree κ ρ → Prop} {root t : Tree κ ρ} {place : List Nat}
    {around : List (Tree κ ρ)} :
    ReflTransGen (fun v w => Position.Goes v w ∧ enters v.node w.node) ⟨[], [], root⟩
        ⟨place, around, t⟩ ↔
      root.at? place = some (around, t) ∧ Along enters around t := by
  constructor
  · intro h
    refine ⟨reached_iff_at?.1 (ReflTransGen.mono (fun _ _ => And.left) _ _ h), ?_⟩
    generalize hv : (⟨place, around, t⟩ : Position κ ρ) = v at h
    induction h generalizing place around t with
    | refl =>
      cases hv
      trivial
    | tail _ hgoes ih =>
      obtain ⟨⟨hc⟩, henters⟩ := hgoes
      cases hv
      exact ⟨henters, ih rfl⟩
  · rintro ⟨h, halong⟩
    induction place generalizing around t with
    | nil =>
      obtain ⟨rfl, rfl⟩ : [] = around ∧ root = t := by simpa [at?] using h
      exact .refl
    | cons i place ih =>
      obtain ⟨outer, parent, hparent, hc, rfl⟩ := at?_cons.1 h
      exact (ih hparent halong.2).tail ⟨.into hc, halong.1⟩

/-- A walk from nodes to the children it enters collects what it collects at the nodes to which it
can come. -/
theorem mem_collected_along [SizeOf κ] [SizeOf ρ] {A : Type} {enters : Tree κ ρ → Tree κ ρ → Prop}
    {collect own : Tree κ ρ → List A}
    (step : ∀ t a, a ∈ collect t ↔ a ∈ own t ∨ ∃ c ∈ t.children, enters t c ∧ a ∈ collect c)
    {root : Tree κ ρ} {a : A} : a ∈ collect root ↔
      ∃ place around t, root.at? place = some (around, t) ∧ Along enters around t ∧ a ∈ own t := by
  have goes (v : Position κ ρ) (a : A) : a ∈ collect v.node ↔ a ∈ own v.node ∨
      ∃ w : Position κ ρ, (v.Goes w ∧ enters v.node w.node) ∧ a ∈ collect w.node := by
    obtain ⟨place, around, t⟩ := v
    rw [step]
    refine or_congr_right ⟨?_, ?_⟩
    · rintro ⟨c, hc, henters, ha⟩
      obtain ⟨i, hi⟩ := List.getElem?_of_mem hc
      exact ⟨_, ⟨.into hi, henters⟩, ha⟩
    · rintro ⟨_, ⟨⟨hc⟩, henters⟩, ha⟩
      exact ⟨_, List.mem_of_getElem? hc, henters, ha⟩
  have collected := mem_collected (fun v : Position κ ρ => sizeOf v.node)
    (fun h => h.1.sizeOf_lt) goes (v := ⟨[], [], root⟩) (a := a)
  rw [collected]
  constructor
  · rintro ⟨⟨place, around, t⟩, h, ha⟩
    obtain ⟨ht, halong⟩ := reached_along_iff.1 h
    exact ⟨place, around, t, ht, halong, ha⟩
  · rintro ⟨place, around, t, ht, halong, ha⟩
    exact ⟨_, reached_along_iff.2 ⟨ht, halong⟩, ha⟩

@[simp] theorem role_withRole (r : ρ) (t : Tree κ ρ) : (t.withRole r).role = some r := by
  cases t
  rfl

@[simp] theorem kind_withRole (r : ρ) (t : Tree κ ρ) : (t.withRole r).kind = t.kind := by
  cases t
  rfl

@[simp] theorem text_withRole (r : ρ) (t : Tree κ ρ) : (t.withRole r).text = t.text := by
  cases t
  rfl

variable [DecidableEq ρ] {t c : Tree κ ρ} {role : ρ}

theorem mem_children_of_child? (h : t.child? role = some c) : c ∈ t.children :=
  List.mem_of_find?_eq_some h

theorem role_of_child? (h : t.child? role = some c) : c.role = some role := by
  simpa using List.find?_some h

theorem isSome_child? (hc : c ∈ t.children) (hr : c.role = some role) : (t.child? role).isSome :=
  List.find?_isSome.2 ⟨c, hc, by simp [hr]⟩

end Tree
end SymbolGraph
