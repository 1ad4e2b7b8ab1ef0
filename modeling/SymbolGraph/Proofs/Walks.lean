import Mathlib.Data.List.Chain
import Mathlib.Data.List.Nodup
import Mathlib.Logic.Relation

/-!
# Walks

A walk is the list of the places that are passed on the way from one place to another, both included.
Where one place can be reached from another, a walk leads there that passes no place twice.
-/
namespace SymbolGraph
open Relation

variable {α : Type u} {step : α → α → Prop} {a b c x : α} {w p q : List α}

/-- The places from `a` to `b`, each one step behind the one before. -/
inductive IsWalk (step : α → α → Prop) : α → α → List α → Prop
  | single (a : α) : IsWalk step a a [a]
  | cons {a b c : α} {w : List α} (first : step a b) (rest : IsWalk step b c w) :
    IsWalk step a c (a :: w)

namespace IsWalk

theorem ne_nil (h : IsWalk step a b w) : w ≠ [] := by
  cases h <;> simp

theorem exists_cons (h : IsWalk step a b w) : ∃ q, w = a :: q := by
  cases h with
  | single => exact ⟨[], rfl⟩
  | cons _ _ => exact ⟨_, rfl⟩

theorem exists_append (h : IsWalk step a b w) : ∃ p, w = p ++ [b] := by
  induction h with
  | single a => exact ⟨[], rfl⟩
  | @cons a _ _ _ _ _ ih =>
    obtain ⟨p, rfl⟩ := ih
    exact ⟨a :: p, rfl⟩

theorem start_mem (h : IsWalk step a b w) : a ∈ w := by
  cases h <;> simp

theorem end_mem (h : IsWalk step a b w) : b ∈ w := by
  induction h with
  | single a => simp
  | cons _ _ ih => exact List.mem_cons_of_mem _ ih

/-- A walk of one place stays there. -/
theorem eq_of_singleton (h : IsWalk step a b [x]) : a = x ∧ b = x := by
  cases h with
  | single => exact ⟨rfl, rfl⟩
  | cons _ rest => exact absurd rfl rest.ne_nil

theorem head_eq (h : IsWalk step a b (x :: w)) : a = x := by
  cases h <;> rfl

/-- A walk that goes on behind its start begins with a step. -/
theorem exists_step (h : IsWalk step a c (a :: w)) (hw : w ≠ []) :
    ∃ b, step a b ∧ IsWalk step b c w := by
  cases h with
  | single => exact absurd rfl hw
  | cons first rest => exact ⟨_, first, rest⟩

/-- A walk can be cut at each of its places, and walks that meet can be joined. -/
theorem append_cons_iff :
    IsWalk step a c (p ++ x :: q) ↔ IsWalk step a x (p ++ [x]) ∧ IsWalk step x c (x :: q) := by
  induction p generalizing a with
  | nil =>
    constructor
    · intro h
      have ha : a = x := h.head_eq
      subst ha
      exact ⟨.single a, h⟩
    · rintro ⟨h, hq⟩
      have ha : a = x := (eq_of_singleton h).1
      subst ha
      exact hq
  | cons y p ih =>
    constructor
    · intro h
      have ha : a = y := h.head_eq
      subst ha
      obtain ⟨b, first, rest⟩ := h.exists_step (by simp)
      obtain ⟨hp, hq⟩ := ih.1 rest
      exact ⟨.cons first hp, hq⟩
    · rintro ⟨h, hq⟩
      have ha : a = y := h.head_eq
      subst ha
      obtain ⟨b, first, rest⟩ := h.exists_step (by simp)
      exact .cons first (ih.2 ⟨rest, hq⟩)

/-- A walk of more than one place ends with a step. -/
theorem exists_last_step (h : IsWalk step a c (p ++ [c])) (hp : p ≠ []) :
    ∃ b, IsWalk step a b p ∧ step b c := by
  obtain ⟨q, b, rfl⟩ := (List.eq_nil_or_concat' p).resolve_left hp
  rw [List.append_assoc, List.singleton_append, append_cons_iff] at h
  obtain ⟨x, last, rest⟩ := h.2.exists_step (by simp)
  obtain ⟨rfl, -⟩ := rest.eq_of_singleton
  exact ⟨b, h.1, last⟩

theorem snoc (h : IsWalk step a b w) (last : step b c) : IsWalk step a c (w ++ [c]) := by
  induction h with
  | single a => exact .cons last (.single c)
  | cons first _ ih => exact .cons first (ih last)

theorem isChain (h : IsWalk step a b w) : w.IsChain step := by
  induction h with
  | single a => exact List.isChain_singleton a
  | cons first rest ih =>
    obtain ⟨q, rfl⟩ := rest.exists_cons
    exact List.isChain_cons_cons.2 ⟨first, ih⟩

/-- A walk that begins inside a set of places and ends outside of it leaves the set at some step. -/
theorem exists_exit (inside : α → Prop) (h : IsWalk step a b w) (ha : inside a) (hb : ¬ inside b) :
    ∃ x y, [x, y] <:+: w ∧ step x y ∧ inside x ∧ ¬ inside y := by
  induction h with
  | single a => exact absurd ha hb
  | @cons a c b w first rest ih =>
    by_cases hc : inside c
    · obtain ⟨x, y, hxy, exit⟩ := ih hc hb
      exact ⟨x, y, hxy.trans (List.infix_cons List.infix_rfl), exit⟩
    · obtain ⟨q, rfl⟩ := rest.exists_cons
      exact ⟨a, c, (List.prefix_append [a, c] q).isInfix, first, ha, hc⟩

/-- A walk that begins inside a set of places which no step leaves stays inside. -/
theorem forall_mem (inside : α → Prop) (h : IsWalk step a b w) (ha : inside a)
    (kept : ∀ x y, inside x → step x y → inside y) : ∀ x ∈ w, inside x := by
  induction h with
  | single a => simpa using ha
  | @cons a c b w first rest ih => exact List.forall_mem_cons.2 ⟨ha, ih (kept a c ha first)⟩

theorem reaches (h : IsWalk step a b w) : ReflTransGen step a b := by
  induction h with
  | single a => exact .refl
  | cons first _ ih => exact .head first ih

theorem reaches_mem (h : IsWalk step a b w) (hx : x ∈ w) :
    ReflTransGen step a x ∧ ReflTransGen step x b := by
  obtain ⟨p, q, rfl⟩ := List.append_of_mem hx
  obtain ⟨hp, hq⟩ := append_cons_iff.1 h
  exact ⟨hp.reaches, hq.reaches⟩

/-- The rest of a walk from one of its places on. -/
theorem dropWhile_ne [DecidableEq α] (h : IsWalk step a b w) (hx : x ∈ w) :
    IsWalk step x b (w.dropWhile (· ≠ x)) := by
  induction h with
  | single a =>
    rw [List.mem_singleton] at hx
    subst hx
    simpa using IsWalk.single x
  | @cons a b c w first rest ih =>
    by_cases ha : a = x
    · subst ha
      simpa using IsWalk.cons first rest
    · have hx : x ∈ w := (List.mem_cons.1 hx).resolve_left (Ne.symm ha)
      simpa [ha] using ih hx

end IsWalk

/-- A way to a place that can be reached need not pass any place twice. -/
theorem exists_nodup_walk (h : ReflTransGen step a b) : ∃ w, IsWalk step a b w ∧ w.Nodup := by
  induction h using ReflTransGen.head_induction_on with
  | refl => exact ⟨[b], .single b, by simp⟩
  | @head a c first _ ih =>
    obtain ⟨w, hw, hn⟩ := ih
    by_cases ha : a ∈ w
    · -- the walk comes back to `a`: leave out the round trip
      obtain ⟨p, q, rfl⟩ := List.append_of_mem ha
      exact ⟨a :: q, (IsWalk.append_cons_iff.1 hw).2, hn.sublist (List.sublist_append_right p _)⟩
    · exact ⟨a :: w, .cons first hw, List.nodup_cons.2 ⟨ha, hn⟩⟩

/-- Walks that keep away from a place are those whose steps leave from other places. -/
theorem exists_walk_avoiding_iff :
    (∃ w, IsWalk step a b w ∧ x ∉ w) ↔ ReflTransGen (fun u v => step u v ∧ u ≠ x) a b ∧ b ≠ x := by
  constructor
  · rintro ⟨w, hw, hx⟩
    induction hw with
    | single a => exact ⟨.refl, by simpa [eq_comm] using hx⟩
    | @cons a b c w first rest ih =>
      rw [List.mem_cons, not_or] at hx
      obtain ⟨reaches, hne⟩ := ih hx.2
      exact ⟨.head ⟨first, Ne.symm hx.1⟩ reaches, hne⟩
  · rintro ⟨reaches, hne⟩
    induction reaches using ReflTransGen.head_induction_on with
    | refl => exact ⟨[b], .single b, by simpa [eq_comm] using hne⟩
    | head first _ ih =>
      obtain ⟨w, hw, hx⟩ := ih
      exact ⟨_ :: w, .cons first.1 hw, by simp [hx, first.2.symm]⟩

/-- A way that leads to `x` comes there for the first time from a place that is reached without `x`. -/
theorem exists_walk_to_arrival (h : TransGen step a x) (ha : a ≠ x) :
    ∃ b w, IsWalk step a b w ∧ x ∉ w ∧ step b x := by
  induction h using TransGen.head_induction_on with
  | @single a last => exact ⟨a, [a], .single a, by simpa [eq_comm] using ha, last⟩
  | @head a c first _ ih =>
    by_cases hc : c = x
    · subst hc
      exact ⟨a, [a], .single a, by simpa [eq_comm] using ha, first⟩
    · obtain ⟨b, w, hw, hx, last⟩ := ih hc
      exact ⟨b, a :: w, .cons first hw, by simp [hx, ha.symm], last⟩

end SymbolGraph
