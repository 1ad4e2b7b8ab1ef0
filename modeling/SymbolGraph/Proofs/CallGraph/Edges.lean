import SymbolGraph.CallGraph.Graph
import SymbolGraph.Proofs.Ordered

/-!
# Edges of call graphs

The order of calls is a strict linear order, sorting gives the ascending list of the same calls, and
an assembled graph has exactly the calls between two different known functions.
-/
namespace SymbolGraph

namespace Call

theorem before_iff {a b : Call} :
    a.before b = true ↔ a.caller < b.caller ∨ a.caller = b.caller ∧ a.callee < b.callee := by
  simp [before]

theorem before_irrefl (a : Call) : ¬ a.before a = true := by
  simp [before_iff]

theorem before_trans {a b c : Call} (hab : a.before b = true) (hbc : b.before c = true) :
    a.before c = true := by
  rw [before_iff] at hab hbc ⊢
  rcases hab with hab | ⟨hab, hab'⟩ <;> rcases hbc with hbc | ⟨hbc, hbc'⟩
  · exact .inl (hab.trans hbc)
  · exact .inl (hbc ▸ hab)
  · exact .inl (hab ▸ hbc)
  · exact .inr ⟨hab.trans hbc, hab'.trans hbc'⟩

theorem before_of_not {a b : Call} (h : ¬ a.before b = true) (hne : a ≠ b) : b.before a = true := by
  obtain ⟨x, y⟩ := a
  obtain ⟨u, v⟩ := b
  rw [before_iff] at h ⊢
  simp only [not_or, not_and, not_lt] at h
  rcases lt_or_eq_of_le h.1 with hlt | heq
  · exact .inl hlt
  · have hle := h.2 heq.symm
    refine .inr ⟨heq, lt_of_le_of_ne hle ?_⟩
    rintro rfl
    exact hne (by rw [show x = u from heq.symm])

/-- Calls in strictly ascending order. -/
def Ascending (calls : List Call) : Prop := calls.Pairwise fun a b => a.before b = true

theorem mem_insertInto {c d : Call} {l : List Call} : d ∈ insertInto c l ↔ d = c ∨ d ∈ l := by
  induction l with
  | nil => simp [insertInto]
  | cons e rest ih =>
    simp only [insertInto]
    split_ifs with h h'
    · simp
    · have he : c = e := by simpa using h'
      simp [he]
    · simp only [List.mem_cons, ih]
      tauto

theorem ascending_insertInto (c : Call) {l : List Call} (h : Ascending l) :
    Ascending (insertInto c l) := by
  induction l with
  | nil => simp [insertInto, Ascending]
  | cons e rest ih =>
    have hb := (List.pairwise_cons.mp h).1
    have hr := (List.pairwise_cons.mp h).2
    simp only [insertInto]
    split_ifs with hlt heq
    · refine List.pairwise_cons.mpr ⟨fun d hd => ?_, h⟩
      rcases List.mem_cons.mp hd with rfl | hd
      · exact hlt
      · exact before_trans hlt (hb d hd)
    · exact h
    · have hne : c ≠ e := by simpa using heq
      refine List.pairwise_cons.mpr ⟨fun d hd => ?_, ih hr⟩
      rcases mem_insertInto.mp hd with rfl | hd
      · exact before_of_not hlt hne
      · exact hb d hd

@[simp] theorem mem_sorted {c : Call} {l : List Call} : c ∈ sorted l ↔ c ∈ l := by
  induction l with
  | nil => simp [sorted]
  | cons d rest ih =>
    rw [show sorted (d :: rest) = insertInto d (sorted rest) from rfl, mem_insertInto, ih, List.mem_cons]

theorem ascending_sorted (l : List Call) : Ascending (sorted l) := by
  induction l with
  | nil => exact List.Pairwise.nil
  | cons d rest ih => exact ascending_insertInto d ih

/-- An ascending list is determined by its members. -/
theorem Ascending.eq_of_mem_iff {l m : List Call} (hl : Ascending l) (hm : Ascending m)
    (h : ∀ c, c ∈ l ↔ c ∈ m) : l = m := by
  have : Std.Irrefl fun a b : Call => a.before b = true := ⟨before_irrefl⟩
  have : Std.Antisymm fun a b : Call => a.before b = true :=
    ⟨fun a b hab hba => absurd (before_trans hab hba) (before_irrefl a)⟩
  exact List.Pairwise.eq_of_mem_iff hl hm h

/-- Sorting forgets the order and the number of the calls. -/
theorem sorted_congr {l m : List Call} (h : ∀ c, c ∈ l ↔ c ∈ m) : sorted l = sorted m :=
  (ascending_sorted l).eq_of_mem_iff (ascending_sorted m) fun c => by rw [mem_sorted, mem_sorted, h]

/-- Sorting leaves an ascending list as it is. -/
theorem sorted_eq_self {l : List Call} (h : Ascending l) : sorted l = l :=
  (ascending_sorted l).eq_of_mem_iff h fun _ => mem_sorted

end Call

namespace CallGraph

/-- A call between two functions of the graph. -/
def Calls (g : CallGraph) (a b : String) : Prop := ⟨a, b⟩ ∈ g.edges

variable {now : Timestamp} {root : String} {nodes : KeyMap FunctionNode} {calls : List Call}
  {files : List String}

/-- The edges are the calls that join two different known functions. -/
theorem mem_edges_assemble {e : Call} :
    e ∈ (assemble now root nodes calls files).edges ↔
      e ∈ calls ∧ e.caller ≠ e.callee ∧ nodes.contains e.caller = true ∧
        nodes.contains e.callee = true := by
  simp [assemble, withIndexes, and_assoc]

theorem ascending_edges_assemble : Call.Ascending (assemble now root nodes calls files).edges :=
  Call.ascending_sorted _

end CallGraph
end SymbolGraph
