import Mathlib.Algebra.GroupWithZero.Nat
import Mathlib.Data.List.Induction
import Mathlib.Data.Prod.Lex
import SymbolGraph.CallGraph.Coupling
import SymbolGraph.Proofs.CallGraph.Edges

/-!
# Counting the calls between files

The calls are counted one after the other, each under the pair of its files in ascending order and on the
side of its direction. After any number of calls the tally has an entry for just those pairs that some call
joins, with the number of calls each way. Sorting by the number of calls leaves pairs with as many calls in
the order of their names.
-/
namespace SymbolGraph

namespace FileCoupling
variable {c : FileCoupling}

theorem direction_eq_bidirectional :
    c.direction = .bidirectional ↔ 0 < c.forwardCalls ∧ 0 < c.backwardCalls := by
  grind [direction]

theorem direction_eq_forward :
    c.direction = .forward ↔ 0 < c.forwardCalls ∧ c.backwardCalls = 0 := by
  grind [direction]

/-- Where there are calls at all. -/
theorem direction_eq_backward (h : 0 < c.total) :
    c.direction = .backward ↔ c.forwardCalls = 0 ∧ 0 < c.backwardCalls := by
  grind [direction, total]

end FileCoupling

/-! ## Tallies -/

namespace Tally

variable {tally : Tally} {c : FileCoupling}

/-- The numbers of calls that a tally has for two files. -/
def at? (tally : Tally) (a b : String) : Option (Nat × Nat) := (tally.get? a).bind (·.get? b)

theorem at?_bump (tally : Tally) (a b x y : String) (f : Nat × Nat → Nat × Nat) :
    (tally.bump a b f).at? x y =
      if x = a ∧ y = b then some (f ((tally.at? a b).getD (0, 0))) else tally.at? x y := by
  rw [at?, bump, KeyMap.get?_upsert]
  rcases eq_or_ne x a with rfl | hx
  · have row : (((tally.get? x).getD .empty).upsert b (0, 0) f).get? y =
        if y = b then some (f ((tally.at? x b).getD (0, 0))) else tally.at? x y := by
      rw [KeyMap.get?_upsert, at?, at?]
      cases tally.get? x <;> rfl
    simp [row]
  · simp [hx, at?]

theorem mem_toCouplings : c ∈ tally.toCouplings ↔
    tally.at? c.file1 c.file2 = some (c.forwardCalls, c.backwardCalls) := by
  simp only [toCouplings, List.mem_flatMap, List.mem_map, KeyMap.mem_toList, at?, Option.bind_eq_some_iff]
  constructor
  · rintro ⟨p, hp, q, hq, rfl⟩
    exact ⟨p.2, hp, hq⟩
  · rintro ⟨row, hrow, hentry⟩
    exact ⟨(c.file1, row), hrow, (c.file2, c.forwardCalls, c.backwardCalls), hentry, rfl⟩

theorem toCouplings_sorted (tally : Tally) : tally.toCouplings.Pairwise
    fun c c' => toLex (c.file1, c.file2) < toLex (c'.file1, c'.file2) := by
  refine List.pairwise_flatMap.2 ⟨fun p _ => List.pairwise_map.2 ?_, ?_⟩
  · refine p.2.ascending.imp fun h => ?_
    exact Prod.Lex.toLex_lt_toLex.2 (.inr ⟨rfl, h⟩)
  · refine tally.ascending.imp fun {p q} h c hc c' hc' => ?_
    obtain ⟨_, -, rfl⟩ := List.mem_map.1 hc
    obtain ⟨_, -, rfl⟩ := List.mem_map.1 hc'
    exact Prod.Lex.toLex_lt_toLex.2 (.inl h)

end Tally

namespace CallGraph

variable {g : CallGraph} {a b x y : String} {e : Call} {c : FileCoupling} {tally : Tally}
  {calls : List Call}

/-! ## Calls from file to file -/

/-- The file in which a function is declared. -/
def fileOf? (g : CallGraph) (id : String) : Option String := (g.node? id).map (·.file)

/-- The call leads from a function of one file to a function of the other. -/
def Joins (g : CallGraph) (a b : String) (e : Call) : Prop :=
  g.fileOf? e.caller = some a ∧ g.fileOf? e.callee = some b

instance (g : CallGraph) (a b : String) : DecidablePred (g.Joins a b) := fun e =>
  inferInstanceAs (Decidable (g.fileOf? e.caller = some a ∧ g.fileOf? e.callee = some b))

theorem Joins.iff (h : g.Joins a b e) : g.Joins x y e ↔ x = a ∧ y = b := by
  rw [Joins, h.1, h.2, Option.some.injEq, Option.some.injEq, eq_comm, and_congr_right_iff]
  exact fun _ => eq_comm

/-- The two files that a call joins are determined by the call and their order. -/
theorem joined_iff (hab : a < b) (h : g.Joins a b e ∨ g.Joins b a e) (hxy : x < y) :
    g.Joins x y e ∨ g.Joins y x e ↔ x = a ∧ y = b := by
  rcases h with h | h
  · rw [h.iff, h.iff]
    exact or_iff_left fun ⟨hy, hx⟩ => lt_asymm hab (hx ▸ hy ▸ hxy)
  · rw [h.iff, h.iff, and_comm (a := y = b)]
    exact or_iff_right fun ⟨hx, hy⟩ => lt_asymm hab (hx ▸ hy ▸ hxy)

/-! ## One call after the other -/

/-- What a tally has for two files after some calls. -/
structure Tallied (g : CallGraph) (calls : List Call) (tally : Tally) (a b : String) : Prop where
  counted : a < b → (tally.at? a b).getD (0, 0) =
    (calls.countP fun e => g.Joins a b e, calls.countP fun e => g.Joins b a e)
  present_iff : (∃ n, tally.at? a b = some n) ↔ a < b ∧ ∃ e ∈ calls, g.Joins a b e ∨ g.Joins b a e

/-- A call is counted under the files that it joins, in their order, or it stays in its file. -/
theorem tallyCall_cases (g : CallGraph) (tally : Tally) (e : Call) :
    (∃ a b, a < b ∧ (g.Joins a b e ∨ g.Joins b a e) ∧ g.tallyCall tally e = tally.bump a b fun n =>
      (n.1 + (if g.Joins a b e then 1 else 0), n.2 + (if g.Joins b a e then 1 else 0))) ∨
    (g.tallyCall tally e = tally ∧ ∀ a b, g.Joins a b e → a = b) := by
  rw [tallyCall]
  split
  next m n hm hn =>
    have hjoins : g.Joins m.file n.file e := by simp [Joins, fileOf?, hm, hn]
    rcases lt_trichotomy m.file n.file with hlt | heq | hgt
    · refine .inl ⟨m.file, n.file, hlt, .inl hjoins, ?_⟩
      simp [Tally.count, hlt, hlt.ne, hjoins.iff]
    · refine .inr ⟨by simp [Tally.count, heq], fun a b h => ?_⟩
      obtain ⟨rfl, rfl⟩ := hjoins.iff.1 h
      exact heq
    · refine .inl ⟨n.file, m.file, hgt, .inr hjoins, ?_⟩
      simp [Tally.count, hgt.not_gt, hgt.ne, hgt.ne', hjoins.iff]
  next unknown =>
    refine .inr ⟨rfl, fun a b h => ?_⟩
    obtain ⟨m, hm, -⟩ := Option.map_eq_some_iff.1 h.1
    obtain ⟨n, hn, -⟩ := Option.map_eq_some_iff.1 h.2
    exact (unknown m n hm hn).elim

/-- A call that does not join the two files changes nothing for them. -/
theorem Tallied.skip {tally' : Tally} (h : g.Tallied calls tally a b)
    (unjoined : a < b → ¬(g.Joins a b e ∨ g.Joins b a e)) (same : tally'.at? a b = tally.at? a b) :
    g.Tallied (calls ++ [e]) tally' a b := by
  refine ⟨fun hlt => ?_, ?_⟩
  · obtain ⟨hforward, hbackward⟩ := not_or.1 (unjoined hlt)
    simp [same, h.counted hlt, hforward, hbackward]
  · rw [same, h.present_iff]
    refine and_congr_right fun hlt => ?_
    simp only [List.mem_append, List.mem_singleton, or_and_right, exists_or, exists_eq_left]
    exact (or_iff_left (unjoined hlt)).symm

theorem Tallied.step (h : ∀ a b, g.Tallied calls tally a b) (e : Call) (x y : String) :
    g.Tallied (calls ++ [e]) (g.tallyCall tally e) x y := by
  rcases g.tallyCall_cases tally e with ⟨a, b, hab, hjoins, heq⟩ | ⟨heq, hstays⟩
  · by_cases hsame : x = a ∧ y = b
    · obtain ⟨rfl, rfl⟩ := hsame
      have hat : (g.tallyCall tally e).at? x y = some
          ((calls.countP fun e => g.Joins x y e) + (if g.Joins x y e then 1 else 0),
            (calls.countP fun e => g.Joins y x e) + (if g.Joins y x e then 1 else 0)) := by
        rw [heq, Tally.at?_bump, (h x y).counted hab]
        simp
      refine ⟨fun _ => ?_, iff_of_true ⟨_, hat⟩ ⟨hab, e, by simp, hjoins⟩⟩
      simp [hat, List.countP_singleton]
    · refine (h x y).skip (fun hxy => mt (joined_iff hab hjoins hxy).1 hsame) ?_
      rw [heq, Tally.at?_bump, if_neg hsame]
  · refine (h x y).skip (fun hxy => ?_) (by rw [heq])
    exact not_or.2 ⟨fun hj => hxy.ne (hstays x y hj), fun hj => hxy.ne' (hstays y x hj)⟩

/-- The list grows at its end, where the loop takes the next call. -/
theorem tallied_foldl (g : CallGraph) (calls : List Call) :
    ∀ a b, g.Tallied calls (calls.foldl g.tallyCall .empty) a b := by
  induction calls using List.reverseRecOn with
  | nil => exact fun a b => ⟨by simp [Tally.at?], by simp [Tally.at?]⟩
  | append_singleton calls e ih =>
    rw [List.foldl_append]
    exact Tallied.step ih e

/-! ## The entries -/

/-- There is an entry for every two files that a call joins, with the number of calls each way. -/
theorem mem_coupling : c ∈ g.coupling ↔
    c.file1 < c.file2 ∧ (∃ e ∈ g.edges, g.Joins c.file1 c.file2 e ∨ g.Joins c.file2 c.file1 e) ∧
    c.forwardCalls = (g.edges.countP fun e => g.Joins c.file1 c.file2 e) ∧
    c.backwardCalls = g.edges.countP fun e => g.Joins c.file2 c.file1 e := by
  have h := g.tallied_foldl g.edges c.file1 c.file2
  rw [coupling, List.mem_mergeSort, Tally.mem_toCouplings]
  constructor
  · intro hc
    obtain ⟨hlt, hjoined⟩ := h.present_iff.1 ⟨_, hc⟩
    have hcounts := h.counted hlt
    rw [hc, Option.getD_some, Prod.mk.injEq] at hcounts
    exact ⟨hlt, hjoined, hcounts⟩
  · rintro ⟨hlt, hjoined, hforward, hbackward⟩
    obtain ⟨n, hn⟩ := h.present_iff.2 ⟨hlt, hjoined⟩
    have hcounts := h.counted hlt
    rw [hn, Option.getD_some] at hcounts
    rw [hn, hcounts, hforward, hbackward]

theorem exists_coupling_iff : (∃ c ∈ g.coupling, c.file1 = a ∧ c.file2 = b) ↔
    a < b ∧ ∃ e ∈ g.edges, g.Joins a b e ∨ g.Joins b a e := by
  constructor
  · rintro ⟨c, hc, rfl, rfl⟩
    obtain ⟨hlt, hjoined, -⟩ := mem_coupling.1 hc
    exact ⟨hlt, hjoined⟩
  · rintro ⟨hlt, hjoined⟩
    let c : FileCoupling :=
      ⟨a, b, g.edges.countP fun e => g.Joins a b e, g.edges.countP fun e => g.Joins b a e⟩
    exact ⟨c, mem_coupling.2 ⟨hlt, hjoined, rfl, rfl⟩, rfl, rfl⟩

/-- Entries with as many calls stay in the order of their files. -/
theorem coupling_sorted (g : CallGraph) : g.coupling.Pairwise fun c c' => c'.total < c.total ∨
    c.total = c'.total ∧ toLex (c.file1, c.file2) < toLex (c'.file1, c'.file2) := by
  refine (pairwise_mergeSort_stable ?_ ?_ (Tally.toCouplings_sorted _)).imp fun {c c'} h => ?_
  · simp only [decide_eq_true_eq]
    exact fun _ _ _ hab hbc => hbc.trans hab
  · simp only [Bool.or_eq_true, decide_eq_true_eq]
    exact fun c c' => le_total _ _
  · simp only [decide_eq_true_eq] at h
    rcases h.1.lt_or_eq with hlt | heq
    · exact .inl hlt
    · exact .inr ⟨heq.symm, h.2 heq.ge⟩

/-- No two entries are for the same files. -/
theorem pairs_nodup (g : CallGraph) : (g.coupling.map fun c => (c.file1, c.file2)).Nodup := by
  have unsorted : ((g.edges.foldl g.tallyCall .empty).toCouplings.map fun c => (c.file1, c.file2)).Nodup :=
    List.pairwise_map.2 ((Tally.toCouplings_sorted _).imp fun h same => h.ne (congrArg toLex same))
  exact ((List.mergeSort_perm _ _).map _).nodup_iff.2 unsorted

/-! ## The sum of all calls -/

/-- What is counted by one of two tests that exclude each other. -/
theorem countP_add_countP {α : Type u} {p q : α → Prop} [DecidablePred p] [DecidablePred q] (l : List α)
    (exclusive : ∀ x, p x → ¬q x) :
    (l.countP fun x => p x) + (l.countP fun x => q x) = l.countP fun x => p x ∨ q x := by
  induction l with
  | nil => rfl
  | cons x l ih =>
    have := exclusive x
    grind

theorem sum_map_add_ite {β : Type v} (l : List β) (f : β → Nat) (p : β → Bool) :
    (l.map fun c => f c + if p c then 1 else 0).sum = (l.map f).sum + l.countP p := by
  induction l with
  | nil => rfl
  | cons c l ih =>
    simp only [List.map_cons, List.sum_cons, List.countP_cons, ih]
    omega

/-- What is counted row by row is counted column by column. -/
theorem sum_map_countP {α : Type u} {β : Type v} (rows : List β) (columns : List α) (p : β → α → Bool) :
    (rows.map fun c => columns.countP (p c)).sum = (columns.map fun x => rows.countP (p · x)).sum := by
  induction columns with
  | nil => simp
  | cons x columns ih =>
    simp only [List.countP_cons, sum_map_add_ite, ih, List.map_cons, List.sum_cons]
    omega

theorem total_eq (hc : c ∈ g.coupling) : c.total =
    g.edges.countP fun e => g.Joins c.file1 c.file2 e ∨ g.Joins c.file2 c.file1 e := by
  obtain ⟨hlt, -, hforward, hbackward⟩ := mem_coupling.1 hc
  rw [FileCoupling.total, hforward, hbackward]
  exact countP_add_countP _ fun e h h' => hlt.ne (h'.iff.1 h).1

/-- There is an entry only where there are calls. -/
theorem total_pos (hc : c ∈ g.coupling) : 0 < c.total := by
  obtain ⟨-, ⟨e, he, hjoins⟩, -⟩ := mem_coupling.1 hc
  rw [total_eq hc]
  exact List.countP_pos_iff.2 ⟨e, he, decide_eq_true hjoins⟩

/-- A call counts for one entry if it leads to another file, and else for none. -/
theorem countP_joined (he : e ∈ g.edges) (h : g.Joins a b e) :
    (g.coupling.countP fun c => g.Joins c.file1 c.file2 e ∨ g.Joins c.file2 c.file1 e) =
      if a ≠ b then 1 else 0 := by
  have counted {x y : String} (hxy : x < y) (hjoins : g.Joins x y e ∨ g.Joins y x e) :
      (g.coupling.countP fun c => g.Joins c.file1 c.file2 e ∨ g.Joins c.file2 c.file1 e) = 1 := by
    have hmem : (x, y) ∈ g.coupling.map fun c => (c.file1, c.file2) := by
      obtain ⟨c, hc, rfl, rfl⟩ := exists_coupling_iff.2 ⟨hxy, e, he, hjoins⟩
      exact List.mem_map_of_mem hc
    rw [← List.count_eq_one_of_mem g.pairs_nodup hmem, List.count, List.countP_map]
    refine List.countP_congr fun c hc => ?_
    simp [joined_iff hxy hjoins (mem_coupling.1 hc).1]
  rcases lt_trichotomy a b with hlt | rfl | hgt
  · rw [if_pos hlt.ne, counted hlt (.inl h)]
  · rw [if_neg (by simp), List.countP_eq_zero]
    intro c hc
    have hne := (mem_coupling.1 hc).1.ne
    simp only [h.iff, decide_eq_true_eq]
    grind
  · rw [if_pos hgt.ne', counted hgt (.inr h)]

/-- The entries of a graph: one for every two files that are joined by calls, with the number of calls each
way and the direction, those with most calls first. -/
structure ExactCoupling (g : CallGraph) (entries : List FileCoupling) : Prop where
  pair_iff : ∀ a b, (∃ c ∈ entries, c.file1 = a ∧ c.file2 = b) ↔
    a < b ∧ ∃ e ∈ g.edges, g.Joins a b e ∨ g.Joins b a e
  once : (entries.map fun c => (c.file1, c.file2)).Nodup
  forward_count : ∀ c ∈ entries, c.forwardCalls = g.edges.countP fun e => g.Joins c.file1 c.file2 e
  backward_count : ∀ c ∈ entries, c.backwardCalls = g.edges.countP fun e => g.Joins c.file2 c.file1 e
  bidirectional_iff : ∀ c ∈ entries,
    c.direction = .bidirectional ↔ 0 < c.forwardCalls ∧ 0 < c.backwardCalls
  forward_iff : ∀ c ∈ entries, c.direction = .forward ↔ 0 < c.forwardCalls ∧ c.backwardCalls = 0
  backward_iff : ∀ c ∈ entries, c.direction = .backward ↔ c.forwardCalls = 0 ∧ 0 < c.backwardCalls
  sum_totals : (entries.map (·.total)).sum =
    g.edges.countP fun e => g.fileOf? e.caller ≠ g.fileOf? e.callee
  sorted : entries.Pairwise fun c c' => c'.total < c.total ∨ c.total = c'.total ∧
    (c.file1 < c'.file1 ∨ c.file1 = c'.file1 ∧ c.file2 < c'.file2)

/-- Of an assembled graph all functions are known, so that every call between files is counted. -/
theorem sum_totals_assemble (generatedAt : Timestamp) (rootDir : String)
    (nodes : KeyMap FunctionNode) (calls : List Call) (files : List String) :
    let g := assemble generatedAt rootDir nodes calls files
    (g.coupling.map (·.total)).sum = g.edges.countP fun e => g.fileOf? e.caller ≠ g.fileOf? e.callee := by
  intro g
  have hedge : ∀ e ∈ g.edges,
      (g.coupling.countP fun c => g.Joins c.file1 c.file2 e ∨ g.Joins c.file2 c.file1 e) =
        0 + if g.fileOf? e.caller ≠ g.fileOf? e.callee then 1 else 0 := by
    intro e he
    obtain ⟨-, -, hcaller, hcallee⟩ := mem_edges_assemble.1 he
    obtain ⟨m, hm⟩ := KeyMap.contains_iff.1 hcaller
    obtain ⟨n, hn⟩ := KeyMap.contains_iff.1 hcallee
    have hjoins : g.Joins m.file n.file e :=
      ⟨congrArg (Option.map FunctionNode.file) hm, congrArg (Option.map FunctionNode.file) hn⟩
    rw [countP_joined he hjoins, hjoins.1, hjoins.2]
    simp
  calc (g.coupling.map (·.total)).sum
      = (g.coupling.map fun c => g.edges.countP fun e =>
          g.Joins c.file1 c.file2 e ∨ g.Joins c.file2 c.file1 e).sum := by
        rw [List.map_congr_left fun c hc => total_eq hc]
    _ = (g.edges.map fun e => g.coupling.countP fun c =>
          g.Joins c.file1 c.file2 e ∨ g.Joins c.file2 c.file1 e).sum := sum_map_countP _ _ _
    _ = g.edges.countP fun e => g.fileOf? e.caller ≠ g.fileOf? e.callee := by
        rw [List.map_congr_left hedge]
        simpa using sum_map_add_ite g.edges (fun _ => 0) fun e => g.fileOf? e.caller ≠ g.fileOf? e.callee

/-- In every assembled graph the entries count each call between two files once. -/
theorem coupling_counts_calls_between_files (generatedAt : Timestamp) (rootDir : String)
    (nodes : KeyMap FunctionNode) (calls : List Call) (files : List String) :
    let g := assemble generatedAt rootDir nodes calls files
    g.ExactCoupling g.coupling := by
  intro g
  exact
    { pair_iff := fun a b => exists_coupling_iff
      once := g.pairs_nodup
      forward_count := fun c hc => (mem_coupling.1 hc).2.2.1
      backward_count := fun c hc => (mem_coupling.1 hc).2.2.2
      bidirectional_iff := fun c _ => FileCoupling.direction_eq_bidirectional
      forward_iff := fun c _ => FileCoupling.direction_eq_forward
      backward_iff := fun c hc => FileCoupling.direction_eq_backward (total_pos hc)
      sum_totals := sum_totals_assemble generatedAt rootDir nodes calls files
      sorted := g.coupling_sorted.imp fun h => by simpa only [Prod.Lex.toLex_lt_toLex] using h }

end CallGraph
end SymbolGraph
