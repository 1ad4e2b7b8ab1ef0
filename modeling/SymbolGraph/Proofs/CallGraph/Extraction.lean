import Mathlib.Data.Set.Card
import SymbolGraph.Proofs.CallGraph.Adjacency
import SymbolGraph.Proofs.CallGraph.Baseline
import SymbolGraph.Proofs.CallGraph.Searches

/-!
# Groups that are proposed to move

A group is what one free function of a file reaches through free functions of the file, so a call that
leaves it within the file goes to a method or a nested function. Groups are proposed once, with the calls
inside and the functions around them counted, and all that fit are proposed unless there are too many. This
rests on functions being kept under their own ids, as they are in every graph that is ever built.
-/
namespace SymbolGraph
open Relation

theorem encard_setOf_mem {α : Type u} {l : List α} (h : l.Nodup) : {a | a ∈ l}.encard = l.length := by
  classical
  have hset : {a | a ∈ l} = (l.toFinset : Set α) := by
    ext
    simp
  rw [hset, Set.encard_coe_eq_coe_finsetCard, List.toFinset_card_of_nodup h]

namespace CallGraph

variable {g : CallGraph} {t : Thresholds} {file id a b : String} {group : List String}

/-! ## Graphs that are built -/

/-- The graphs that come to be: assembled from functions under their ids, found in sources, read from a
stored form, and those with one file replaced. -/
inductive IsBuilt : CallGraph → Prop
  | assembled (generatedAt : Timestamp) (rootDir : String) (functions : List FunctionNode)
      (calls : List Call) (files : List String) :
      IsBuilt (assemble generatedAt rootDir (.ofList (functions.map fun f => (f.id, f))) calls files)
  | found (now : Timestamp) (c : Config) (sources : Sources) : IsBuilt (ofSources now c sources)
  | stored {text : String} {g : CallGraph} : deserialize? text = some g → IsBuilt g
  | edited (now : Timestamp) (c : Config) (sources : Sources) (file content : String) {g : CallGraph} :
      IsBuilt g → IsBuilt (withFile now c sources g file content)

theorem inOrder_withFile (now : Timestamp) (c : Config) (sources : Sources) (order : g.InOrder)
    (file content : String) : (withFile now c sources g file content).InOrder := by
  refine inOrder_assemble fun id f hf => ?_
  have fold := KeyMap.get?_foldl_insertNew ((functionsOfFile file content).map fun f => (f.id, f))
    (g.nodes.filter fun _ f => f.file != file) id
  rw [List.foldl_map, KeyMap.get?_filter] at fold
  rw [fold, Option.or_eq_some_iff] at hf
  rcases hf with kept | ⟨-, new⟩
  · exact order.keyed id f (Option.filter_eq_some_iff.1 kept).1
  · obtain ⟨p, hp, rfl⟩ := Option.map_eq_some_iff.1 new
    obtain ⟨f, -, rfl⟩ := List.mem_map.1 (List.mem_of_find?_eq_some hp)
    simpa using List.find?_some hp

theorem IsBuilt.inOrder (built : g.IsBuilt) : g.InOrder := by
  induction built with
  | assembled generatedAt rootDir functions calls files =>
    refine inOrder_assemble fun id f hf => ?_
    obtain ⟨f', -, heq⟩ := List.mem_map.1 (KeyMap.mem_of_mem_ofList (p := (id, f)) (KeyMap.mem_toList.2 hf))
    obtain ⟨rfl, rfl⟩ := Prod.mk.inj heq
    rfl
  | found now c sources => exact inOrder_ofSources now c sources
  | stored h => exact (inOrder_of_deserialize? h).1
  | edited now c sources file content _ order => exact inOrder_withFile now c sources order file content

theorem InOrder.mirrored (order : g.InOrder) : g.Mirrored := by
  have indexed := mirrored_withIndexes g.version g.generatedAt g.rootDir g.nodes order.ascending g.files
    g.stats
  rwa [order.eq_withIndexes] at indexed

/-! ## Free functions -/

/-- A free function of a file, neither a method nor nested. -/
def IsMovable (g : CallGraph) (file id : String) : Prop :=
  ∃ f, g.node? id = some f ∧ f.file = file ∧ f.isMethod = false ∧ f.isNested = false

theorem isRelocatable_iff {f : FunctionNode} :
    f.isRelocatable = true ↔ f.isMethod = false ∧ f.isNested = false := by
  simp [FunctionNode.isRelocatable]

theorem mem_movable (order : g.InOrder) : id ∈ g.movable file ↔ g.IsMovable file id := by
  simp only [movable, functionsIn, List.mem_filter, List.mem_map, KeyMap.mem_values, beq_iff_eq,
    Option.any_eq_true, isRelocatable_iff]
  constructor
  · rintro ⟨⟨f, ⟨⟨k, hk⟩, hfile⟩, rfl⟩, f', hf', free⟩
    obtain rfl := order.keyed k f hk
    obtain rfl : f = f' := Option.some.inj (hk.symm.trans hf')
    exact ⟨f, hf', hfile, free⟩
  · rintro ⟨f, hf, hfile, free⟩
    exact ⟨⟨f, ⟨⟨id, hf⟩, hfile⟩, order.keyed id f hf⟩, f, hf, free⟩

/-! ## Groups -/

/-- A call to a free function of the file. -/
def CallsWithin (g : CallGraph) (file a b : String) : Prop := g.Calls a b ∧ g.IsMovable file b

/-- What one free function of a file reaches through free functions of the file. -/
structure IsReach (g : CallGraph) (file : String) (group : List String) : Prop where
  ascending : group.Pairwise (· < ·)
  from_one : ∃ start, g.IsMovable file start ∧ ∀ b, b ∈ group ↔ ReflTransGen (g.CallsWithin file) start b

/-- A group is large enough and smaller than the fraction of its file. -/
def PassesSize (t : Thresholds) (fileSize groupSize : Nat) : Prop :=
  t.minGroupSize ≤ groupSize ∧ ¬ t.maxFileFraction * Float.ofNat fileSize ≤ Float.ofNat groupSize

/-- What one free function of its file reaches, where the size is right. -/
def IsCandidate (g : CallGraph) (t : Thresholds) (file : String) (group : List String) : Prop :=
  g.IsReach file group ∧ PassesSize t (g.functionsIn file).length group.length

theorem fits_iff {m n : Nat} : fits t m n = true ↔ PassesSize t m n := by
  simp [fits, PassesSize]

theorem reaches_within (order : g.InOrder) :
    (g.within (g.movable file)).graph.Reaches a b ↔ ReflTransGen (g.CallsWithin file) a b := by
  have hedge : (g.within (g.movable file)).graph.Edge = g.CallsWithin file := by
    funext x y
    rw [Digraph.Edge, next_within, List.mem_filter, order.mirrored.mem_calleesOf, List.contains_iff_mem,
      mem_movable order]
    rfl
  rw [Digraph.Reaches, hedge]

theorem mem_groupOf (order : g.InOrder) (ha : g.IsMovable file a) :
    b ∈ g.groupOf (g.movable file) a ↔ ReflTransGen (g.CallsWithin file) a b := by
  have found := (g.within (g.movable file)).searchesReachable.mem_reachable [a] b
  have known : (g.within (g.movable file)).contains a = true :=
    List.contains_iff_mem.2 ((mem_movable order).2 ha)
  rw [groupOf, KeySet.mem_toList, found]
  simp [known, reaches_within order]

theorem isReach_iff (order : g.InOrder) :
    g.IsReach file group ↔ ∃ start ∈ g.movable file, g.groupOf (g.movable file) start = group := by
  constructor
  · rintro ⟨ascending, start, hstart, hgroup⟩
    refine ⟨start, (mem_movable order).2 hstart, ?_⟩
    refine List.Pairwise.eq_of_mem_iff (KeySet.ascending _) ascending fun b => ?_
    rw [hgroup]
    exact mem_groupOf order hstart
  · rintro ⟨start, hstart, rfl⟩
    have hstart := (mem_movable order).1 hstart
    exact ⟨KeySet.ascending _, start, hstart, fun b => mem_groupOf order hstart⟩

theorem mem_groupsIn (order : g.InOrder) :
    group ∈ g.groupsIn t file ↔ g.IsCandidate t file group := by
  simp only [groupsIn, List.mem_filter, List.mem_map, fits_iff, IsCandidate,
    isReach_iff order]

/-- All members are free functions of the file. -/
theorem IsReach.movable (h : g.IsReach file group) (ha : a ∈ group) : g.IsMovable file a := by
  obtain ⟨start, hstart, hgroup⟩ := h.from_one
  rcases ((hgroup a).1 ha).cases_tail with rfl | ⟨x, -, call⟩
  · exact hstart
  · exact call.2

/-- A call out of a group within the file goes to a method or a nested function. -/
theorem IsReach.closed (h : g.IsReach file group) (ha : a ∈ group) (call : g.Calls a b) {f : FunctionNode}
    (hf : g.node? b = some f) (hfile : f.file = file) (outside : b ∉ group) :
    f.isMethod = true ∨ f.isNested = true := by
  obtain ⟨start, -, hgroup⟩ := h.from_one
  by_contra hfree
  simp only [not_or, Bool.not_eq_true] at hfree
  exact outside ((hgroup b).2 (((hgroup a).1 ha).tail ⟨call, f, hf, hfile, hfree⟩))

/-! ## Counts -/

theorem mem_neighbours : id ∈ g.neighbours file group ↔
    g.isIn file id = true ∧ id ∉ group ∧ ∃ a ∈ group, g.Calls id a ∨ g.Calls a id := by
  rw [neighbours, KeySet.mem_ofList, List.mem_filterMap]
  constructor
  · rintro ⟨⟨a, b⟩, he, hfound⟩
    split at hfound
    case h_1 ha hb =>
      obtain ⟨hin, ⟨⟩⟩ := Option.ite_none_right_eq_some.1 hfound
      exact ⟨hin, by simpa using hb, a, by simpa using ha, .inr he⟩
    case h_2 ha hb =>
      obtain ⟨hin, ⟨⟩⟩ := Option.ite_none_right_eq_some.1 hfound
      exact ⟨hin, by simpa using ha, b, by simpa using hb, .inl he⟩
    case h_3 => cases hfound
  · rintro ⟨hin, outside, a, ha, call | call⟩
    · exact ⟨⟨id, a⟩, call, by simp [outside, ha, hin]⟩
    · exact ⟨⟨a, id⟩, call, by simp [outside, ha, hin]⟩

theorem encard_internalEdges (ascending : Call.Ascending g.edges) :
    {e | e ∈ g.edges ∧ e.caller ∈ group ∧ e.callee ∈ group}.encard =
      (g.candidateOf file group).internalEdges := by
  have hnodup : g.edges.Nodup := ascending.imp fun {a b} before => by
    rintro rfl
    exact Call.before_irrefl a before
  have hset : {e | e ∈ g.edges ∧ e.caller ∈ group ∧ e.callee ∈ group} =
      {e | e ∈ g.edges.filter fun e => group.contains e.caller && group.contains e.callee} := by
    ext e
    simp
  rw [hset, encard_setOf_mem (hnodup.filter _)]
  rfl

theorem encard_externalDependencies (g : CallGraph) (file : String) (group : List String) :
    {id | g.isIn file id = true ∧ id ∉ group ∧ ∃ a ∈ group, g.Calls id a ∨ g.Calls a id}.encard =
      (g.candidateOf file group).externalDependencies := by
  have hset : {id | g.isIn file id = true ∧ id ∉ group ∧ ∃ a ∈ group, g.Calls id a ∨ g.Calls a id} =
      {id | id ∈ (g.neighbours file group).toList} := by
    ext id
    exact mem_neighbours.symm
  rw [hset, encard_setOf_mem ((g.neighbours file group).ascending.imp ne_of_lt)]
  rfl

/-! ## The candidates -/

theorem isCandidate_of_mem (order : g.InOrder) {p : String × List String}
    (hp : p ∈ g.distinctGroups t) : g.IsCandidate t p.1 p.2 := by
  have hp := (firstOfEach_sublist _ _ _).subset hp
  obtain ⟨file, -, hp⟩ := List.mem_flatMap.1 hp
  obtain ⟨group, hgroup, rfl⟩ := List.mem_map.1 hp
  exact (mem_groupsIn order).1 hgroup

/-- Every group that fits is listed, under its file. -/
theorem exists_mem_distinctGroups (order : g.InOrder)
    (h : g.IsCandidate t file group) : ∃ p ∈ g.distinctGroups t, p.2 = group := by
  obtain ⟨start, ⟨f, hf, hfile, -⟩, -⟩ := h.1.from_one
  have listed : file ∈ (KeySet.ofList (g.nodes.values.map (·.file))).toList :=
    KeySet.mem_ofList.2 (List.mem_map.2 ⟨f, KeyMap.mem_values.2 ⟨start, hf⟩, hfile⟩)
  refine exists_mem_firstOfEach (a := (file, group)) ?_ List.not_mem_nil
  exact List.mem_flatMap.2 ⟨file, listed, List.mem_map.2 ⟨group, (mem_groupsIn order).2 h, rfl⟩⟩

theorem distinctGroups_nodup (g : CallGraph) (t : Thresholds) : ((g.distinctGroups t).map (·.2)).Nodup :=
  firstOfEach_nodup _ _ _

theorem encard_isCandidate (order : g.InOrder) :
    {group | ∃ file, g.IsCandidate t file group}.encard = (g.distinctGroups t).length := by
  have hset : {group | ∃ file, g.IsCandidate t file group} =
      {group | group ∈ (g.distinctGroups t).map (·.2)} := by
    refine Set.ext fun group => ⟨?_, fun h => ?_⟩
    · rintro ⟨file, h⟩
      exact List.mem_map.2 (exists_mem_distinctGroups order h)
    · obtain ⟨p, hp, rfl⟩ := List.mem_map.1 h
      exact ⟨p.1, isCandidate_of_mem order hp⟩
  rw [hset, encard_setOf_mem (g.distinctGroups_nodup t), List.length_map]

theorem exists_of_mem_extractionCandidates {c : ExtractionCandidate} (hc : c ∈ g.extractionCandidates t) :
    ∃ p ∈ g.distinctGroups t, g.candidateOf p.1 p.2 = c :=
  List.mem_map.1 (List.mem_mergeSort.1 (List.mem_of_mem_take hc))

/-- Sorting and cutting off keeps groups different. -/
theorem extractionCandidates_nodup (g : CallGraph) (t : Thresholds) :
    ((g.extractionCandidates t).map (·.functions)).Nodup := by
  have sorted : ((((g.distinctGroups t).map fun p => g.candidateOf p.1 p.2).mergeSort candidateBefore).map
      (·.functions)).Nodup := by
    refine (((List.mergeSort_perm _ _).map _).nodup_iff).2 ?_
    rw [List.map_map]
    exact g.distinctGroups_nodup t
  exact sorted.sublist ((List.take_sublist _ _).map _)

/-- Where there are not too many groups, all are proposed. -/
theorem mem_functions_extractionCandidates (hfew : (g.distinctGroups t).length ≤ t.maxCandidates)
    {p : String × List String} (hp : p ∈ g.distinctGroups t) :
    p.2 ∈ (g.extractionCandidates t).map (·.functions) := by
  rw [extractionCandidates, List.take_of_length_le (by simpa using hfew)]
  exact List.mem_map.2 ⟨g.candidateOf p.1 p.2, List.mem_mergeSort.2 (List.mem_map.2 ⟨p, hp, rfl⟩), rfl⟩

/-- The candidates of a graph: groups that one free function reaches within its file and that have the right
size, with the calls inside and the other functions of the file that are called or call, no two with the same
functions, not more than wanted, and all there are if these are not too many. -/
structure ExactCandidates (g : CallGraph) (t : Thresholds) (candidates : List ExtractionCandidate) :
    Prop where
  reach : ∀ c ∈ candidates, g.IsCandidate t c.file c.functions
  movable : ∀ c ∈ candidates, ∀ a ∈ c.functions, g.IsMovable c.file a
  closed : ∀ c ∈ candidates, ∀ a ∈ c.functions, ∀ b f, g.Calls a b → g.node? b = some f →
    f.file = c.file → b ∉ c.functions → f.isMethod = true ∨ f.isNested = true
  internal : ∀ c ∈ candidates,
    {e | e ∈ g.edges ∧ e.caller ∈ c.functions ∧ e.callee ∈ c.functions}.encard = c.internalEdges
  external : ∀ c ∈ candidates,
    {id | g.isIn c.file id = true ∧ id ∉ c.functions ∧
      ∃ a ∈ c.functions, g.Calls id a ∨ g.Calls a id}.encard = c.externalDependencies
  distinct : candidates.Pairwise fun c c' => ¬ ∀ id, id ∈ c.functions ↔ id ∈ c'.functions
  at_most : candidates.length ≤ t.maxCandidates
  complete : {group | ∃ file, g.IsCandidate t file group}.encard ≤ t.maxCandidates →
    ∀ file group, g.IsCandidate t file group → (candidates.map (·.functions)).count group = 1

/-- In every graph that is built, whatever the thresholds are. -/
theorem candidates_closed_and_complete (built : g.IsBuilt) (t : Thresholds) :
    g.ExactCandidates t (g.extractionCandidates t) := by
  have order := built.inOrder
  have candidate {c : ExtractionCandidate} (hc : c ∈ g.extractionCandidates t) :
      g.IsCandidate t c.file c.functions := by
    obtain ⟨p, hp, rfl⟩ := exists_of_mem_extractionCandidates hc
    exact isCandidate_of_mem order hp
  refine ⟨fun c => candidate, fun c hc a => (candidate hc).1.movable,
    fun c hc a ha b f call hf => (candidate hc).1.closed ha call hf, fun c hc => ?_, fun c hc => ?_, ?_,
    List.length_take_le _ _, fun hfew file group h => ?_⟩
  · obtain ⟨p, -, rfl⟩ := exists_of_mem_extractionCandidates hc
    exact encard_internalEdges order.ascending
  · obtain ⟨p, -, rfl⟩ := exists_of_mem_extractionCandidates hc
    exact g.encard_externalDependencies p.1 p.2
  · refine (List.pairwise_map.1 (g.extractionCandidates_nodup t)).imp_of_mem fun {c c'} hc hc' hne same => ?_
    exact hne (List.Pairwise.eq_of_mem_iff (candidate hc).1.ascending (candidate hc').1.ascending same)
  · rw [encard_isCandidate order, Nat.cast_le] at hfew
    obtain ⟨p, hp, rfl⟩ := exists_mem_distinctGroups order h
    have hlisted := mem_functions_extractionCandidates hfew hp
    exact List.count_eq_one_of_mem (g.extractionCandidates_nodup t) hlisted

/-- Two functions that call each other, and a method that one of them calls. -/
theorem candidates_closed_and_complete_circle :
    let f := FunctionNode.named "m.ts" "f" 1 2
    let f' := FunctionNode.named "m.ts" "g" 1 2
    let m := { FunctionNode.named "m.ts" "A.m" 1 2 with isMethod := true }
    let g := assemble ⟨0, 0⟩ "/r"
      (.ofList ([f, f', FunctionNode.named "m.ts" "h" 1 2, m].map fun f => (f.id, f)))
      [⟨f.id, f'.id⟩, ⟨f'.id, f.id⟩, ⟨f'.id, m.id⟩] ["m.ts"]
    g.IsBuilt ∧ g.groupOf (g.movable "m.ts") "m.ts:g" = ["m.ts:f", "m.ts:g"] ∧
      g.neighbours "m.ts" ["m.ts:f", "m.ts:g"] = .ofList ["m.ts:A.m"] ∧
      g.ExactCandidates {} (g.extractionCandidates {}) := by
  intro f f' m g
  have built : g.IsBuilt := .assembled ⟨0, 0⟩ "/r" _ _ ["m.ts"]
  exact ⟨built, by decide +kernel, by decide +kernel, candidates_closed_and_complete built {}⟩

end CallGraph
end SymbolGraph
