import Mathlib.Combinatorics.SimpleGraph.Connectivity.Connected
import Mathlib.Data.Prod.Lex
import SymbolGraph.CallGraph.Cluster
import SymbolGraph.Proofs.CallGraph.Adjacency
import SymbolGraph.Proofs.Traversal

/-!
# Clusters and connected components

Calls without their direction make a simple graph on the ids. One search after the other lists its
components: what has been seen is a union of components, so the next search starts in a new one and
finds all of it. Ids that take part in no call are components of their own, which are no clusters.
-/
namespace SymbolGraph
open Relation

/-! ## Components found by searches -/

namespace CallGraph
section Searches

variable {both : Digraph} {seen ids : List String} {s : KeySet} {id b : String}

/-- What can be reached from a member is a member. -/
def IsClosed (both : Digraph) (seen : List String) : Prop :=
  ∀ a ∈ seen, ∀ b, both.Reaches a b → b ∈ seen

theorem isClosed_nil (both : Digraph) : IsClosed both [] := fun _ ha => absurd ha List.not_mem_nil

/-- A search that starts outside of a closed set stays outside, so that what has been seen hides nothing
from it. -/
theorem mem_found (symm : ∀ {a b}, both.Reaches a b → both.Reaches b a) (closed : IsClosed both seen)
    (new : id ∉ seen) : b ∈ found both seen id ↔ both.Reaches id b := by
  constructor
  · intro h
    obtain ⟨a, ha, hab⟩ := Digraph.mem_breadthFrom h
    rwa [List.mem_singleton.1 ha] at hab
  · intro h
    have frontier : both.Frontier seen [id] (id :: seen) :=
      ⟨by simp [or_comm], by simp, by simpa using new,
        fun a ha c hac => List.mem_cons_of_mem id (closed a ha c (.single hac))⟩
    have enough : [id].length + both.edgesBeyond seen < both.edgeCount + 2 := by
      have := both.edgesBeyond_le seen
      simp only [List.length_singleton]
      omega
    obtain ⟨hstart, hnext⟩ := frontier.closed_breadthFrom enough
    induction h with
    | refl => exact hstart id (by simp)
    | @tail u v hu edge ih =>
      refine (hnext u (.inr ih) v edge).resolve_left fun hv => new ?_
      exact closed v hv id (symm (hu.tail edge))

theorem IsClosed.found (symm : ∀ {a b}, both.Reaches a b → both.Reaches b a) (closed : IsClosed both seen)
    (new : id ∉ seen) : IsClosed both (found both seen id ++ seen) := by
  intro a ha b hab
  rcases List.mem_append.1 ha with ha | ha
  · have hfound := ((mem_found symm closed new).1 ha).trans hab
    exact List.mem_append_left _ ((mem_found symm closed new).2 hfound)
  · exact List.mem_append_right _ (closed a ha b hab)

/-- The searches list the components of those ids that have not been seen. -/
theorem mem_components (symm : ∀ {a b}, both.Reaches a b → both.Reaches b a)
    (closed : IsClosed both seen) :
    s ∈ components both seen ids ↔ ∃ id ∈ ids, id ∉ seen ∧ ∀ b, b ∈ s ↔ both.Reaches id b := by
  induction ids generalizing seen with
  | nil => simp [components]
  | cons id rest ih =>
    simp only [components, List.contains_iff_mem]
    split_ifs with hseen
    · rw [ih closed]
      constructor
      · rintro ⟨id', hid, hs⟩
        exact ⟨id', List.mem_cons_of_mem id hid, hs⟩
      · rintro ⟨id', hid, hnew, hs⟩
        refine ⟨id', (List.mem_cons.1 hid).resolve_left ?_, hnew, hs⟩
        rintro rfl
        exact hnew hseen
    · have hmem (b : String) : b ∈ found both seen id ↔ both.Reaches id b := mem_found symm closed hseen
      rw [List.mem_cons, ih (closed.found symm hseen)]
      constructor
      · rintro (rfl | ⟨id', hid, hnew, hs⟩)
        · exact ⟨id, by simp, hseen, fun b => by rw [KeySet.mem_ofList, hmem]⟩
        · exact ⟨id', List.mem_cons_of_mem id hid, fun h => hnew (List.mem_append_right _ h), hs⟩
      · rintro ⟨id', hid, hnew, hs⟩
        by_cases hfound : both.Reaches id id'
        · -- the component of `id'` is the one that is found from `id`
          refine .inl (KeySet.ext_mem fun b => ?_)
          rw [hs, KeySet.mem_ofList, hmem]
          exact ⟨hfound.trans, (symm hfound).trans⟩
        · refine .inr ⟨id', (List.mem_cons.1 hid).resolve_left ?_, ?_, hs⟩
          · rintro rfl
            exact hfound .refl
          · rw [List.mem_append, hmem]
            exact not_or.2 ⟨hfound, hnew⟩

/-- No search finds what an earlier one has found. -/
theorem components_disjoint (symm : ∀ {a b}, both.Reaches a b → both.Reaches b a)
    (closed : IsClosed both seen) :
    (components both seen ids).Pairwise fun s t => s.toList.Disjoint t.toList := by
  induction ids generalizing seen with
  | nil => simp [components]
  | cons id rest ih =>
    simp only [components]
    split_ifs with hseen
    · exact ih closed
    · have hclosed := closed.found symm (mt List.contains_iff_mem.2 hseen)
      refine List.pairwise_cons.2 ⟨fun t ht => ?_, ih hclosed⟩
      obtain ⟨id', -, hnew, hmem⟩ := (mem_components symm hclosed).1 ht
      intro a ha hat
      have hfound : a ∈ found both seen id ++ seen := List.mem_append_left _ (KeySet.mem_ofList.1 ha)
      exact hnew (hclosed a hfound id' (symm ((hmem a).1 hat)))

end Searches

/-! ## Calls without their direction -/

variable {g : CallGraph} {a b : String} {c : Cluster} {l : List String}

/-- Two functions are linked if one of them calls the other. -/
def links (g : CallGraph) : SimpleGraph String := SimpleGraph.fromRel g.Calls

theorem edge_undirected : g.undirected.Edge a b ↔ g.Calls a b ∨ g.Calls b a := by
  refine mem_getD_indexBy.trans ?_
  simp only [List.mem_append, List.mem_map]
  constructor
  · rintro ⟨e, he | ⟨e', he, rfl⟩, rfl, rfl⟩
    · exact .inl he
    · exact .inr he
  · rintro (h | h)
    · exact ⟨⟨a, b⟩, .inl h, rfl, rfl⟩
    · exact ⟨⟨a, b⟩, .inr ⟨⟨b, a⟩, h, rfl⟩, rfl, rfl⟩

/-- A call of a function to itself leads nowhere. -/
theorem reaches_undirected : g.undirected.Reaches a b ↔ g.links.Reachable a b := by
  rw [SimpleGraph.reachable_iff_reflTransGen]
  constructor
  · intro h
    induction h with
    | refl => exact .refl
    | @tail u v _ edge ih =>
      rcases eq_or_ne u v with rfl | hne
      · exact ih
      · exact ih.tail ((SimpleGraph.fromRel_adj _ _ _).2 ⟨hne, edge_undirected.1 edge⟩)
  · intro h
    induction h with
    | refl => exact .refl
    | tail _ adj ih => exact ih.tail (edge_undirected.2 ((SimpleGraph.fromRel_adj _ _ _).1 adj).2)

theorem reaches_undirected_symm (h : g.undirected.Reaches a b) : g.undirected.Reaches b a :=
  reaches_undirected.2 (reaches_undirected.1 h).symm

/-! ## The list of clusters -/

/-- The order of clusters: by falling size, then by the members. -/
def memberOrder (l : List String) : ℕᵒᵈ ×ₗ List String := toLex (OrderDual.toDual l.length, l)

theorem clusterBefore_iff {c c' : Cluster} :
    clusterBefore c c' = true ↔ memberOrder c.members ≤ memberOrder c'.members := by
  simp [clusterBefore, memberOrder, Prod.Lex.toLex_le_toLex]

theorem mem_clusters : c ∈ g.clusters ↔
    ∃ s ∈ components g.undirected [] g.nodes.keys, 2 ≤ s.size ∧ g.clusterOf s = c := by
  simp only [clusters, List.mem_mergeSort, List.mem_map, List.mem_filter, decide_eq_true_eq, and_assoc]

theorem mem_components_undirected {s : KeySet} : s ∈ components g.undirected [] g.nodes.keys ↔
    ∃ id ∈ g.nodes.keys, ∀ b, b ∈ s ↔ g.links.Reachable id b := by
  rw [mem_components reaches_undirected_symm (isClosed_nil _)]
  simp only [List.not_mem_nil, not_false_eq_true, true_and, reaches_undirected]

/-- The members of the clusters are the components of the functions, where these are large enough. -/
theorem mem_members_clusters : l ∈ g.clusters.map (·.members) ↔
    l.Pairwise (· < ·) ∧ 2 ≤ l.length ∧ ∃ id ∈ g.nodes.keys, ∀ b, b ∈ l ↔ g.links.Reachable id b := by
  simp only [List.mem_map, mem_clusters, mem_components_undirected]
  constructor
  · rintro ⟨_, ⟨s, hs, hsize, rfl⟩, rfl⟩
    exact ⟨s.ascending, hsize, hs⟩
  · rintro ⟨ascending, hlength, hl⟩
    exact ⟨_, ⟨⟨l, ascending⟩, hl, hlength, rfl⟩, rfl⟩

theorem clusters_disjoint (g : CallGraph) : (g.clusters.map (·.members)).Pairwise List.Disjoint := by
  have found : (components g.undirected [] g.nodes.keys).Pairwise
      fun s t => s.toList.Disjoint t.toList :=
    components_disjoint reaches_undirected_symm (isClosed_nil _)
  have unsorted := (found.filter (2 ≤ ·.size)).map g.clusterOf
    (S := fun c c' => c.members.Disjoint c'.members) fun _ _ h => h
  exact List.pairwise_map.2 ((List.mergeSort_perm _ _).symm.pairwise unsorted List.Disjoint.symm)

/-- Two clusters have no member in common, so that the order is strict. -/
theorem clusters_strictly_sorted (g : CallGraph) :
    (g.clusters.map (·.members)).Pairwise fun l m => memberOrder l < memberOrder m := by
  have sorted : g.clusters.Pairwise fun c c' => clusterBefore c c' = true :=
    List.pairwise_mergeSort (fun _ _ _ => by simpa only [clusterBefore_iff] using le_trans)
      (fun _ _ => by simpa only [Bool.or_eq_true, clusterBefore_iff] using le_total _ _) _
  have weak : (g.clusters.map (·.members)).Pairwise fun l m => memberOrder l ≤ memberOrder m :=
    List.pairwise_map.2 (sorted.imp clusterBefore_iff.1)
  refine (weak.and g.clusters_disjoint).imp_of_mem fun {l m} hl _ h => lt_of_le_of_ne h.1 fun same => ?_
  obtain rfl : l = m := congrArg (fun k => (ofLex k).2) same
  have hlength := (mem_members_clusters.1 hl).2.1
  obtain ⟨x, hx⟩ := List.exists_mem_of_length_pos (show 0 < l.length by omega)
  exact h.2 hx hx

theorem mem_files_clusterOf {s : KeySet} {f : String} :
    f ∈ (g.clusterOf s).files ↔ ∃ id ∈ (g.clusterOf s).members, ∃ n, g.node? id = some n ∧ n.file = f := by
  simp [clusterOf, KeySet.mem_toList]

/-! ## Assembled graphs -/

section Assembled

variable {generatedAt : Timestamp} {rootDir : String} {nodes : KeyMap FunctionNode} {calls : List Call}
  {files : List String}

/-- Whatever is linked to another id is a function of the graph. -/
theorem contains_of_reachable (h : (assemble generatedAt rootDir nodes calls files).links.Reachable a b)
    (hne : a ≠ b) : nodes.contains a = true := by
  rw [SimpleGraph.reachable_iff_reflTransGen] at h
  obtain rfl | ⟨x, adj, -⟩ := h.cases_head
  · exact absurd rfl hne
  · rcases ((SimpleGraph.fromRel_adj _ _ _).1 adj).2 with call | call
    · exact (mem_edges_assemble.1 call).2.2.1
    · exact (mem_edges_assemble.1 call).2.2.2

/-- Two or more ids that are connected are functions of the graph. -/
theorem contains_of_connected (hnodup : l.Nodup) (hlength : 2 ≤ l.length)
    (connected : ∀ x ∈ l, ∀ y ∈ l, (assemble generatedAt rootDir nodes calls files).links.Reachable x y)
    (ha : a ∈ l) : nodes.contains a = true := by
  obtain ⟨b, hb, hne⟩ : ∃ b ∈ l, a ≠ b := by
    by_contra! alone
    have hsub : l ⊆ [a] := fun b hb => List.mem_singleton.2 (alone b hb).symm
    have := (List.subperm_of_subset hnodup hsub).length_le
    simp only [List.length_singleton] at this
    omega
  exact contains_of_reachable (connected a ha b hb) hne

/-- Where there are two or more members, the component of a function is any component. -/
theorem exists_key_iff (hascending : l.Pairwise (· < ·)) (hlength : 2 ≤ l.length) :
    let g := assemble generatedAt rootDir nodes calls files
    (∃ id ∈ g.nodes.keys, ∀ b, b ∈ l ↔ g.links.Reachable id b) ↔
      ∃ C : g.links.ConnectedComponent, ∀ b, b ∈ l ↔ b ∈ C.supp := by
  intro g
  have mem_supp (x b : String) :
      b ∈ (g.links.connectedComponentMk x).supp ↔ g.links.Reachable x b := by
    rw [SimpleGraph.ConnectedComponent.mem_supp_iff, SimpleGraph.ConnectedComponent.eq]
    exact SimpleGraph.reachable_comm
  constructor
  · rintro ⟨id, -, hl⟩
    exact ⟨g.links.connectedComponentMk id, fun b => (hl b).trans (mem_supp id b).symm⟩
  · rintro ⟨C, hl⟩
    obtain ⟨x, hx⟩ := List.exists_mem_of_length_pos (show 0 < l.length by omega)
    obtain rfl : g.links.connectedComponentMk x = C := (hl x).1 hx
    simp only [mem_supp] at hl
    refine ⟨x, ?_, hl⟩
    have known := contains_of_connected (hascending.imp fun h => h.ne) hlength
      (fun y hy z hz => ((hl y).1 hy).symm.trans ((hl z).1 hz)) hx
    exact KeyMap.mem_keys.2 (KeyMap.contains_iff.1 known)

theorem contains_of_mem_cluster (hc : c ∈ (assemble generatedAt rootDir nodes calls files).clusters)
    (ha : a ∈ c.members) : nodes.contains a = true := by
  obtain ⟨hascending, hlength, id, -, hmem⟩ := mem_members_clusters.1 (List.mem_map_of_mem hc)
  exact contains_of_connected (hascending.imp fun h => h.ne) hlength
    (fun y hy z hz => ((hmem y).1 hy).symm.trans ((hmem z).1 hz)) ha

/-- Both ends of a call are in one cluster. -/
theorem exists_cluster_of_edge {e : Call} (he : e ∈ (assemble generatedAt rootDir nodes calls files).edges) :
    ∃ c ∈ (assemble generatedAt rootDir nodes calls files).clusters,
      e.caller ∈ c.members ∧ e.callee ∈ c.members := by
  set g := assemble generatedAt rootDir nodes calls files
  obtain ⟨-, hne, known, -⟩ := mem_edges_assemble.1 he
  let s : KeySet := .ofList (g.undirected.breadthFirst [e.caller])
  have hs (b : String) : b ∈ s ↔ g.links.Reachable e.caller b := by
    simp [s, Digraph.mem_breadthFirst, reaches_undirected]
  have hcaller : e.caller ∈ s := (hs _).2 .rfl
  have hcallee : e.callee ∈ s :=
    (hs _).2 ((SimpleGraph.fromRel_adj _ _ _).2 ⟨hne, .inl he⟩ : g.links.Adj _ _).reachable
  have hsize : 2 ≤ s.size := by
    have hsub : [e.caller, e.callee] ⊆ s.toList := by simp [hcaller, hcallee, KeySet.mem_toList]
    exact (List.subperm_of_subset (by simpa using hne) hsub).length_le
  have hcomponent : s ∈ components g.undirected [] g.nodes.keys :=
    mem_components_undirected.2 ⟨e.caller, KeyMap.mem_keys.2 (KeyMap.contains_iff.1 known), hs⟩
  exact ⟨g.clusterOf s, mem_clusters.2 ⟨s, hcomponent, hsize, rfl⟩, hcaller, hcallee⟩

/-- Reversing calls leaves the links as they are. -/
theorem links_reversed (flip : Call → Bool) :
    let g := assemble generatedAt rootDir nodes calls files
    (assemble generatedAt rootDir nodes
      (g.edges.map fun e => if flip e then ⟨e.callee, e.caller⟩ else e) files).links = g.links := by
  intro g
  have calls_iff (a b : String) : (assemble generatedAt rootDir nodes
      (g.edges.map fun e => if flip e then ⟨e.callee, e.caller⟩ else e) files).Calls a b ↔
      (g.Calls a b ∧ flip ⟨a, b⟩ = false) ∨ (g.Calls b a ∧ flip ⟨b, a⟩ = true) := by
    rw [Calls, mem_edges_assemble, List.mem_map]
    constructor
    · rintro ⟨⟨e, he, heq⟩, -⟩
      split_ifs at heq with hflip
      · obtain ⟨rfl, rfl⟩ := Call.mk.inj heq
        exact .inr ⟨he, hflip⟩
      · subst heq
        exact .inl ⟨he, by simpa using hflip⟩
    · rintro (⟨h, hflip⟩ | ⟨h, hflip⟩)
      · exact ⟨⟨_, h, by simp [hflip]⟩, (mem_edges_assemble.1 h).2⟩
      · obtain ⟨-, hne, hb, ha⟩ := mem_edges_assemble.1 h
        exact ⟨⟨_, h, by simp [hflip]⟩, hne.symm, ha, hb⟩
  ext a b
  simp only [links, SimpleGraph.fromRel_adj, calls_iff]
  cases flip ⟨a, b⟩ <;> cases flip ⟨b, a⟩ <;> grind

end Assembled

/-! ## What the clusters are -/

/-- The clusters of a graph: the components of two or more functions that are linked by calls, with the files
of their members, the largest first. -/
structure ExactClusters (g : CallGraph) (clusters : List Cluster) : Prop where
  members_iff : ∀ l, l ∈ clusters.map (·.members) ↔ l.Pairwise (· < ·) ∧ 2 ≤ l.length ∧
    ∃ C : g.links.ConnectedComponent, ∀ b, b ∈ l ↔ b ∈ C.supp
  known : ∀ c ∈ clusters, ∀ id ∈ c.members, g.nodes.contains id = true
  disjoint : (clusters.map (·.members)).Pairwise List.Disjoint
  covers : ∀ e ∈ g.edges, ∃ c ∈ clusters, e.caller ∈ c.members ∧ e.callee ∈ c.members
  files_ascending : ∀ c ∈ clusters, c.files.Pairwise (· < ·)
  mem_files : ∀ c ∈ clusters, ∀ f, f ∈ c.files ↔ ∃ id ∈ c.members, ∃ n, g.node? id = some n ∧ n.file = f
  sorted : clusters.Pairwise fun c c' => c'.members.length < c.members.length ∨
    c.members.length = c'.members.length ∧ c.members < c'.members

/-- In every assembled graph the clusters are the components of linked functions, and reversing any of the
calls leaves their members as they are. -/
theorem clusters_partition_linked_functions (generatedAt : Timestamp) (rootDir : String)
    (nodes : KeyMap FunctionNode) (calls : List Call) (files : List String) :
    let g := assemble generatedAt rootDir nodes calls files
    g.ExactClusters g.clusters ∧
    ∀ flip : Call → Bool,
      (assemble generatedAt rootDir nodes
        (g.edges.map fun e => if flip e then ⟨e.callee, e.caller⟩ else e) files).clusters.map (·.members) =
      g.clusters.map (·.members) := by
  intro g
  refine ⟨⟨fun l => ?_, fun c hc id => contains_of_mem_cluster hc, g.clusters_disjoint,
    fun e => exists_cluster_of_edge, ?_, ?_, ?_⟩, fun flip => ?_⟩
  · rw [mem_members_clusters]
    exact and_congr_right fun hascending => and_congr_right fun hlength => exists_key_iff hascending hlength
  · intro c hc
    obtain ⟨s, -, -, rfl⟩ := mem_clusters.1 hc
    exact KeySet.ascending _
  · intro c hc f
    obtain ⟨s, -, -, rfl⟩ := mem_clusters.1 hc
    exact mem_files_clusterOf
  · refine (List.pairwise_map.1 g.clusters_strictly_sorted).imp fun h => ?_
    simpa [memberOrder, Prod.Lex.toLex_lt_toLex] using h
  · -- two lists in strict order with the same members are equal
    have : Std.Irrefl fun l m : List String => memberOrder l < memberOrder m := ⟨fun l => lt_irrefl _⟩
    have : Std.Antisymm fun l m : List String => memberOrder l < memberOrder m :=
      ⟨fun l m hlm hml => absurd hml (lt_asymm hlm)⟩
    refine List.Pairwise.eq_of_mem_iff (clusters_strictly_sorted _) (clusters_strictly_sorted _) fun l => ?_
    rw [mem_members_clusters, mem_members_clusters, links_reversed flip]
    rfl

end CallGraph
end SymbolGraph
