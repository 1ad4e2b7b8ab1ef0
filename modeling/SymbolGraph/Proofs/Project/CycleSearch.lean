import Mathlib.Data.List.Induction
import SymbolGraph.Proofs.Project.ImportGraph
import SymbolGraph.Proofs.Walks

/-!
# The path by which a search comes to a file

The search for import cycles goes depth first and tries smaller names first. So the path on which it comes
to a file is the first in dictionary order of all paths to the file that pass no file twice. When the search
has come to a file, each import that leads back to the path closes a cycle, and no other cycles are kept.
-/
namespace SymbolGraph.FileGraph
open Relation

/-! ## First paths -/

/-- A path from one of the starts that passes no file twice and none of the files to avoid. -/
structure Leads (g : Digraph) (starts avoid : List String) (v : String) (t : List String) : Prop where
  walk : ∃ a ∈ starts, IsWalk g.Edge a v t
  nodup : t.Nodup
  apart : ∀ x ∈ t, x ∉ avoid

/-- The first of these paths in dictionary order. -/
structure First (g : Digraph) (starts avoid : List String) (v : String) (t : List String) : Prop
    extends Leads g starts avoid v t where
  least : ∀ q, Leads g starts avoid v q → q = t ∨ List.Lex (· < ·) t q

section
variable {g : Digraph} {starts avoid t : List String} {a v n : String}

theorem First.single (ha : a ∉ avoid) : First g [a] avoid a [a] := by
  refine ⟨⟨⟨a, by simp, .single a⟩, by simp, by simpa using ha⟩, ?_⟩
  rintro q ⟨⟨b, hb, hwalk⟩, hnodup, -⟩
  rw [List.mem_singleton] at hb
  subst hb
  cases hwalk with
  | single => exact .inl rfl
  | cons _ rest => exact absurd rest.end_mem (List.nodup_cons.1 hnodup).1

theorem First.cons (h : First g (g.next a) (a :: avoid) v t) (ha : a ∉ avoid) :
    First g [a] avoid v (a :: t) := by
  obtain ⟨b, hb, hwalk⟩ := h.walk
  have hat : a ∉ t := fun hmem => h.apart a hmem (by simp)
  refine ⟨⟨⟨a, by simp, .cons hb hwalk⟩, List.nodup_cons.2 ⟨hat, h.nodup⟩, ?_⟩, ?_⟩
  · intro x hx
    rcases List.mem_cons.1 hx with rfl | hx
    · exact ha
    · exact fun hmem => h.apart x hx (List.mem_cons_of_mem a hmem)
  · rintro q ⟨⟨a', ha', hq⟩, hnodup, hapart⟩
    obtain rfl : a = a' := (List.mem_singleton.1 ha').symm
    cases hq with
    | single => exact absurd hwalk.end_mem hat
    | @cons _ b' _ w first rest =>
      obtain ⟨haw, hw⟩ := List.nodup_cons.1 hnodup
      have hleads : Leads g (g.next a) (a :: avoid) v w := by
        refine ⟨⟨b', first, rest⟩, hw, fun x hx hmem => ?_⟩
        rcases List.mem_cons.1 hmem with rfl | hmem
        · exact haw hx
        · exact hapart x (List.mem_cons_of_mem a hx) hmem
      rcases h.least w hleads with rfl | hlex
      · exact .inl rfl
      · exact .inr (.cons hlex)

/-- A further start with a larger name offers nothing smaller. -/
theorem First.append_start (h : First g starts avoid v t) (hn : ∀ a ∈ starts, a < n) :
    First g (starts ++ [n]) avoid v t := by
  obtain ⟨a, ha, hwalk⟩ := h.walk
  refine ⟨⟨⟨a, List.mem_append_left _ ha, hwalk⟩, h.nodup, h.apart⟩, ?_⟩
  rintro q ⟨⟨b, hb, hq⟩, hnodup, hapart⟩
  rcases List.mem_append.1 hb with hb | hb
  · exact h.least q ⟨⟨b, hb, hq⟩, hnodup, hapart⟩
  · rw [List.mem_singleton] at hb
    subst hb
    cases hwalk <;> cases hq <;> exact .inr (.rel (hn _ ha))

theorem First.append_starts (h : First g [n] avoid v t)
    (hnone : ∀ q, ¬ Leads g starts avoid v q) : First g (starts ++ [n]) avoid v t := by
  obtain ⟨a, ha, hwalk⟩ := h.walk
  refine ⟨⟨⟨a, List.mem_append_right _ ha, hwalk⟩, h.nodup, h.apart⟩, ?_⟩
  rintro q ⟨⟨b, hb, hq⟩, hnodup, hapart⟩
  rcases List.mem_append.1 hb with hb | hb
  · exact absurd ⟨⟨b, hb, hq⟩, hnodup, hapart⟩ (hnone q)
  · exact h.least q ⟨⟨b, hb, hq⟩, hnodup, hapart⟩

/-- What is closed under edges, those from the files to avoid aside, is left through these alone. -/
theorem mem_of_walk {visited w : List String}
    (closed : ∀ a ∈ visited, a ∉ avoid → ∀ b, g.Edge a b → b ∈ visited) (h : IsWalk g.Edge a v w)
    (ha : a ∈ visited) (hapart : ∀ x ∈ w, x ∉ avoid) : v ∈ visited := by
  induction h with
  | single a => exact ha
  | @cons a b _ w first _ ih =>
    have hb : b ∈ visited := closed a ha (hapart a (by simp)) b first
    exact ih hb fun x hx => hapart x (List.mem_cons_of_mem a hx)

end

/-! ## Cycles that are kept -/

/-- A cycle with the same members is kept. -/
def CycleSearch.Holds (s : CycleSearch) (c : List String) : Prop := ∃ d ∈ s.cycles, ∀ x, x ∈ d ↔ x ∈ c

/-- No two cycles have the same members. -/
def Distinct (cycles : List (List String)) : Prop := cycles.Pairwise fun c d => ¬ ∀ x, x ∈ c ↔ x ∈ d

namespace CycleSearch

theorem ofList_beq_iff {c d : List String} :
    (KeySet.ofList c == KeySet.ofList d) = true ↔ ∀ x, x ∈ c ↔ x ∈ d := by
  rw [beq_iff_eq]
  constructor
  · intro h x
    rw [← KeySet.mem_ofList, h, KeySet.mem_ofList]
  · intro h
    exact KeySet.ext_mem fun x => by rw [KeySet.mem_ofList, KeySet.mem_ofList, h]

variable {s s' : CycleSearch} {c d : List String}

theorem Holds.mono (hs : ∀ c ∈ s.cycles, c ∈ s'.cycles) (h : s.Holds c) : s'.Holds c := by
  obtain ⟨d, hd, hmem⟩ := h
  exact ⟨d, hs d hd, hmem⟩

theorem holds_iff : (s.cycles.any fun d => KeySet.ofList d == KeySet.ofList c) = true ↔ s.Holds c := by
  simp only [List.any_eq_true, ofList_beq_iff, Holds]

@[simp] theorem visited_add : (s.add c).visited = s.visited := by
  unfold add
  split <;> rfl

theorem mem_add_of_mem (h : d ∈ s.cycles) : d ∈ (s.add c).cycles := by
  unfold add
  split
  · exact h
  · exact List.mem_cons_of_mem c h

theorem mem_of_mem_add (h : d ∈ (s.add c).cycles) : d ∈ s.cycles ∨ d = c := by
  unfold add at h
  split at h
  · exact .inl h
  · exact (List.mem_cons.1 h).symm

theorem holds_add : (s.add c).Holds c := by
  unfold add
  split
  · rename_i h
    exact holds_iff.1 h
  · exact ⟨c, by simp, fun _ => Iff.rfl⟩

theorem distinct_add (h : Distinct s.cycles) : Distinct (s.add c).cycles := by
  unfold add
  split
  · exact h
  · rename_i hnew
    rw [holds_iff] at hnew
    exact List.pairwise_cons.2 ⟨fun d hd hmem => hnew ⟨d, hd, fun x => (hmem x).symm⟩, h⟩

end CycleSearch

/-! ## What a search does -/

/-- What happened to a search that had come along `path` and went on to the files of `starts`. -/
structure Searched (g : Digraph) (path starts : List String) (s s' : CycleSearch) : Prop where
  grows : ∀ a ∈ s.visited, a ∈ s'.visited
  entered : ∀ a ∈ starts, a ∈ s'.visited
  closed : ∀ a ∈ s'.visited, a ∉ path → ∀ b, g.Edge a b → b ∈ s'.visited
  keeps : ∀ c ∈ s.cycles, c ∈ s'.cycles
  distinct : Distinct s.cycles → Distinct s'.cycles
  closing : ∀ a ∈ starts, a ∈ path → s'.Holds (cycleFrom a path)
  trail : ∀ v ∈ s'.visited, v ∉ s.visited → ∃ t, First g starts path v t ∧
    ∀ y ∈ t.reverse ++ path, g.Edge v y → s'.Holds (cycleFrom y (t.reverse ++ path))
  origin : ∀ c ∈ s'.cycles, c ∈ s.cycles ∨ (∃ a ∈ starts, a ∈ path ∧ c = cycleFrom a path) ∨
    ∃ v t y, v ∉ s.visited ∧ First g starts path v t ∧ y ∈ t.reverse ++ path ∧ g.Edge v y ∧
      c = cycleFrom y (t.reverse ++ path)

/-- A search that can go on from the end of `path`: what it has left behind is closed under edges. -/
structure Ready (g : Digraph) (nodes path : List String) (s : CycleSearch) : Prop where
  nodup : path.Nodup
  known : ∀ a ∈ path, a ∈ nodes
  entered : ∀ a ∈ path, a ∈ s.visited
  closed : ∀ a ∈ s.visited, a ∉ path → ∀ b, g.Edge a b → b ∈ s.visited

section
variable {g : Digraph} {nodes path starts : List String} {n file : String} {s₀ s s' : CycleSearch}

theorem Ready.of_searched (h : Ready g nodes path s) (hs : Searched g path starts s s') :
    Ready g nodes path s' :=
  ⟨h.nodup, h.known, fun a ha => hs.grows a (h.entered a ha), hs.closed⟩

theorem Ready.push (h : Ready g nodes path s) (hfile : file ∈ nodes) (hnew : file ∉ s.visited) :
    Ready g nodes (file :: path) { s with visited := file :: s.visited } := by
  refine ⟨List.nodup_cons.2 ⟨fun hmem => hnew (h.entered file hmem), h.nodup⟩, ?_, ?_, ?_⟩
  · intro a ha
    rcases List.mem_cons.1 ha with rfl | ha
    · exact hfile
    · exact h.known a ha
  · intro a ha
    rcases List.mem_cons.1 ha with rfl | ha
    · simp
    · exact List.mem_cons_of_mem file (h.entered a ha)
  · intro a ha hpath b hedge
    obtain ⟨hne, hout⟩ := not_or.1 (List.mem_cons.not.1 hpath)
    have ha' : a ∈ s.visited := (List.mem_cons.1 ha).resolve_left hne
    exact List.mem_cons_of_mem file (h.closed a ha' hout b hedge)

theorem Ready.length_le (h : Ready g nodes path s) : path.length ≤ nodes.length :=
  (List.subperm_of_subset h.nodup h.known).length_le

namespace Searched

theorem nil (h : Ready g nodes path s) : Searched g path [] s s where
  grows := fun _ ha => ha
  entered := by simp
  closed := h.closed
  keeps := fun _ hc => hc
  distinct := fun hd => hd
  closing := by simp
  trail := fun _ hv hnew => absurd hv hnew
  origin := fun _ hc => .inl hc

theorem visited (h : Ready g nodes path s) (hn : n ∈ s.visited) (hpath : n ∉ path) :
    Searched g path [n] s s :=
  { nil h with
    entered := by simpa using hn
    closing := by simp [hpath]
    trail := fun _ hv hnew => absurd hv hnew
    origin := fun _ hc => .inl hc }

theorem back (h : Ready g nodes path s) (hn : n ∈ path) :
    Searched g path [n] s (s.add (cycleFrom n path)) where
  grows := by simp
  entered := by simpa using h.entered n hn
  closed := by simpa using h.closed
  keeps := fun _ => CycleSearch.mem_add_of_mem
  distinct := CycleSearch.distinct_add
  closing := by simpa [hn] using CycleSearch.holds_add
  trail := fun v hv hnew => absurd (by simpa using hv) hnew
  origin := by
    intro c hc
    rcases CycleSearch.mem_of_mem_add hc with hc | rfl
    · exact .inl hc
    · exact .inr (.inl ⟨n, by simp, hn, rfl⟩)

/-- Going on to a file behind others in the order of names. -/
theorem append (h : Searched g path starts s₀ s) (h' : Searched g path [n] s s')
    (hn : ∀ a ∈ starts, a < n) : Searched g path (starts ++ [n]) s₀ s' := by
  -- a file that is new now cannot be reached from the starts before, or it had been visited
  have hnone : ∀ v, v ∉ s.visited → ∀ q, ¬ Leads g starts path v q := by
    rintro v hv q ⟨⟨a, ha, hwalk⟩, -, hapart⟩
    exact hv (mem_of_walk h.closed hwalk (h.entered a ha) hapart)
  refine ⟨fun a ha => h'.grows a (h.grows a ha), ?_, h'.closed, fun c hc => h'.keeps c (h.keeps c hc),
    fun hd => h'.distinct (h.distinct hd), ?_, ?_, ?_⟩
  · intro a ha
    rcases List.mem_append.1 ha with ha | ha
    · exact h'.grows a (h.entered a ha)
    · exact h'.entered a ha
  · intro a ha hpath
    rcases List.mem_append.1 ha with ha | ha
    · exact (h.closing a ha hpath).mono h'.keeps
    · exact h'.closing a ha hpath
  · intro v hv hnew
    by_cases hs : v ∈ s.visited
    · obtain ⟨t, ht, hclosing⟩ := h.trail v hs hnew
      exact ⟨t, ht.append_start hn, fun y hy hedge => (hclosing y hy hedge).mono h'.keeps⟩
    · obtain ⟨t, ht, hclosing⟩ := h'.trail v hv hs
      exact ⟨t, ht.append_starts (hnone v hs), hclosing⟩
  · intro c hc
    rcases h'.origin c hc with hc | ⟨a, ha, hpath, rfl⟩ | ⟨v, t, y, hv, ht, hy, hedge, rfl⟩
    · rcases h.origin c hc with hc | ⟨a, ha, hpath, rfl⟩ | ⟨v, t, y, hv, ht, hy, hedge, rfl⟩
      · exact .inl hc
      · exact .inr (.inl ⟨a, List.mem_append_left _ ha, hpath, rfl⟩)
      · exact .inr (.inr ⟨v, t, y, hv, ht.append_start hn, hy, hedge, rfl⟩)
    · exact .inr (.inl ⟨a, List.mem_append_right _ ha, hpath, rfl⟩)
    · have hv₀ : v ∉ s₀.visited := fun hmem => hv (h.grows v hmem)
      exact .inr (.inr ⟨v, t, y, hv₀, ht.append_starts (hnone v hv), hy, hedge, rfl⟩)

/-- A search behind `file` is a search from `file`. -/
theorem pop (h : Searched g (file :: path) (g.next file) { s with visited := file :: s.visited } s')
    (hnew : file ∉ s.visited) (hpath : file ∉ path) : Searched g path [file] s s' := by
  have hfile : file ∈ s'.visited := h.grows file (by simp)
  have hsame : ∀ t : List String, t.reverse ++ file :: path = (file :: t).reverse ++ path := by simp
  refine ⟨fun a ha => h.grows a (List.mem_cons_of_mem file ha), by simpa using hfile, ?_, h.keeps,
    h.distinct, by simpa using fun hmem => absurd hmem hpath, ?_, ?_⟩
  · intro a ha hout b hedge
    by_cases haf : a = file
    · subst haf
      exact h.entered b hedge
    · exact h.closed a ha (by simp [haf, hout]) b hedge
  · intro v hv hnew
    by_cases hvf : v = file
    · subst hvf
      exact ⟨[v], .single hpath, fun y hy hedge => h.closing y hedge hy⟩
    · obtain ⟨t, ht, hclosing⟩ := h.trail v hv (by simp [hvf, hnew])
      rw [hsame] at hclosing
      exact ⟨file :: t, ht.cons hpath, hclosing⟩
  · intro c hc
    rcases h.origin c hc with hc | ⟨a, hedge, ha, rfl⟩ | ⟨v, t, y, hv, ht, hy, hedge, rfl⟩
    · exact .inl hc
    · exact .inr (.inr ⟨file, [file], a, hnew, .single hpath, ha, hedge, rfl⟩)
    · rw [hsame] at hy ⊢
      have hv' : v ∉ s.visited := fun hmem => hv (List.mem_cons_of_mem file hmem)
      exact .inr (.inr ⟨v, file :: t, y, hv', ht.cons hpath, hy, hedge, rfl⟩)

end Searched

/-! ## The run -/

/-- One turn of the loop over the files behind the end of a path. -/
def enter (g : Digraph) (fuel : Nat) (path : List String) (s : CycleSearch) (next : String) :
    CycleSearch :=
  if path.contains next then s.add (cycleFrom next path)
  else if s.visited.contains next then s
  else searchFrom g fuel path next s

theorem searchFrom_succ (g : Digraph) (fuel : Nat) (path : List String) (file : String)
    (s : CycleSearch) : searchFrom g (fuel + 1) path file s =
      (g.next file).foldl (enter g fuel (file :: path)) { s with visited := file :: s.visited } := rfl

/-- A loop over files in the order of their names, if each of its turns is a search. -/
theorem searched_foldl {f : CycleSearch → String → CycleSearch}
    (turn : ∀ s n, Ready g nodes path s → n ∈ nodes → Searched g path [n] s (f s n))
    (h : Ready g nodes path s) (hstarts : ∀ n ∈ starts, n ∈ nodes)
    (hsorted : starts.Pairwise (· < ·)) : Searched g path starts s (starts.foldl f s) := by
  induction starts using List.reverseRecOn with
  | nil => exact .nil h
  | append_singleton starts n ih =>
    obtain ⟨hfront, -, hn⟩ := List.pairwise_append.1 hsorted
    have hsearched := ih (fun n hn => hstarts n (List.mem_append_left _ hn)) hfront
    rw [List.foldl_append, List.foldl_cons, List.foldl_nil]
    refine hsearched.append (turn _ n (h.of_searched hsearched) (hstarts n (by simp))) ?_
    exact fun a ha => hn a ha n (by simp)

/-- With fuel for a path through all files, every turn is a search. -/
theorem searched_enter (hnodes : ∀ a b, g.Edge a b → b ∈ nodes)
    (hsorted : ∀ a, (g.next a).Pairwise (· < ·)) {fuel : Nat}
    (h : Ready g nodes path s) (hn : n ∈ nodes) (hfuel : nodes.length < fuel + path.length) :
    Searched g path [n] s (enter g fuel path s n) := by
  induction fuel generalizing path n s with
  | zero =>
    have := h.length_le
    omega
  | succ fuel ih =>
    unfold enter
    by_cases hpath : n ∈ path
    · rw [if_pos (by simpa using hpath)]
      exact .back h hpath
    · rw [if_neg (by simpa using hpath)]
      by_cases hvisited : n ∈ s.visited
      · rw [if_pos (by simpa using hvisited)]
        exact .visited h hvisited hpath
      · rw [if_neg (by simpa using hvisited), searchFrom_succ]
        refine Searched.pop ?_ hvisited hpath
        refine searched_foldl (fun s' n' h' hn' => ih h' hn' ?_) (h.push hn hvisited)
          (fun b hb => hnodes n b hb) (hsorted n)
        rw [List.length_cons]
        omega

end

/-! ## The whole search -/

/-- A path to a file that passes no file twice. -/
structure IsPathTo (g : FileGraph) (v : String) (t : List String) : Prop where
  walk : ∃ a, IsWalk g.Edge a v t
  nodup : t.Nodup

/-- The first of all these paths in dictionary order. -/
structure IsFirstPathTo (g : FileGraph) (v : String) (t : List String) : Prop
    extends g.IsPathTo v t where
  least : ∀ q, g.IsPathTo v q → q = t ∨ List.Lex (· < ·) t q

def search (g : FileGraph) : CycleSearch :=
  g.nodes.toList.foldl (enter g.digraph (g.nodes.toList.length + 1) []) {}

theorem cycles_eq (g : FileGraph) : g.cycles = g.search.cycles.mergeSort atMost := rfl

section
variable {g : FileGraph} {v y : String} {t t' c : List String}

theorem next_digraph_sorted (g : FileGraph) (a : String) : (g.digraph.next a).Pairwise (· < ·) := by
  unfold Digraph.next digraph
  rw [KeyMap.get?_map]
  cases g.get? a with
  | none => simp
  | some s => exact s.ascending

theorem mem_nodes_of_edge {a b : String} (h : g.Edge a b) : a ∈ g.nodes ∧ b ∈ g.nodes := by
  unfold Edge at h
  cases hg : g.get? a with
  | none => simp [hg] at h
  | some s =>
    rw [hg, Option.getD_some] at h
    have ha : a ∈ g.keys := KeyMap.mem_keys.2 ⟨s, hg⟩
    have hs : s ∈ g.values := KeyMap.mem_values.2 ⟨a, hg⟩
    unfold nodes
    rw [KeySet.mem_ofList, KeySet.mem_ofList]
    exact ⟨List.mem_append_left _ ha, List.mem_append_right _ (List.mem_flatMap.2 ⟨s, hs, h⟩)⟩

theorem searched_search (g : FileGraph) :
    Searched g.digraph [] g.nodes.toList {} g.search := by
  have hready : Ready g.digraph g.nodes.toList [] {} := ⟨by simp, by simp, by simp, by simp⟩
  have hnodes : ∀ a b, g.digraph.Edge a b → b ∈ g.nodes.toList := by
    intro a b h
    rw [edge_digraph] at h
    exact (mem_nodes_of_edge h).2
  refine searched_foldl (fun s n h hn => ?_) hready (fun n hn => hn) g.nodes.ascending
  exact searched_enter hnodes g.next_digraph_sorted h hn (by simp)

theorem leads_iff (hv : v ∈ g.nodes) : Leads g.digraph g.nodes.toList [] v t ↔ g.IsPathTo v t := by
  constructor
  · rintro ⟨⟨a, -, hwalk⟩, hnodup, -⟩
    rw [edge_digraph] at hwalk
    exact ⟨⟨a, hwalk⟩, hnodup⟩
  · rintro ⟨⟨a, hwalk⟩, hnodup⟩
    have ha : a ∈ g.nodes := by
      cases hwalk with
      | single => exact hv
      | cons first _ => exact (mem_nodes_of_edge first).1
    rw [← edge_digraph] at hwalk
    exact ⟨⟨a, ha, hwalk⟩, hnodup, by simp⟩

theorem first_iff (hv : v ∈ g.nodes) :
    First g.digraph g.nodes.toList [] v t ↔ g.IsFirstPathTo v t := by
  constructor
  · rintro ⟨hleads, hleast⟩
    exact ⟨(leads_iff hv).1 hleads, fun q hq => hleast q ((leads_iff hv).2 hq)⟩
  · rintro ⟨hpath, hleast⟩
    exact ⟨(leads_iff hv).2 hpath, fun q hq => hleast q ((leads_iff hv).1 hq)⟩

theorem IsFirstPathTo.unique (h : g.IsFirstPathTo v t) (h' : g.IsFirstPathTo v t') : t = t' := by
  rcases h.least t' h'.toIsPathTo with heq | hlex
  · exact heq.symm
  · rcases h'.least t h.toIsPathTo with heq | hlex'
    · exact heq
    · exact absurd hlex' (List.lex_asymm (fun {_ _} => lt_asymm) hlex)

/-- The end of a path from one of its files on, read from the path with its last file first. -/
theorem cycleFrom_reverse (hnodup : t.Nodup) (hy : y ∈ t) :
    cycleFrom y t.reverse = t.dropWhile (· ≠ y) := by
  obtain ⟨p, q, rfl⟩ := List.append_of_mem hy
  have hsplit := List.nodup_append.1 hnodup
  have hq : y ∉ q := (List.nodup_cons.1 hsplit.2.1).1
  have hp : ∀ x ∈ p, x ≠ y := fun x hx => hsplit.2.2 x hx y (by simp)
  have hfront : (p ++ y :: q).dropWhile (· ≠ y) = y :: q := by
    rw [List.dropWhile_append_of_pos (by simpa using hp)]
    simp
  have hback : (p ++ y :: q).reverse.takeWhile (· ≠ y) = q.reverse := by
    have hreverse : ∀ x ∈ q.reverse, decide (x ≠ y) = true := by
      intro x hx
      simp only [ne_eq, decide_not, Bool.not_eq_true', decide_eq_false_iff_not]
      rintro rfl
      exact hq (List.mem_reverse.1 hx)
    rw [List.reverse_append, List.reverse_cons, List.append_assoc,
      List.takeWhile_append_of_pos hreverse]
    simp
  rw [cycleFrom, hback, hfront]
  simp

/-- To every file of the graph there is a first path. -/
theorem exists_isFirstPathTo (hv : v ∈ g.nodes) : ∃ t, g.IsFirstPathTo v t := by
  obtain ⟨t, ht, -⟩ := g.searched_search.trail v (g.searched_search.entered v hv) (by simp)
  exact ⟨t, (first_iff hv).1 ht⟩

theorem mem_cycles : c ∈ g.cycles ↔ c ∈ g.search.cycles := by
  rw [cycles_eq]
  exact List.mem_mergeSort

/-- Where a file imports one of its first path, a cycle of the files from there on is found. -/
theorem exists_mem_cycles (h : g.IsFirstPathTo v t) (hy : y ∈ t) (hedge : g.Edge v y) :
    ∃ c ∈ g.cycles, ∀ x, x ∈ c ↔ x ∈ t.dropWhile (· ≠ y) := by
  have hv : v ∈ g.nodes := (mem_nodes_of_edge hedge).1
  obtain ⟨t', ht', hclosing⟩ := g.searched_search.trail v (g.searched_search.entered v hv) (by simp)
  obtain rfl : t' = t := ((first_iff hv).1 ht').unique h
  rw [← edge_digraph] at hedge
  obtain ⟨c, hc, hmem⟩ := hclosing y (by simpa using hy) hedge
  rw [List.append_nil, cycleFrom_reverse h.nodup hy] at hmem
  exact ⟨c, mem_cycles.2 hc, hmem⟩

/-- Every cycle that is found comes about in this way. -/
theorem of_mem_cycles (h : c ∈ g.cycles) : ∃ v y t, g.IsFirstPathTo v t ∧ g.Edge v y ∧ y ∈ t ∧
    c = t.dropWhile (· ≠ y) := by
  rcases g.searched_search.origin c (mem_cycles.1 h) with
    hc | ⟨_, _, hc, _⟩ | ⟨v, t, y, _, ht, hy, hedge, rfl⟩
  · simp at hc
  · simp at hc
  · rw [edge_digraph] at hedge
    have hfirst := (first_iff (mem_nodes_of_edge hedge).1).1 ht
    have hy' : y ∈ t := by simpa using hy
    exact ⟨v, y, t, hfirst, hedge, hy', by rw [List.append_nil, cycleFrom_reverse hfirst.nodup hy']⟩

theorem distinct_cycles (g : FileGraph) : Distinct g.cycles := by
  have hsearch : Distinct g.search.cycles := g.searched_search.distinct List.Pairwise.nil
  rw [cycles_eq]
  exact (List.mergeSort_perm _ _).symm.pairwise hsearch fun h hmem => h fun x => (hmem x).symm

end

end SymbolGraph.FileGraph
