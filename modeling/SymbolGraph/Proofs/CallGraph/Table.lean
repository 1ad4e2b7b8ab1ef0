import Mathlib.Data.List.Chain
import Mathlib.Logic.Relation
import SymbolGraph.CallGraph.Table
import SymbolGraph.Proofs.Ordered
import SymbolGraph.Proofs.Walks

/-!
# Following names to functions

A pair of file and name either is a function or leads on to other pairs. Following a pair finds one of
the functions it leads to, and finds one if there is any, as long as chains without repetition are no
longer than the steps that are taken.
-/
namespace SymbolGraph.NodeTable
open Relation

variable {t : NodeTable}

/-- The function that a pair is, unless its file passes the name on. -/
def end? (t : NodeTable) (s : String × String) : Option String :=
  if (t.forwardsOf s.1).any (·.name == s.2) then none else t.idIn? s.1 s.2

/-- The pairs that a pair leads to, in the order in which they are tried. -/
def hops (t : NodeTable) (s : String × String) : List (String × String) :=
  match (t.forwardsOf s.1).find? (·.name == s.2) with
  | some f => if f.sourceName == starName then [] else [(f.source, f.sourceName)]
  | none =>
    if (t.idIn? s.1 s.2).isSome || s.2 == defaultName then []
    else ((t.forwardsOf s.1).filter (·.name == starName)).map fun f => (f.source, s.2)

def Hop (t : NodeTable) (s u : String × String) : Prop := u ∈ t.hops s

theorem end?_of_forward {s : String × String} {f : Forward}
    (h : (t.forwardsOf s.1).find? (·.name == s.2) = some f) : t.end? s = none := by
  unfold end?
  rw [if_pos (List.any_eq_true.2 ⟨f, List.mem_of_find?_eq_some h, List.find?_some h⟩)]

theorem end?_of_no_forward {s : String × String}
    (h : (t.forwardsOf s.1).find? (·.name == s.2) = none) : t.end? s = t.idIn? s.1 s.2 := by
  unfold end?
  rw [if_neg]
  simpa using h

theorem hops_of_end? {s : String × String} {id : String} (h : t.end? s = some id) : t.hops s = [] := by
  unfold hops
  cases hf : (t.forwardsOf s.1).find? (·.name == s.2) with
  | some f =>
    rw [end?_of_forward hf] at h
    cases h
  | none =>
    rw [end?_of_no_forward hf] at h
    simp [h]

/-! ## Pairs one after another -/

/-- Follows pairs in order until one leads to a function. -/
def followAll (t : NodeTable) (steps : Nat) : List (String × String) → List (String × String) →
    Option String × List (String × String)
  | [], visited => (none, visited)
  | s :: rest, visited => match t.follow steps s.1 s.2 visited with
    | (some id, visited) => (some id, visited)
    | (none, visited) => t.followAll steps rest visited

theorem firstThrough_eq (steps : Nat) (name : String) (l : List Forward)
    (visited : List (String × String)) :
    firstThrough (fun f visited => t.follow steps f.source name visited) l visited =
      t.followAll steps (l.map fun f => (f.source, name)) visited := by
  induction l generalizing visited with
  | nil => rfl
  | cons f rest ih =>
    rw [firstThrough, List.map_cons, followAll]
    dsimp only
    rcases t.follow steps f.source name visited with ⟨_ | id, visited'⟩
    · exact ih visited'
    · rfl

theorem followAll_singleton (steps : Nat) (s : String × String) (visited : List (String × String)) :
    t.followAll steps [s] visited = t.follow steps s.1 s.2 visited := by
  rw [followAll]
  split
  · rename_i id visited' h
    rw [h]
  · rename_i visited' h
    rw [h, followAll]

/-- One step on a pair: it has been visited, is a function, or leads on. -/
theorem follow_succ (steps : Nat) (s : String × String) (visited : List (String × String)) :
    t.follow (steps + 1) s.1 s.2 visited =
      if s ∈ visited then (none, visited)
      else match t.end? s with
        | some id => (some id, s :: visited)
        | none => t.followAll steps (t.hops s) (s :: visited) := by
  rw [follow]
  by_cases seen : s ∈ visited
  · rw [if_pos seen, if_pos (List.contains_iff_mem.2 seen)]
  · rw [if_neg seen, if_neg fun h => seen (List.contains_iff_mem.1 h)]
    dsimp only
    unfold hops
    cases hf : (t.forwardsOf s.1).find? (·.name == s.2) with
    | some f =>
      rw [end?_of_forward hf]
      dsimp only
      split_ifs
      · rfl
      · rw [followAll_singleton]
    | none =>
      rw [end?_of_no_forward hf]
      cases hid : t.idIn? s.1 s.2 with
      | some id => rfl
      | none =>
        simp only [Option.isSome_none, Bool.false_or]
        split_ifs
        · rfl
        · rw [firstThrough_eq]

/-! ## Runs of the search -/

/-- What comes of following pairs one after another, with at most `steps` pairs on each way, until a
function is found: the function and the pairs visited. -/
inductive Run (t : NodeTable) : Nat → List (String × String) → List (String × String) →
    Option String → List (String × String) → Prop
  | done {steps : Nat} {visited : List (String × String)} : Run t steps [] visited none visited
  /-- No step is left, or the pair has been visited. -/
  | skip {steps : Nat} {s : String × String} {rest visited visited' : List (String × String)}
      {result : Option String} : steps = 0 ∨ s ∈ visited → Run t steps rest visited result visited' →
      Run t steps (s :: rest) visited result visited'
  /-- The pair is a function. -/
  | here {steps : Nat} {s : String × String} {rest visited : List (String × String)} {id : String} :
      s ∉ visited → t.end? s = some id → Run t (steps + 1) (s :: rest) visited (some id) (s :: visited)
  /-- The pair leads to a function. -/
  | into {steps : Nat} {s : String × String} {rest visited visited' : List (String × String)}
      {id : String} : s ∉ visited → t.end? s = none →
      Run t steps (t.hops s) (s :: visited) (some id) visited' →
      Run t (steps + 1) (s :: rest) visited (some id) visited'
  /-- The pair leads to no function, and the next one is followed. -/
  | past {steps : Nat} {s : String × String} {rest visited visited₁ visited' : List (String × String)}
      {result : Option String} : s ∉ visited → t.end? s = none →
      Run t steps (t.hops s) (s :: visited) none visited₁ →
      Run t (steps + 1) rest visited₁ result visited' →
      Run t (steps + 1) (s :: rest) visited result visited'

theorem run_followAll (steps : Nat) (l visited : List (String × String)) :
    t.Run steps l visited (t.followAll steps l visited).1 (t.followAll steps l visited).2 := by
  induction steps generalizing l visited with
  | zero =>
    induction l with
    | nil => exact .done
    | cons s rest ih => exact .skip (.inl rfl) ih
  | succ steps ih =>
    induction l generalizing visited with
    | nil => exact .done
    | cons s rest ihl =>
      rw [followAll, follow_succ]
      by_cases seen : s ∈ visited
      · rw [if_pos seen]
        exact .skip (.inr seen) (ihl visited)
      · rw [if_neg seen]
        cases hend : t.end? s with
        | some id => exact .here seen hend
        | none =>
          have inner := ih (t.hops s) (s :: visited)
          dsimp only
          generalize t.followAll steps (t.hops s) (s :: visited) = result at inner ⊢
          obtain ⟨_ | id, visited₁⟩ := result
          · exact .past seen hend inner (ihl visited₁)
          · exact .into seen hend inner

theorem run_follow (steps : Nat) (s : String × String) (visited : List (String × String)) :
    t.Run steps [s] visited (t.follow steps s.1 s.2 visited).1 (t.follow steps s.1 s.2 visited).2 := by
  rw [← followAll_singleton]
  exact run_followAll steps [s] visited

namespace Run

variable {steps : Nat} {l visited visited' : List (String × String)} {v : String × String}
  {result : Option String}

theorem grows (h : t.Run steps l visited result visited') (hv : v ∈ visited) : v ∈ visited' := by
  induction h with
  | done => exact hv
  | skip _ _ ih => exact ih hv
  | here => exact List.mem_cons_of_mem _ hv
  | into _ _ _ ih => exact ih (List.mem_cons_of_mem _ hv)
  | past _ _ _ _ ih ih' => exact ih' (ih (List.mem_cons_of_mem _ hv))

/-- No pair is visited twice. -/
theorem nodup (h : t.Run steps l visited result visited') (hn : visited.Nodup) : visited'.Nodup := by
  induction h with
  | done => exact hn
  | skip _ _ ih => exact ih hn
  | here fresh => exact List.nodup_cons.2 ⟨fresh, hn⟩
  | into fresh _ _ ih => exact ih (List.nodup_cons.2 ⟨fresh, hn⟩)
  | past fresh _ _ _ ih ih' => exact ih' (ih (List.nodup_cons.2 ⟨fresh, hn⟩))

/-- A pair that is visited is the end of a chain of different pairs, none of them visited before. -/
theorem exists_walk (h : t.Run steps l visited result visited') (hv : v ∈ visited') (new : v ∉ visited) :
    ∃ s ∈ l, ∃ w, IsWalk t.Hop s v w ∧ w.Nodup ∧ (∀ x ∈ w, x ∉ visited) ∧ w.length ≤ steps := by
  -- a chain behind `s` goes on from `s`
  have through {steps : Nat} {s : String × String} {visited : List (String × String)} (fresh : s ∉ visited)
      (h : ∃ u ∈ t.hops s, ∃ w, IsWalk t.Hop u v w ∧ w.Nodup ∧ (∀ x ∈ w, x ∉ s :: visited) ∧
        w.length ≤ steps) :
      ∃ w, IsWalk t.Hop s v w ∧ w.Nodup ∧ (∀ x ∈ w, x ∉ visited) ∧ w.length ≤ steps + 1 := by
    obtain ⟨u, hop, w, walk, nodup, avoids, length⟩ := h
    have hs : s ∉ w := fun hs => avoids s hs List.mem_cons_self
    refine ⟨s :: w, .cons hop walk, List.nodup_cons.2 ⟨hs, nodup⟩, fun x hx => ?_,
      Nat.succ_le_succ length⟩
    rcases List.mem_cons.1 hx with rfl | hx
    · exact fresh
    · exact fun old => avoids x hx (List.mem_cons_of_mem s old)
  have alone {steps : Nat} {s : String × String} {visited : List (String × String)} (fresh : s ∉ visited) :
      ∃ w, IsWalk t.Hop s s w ∧ w.Nodup ∧ (∀ x ∈ w, x ∉ visited) ∧ w.length ≤ steps + 1 :=
    ⟨[s], .single s, List.nodup_singleton s, by simpa using fresh, by simp⟩
  induction h with
  | done => exact absurd hv new
  | skip _ _ ih =>
    obtain ⟨u, hu, walk⟩ := ih hv new
    exact ⟨u, List.mem_cons_of_mem _ hu, walk⟩
  | here fresh =>
    obtain rfl := (List.mem_cons.1 hv).resolve_right new
    exact ⟨v, List.mem_cons_self, alone fresh⟩
  | @into steps s _ _ _ _ fresh _ _ ih =>
    by_cases same : v = s
    · subst same
      exact ⟨v, List.mem_cons_self, alone fresh⟩
    · exact ⟨s, List.mem_cons_self, through fresh (ih hv (by simp [same, new]))⟩
  | @past steps s rest visited visited₁ _ _ fresh _ inner _ ih ih' =>
    by_cases old : v ∈ visited₁
    · by_cases same : v = s
      · subst same
        exact ⟨v, List.mem_cons_self, alone fresh⟩
      · exact ⟨s, List.mem_cons_self, through fresh (ih old (by simp [same, new]))⟩
    · obtain ⟨u, hu, w, walk, nodup, avoids, length⟩ := ih' hv old
      exact ⟨u, List.mem_cons_of_mem s hu, w, walk, nodup,
        fun x hx hold => avoids x hx (inner.grows (List.mem_cons_of_mem s hold)), length⟩

/-- The function that is found is one of the pairs visited. -/
theorem exists_visited (h : t.Run steps l visited result visited') {id : String} (hr : result = some id) :
    ∃ u ∈ visited', u ∉ visited ∧ t.end? u = some id := by
  induction h with
  | done => cases hr
  | skip _ _ ih => exact ih hr
  | here fresh hend => exact ⟨_, List.mem_cons_self, fresh, hr ▸ hend⟩
  | into _ _ _ ih =>
    obtain ⟨u, hu, new, hend⟩ := ih hr
    exact ⟨u, hu, fun old => new (List.mem_cons_of_mem _ old), hend⟩
  | past _ _ inner _ _ ih' =>
    obtain ⟨u, hu, new, hend⟩ := ih' hr
    exact ⟨u, hu, fun old => new (inner.grows (List.mem_cons_of_mem _ old)), hend⟩

end Run

theorem mem_follow_of_mem {steps : Nat} {s v : String × String} {visited : List (String × String)}
    (h : v ∈ visited) : v ∈ (t.follow steps s.1 s.2 visited).2 :=
  (run_follow steps s visited).grows h

theorem follow_of_mem {s : String × String} {visited : List (String × String)} (h : s ∈ visited)
    (steps : Nat) : t.follow steps s.1 s.2 visited = (none, visited) := by
  cases steps with
  | zero => rfl
  | succ steps => rw [follow_succ, if_pos h]

/-- Nothing is missed by leaving out a pair that has been visited. -/
theorem followAll_filter (steps : Nat) {s : String × String} (l : List (String × String))
    {visited : List (String × String)} (h : s ∈ visited) :
    t.followAll steps (l.filter (· ≠ s)) visited = t.followAll steps l visited := by
  induction l generalizing visited with
  | nil => rfl
  | cons u rest ih =>
    by_cases same : u = s
    · subst same
      rw [List.filter_cons_of_neg (by simp), followAll, follow_of_mem h]
      exact ih h
    · rw [List.filter_cons_of_pos (by simpa using same), followAll, followAll]
      have kept : s ∈ (t.follow steps u.1 u.2 visited).2 := mem_follow_of_mem h
      generalize t.follow steps u.1 u.2 visited = result at kept ⊢
      obtain ⟨_ | id, visited₁⟩ := result
      · exact ih kept
      · rfl

/-! ## What is found -/

/-- A function that is found stands at the end of a chain of different pairs. -/
theorem exists_walk_of_follow {steps : Nat} {s : String × String} {visited : List (String × String)}
    {id : String} (h : (t.follow steps s.1 s.2 visited).1 = some id) :
    ∃ u w, IsWalk t.Hop s u w ∧ w.Nodup ∧ w.length ≤ steps ∧ t.end? u = some id := by
  have run := @run_follow t steps s visited
  obtain ⟨u, hu, new, hend⟩ := run.exists_visited h
  obtain ⟨s', hs', w, walk, nodup, -, length⟩ := run.exists_walk hu new
  obtain rfl := List.mem_singleton.1 hs'
  exact ⟨u, w, walk, nodup, length, hend⟩

/-- A function that is found is one to which the pair leads. -/
theorem end?_of_follow {steps : Nat} {s : String × String} {visited : List (String × String)}
    {id : String} (h : (t.follow steps s.1 s.2 visited).1 = some id) :
    ∃ u, ReflTransGen t.Hop s u ∧ t.end? u = some id := by
  obtain ⟨u, w, walk, -, -, hend⟩ := exists_walk_of_follow h
  exact ⟨u, walk.reaches, hend⟩

/-- A chain of different pairs comes from `root` to `v` when no step is left, having passed only pairs
that are visited. -/
def LastOf (t : NodeTable) (root : String × String) (visited : List (String × String))
    (v : String × String) : Prop :=
  ∃ w, IsWalk t.Hop root v w ∧ w.Nodup ∧ w.length = maxForwardDepth + 1 ∧ ∀ x ∈ w, x ∈ visited

/-- What was visited in vain: everything that the new pairs lead to was visited too, unless no step was
left. -/
structure Exhausted (t : NodeTable) (root : String × String) (steps : Nat)
    (start visited visited' : List (String × String)) : Prop where
  here : 0 < steps → ∀ s ∈ start, s ∈ visited'
  closed : ∀ v ∈ visited', v ∉ visited →
    t.end? v = none ∧ ((∀ u ∈ t.hops v, u ∈ visited') ∨ t.LastOf root visited' v)

/-- The pairs in front are those on the way from `root` to the pairs that are followed, all visited and
different, so that the steps taken and those left are as many as are allowed. -/
theorem Run.exhausted {root : String × String} {steps : Nat} {l visited visited' : List (String × String)}
    {result : Option String} (h : t.Run steps l visited result visited') (hr : result = none)
    {front : List (String × String)} (walk : ∀ s ∈ l, IsWalk t.Hop root s (front ++ [s]))
    (nodup : front.Nodup) (hfront : ∀ v ∈ front, v ∈ visited)
    (hsteps : front.length + steps = maxForwardDepth + 1) :
    t.Exhausted root steps l visited visited' := by
  induction h generalizing front with
  | done => exact ⟨fun _ _ h => (by cases h), fun _ h new => absurd h new⟩
  | @skip steps s rest visited visited' _ cause run ih =>
    have others := ih hr (fun s hs => walk s (List.mem_cons_of_mem _ hs)) nodup hfront hsteps
    refine ⟨fun pos u hu => ?_, others.closed⟩
    rcases List.mem_cons.1 hu with rfl | hu
    · exact run.grows (cause.resolve_left (by omega))
    · exact others.here pos u hu
  | here => cases hr
  | into => cases hr
  | @past steps s rest visited visited₁ visited' _ fresh no inner outer ih ih' =>
    have hwalk := walk s List.mem_cons_self
    have hnodup : (front ++ [s]).Nodup := by simpa using nodup.concat fun h => fresh (hfront s h)
    have hlength : (front ++ [s]).length + steps = maxForwardDepth + 1 := by
      rw [List.length_append, List.length_singleton]
      omega
    have behind := ih rfl (fun u hop => hwalk.snoc hop) hnodup (by grind) hlength
    have others := ih' hr (fun u hu => walk u (List.mem_cons_of_mem s hu)) nodup
      (fun v hv => inner.grows (List.mem_cons_of_mem s (hfront v hv))) hsteps
    have kept (v : String × String) (hv : v ∈ s :: visited) : v ∈ visited' := outer.grows (inner.grows hv)
    refine ⟨fun pos u hu => ?_, fun v hv new => ?_⟩
    · rcases List.mem_cons.1 hu with rfl | hu
      · exact kept u List.mem_cons_self
      · exact others.here pos u hu
    · by_cases old : v ∈ visited₁
      · by_cases same : v = s
        · subst same
          refine ⟨no, ?_⟩
          -- with steps left, all that `v` leads to was followed
          cases steps with
          | zero => exact .inr ⟨front ++ [v], hwalk, hnodup, by omega, fun x hx => kept x (by grind)⟩
          | succ steps => exact .inl fun u hu => outer.grows (behind.here (by omega) u hu)
        · obtain ⟨no, all | ⟨w, hw, hn, length, inside⟩⟩ := behind.closed v old (by simp [same, new])
          · exact ⟨no, .inl fun u hu => outer.grows (all u hu)⟩
          · exact ⟨no, .inr ⟨w, hw, hn, length, fun x hx => outer.grows (inside x hx)⟩⟩
      · exact others.closed v hv old

/-- The hop from `a` to `b` is one too many for a chain of different pairs that comes from `root`. -/
def CutsOff (t : NodeTable) (root a b : String × String) : Prop :=
  ∃ w, IsWalk t.Hop root a w ∧ (w ++ [b]).Nodup ∧ w.length = maxForwardDepth + 1

/-- A chain to a function that is not found has a hop that is one too many for another chain. -/
theorem exists_cutsOff_of_vain {file name : String} {u : String × String} {w : List (String × String)}
    {id : String} (vain : t.exportedId? file name = none) (walk : IsWalk t.Hop (file, name) u w)
    (hend : t.end? u = some id) : ∃ a b, [a, b] <:+: w ∧ t.CutsOff (file, name) a b := by
  have exhausted := @Run.exhausted t (file, name) _ _ _ _ _
    (run_follow (maxForwardDepth + 1) (file, name) []) vain [] (fun s hs => List.mem_singleton.1 hs ▸ .single _)
    List.nodup_nil (fun _ h => by cases h) (by simp)
  generalize (t.follow (maxForwardDepth + 1) file name []).2 = visited at exhausted
  have outside : u ∉ visited := fun hu => by
    rw [(exhausted.closed u hu List.not_mem_nil).1] at hend
    cases hend
  obtain ⟨a, b, hab, hop, ha, hb⟩ := walk.exists_exit (· ∈ visited)
    (exhausted.here (by omega) _ (List.mem_singleton_self _)) outside
  rcases (exhausted.closed a ha List.not_mem_nil).2 with all | ⟨p, path, nodup, length, inside⟩
  · exact absurd (all b hop) hb
  · have longer : (p ++ [b]).Nodup := by simpa using nodup.concat fun h => hb (inside b h)
    exact ⟨a, b, hab, p, path, longer, length⟩

/-- No chain of different pairs that starts with `s` has more than `n` hops. -/
def ShortFrom (t : NodeTable) (s : String × String) (n : Nat) : Prop :=
  ∀ l, (s :: l).IsChain t.Hop → (s :: l).Nodup → l.length ≤ n

/-- If a pair leads to a function, one is found. -/
theorem exists_exportedId? {file name : String} {u : String × String} {id : String}
    (short : t.ShortFrom (file, name) maxForwardDepth) (reaches : ReflTransGen t.Hop (file, name) u)
    (hend : t.end? u = some id) : ∃ id', t.exportedId? file name = some id' := by
  cases h : t.exportedId? file name with
  | some id' => exact ⟨id', rfl⟩
  | none =>
    obtain ⟨w, walk, -⟩ := exists_nodup_walk reaches
    obtain ⟨a, b, hab, p, path, nodup, length⟩ := exists_cutsOff_of_vain h walk hend
    -- the chain that is cut off would have more hops than any has
    have hop : t.Hop a b := by simpa using walk.isChain.infix hab
    have longer := path.snoc hop
    obtain ⟨l, hl⟩ := longer.exists_cons
    have bound := short l (hl ▸ longer.isChain) (hl ▸ nodup)
    have lengths := congrArg List.length hl
    simp only [List.length_append, List.length_cons, List.length_nil] at lengths
    omega

end SymbolGraph.NodeTable
