import SymbolGraph.Proofs.CallGraph.Table
import SymbolGraph.Proofs.Project.OriginChains

/-!
# Exports and functions that agree

The exports of a project and the table of its functions are followed in different ways. The exports lead
to the first declaration in the order of the stars. The table goes by the functions of a file before it
looks at its stars, and goes on at a declared name that the file passes on itself. Where neither matters,
both lead to the same function; where re-exports run in a circle, the exports must lead to one
declaration only.
-/
namespace SymbolGraph
open Relation

/-! ## Following exports -/

namespace ExportTable

variable {table : ExportTable}

/-- Nothing that the pair leads to is declared. -/
def Barren (table : ExportTable) (s : String × String) : Prop :=
  ∀ u, ReflTransGen table.Hop s u → table.declares u = false

theorem Barren.of_reaches {s u : String × String} (h : table.Barren s) (reaches : ReflTransGen table.Hop s u) :
    table.Barren u := fun v hv => h v (reaches.trans hv)

/-- No chain that starts with `s` has `n` hops. -/
def FewerHops (table : ExportTable) (s : String × String) (n : Nat) : Prop :=
  ∀ l, (s :: l).IsChain table.Hop → l.length < n

theorem not_fewerHops_zero {s : String × String} : ¬ table.FewerHops s 0 := fun h =>
  absurd (h [] (List.isChain_singleton s)) (Nat.not_lt_zero 0)

theorem FewerHops.of_hop {s u : String × String} {n : Nat} (h : table.FewerHops s (n + 1))
    (hop : table.Hop s u) : table.FewerHops u n := fun l chain =>
  Nat.lt_of_succ_lt_succ (h (u :: l) (List.isChain_cons_cons.2 ⟨hop, chain⟩))

theorem transGen_of_chain {l : List (String × String)} (chain : l.IsChain table.Hop) :
    l.Pairwise (TransGen table.Hop) :=
  (chain.imp fun _ _ h => TransGen.single h).pairwise

theorem reaches_of_mem_chain {s u : String × String} {l : List (String × String)}
    (chain : (s :: l).IsChain table.Hop) (hu : u ∈ s :: l) : ReflTransGen table.Hop s u := by
  rcases List.mem_cons.1 hu with rfl | hu
  · exact .refl
  · exact ((List.pairwise_cons.1 (transGen_of_chain chain)).1 u hu).to_reflTransGen

theorem nodup_of_no_return {s : String × String}
    (acyclic : ∀ u, ReflTransGen table.Hop s u → ¬ TransGen table.Hop u u) {l : List (String × String)}
    (chain : (s :: l).IsChain table.Hop) : (s :: l).Nodup := by
  refine (transGen_of_chain chain).imp_of_mem fun {a b} ha _ h same => ?_
  subst same
  exact acyclic a (reaches_of_mem_chain chain ha) h

/-- With enough steps for all chains, a pair without an origin leads to no declaration. -/
theorem barren_of_originWithin {k fuel : Nat} {s : String × String} (short : table.FewerHops s k)
    (hfuel : k ≤ fuel) (none : table.originWithin fuel s.1 s.2 = none) : table.Barren s := by
  induction k generalizing fuel s with
  | zero => exact absurd short not_fewerHops_zero
  | succ k ih =>
    obtain ⟨fuel, rfl⟩ : ∃ n, fuel = n + 1 := ⟨fuel - 1, by omega⟩
    rw [originWithin_succ] at none
    split_ifs at none with declared
    · obtain ⟨e, he, -⟩ := declares_iff.1 declared
      rw [he] at none
      cases none
    · intro u reaches
      rcases ReflTransGen.cases_head reaches with rfl | ⟨v, hop, reaches⟩
      · simpa using declared
      · exact ih (short.of_hop hop) (by omega) (List.findSome?_eq_none_iff.1 none v hop) u reaches

theorem mem_of_closed {s u : String × String} {found : List (String × String)} (start : s ∈ found)
    (closed : ∀ x ∈ found, ∀ y ∈ table.hops x, y ∈ found) (reaches : ReflTransGen table.Hop s u) :
    u ∈ found := by
  induction reaches with
  | refl => exact start
  | tail _ hop ih => exact closed _ ih _ hop

theorem length_lt_of_closed {s : String × String} {found l : List (String × String)} (start : s ∈ found)
    (closed : ∀ x ∈ found, ∀ y ∈ table.hops x, y ∈ found) (chain : (s :: l).IsChain table.Hop)
    (nodup : (s :: l).Nodup) : l.length < found.length := by
  have inside : s :: l ⊆ found := fun x hx => mem_of_closed start closed (reaches_of_mem_chain chain hx)
  exact (List.subperm_of_subset nodup inside).length_le

theorem ne_starName_of_own? {file name : String} {e : Export} (h : table.own? file name = some e) :
    name ≠ starName := by
  obtain ⟨-, rfl, hstar⟩ := own?_eq_some h
  simpa [Export.isStar] using hstar

theorem ne_starName_of_hop {s u : String × String} (h : table.Hop s u) :
    u.2 ≠ starName ↔ s.2 ≠ starName := by
  rcases hop_cases h with ⟨e, he, -, hname, -, same⟩ | ⟨-, -, -, same⟩
  · exact ⟨fun _ => ne_starName_of_own? he, fun _ => same ▸ hname⟩
  · rw [same]

theorem ne_starName_of_reaches {s u : String × String} (h : ReflTransGen table.Hop s u) :
    u.2 ≠ starName ↔ s.2 ≠ starName := by
  induction h with
  | refl => rfl
  | tail _ hop ih => exact (ne_starName_of_hop hop).trans ih

end ExportTable

/-! ## Exports and forwards -/

/-- What an export of a file with resolved origins makes the file pass on. -/
def Forward.ofExport? (file : String) (e : Export) : Option Forward :=
  if e.isReExport then e.origin.map fun source => ⟨e.name, source, e.sourceName⟩
  else if e.sourceName != e.name then some ⟨e.name, file, e.sourceName⟩
  else none

theorem Forward.name_ofExport? {file : String} {e : Export} {f : Forward}
    (h : Forward.ofExport? file e = some f) : f.name = e.name := by
  unfold Forward.ofExport? at h
  split_ifs at h
  · obtain ⟨source, -, rfl⟩ := Option.map_eq_some_iff.1 h
    rfl
  · rw [← Option.some_inj.1 h]

namespace NodeTable

variable {t : NodeTable} {table : ExportTable}

/-- The files pass on what their exports say. -/
def BuiltFrom (t : NodeTable) (table : ExportTable) : Prop :=
  ∀ file, t.forwardsOf file = (table.exportsOf file).filterMap (Forward.ofExport? file)

/-- Nothing misleads at a pair. A name that the file takes from elsewhere is no function of its own, a
name from outside the project comes in no other way, and a declared name is not passed on itself. -/
def plainAt (t : NodeTable) (table : ExportTable) (s : String × String) : Bool :=
  match table.own? s.1 s.2 with
  | none => !t.ids.contains (symbolKey s.1 s.2)
  | some e =>
    if !e.isReExport then e.sourceName != starName && (t.forwardsOf s.1).all (·.name != e.sourceName)
    else e.origin.isSome || !t.ids.contains (symbolKey s.1 s.2) &&
      (t.forwardsOf s.1).all fun f => f.name != s.2 && (s.2 == defaultName || f.name != starName)

theorem idIn?_eq_some {file name : String} (h : t.ids.contains (symbolKey file name) = true) :
    t.idIn? file name = some (symbolKey file name) := by
  simp [idIn?, h]

theorem idIn?_eq_none {file name : String} (h : t.ids.contains (symbolKey file name) = false) :
    t.idIn? file name = none := by
  simp [idIn?, h]

theorem BuiltFrom.find?_eq_none (built : t.BuiltFrom table) {file name : String} (hname : name ≠ starName)
    (h : table.own? file name = none) : (t.forwardsOf file).find? (·.name == name) = none := by
  rw [built file, List.find?_eq_none]
  intro f hf same
  obtain ⟨e, he, hf⟩ := List.mem_filterMap.1 hf
  have heq : e.name = name := (Forward.name_ofExport? hf).symm.trans (by simpa using same)
  refine ExportTable.own?_eq_none.1 h ⟨e, he, ?_, heq⟩
  simpa [Export.isStar, heq] using hname

/-- The first forward of a name is that of the export by which the file gives the name. -/
theorem BuiltFrom.find?_eq_some (built : t.BuiltFrom table) {file name : String} {e : Export} {f : Forward}
    (h : table.own? file name = some e) (hf : Forward.ofExport? file e = some f) :
    (t.forwardsOf file).find? (·.name == name) = some f := by
  have hname := ExportTable.ne_starName_of_own? h
  rw [built file]
  unfold ExportTable.own? at h
  generalize table.exportsOf file = exports at h ⊢
  induction exports with
  | nil => cases h
  | cons e' rest ih =>
    rw [List.find?_cons] at h
    split at h
    · rename_i own
      obtain rfl := Option.some_inj.1 h
      simp only [Bool.and_eq_true, beq_iff_eq] at own
      rw [List.filterMap_cons_some hf, List.find?_cons_of_pos]
      simpa using (Forward.name_ofExport? hf).trans own.1
    · rename_i other
      cases hf' : Forward.ofExport? file e' with
      | none =>
        rw [List.filterMap_cons_none hf']
        exact ih h
      | some f' =>
        rw [List.filterMap_cons_some hf', List.find?_cons_of_neg]
        · exact ih h
        · have heq := Forward.name_ofExport? hf'
          intro same
          rw [beq_iff_eq, heq] at same
          simp [same, Export.isStar, hname] at other

/-- The stars of the table are those of the exports; an export that is called like a star leads back to
its file. -/
theorem BuiltFrom.stars_eq (built : t.BuiltFrom table) (proper : table.Proper) (s : String × String) :
    (((t.forwardsOf s.1).filter (·.name == starName)).map fun f => (f.source, s.2)).filter (· ≠ s) =
      ((ExportTable.starOrigins (table.exportsOf s.1)).map fun source => (source, s.2)).filter (· ≠ s) := by
  rw [built s.1]
  have origins := proper.isReExport_of_origin s.1
  unfold ExportTable.starOrigins
  generalize table.exportsOf s.1 = exports at origins ⊢
  induction exports with
  | nil => rfl
  | cons e rest ih =>
    have rest_eq := ih fun e' he' => origins e' (List.mem_cons_of_mem e he')
    have hstar : e.isStar = (e.name == starName) := rfl
    by_cases star : e.name = starName
    · rw [List.filter_cons_of_pos (by simpa [hstar] using star)]
      cases re : e.isReExport with
      | true =>
        cases horigin : e.origin with
        | none =>
          rw [List.filterMap_cons_none (by simp [Forward.ofExport?, re, horigin]),
            List.filterMap_cons_none horigin, rest_eq]
        | some source =>
          have hf : Forward.ofExport? s.1 e = some ⟨e.name, source, e.sourceName⟩ := by
            simp [Forward.ofExport?, re, horigin]
          rw [List.filterMap_cons_some hf, List.filter_cons_of_pos (by simpa using star),
            List.filterMap_cons_some horigin, List.map_cons, List.map_cons, List.filter_cons,
            List.filter_cons, rest_eq]
      | false =>
        have none : e.origin = none := by
          by_contra h
          obtain ⟨source, horigin⟩ := Option.ne_none_iff_exists'.1 h
          simp [origins e List.mem_cons_self source horigin] at re
        rw [List.filterMap_cons_none none, ← rest_eq]
        by_cases renamed : e.sourceName = e.name
        · rw [List.filterMap_cons_none (by simp [Forward.ofExport?, re, renamed])]
        · have hf : Forward.ofExport? s.1 e = some ⟨e.name, s.1, e.sourceName⟩ := by
            simp [Forward.ofExport?, re, renamed]
          rw [List.filterMap_cons_some hf, List.filter_cons_of_pos (by simpa using star), List.map_cons,
            List.filter_cons_of_neg (by simp)]
    · rw [List.filter_cons_of_neg (by simpa [hstar] using star), ← rest_eq]
      cases hf : Forward.ofExport? s.1 e with
      | none => rw [List.filterMap_cons_none hf]
      | some f =>
        rw [List.filterMap_cons_some hf, List.filter_cons_of_neg]
        simpa [Forward.name_ofExport? hf] using star

/-! ## One step on both sides -/

/-- At a plain pair that is not declared the table goes on to what the exports go on to. -/
theorem BuiltFrom.step (built : t.BuiltFrom table) (proper : table.Proper) {s : String × String}
    (hname : s.2 ≠ starName) (plain : t.plainAt table s = true) (h : table.declares s = false) :
    t.end? s = none ∧ (t.hops s).filter (· ≠ s) = (table.hops s).filter (· ≠ s) := by
  unfold plainAt at plain
  cases hown : table.own? s.1 s.2 with
  | none =>
    simp only [hown, Bool.not_eq_true'] at plain
    have hf := built.find?_eq_none hname hown
    have hid := idIn?_eq_none plain
    refine ⟨(end?_of_no_forward hf).trans hid, ?_⟩
    simp only [hops, hf, hid, Option.isSome_none, Bool.false_or, ExportTable.hops, hown]
    split_ifs
    · rfl
    · exact built.stars_eq proper s
  | some e =>
    simp only [ExportTable.declares, hown, Option.any_some, Bool.or_eq_false_iff, Bool.not_eq_false',
      beq_eq_false_iff_ne] at h
    obtain ⟨re, hsource⟩ := h
    cases horigin : e.origin with
    | some source =>
      have hf := built.find?_eq_some hown (show _ = some ⟨e.name, source, e.sourceName⟩ by
        simp [Forward.ofExport?, re, horigin])
      refine ⟨end?_of_forward hf, ?_⟩
      simp [hops, hf, ExportTable.hops, hown, re, hsource, horigin]
    | none =>
      -- a name from outside the project leads nowhere on either side
      simp only [hown, re, horigin, Bool.not_true, Bool.false_eq_true, if_false, Option.isSome_none,
        Bool.false_or, Bool.and_eq_true, Bool.not_eq_true', List.all_eq_true, bne_iff_ne,
        Bool.or_eq_true, beq_iff_eq] at plain
      obtain ⟨unknown, others⟩ := plain
      have hf : (t.forwardsOf s.1).find? (·.name == s.2) = none := by
        rw [List.find?_eq_none]
        intro f hf
        simpa using (others f hf).1
      have hid := idIn?_eq_none unknown
      refine ⟨(end?_of_no_forward hf).trans hid, ?_⟩
      simp only [hops, hf, hid, Option.isSome_none, Bool.false_or, ExportTable.hops, hown, re, horigin,
        Option.toList_none, List.map_nil, ite_self]
      split_ifs with hdefault
      · rfl
      · have stars : (t.forwardsOf s.1).filter (·.name == starName) = [] := by
          rw [List.filter_eq_nil_iff]
          intro f hf
          have := (others f hf).2.resolve_left (by simpa using hdefault)
          simpa using this
        rw [stars]
        rfl

/-- The table leads from a declared function to it, at once or through the name in its file. -/
theorem BuiltFrom.declared (built : t.BuiltFrom table) {s : String × String} {e : Export}
    (hown : table.own? s.1 s.2 = some e) (re : e.isReExport = false) (plain : t.plainAt table s = true)
    (known : t.ids.contains (symbolKey s.1 e.sourceName) = true) :
    t.end? (s.1, e.sourceName) = some (symbolKey s.1 e.sourceName) ∧ e.sourceName ≠ starName ∧
      (e.sourceName = s.2 ∨ t.end? s = none ∧ t.hops s = [(s.1, e.sourceName)]) := by
  simp only [plainAt, hown, re, Bool.not_false, if_true, Bool.and_eq_true, bne_iff_ne,
    List.all_eq_true] at plain
  obtain ⟨hsource, others⟩ := plain
  have none : (t.forwardsOf s.1).find? (·.name == e.sourceName) = none := by
    rw [List.find?_eq_none]
    intro f hf
    simpa using others f hf
  refine ⟨(@end?_of_no_forward t (s.1, e.sourceName) none).trans (idIn?_eq_some known), hsource, ?_⟩
  obtain ⟨-, same, -⟩ := ExportTable.own?_eq_some hown
  by_cases renamed : e.sourceName = s.2
  · exact .inl renamed
  · have hf := built.find?_eq_some hown (show _ = some ⟨e.name, s.1, e.sourceName⟩ by
      simp [Forward.ofExport?, re, same, renamed])
    exact .inr ⟨end?_of_forward hf, by simp [hops, hf, hsource]⟩

/-! ## Both sides together -/

/-- Every pair that `s` leads to is plain. -/
def PlainFrom (t : NodeTable) (table : ExportTable) (s : String × String) : Prop :=
  ∀ u, ReflTransGen table.Hop s u → t.plainAt table u = true

theorem PlainFrom.of_hop {s u : String × String} (h : t.PlainFrom table s) (hop : table.Hop s u) :
    t.PlainFrom table u := fun v reaches => h v (.head hop reaches)

/-- From a pair the table finds the function that the exports find. If they find nothing, neither does
the table, and it has only visited pairs that `s` leads to. -/
structure Agrees (t : NodeTable) (table : ExportTable) (fuel steps : Nat) (s : String × String)
    (visited : List (String × String)) : Prop where
  found : ∀ e, table.originWithin fuel s.1 s.2 = some e → e.isReExport = false →
    t.ids.contains (symbolKey e.file e.sourceName) = true →
    (t.follow steps s.1 s.2 visited).1 = some (symbolKey e.file e.sourceName)
  vain : table.originWithin fuel s.1 s.2 = none → (t.follow steps s.1 s.2 visited).1 = none ∧
    ∀ v ∈ (t.follow steps s.1 s.2 visited).2, v ∈ visited ∨ ReflTransGen table.Hop s v

/-- The pairs visited so far do not matter: none is a function, and what `s` leads to is declared
nowhere. -/
structure Spent (t : NodeTable) (table : ExportTable) (s : String × String)
    (visited : List (String × String)) : Prop where
  no_end : ∀ v ∈ visited, t.end? v = none
  barren : ∀ v ∈ visited, ReflTransGen table.Hop s v → table.Barren v

theorem BuiltFrom.end?_of_barren (built : t.BuiltFrom table) (proper : table.Proper) {s v : String × String}
    (hname : s.2 ≠ starName) (plain : t.PlainFrom table s) (barren : table.Barren s)
    (reaches : ReflTransGen table.Hop s v) : t.end? v = none :=
  (built.step proper ((ExportTable.ne_starName_of_reaches reaches).2 hname) (plain v reaches)
    (barren v reaches)).1

/-- Pairs one after another: those before the first with an origin lead to nothing that matters later. -/
theorem BuiltFrom.followAll_agrees (built : t.BuiltFrom table) (proper : table.Proper) {fuel steps : Nat}
    (l : List (String × String)) {visited : List (String × String)}
    (agrees : ∀ u ∈ l, ∀ visited, t.Spent table u visited → t.Agrees table fuel steps u visited)
    (barren : ∀ u ∈ l, table.originWithin fuel u.1 u.2 = none → table.Barren u)
    (hname : ∀ u ∈ l, u.2 ≠ starName) (plain : ∀ u ∈ l, t.PlainFrom table u)
    (spent : ∀ u ∈ l, t.Spent table u visited) :
    (∀ e, (l.findSome? fun u => table.originWithin fuel u.1 u.2) = some e → e.isReExport = false →
      t.ids.contains (symbolKey e.file e.sourceName) = true →
      (t.followAll steps l visited).1 = some (symbolKey e.file e.sourceName)) ∧
    ((l.findSome? fun u => table.originWithin fuel u.1 u.2) = none →
      (t.followAll steps l visited).1 = none ∧
      ∀ v ∈ (t.followAll steps l visited).2, v ∈ visited ∨ ∃ u ∈ l, ReflTransGen table.Hop u v) := by
  induction l generalizing visited with
  | nil => exact ⟨fun e h => (by cases h), fun _ => ⟨rfl, fun v hv => .inl hv⟩⟩
  | cons u rest ih =>
    have first := agrees u List.mem_cons_self visited (spent u List.mem_cons_self)
    have dead := barren u List.mem_cons_self
    rw [List.findSome?_cons]
    cases horigin : table.originWithin fuel u.1 u.2 with
    | some e =>
      refine ⟨fun e' h re known => ?_, fun h => (by cases h)⟩
      obtain rfl := Option.some_inj.1 h
      have := first.found e horigin re known
      rw [followAll]
      generalize t.follow steps u.1 u.2 visited = result at this ⊢
      obtain ⟨_ | id, visited₁⟩ := result
      · cases this
      · exact this
    | none =>
      obtain ⟨vain, fresh⟩ := first.vain horigin
      rw [followAll]
      generalize t.follow steps u.1 u.2 visited = result at vain fresh ⊢
      obtain ⟨id, visited₁⟩ := result
      obtain rfl : id = none := vain
      -- what was visited from `u` is declared nowhere
      have spent₁ (u' : String × String) (hu' : u' ∈ rest) : t.Spent table u' visited₁ := by
        have before := spent u' (List.mem_cons_of_mem u hu')
        constructor
        · intro v hv
          rcases fresh v hv with hv | reaches
          · exact before.no_end v hv
          · exact built.end?_of_barren proper (hname u List.mem_cons_self)
              (plain u List.mem_cons_self) (dead horigin) reaches
        · intro v hv leads
          rcases fresh v hv with hv | reaches
          · exact before.barren v hv leads
          · exact (dead horigin).of_reaches reaches
      obtain ⟨found, none⟩ := ih (fun v hv => agrees v (List.mem_cons_of_mem u hv))
        (fun v hv => barren v (List.mem_cons_of_mem u hv))
        (fun v hv => hname v (List.mem_cons_of_mem u hv))
        (fun v hv => plain v (List.mem_cons_of_mem u hv)) spent₁
      refine ⟨found, fun h => ⟨(none h).1, fun v hv => ?_⟩⟩
      rcases (none h).2 v hv with hv | ⟨u', hu', reaches⟩
      · rcases fresh v hv with hv | reaches
        · exact .inl hv
        · exact .inr ⟨u, List.mem_cons_self, reaches⟩
      · exact .inr ⟨u', List.mem_cons_of_mem u hu', reaches⟩

theorem Spent.agrees_of_mem {s : String × String} {visited : List (String × String)}
    (spent : t.Spent table s visited) (seen : s ∈ visited) (fuel steps : Nat) :
    t.Agrees table fuel steps s visited := by
  constructor
  · intro e h
    obtain ⟨u, reaches, declared, -⟩ := ExportTable.exists_declares_of_originWithin h
    rw [spent.barren s seen .refl u reaches] at declared
    cases declared
  · intro _
    rw [follow_of_mem seen]
    exact ⟨rfl, fun v hv => .inl hv⟩

theorem BuiltFrom.agrees_of_declares (built : t.BuiltFrom table) (proper : table.Proper)
    {s : String × String} {visited : List (String × String)} (plain : t.plainAt table s = true)
    (spent : t.Spent table s visited) (fresh : s ∉ visited) (declared : table.declares s = true)
    (fuel steps : Nat) : t.Agrees table (fuel + 1) (steps + 2) s visited := by
  have origin_eq := @ExportTable.originWithin_succ table fuel s
  have follow_eq := @follow_succ t (steps + 1) s visited
  obtain ⟨e, hown, -⟩ := ExportTable.declares_iff.1 declared
  rw [if_pos declared, hown] at origin_eq
  rw [if_neg fresh] at follow_eq
  constructor
  · intro e' h re known
    rw [origin_eq] at h
    obtain rfl := Option.some_inj.1 h
    rw [proper.file_eq s.1 e (ExportTable.own?_eq_some hown).1] at known ⊢
    obtain ⟨ends, -, same | ⟨none, hops⟩⟩ := built.declared hown re plain known
    · rw [show (s.1, e.sourceName) = s by rw [same]] at ends
      rw [follow_eq, ends]
    · -- the name in the file is a function, so it has not been visited
      have fresh' : (s.1, e.sourceName) ∉ s :: visited := by
        intro h
        rcases List.mem_cons.1 h with h | h
        · rw [h, none] at ends
          cases ends
        · rw [spent.no_end _ h] at ends
          cases ends
      rw [follow_eq, none]
      dsimp only
      rw [hops, followAll_singleton, follow_succ steps (s.1, e.sourceName), if_neg fresh', ends]
  · intro h
    rw [origin_eq] at h
    cases h

theorem Spent.of_hop {s u : String × String} {visited : List (String × String)}
    (spent : t.Spent table s visited) (no_end : t.end? s = none)
    (no_return : ¬ TransGen table.Hop s s) (hop : table.Hop s u) : t.Spent table u (s :: visited) := by
  constructor
  · intro v hv
    rcases List.mem_cons.1 hv with rfl | hv
    · exact no_end
    · exact spent.no_end v hv
  · intro v hv leads
    rcases List.mem_cons.1 hv with rfl | hv
    · exact absurd (TransGen.head' hop leads) no_return
    · exact spent.barren v hv (.head hop leads)

/-- Where no chain returns, both sides agree: what has been visited is not met again. -/
theorem BuiltFrom.follow_agrees (built : t.BuiltFrom table) (proper : table.Proper) {k fuel steps : Nat}
    {s : String × String} {visited : List (String × String)} (short : table.FewerHops s k)
    (hfuel : k ≤ fuel) (hsteps : k < steps) (hname : s.2 ≠ starName)
    (acyclic : ∀ u, ReflTransGen table.Hop s u → ¬ TransGen table.Hop u u)
    (plain : t.PlainFrom table s) (spent : t.Spent table s visited) :
    t.Agrees table fuel steps s visited := by
  induction k generalizing s fuel steps visited with
  | zero => exact absurd short ExportTable.not_fewerHops_zero
  | succ k ih =>
    obtain ⟨fuel, rfl⟩ : ∃ n, fuel = n + 1 := ⟨fuel - 1, by omega⟩
    obtain ⟨steps, rfl⟩ : ∃ n, steps = n + 2 := ⟨steps - 2, by omega⟩
    by_cases seen : s ∈ visited
    · exact spent.agrees_of_mem seen _ _
    by_cases declared : table.declares s = true
    · exact built.agrees_of_declares proper (plain s .refl) spent seen declared fuel steps
    have origin_eq := @ExportTable.originWithin_succ table fuel s
    have follow_eq := @follow_succ t (steps + 1) s visited
    obtain ⟨none, hops⟩ := built.step proper hname (plain s .refl) (by simpa using declared)
    have irreflexive : (table.hops s).filter (· ≠ s) = table.hops s := by
      rw [List.filter_eq_self]
      intro u hop
      simp only [ne_eq, decide_eq_true_eq]
      intro same
      exact acyclic s .refl (.single (same ▸ hop))
    rw [if_neg declared] at origin_eq
    rw [if_neg seen, none] at follow_eq
    dsimp only at follow_eq
    rw [← followAll_filter (steps + 1) (t.hops s) List.mem_cons_self, hops, irreflexive] at follow_eq
    obtain ⟨found, vain⟩ := built.followAll_agrees proper (table.hops s)
      (fun u hop visited => ih (short.of_hop hop) (Nat.le_of_succ_le_succ hfuel)
        (Nat.lt_of_succ_lt_succ hsteps) ((ExportTable.ne_starName_of_hop hop).2 hname)
        (fun v reaches => acyclic v (.head hop reaches)) (plain.of_hop hop))
      (fun u hop => ExportTable.barren_of_originWithin (short.of_hop hop) (Nat.le_of_succ_le_succ hfuel))
      (fun u hop => (ExportTable.ne_starName_of_hop hop).2 hname) (fun u hop => plain.of_hop hop)
      (fun u hop => spent.of_hop none (acyclic s .refl) hop)
    constructor
    · intro e h
      rw [origin_eq] at h
      rw [follow_eq]
      exact found e h
    · intro h
      rw [origin_eq] at h
      rw [follow_eq]
      refine ⟨(vain h).1, fun v hv => ?_⟩
      rcases (vain h).2 v hv with hv | ⟨u, hop, reaches⟩
      · rcases List.mem_cons.1 hv with rfl | hv
        · exact .inr .refl
        · exact .inl hv
      · exact .inr (.head hop reaches)

/-! ## One declaration only -/

/-- The exports lead from `root` to the function that `d` declares and to no other declaration. -/
structure LeadsOnlyTo (t : NodeTable) (table : ExportTable) (root d : String × String) (e : Export) :
    Prop where
  hname : root.2 ≠ starName
  plain : t.PlainFrom table root
  leads : ReflTransGen table.Hop root d
  hown : table.own? d.1 d.2 = some e
  re : e.isReExport = false
  known : t.ids.contains (symbolKey d.1 e.sourceName) = true
  sole : ∀ s, ReflTransGen table.Hop root s → table.declares s = true → s = d

section Sole

variable {root d s u : String × String} {e : Export} (h : t.LeadsOnlyTo table root d e)
  (built : t.BuiltFrom table) (proper : table.Proper)

include h built proper

theorem LeadsOnlyTo.step (reaches : ReflTransGen table.Hop root s) (undeclared : table.declares s = false) :
    t.end? s = none ∧ ∀ u, u ≠ s → (t.Hop s u ↔ table.Hop s u) := by
  obtain ⟨none, hops⟩ := built.step proper ((ExportTable.ne_starName_of_reaches reaches).2 h.hname)
    (h.plain s reaches) undeclared
  refine ⟨none, fun u other => ?_⟩
  have mem : u ∈ (t.hops s).filter (· ≠ s) ↔ u ∈ (table.hops s).filter (· ≠ s) := by rw [hops]
  simpa [List.mem_filter, other, Hop, ExportTable.Hop] using mem

theorem LeadsOnlyTo.reaches (reaches : ReflTransGen table.Hop root u) : ReflTransGen t.Hop root u := by
  induction reaches with
  | refl => exact .refl
  | @tail s u reaches hop ih =>
    by_cases same : u = s
    · rw [same]
      exact ih
    · have undeclared := ExportTable.declares_eq_false_of_hop hop
      exact ih.tail (((h.step built proper reaches undeclared).2 u same).2 hop)

omit proper in
theorem LeadsOnlyTo.declared : t.end? (d.1, e.sourceName) = some (symbolKey d.1 e.sourceName) ∧
    (e.sourceName = d.2 ∨ t.end? d = none ∧ t.hops d = [(d.1, e.sourceName)]) := by
  obtain ⟨ends, -, goes⟩ := built.declared h.hown h.re (h.plain d h.leads) h.known
  exact ⟨ends, goes⟩

/-- Besides the hops of the exports there is only the one to the name in the declaring file. -/
theorem LeadsOnlyTo.hop_cases (reaches : ReflTransGen table.Hop root s) (hop : t.Hop s u) :
    u = s ∨ table.Hop s u ∨ u = (d.1, e.sourceName) := by
  by_cases declared : table.declares s = true
  · obtain rfl := h.sole s reaches declared
    obtain ⟨ends, same | ⟨-, hops⟩⟩ := h.declared built
    · rw [same] at ends
      rw [Hop, hops_of_end? ends] at hop
      cases hop
    · rw [Hop, hops] at hop
      exact .inr (.inr (List.mem_singleton.1 hop))
  · by_cases same : u = s
    · exact .inl same
    · exact .inr (.inl (((h.step built proper reaches (by simpa using declared)).2 u same).1 hop))

omit proper in
theorem LeadsOnlyTo.not_hop : ¬ t.Hop (d.1, e.sourceName) u := by
  intro hop
  rw [Hop, hops_of_end? (h.declared built).1] at hop
  cases hop

theorem LeadsOnlyTo.reaches_cases (reaches : ReflTransGen t.Hop root u) :
    ReflTransGen table.Hop root u ∨ u = (d.1, e.sourceName) := by
  induction reaches with
  | refl => exact .inl .refl
  | tail _ hop ih =>
    rcases ih with reaches | rfl
    · rcases h.hop_cases built proper reaches hop with rfl | hop | rfl
      · exact .inl reaches
      · exact .inl (reaches.tail hop)
      · exact .inr rfl
    · exact absurd hop (h.not_hop built)

/-- A chain of the table is one of the exports, but for a last hop to the name in the declaring file. -/
theorem LeadsOnlyTo.chain_cases (l : List (String × String)) (chain : (root :: l).IsChain t.Hop)
    (nodup : (root :: l).Nodup) : (root :: l).IsChain table.Hop ∨
      ∃ l', l = l' ++ [(d.1, e.sourceName)] ∧ (root :: l').IsChain table.Hop := by
  induction l using List.reverseRecOn with
  | nil => exact .inl (List.isChain_singleton root)
  | append_singleton l u ih =>
    rw [← List.cons_append] at chain nodup
    obtain ⟨before, -, last⟩ := List.isChain_append.1 chain
    obtain ⟨nodup, -, disjoint⟩ := List.nodup_append.1 nodup
    have hlast := List.getLast?_eq_some_getLast (List.cons_ne_nil root l)
    have hop := last _ hlast u rfl
    rcases ih before nodup with chain' | ⟨l', rfl, -⟩
    · have reaches := List.relationReflTransGen_of_exists_isChain_cons l chain' rfl
      rcases h.hop_cases built proper reaches hop with same | hop | rfl
      · exact absurd same.symm (disjoint _ (List.getLast_mem _) u (List.mem_singleton_self u))
      · refine .inl (List.cons_append ▸ List.isChain_append.2 ⟨chain', List.isChain_singleton u, ?_⟩)
        intro x hx y hy
        rw [hlast] at hx
        rw [← Option.some_inj.1 hx, ← Option.some_inj.1 hy]
        exact hop
      · exact .inr ⟨l, rfl, chain'⟩
    · simp only [← List.cons_append, List.getLast_append_singleton] at hop
      exact absurd hop (h.not_hop built)

theorem LeadsOnlyTo.eq_of_end? {id : String} (reaches : ReflTransGen t.Hop root u)
    (hend : t.end? u = some id) : id = symbolKey d.1 e.sourceName := by
  obtain ⟨ends, goes⟩ := h.declared built
  rcases h.reaches_cases built proper reaches with reaches | rfl
  · by_cases declared : table.declares u = true
    · obtain rfl := h.sole u reaches declared
      rcases goes with same | ⟨none, -⟩
      · rw [same, hend] at ends
        rw [same]
        exact Option.some_inj.1 ends
      · rw [none] at hend
        cases hend
    · rw [(h.step built proper reaches (by simpa using declared)).1] at hend
      cases hend
  · rw [hend] at ends
    exact Option.some_inj.1 ends

theorem LeadsOnlyTo.exportedId?
    (short : ∀ l, (root :: l).IsChain table.Hop → (root :: l).Nodup → l.length < maxForwardDepth) :
    t.exportedId? root.1 root.2 = some (symbolKey d.1 e.sourceName) := by
  obtain ⟨ends, goes⟩ := h.declared built
  have leads : ReflTransGen t.Hop root (d.1, e.sourceName) := by
    have reaches := h.reaches built proper h.leads
    rcases goes with same | ⟨-, hops⟩
    · rw [same]
      exact reaches
    · exact reaches.tail (by rw [Hop, hops]; exact List.mem_singleton_self _)
  have short' : t.ShortFrom root maxForwardDepth := by
    intro l chain nodup
    rcases h.chain_cases built proper l chain nodup with chain' | ⟨l', rfl, chain'⟩
    · exact (short l chain' nodup).le
    · rw [← List.cons_append] at nodup
      rw [List.length_append]
      exact short l' chain' (List.nodup_append.1 nodup).1
  obtain ⟨id, hid⟩ := exists_exportedId? short' leads ends
  obtain ⟨u, reaches, hend⟩ := end?_of_follow hid
  rw [hid, h.eq_of_end? built proper reaches hend]

end Sole

/-! ## Following the exports -/

/-- Where nothing misleads, the table finds the function that the exports find. -/
theorem BuiltFrom.exportedId?_of_origin (built : t.BuiltFrom table) (proper : table.Proper)
    {file name : String} {e : Export} (origin : table.origin? file name 0 = some e)
    (re : e.isReExport = false) (known : t.ids.contains (symbolKey e.file e.sourceName) = true)
    (short : ∀ l, ((file, name) :: l).IsChain table.Hop → ((file, name) :: l).Nodup →
      l.length + 2 ≤ ExportTable.maxDepth)
    (plain : t.PlainFrom table (file, name))
    (certain : (∀ s, ReflTransGen table.Hop (file, name) s → ¬ TransGen table.Hop s s) ∨
      ∀ s, ReflTransGen table.Hop (file, name) s → table.declares s = true → s = (e.file, e.name)) :
    t.exportedId? file name = some (symbolKey e.file e.sourceName) := by
  obtain ⟨u, leads, declared, hown⟩ :=
    @ExportTable.exists_declares_of_originWithin table _ (file, name) e origin
  have hname := (ExportTable.ne_starName_of_reaches leads).1 (ExportTable.ne_starName_of_own? hown)
  rcases certain with acyclic | sole
  · have few : table.FewerHops (file, name) (ExportTable.maxDepth - 1) := by
      intro l chain
      have := short l chain (ExportTable.nodup_of_no_return acyclic chain)
      omega
    have agrees := built.follow_agrees proper few (show _ ≤ ExportTable.maxDepth + 1 - 0 by omega)
      (show _ < maxForwardDepth + 1 by decide) hname acyclic plain
      (⟨fun v hv => (by cases hv), fun v hv => (by cases hv)⟩ : t.Spent table (file, name) [])
    exact agrees.found e origin re known
  · obtain rfl : u = (e.file, e.name) := sole u leads declared
    have only : t.LeadsOnlyTo table (file, name) (e.file, e.name) e :=
      ⟨hname, plain, leads, hown, re, known, sole⟩
    refine only.exportedId? built proper fun l chain nodup => ?_
    have := short l chain nodup
    rw [ExportTable.maxDepth] at this
    rw [maxForwardDepth]
    omega

end NodeTable

end SymbolGraph
