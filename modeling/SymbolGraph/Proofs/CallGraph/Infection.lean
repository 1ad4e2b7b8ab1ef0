import Mathlib.Logic.Relation
import SymbolGraph.CallGraph.Purity
import SymbolGraph.Proofs.Ordered

/-!
# How impurity spreads

A function becomes impure exactly if a chain of calls between known functions leads from it to one
that is impure by itself. The worklist holds the functions whose callers have not been looked at; a
function joins it once, so the number of functions is enough fuel.
-/
namespace SymbolGraph
open Text Relation

/-! ## What marking leaves alone -/

/-- A function without what is inferred about it. -/
def FunctionNode.bare (f : FunctionNode) : FunctionNode := { f with purity := .unknown, reasons := [] }

@[simp] theorem FunctionNode.bare_markImpure (f : FunctionNode) (reason : String) :
    (f.markImpure reason).bare = f.bare := rfl

theorem FunctionNode.bare_foldl_markImpure (f : FunctionNode) (reasons : List String) :
    (reasons.foldl markImpure f).bare = f.bare := by
  induction reasons generalizing f with
  | nil => rfl
  | cons r rest ih => rw [List.foldl_cons, ih, bare_markImpure]

theorem FunctionNode.purity_foldl_markImpure (f : FunctionNode) {reasons : List String}
    (h : reasons ≠ []) : (reasons.foldl markImpure f).purity = .impure := by
  induction reasons generalizing f with
  | nil => exact absurd rfl h
  | cons r rest ih =>
    rw [List.foldl_cons]
    cases rest with
    | nil => rfl
    | cons r' rest => exact ih (f.markImpure r) (by simp)

@[simp] theorem FunctionNode.bare_settle (f : FunctionNode) : f.settle.bare = f.bare := by
  unfold settle
  split <;> rfl

theorem FunctionNode.purity_settle (f : FunctionNode) :
    f.settle.purity = if f.purity = .impure then .impure else .pure := by
  unfold settle
  cases h : f.purity <;> simp [h]

theorem FunctionNode.reasons_settle (f : FunctionNode) : f.settle.reasons = f.reasons := by
  unfold settle
  split <;> rfl

/-- The functions of a map without what is inferred about them. -/
def bareNodes (nodes : KeyMap FunctionNode) : KeyMap FunctionNode := nodes.map fun _ f => f.bare

theorem get?_bareNodes (nodes : KeyMap FunctionNode) (id : String) :
    (bareNodes nodes).get? id = (nodes.get? id).map FunctionNode.bare :=
  nodes.get?_map _ id

theorem contains_congr_bare {nodes nodes' : KeyMap FunctionNode} (h : bareNodes nodes' = bareNodes nodes)
    (id : String) : nodes'.contains id = nodes.contains id := by
  have hg := congrArg (fun m => (KeyMap.get? m id).isSome) h
  simp only [get?_bareNodes, Option.isSome_map] at hg
  exact hg

theorem keys_congr_bare {nodes nodes' : KeyMap FunctionNode} (h : bareNodes nodes' = bareNodes nodes) :
    nodes'.keys = nodes.keys := by
  simpa only [bareNodes, KeyMap.keys_map] using congrArg KeyMap.keys h

theorem bareNodes_insert {nodes : KeyMap FunctionNode} {id : String} {f f' : FunctionNode}
    (hf : nodes.get? id = some f) (hb : f'.bare = f.bare) :
    bareNodes (nodes.insert id f') = bareNodes nodes := by
  apply KeyMap.ext_get?
  intro k
  rw [get?_bareNodes, get?_bareNodes, KeyMap.get?_insert]
  split_ifs with hk
  · rw [hk, hf, Option.map_some, Option.map_some, hb]
  · rfl

/-! ## Impure functions of a map -/

def IsImpure (nodes : KeyMap FunctionNode) (id : String) : Prop :=
  ∃ f, nodes.get? id = some f ∧ f.purity = .impure

theorem IsImpure.contains {nodes : KeyMap FunctionNode} {id : String} (h : IsImpure nodes id) :
    nodes.contains id = true :=
  KeyMap.contains_iff.mpr ⟨h.choose, h.choose_spec.1⟩

theorem isImpure_insert {nodes : KeyMap FunctionNode} {id k : String} {f : FunctionNode}
    (hf : f.purity = .impure) :
    IsImpure (nodes.insert id f) k ↔ k = id ∨ IsImpure nodes k := by
  unfold IsImpure
  rw [KeyMap.get?_insert]
  by_cases hk : k = id
  · simp [hk, hf]
  · simp [hk]

/-! ## Direct impurity -/

/-- A function is impure by itself if it was found with a reason, or if a pattern of its language
occurs in its own lines. -/
def IsDirectlyImpure (effectsOf : String → List Effect) (sources : Sources)
    (nodes : KeyMap FunctionNode) (id : String) : Prop :=
  ∃ f content, nodes.get? id = some f ∧ sources.get? f.file = some content ∧
    (f.reasons ≠ [] ∨ ∃ e ∈ effectsOf f.file,
      e.pattern.occursIn (ownBody f (lines content) (nodes.values.filter (·.file == f.file))) = true)

theorem IsDirectlyImpure.contains {effectsOf : String → List Effect} {sources : Sources}
    {nodes : KeyMap FunctionNode} {id : String} (h : IsDirectlyImpure effectsOf sources nodes id) :
    nodes.contains id = true := by
  obtain ⟨f, _, hf, _⟩ := h
  exact KeyMap.contains_iff.mpr ⟨f, hf⟩

theorem directReasons_eq_nil {effects : List Effect} {f : FunctionNode} {text : List String}
    {sameFile : List FunctionNode} :
    directReasons effects f text sameFile = [] ↔
      f.reasons = [] ∧ ∀ e ∈ effects, ¬ e.pattern.occursIn (ownBody f text sameFile) = true := by
  have hfold : ∀ (l found : List String), l.foldl
      (fun found reason => if found.contains reason then found else found ++ [reason]) found = [] ↔
        found = [] ∧ l = [] := by
    intro l
    induction l with
    | nil => simp
    | cons r rest ih =>
      intro found
      rw [List.foldl_cons, ih]
      by_cases hr : r ∈ found
      · have : found ≠ [] := List.ne_nil_of_mem hr
        simp [hr, this]
      · simp [hr]
  simp only [directReasons, hfold, Effect.reasonsIn, List.map_eq_nil_iff, List.filter_eq_nil_iff]

/-- What is found is a function with its reasons, of which there is one at least. -/
theorem of_mem_directlyImpure {effectsOf : String → List Effect} {sources : Sources}
    {nodes : KeyMap FunctionNode} {p : String × List String}
    (h : p ∈ directlyImpure effectsOf sources nodes) :
    p.2 ≠ [] ∧ ∃ f ∈ nodes.values, ∃ content, sources.get? f.file = some content ∧ p = (f.id,
      directReasons (effectsOf f.file) f (lines content) (nodes.values.filter (·.file == f.file))) := by
  have hm := KeyMap.mem_of_mem_ofList h
  obtain ⟨f, hf, hp⟩ := List.mem_filterMap.mp hm
  simp only [Option.bind_eq_bind, Option.bind_eq_some_iff, Option.ite_none_left_eq_some] at hp
  obtain ⟨content, hc, hr, hp⟩ := hp
  rw [← Option.some.inj hp]
  exact ⟨by simpa using hr, f, hf, content, hc, rfl⟩

/-- The functions found are those that are impure by themselves, if all are kept under their ids. -/
theorem mem_ids_directlyImpure {effectsOf : String → List Effect} {sources : Sources}
    {nodes : KeyMap FunctionNode} (hid : ∀ id f, nodes.get? id = some f → f.id = id) {id : String} :
    id ∈ (directlyImpure effectsOf sources nodes).map (·.1) ↔
      IsDirectlyImpure effectsOf sources nodes id := by
  rw [directlyImpure, show ∀ m : KeyMap (List String), m.toList.map (·.1) = m.keys from fun _ => rfl,
    KeyMap.mem_keys_ofList, List.mem_map]
  simp only [List.mem_filterMap, Option.bind_eq_bind, Option.bind_eq_some_iff,
    Option.ite_none_left_eq_some, List.isEmpty_iff, directReasons_eq_nil, KeyMap.mem_values]
  constructor
  · rintro ⟨p, ⟨f, ⟨k, hk⟩, content, hc, hr, hp⟩, rfl⟩
    rw [← Option.some.inj hp]
    refine ⟨f, content, by rw [hid k f hk]; exact hk, hc, ?_⟩
    simpa only [not_and_or, ne_eq, not_forall, not_not, exists_prop] using hr
  · rintro ⟨f, content, hf, hc, hr⟩
    refine ⟨(f.id, _), ⟨f, ⟨id, hf⟩, content, hc, ?_, rfl⟩, hid id f hf⟩
    simpa only [not_and_or, ne_eq, not_forall, not_not, exists_prop] using hr

/-! ## Marking -/

/-- Marks the functions of a list with their reasons. -/
def markAll (direct : List (String × List String)) (nodes : KeyMap FunctionNode) :
    KeyMap FunctionNode :=
  direct.foldl (fun nodes (id, reasons) =>
    nodes.modify id fun f => reasons.foldl FunctionNode.markImpure f) nodes

theorem bareNodes_modify (nodes : KeyMap FunctionNode) (id : String) (f : FunctionNode → FunctionNode)
    (hf : ∀ g, (f g).bare = g.bare) : bareNodes (nodes.modify id f) = bareNodes nodes := by
  apply KeyMap.ext_get?
  intro k
  rw [get?_bareNodes, get?_bareNodes, KeyMap.get?_modify]
  split_ifs with hk
  · subst hk
    rw [Option.map_map]
    exact congrArg (fun h => (nodes.get? k).map h) (funext hf)
  · rfl

theorem bareNodes_markAll (direct : List (String × List String)) (nodes : KeyMap FunctionNode) :
    bareNodes (markAll direct nodes) = bareNodes nodes := by
  induction direct generalizing nodes with
  | nil => rfl
  | cons p rest ih =>
    exact (ih _).trans (bareNodes_modify nodes p.1 _ fun g => g.bare_foldl_markImpure p.2)

theorem isImpure_markAll {direct : List (String × List String)} {nodes : KeyMap FunctionNode}
    (hr : ∀ p ∈ direct, p.2 ≠ []) (hk : ∀ p ∈ direct, nodes.contains p.1 = true) {id : String} :
    IsImpure (markAll direct nodes) id ↔ IsImpure nodes id ∨ id ∈ direct.map (·.1) := by
  induction direct generalizing nodes with
  | nil => simp [markAll]
  | cons p rest ih =>
    obtain ⟨k, reasons⟩ := p
    let nodes' := nodes.modify k fun f => reasons.foldl FunctionNode.markImpure f
    have hb : bareNodes nodes' = bareNodes nodes :=
      bareNodes_modify nodes k _ fun g => g.bare_foldl_markImpure reasons
    have hstep : IsImpure nodes' id ↔ id = k ∨ IsImpure nodes id := by
      obtain ⟨f, hf⟩ := KeyMap.contains_iff.mp (hk (k, reasons) (by simp))
      unfold IsImpure
      rw [KeyMap.get?_modify]
      by_cases hid : id = k
      · simp [hid, hf, FunctionNode.purity_foldl_markImpure f (hr (k, reasons) (by simp))]
      · simp [hid]
    have hrest : IsImpure (markAll rest nodes') id ↔ IsImpure nodes' id ∨ id ∈ rest.map (·.1) :=
      ih (fun q hq => hr q (List.mem_cons_of_mem _ hq))
        (fun q hq => (contains_congr_bare hb q.1).trans (hk q (List.mem_cons_of_mem _ hq)))
    rw [show markAll ((k, reasons) :: rest) nodes = markAll rest nodes' from rfl, hrest, hstep,
      List.map_cons, List.mem_cons]
    tauto

/-! ## One step of the worklist -/

/-- The callers that one step marks, and what it leaves as it is. -/
structure Spread (nodes : KeyMap FunctionNode) (ids : List String)
    (out : KeyMap FunctionNode × List String) : Prop where
  bare : bareNodes out.1 = bareNodes nodes
  found_iff : ∀ id, id ∈ out.2 ↔ id ∈ ids ∧ nodes.contains id = true ∧ ¬ IsImpure nodes id
  found_nodup : out.2.Nodup
  impure_iff : ∀ id, IsImpure out.1 id ↔ IsImpure nodes id ∨ id ∈ out.2

theorem infectCallers_spread (impure : String) (ids : List String) (nodes : KeyMap FunctionNode) :
    Spread nodes ids (infectCallers impure ids nodes) := by
  induction ids generalizing nodes with
  | nil => exact ⟨rfl, by simp [infectCallers], by simp [infectCallers], by simp [infectCallers]⟩
  | cons caller rest ih =>
    rw [infectCallers]
    cases hf : nodes.get? caller with
    | none =>
      have hc : nodes.contains caller = false := KeyMap.contains_eq_false.mpr hf
      obtain ⟨hb, hi, hn, hp⟩ := ih nodes
      refine ⟨hb, fun id => ?_, hn, hp⟩
      rw [hi, List.mem_cons]
      constructor
      · exact fun h => ⟨.inr h.1, h.2⟩
      · rintro ⟨rfl | h, hcid, hni⟩
        · simp [hc] at hcid
        · exact ⟨h, hcid, hni⟩
    | some f =>
      have hc : nodes.contains caller = true := KeyMap.contains_iff.mpr ⟨f, hf⟩
      by_cases hpur : f.purity = .impure
      · have himp : IsImpure nodes caller := ⟨f, hf, hpur⟩
        obtain ⟨hb, hi, hn, hp⟩ := ih nodes
        simp only [hpur, beq_self_eq_true, if_true]
        refine ⟨hb, fun id => ?_, hn, hp⟩
        rw [hi, List.mem_cons]
        constructor
        · exact fun h => ⟨.inr h.1, h.2⟩
        · rintro ⟨rfl | h, hcid, hni⟩
          · exact absurd himp hni
          · exact ⟨h, hcid, hni⟩
      · have hnot : ¬ IsImpure nodes caller := by
          rintro ⟨g, hg, hgp⟩
          rw [hf] at hg
          exact hpur (Option.some.inj hg ▸ hgp)
        let f' := f.markImpure ("calls impure function " ++ impure)
        have hb' : bareNodes (nodes.insert caller f') = bareNodes nodes := bareNodes_insert hf rfl
        have hi' : ∀ id, IsImpure (nodes.insert caller f') id ↔ id = caller ∨ IsImpure nodes id :=
          fun id => isImpure_insert rfl
        obtain ⟨hb, hi, hn, hp⟩ := ih (nodes.insert caller f')
        simp only [beq_eq_false_iff_ne.mpr hpur, Bool.false_eq_true, if_false]
        refine ⟨hb.trans hb', fun id => ?_, ?_, fun id => ?_⟩
        · rw [List.mem_cons, List.mem_cons, hi, contains_congr_bare hb', hi']
          constructor
          · rintro (rfl | ⟨h, hcid, hni⟩)
            · exact ⟨.inl rfl, hc, hnot⟩
            · exact ⟨.inr h, hcid, fun h' => hni (.inr h')⟩
          · rintro ⟨h, hcid, hni⟩
            by_cases hid : id = caller
            · exact .inl hid
            · exact .inr ⟨h.resolve_left hid, hcid, by tauto⟩
        · refine List.nodup_cons.mpr ⟨fun h => ?_, hn⟩
          exact ((hi caller).mp h).2.2 ((hi' caller).mpr (.inl rfl))
        · rw [hp, hi', List.mem_cons]
          tauto

/-! ## The whole run -/

/-- A call between two different known functions. -/
def KnownCall (calls : List Call) (nodes : KeyMap FunctionNode) (a b : String) : Prop :=
  ⟨a, b⟩ ∈ calls ∧ a ≠ b ∧ nodes.contains a = true ∧ nodes.contains b = true

theorem mem_callerIndex {calls : List Call} {a b : String} :
    a ∈ (((callerIndex calls).get? b).map (·.toList)).getD [] ↔ ⟨a, b⟩ ∈ calls ∧ a ≠ b := by
  have h := KeySet.mem_getD_foldl_upsert (·.callee) (·.caller)
    (calls.filter fun c => c.caller != c.callee) .empty b a
  rw [show (((callerIndex calls).get? b).map (·.toList)).getD [] =
    (((callerIndex calls).get? b).getD .empty).toList by cases (callerIndex calls).get? b <;> rfl,
    KeySet.mem_toList, callerIndex, h]
  simp only [KeyMap.get?_empty, Option.getD_none, KeySet.not_mem_empty, false_or, List.mem_filter,
    bne_iff_ne]
  constructor
  · rintro ⟨⟨x, y⟩, ⟨hc, hne⟩, rfl, rfl⟩
    exact ⟨hc, hne⟩
  · exact fun h => ⟨⟨a, b⟩, h, rfl, rfl⟩

/-- The state of the worklist: the callers of what is done have been looked at, those of the queue
have not, and everything impure has a chain of calls to a root. -/
structure Infection (calls : List Call) (start : KeyMap FunctionNode) (roots done queue : List String)
    (nodes : KeyMap FunctionNode) : Prop where
  bare : bareNodes nodes = bareNodes start
  impure_iff : ∀ id, IsImpure nodes id ↔ id ∈ done ∨ id ∈ queue
  nodup : (done ++ queue).Nodup
  closed : ∀ b ∈ done, ∀ a, KnownCall calls start a b → IsImpure nodes a
  sound : ∀ id, IsImpure nodes id → ∃ d ∈ roots, ReflTransGen (KnownCall calls start) id d

theorem Infection.step {calls : List Call} {start nodes : KeyMap FunctionNode}
    {roots done queue : List String} {b : String}
    (h : Infection calls start roots done (b :: queue) nodes) {out : KeyMap FunctionNode × List String}
    (hs : Spread nodes ((((callerIndex calls).get? b).map (·.toList)).getD []) out) :
    Infection calls start roots (done ++ [b]) (queue ++ out.2) out.1 := by
  have hb : IsImpure nodes b := (h.impure_iff b).mpr (.inr (by simp))
  have hknown : ∀ id, nodes.contains id = start.contains id := contains_congr_bare h.bare
  refine ⟨hs.bare.trans h.bare, fun id => ?_, ?_, ?_, ?_⟩
  · rw [hs.impure_iff, h.impure_iff]
    simp only [List.mem_append, List.mem_cons, List.not_mem_nil, or_false]
    tauto
  · have hperm : done ++ [b] ++ (queue ++ out.2) = (done ++ b :: queue) ++ out.2 := by simp
    rw [hperm]
    refine List.Nodup.append h.nodup hs.found_nodup ?_
    intro id hid hfound
    refine ((hs.found_iff id).mp hfound).2.2 ((h.impure_iff id).mpr ?_)
    simpa [List.mem_append] using hid
  · intro c hc a hcall
    rw [hs.impure_iff]
    rcases List.mem_append.mp hc with hc | hc
    · exact .inl (h.closed c hc a hcall)
    · rw [List.mem_singleton] at hc
      subst hc
      by_cases ha : IsImpure nodes a
      · exact .inl ha
      · refine .inr ((hs.found_iff a).mpr ⟨mem_callerIndex.mpr ⟨hcall.1, hcall.2.1⟩, ?_, ha⟩)
        rw [hknown]
        exact hcall.2.2.1
  · intro id hid
    rcases (hs.impure_iff id).mp hid with hid | hid
    · exact h.sound id hid
    · obtain ⟨hcaller, hc, _⟩ := (hs.found_iff id).mp hid
      obtain ⟨hmem, hne⟩ := mem_callerIndex.mp hcaller
      obtain ⟨d, hd, hchain⟩ := h.sound b hb
      rw [hknown] at hc
      exact ⟨d, hd, .head ⟨hmem, hne, hc, by rw [← hknown]; exact hb.contains⟩ hchain⟩

/-- The functions that are done are different functions of the graph. -/
theorem Infection.length_le {calls : List Call} {start nodes : KeyMap FunctionNode}
    {roots done queue : List String} (h : Infection calls start roots done queue nodes) :
    (done ++ queue).length ≤ start.size := by
  rw [KeyMap.size_eq_length_keys, ← keys_congr_bare h.bare]
  refine (List.subperm_of_subset h.nodup fun id hid => ?_).length_le
  obtain ⟨f, hf, _⟩ := (h.impure_iff id).mpr (List.mem_append.mp hid)
  exact KeyMap.mem_keys.mpr ⟨f, hf⟩

/-- What holds at the start and is kept by every step holds when the worklist is empty. -/
theorem infect_induction {calls : List Call} {start : KeyMap FunctionNode} {roots : List String}
    {motive : List String → List String → KeyMap FunctionNode → Prop}
    (infection : ∀ {done queue nodes}, motive done queue nodes →
      Infection calls start roots done queue nodes)
    (step : ∀ {done b queue nodes}, motive done (b :: queue) nodes →
      let out := infectCallers b ((((callerIndex calls).get? b).map (·.toList)).getD []) nodes
      motive (done ++ [b]) (queue ++ out.2) out.1)
    (fuel : Nat) {done queue : List String} {nodes : KeyMap FunctionNode} (h : motive done queue nodes)
    (hfuel : start.size < fuel + done.length) :
    ∃ done', motive done' [] (infect (callerIndex calls) fuel queue nodes) := by
  induction fuel generalizing done queue nodes with
  | zero =>
    -- the nodes done and queued are distinct nodes of the table, so the fuel cannot run out
    have := (infection h).length_le
    rw [List.length_append] at this
    omega
  | succ fuel ih =>
    cases queue with
    | nil => exact ⟨done, h⟩
    | cons b queue =>
      exact ih (step h) (by rw [List.length_append, List.length_singleton]; omega)

theorem Infection.run {calls : List Call} {start : KeyMap FunctionNode} {roots : List String}
    (fuel : Nat) {done queue : List String} {nodes : KeyMap FunctionNode}
    (h : Infection calls start roots done queue nodes) (hfuel : start.size < fuel + done.length) :
    ∃ done', Infection calls start roots done' []
      (infect (callerIndex calls) fuel queue nodes) ∧ ∀ id, id ∈ done ∨ id ∈ queue → id ∈ done' := by
  let kept (done' queue' : List String) (nodes' : KeyMap FunctionNode) : Prop :=
    Infection calls start roots done' queue' nodes' ∧
      ∀ id, id ∈ done ∨ id ∈ queue → id ∈ done' ∨ id ∈ queue'
  obtain ⟨done', hdone, hsub⟩ := infect_induction (motive := kept) (fun h => h.1)
    (fun {_ b _ nodes'} h => ⟨h.1.step (infectCallers_spread b _ nodes'), fun id hid => by
      have := h.2 id hid
      simp only [List.mem_append, List.mem_cons, List.not_mem_nil, or_false] at this ⊢
      tauto⟩)
    fuel ⟨h, fun _ hid => hid⟩ hfuel
  exact ⟨done', hdone, fun id hid => (hsub id hid).resolve_right List.not_mem_nil⟩

/-- What the run leaves impure is what calls an impure root, directly or through others. -/
theorem isImpure_infect (calls : List Call) {start nodes : KeyMap FunctionNode} {roots : List String}
    (hb : bareNodes nodes = bareNodes start) (hn : roots.Nodup)
    (hi : ∀ id, IsImpure nodes id ↔ id ∈ roots) (id : String) :
    IsImpure (infect (callerIndex calls) (start.size + 1) roots nodes) id ↔
      ∃ d ∈ roots, ReflTransGen (KnownCall calls start) id d := by
  have h : Infection calls start roots [] roots nodes :=
    ⟨hb, by simpa using hi, by simpa using hn, by simp, fun a ha => ⟨a, (hi a).mp ha, .refl⟩⟩
  obtain ⟨done, hdone, hsub⟩ := h.run (start.size + 1) (by simp)
  constructor
  · exact hdone.sound id
  · rintro ⟨d, hd, hchain⟩
    induction hchain using ReflTransGen.head_induction_on with
    | refl => exact (hdone.impure_iff d).mpr (.inl (hsub d (.inr hd)))
    | head hcall _ ih =>
      exact hdone.closed _ (by simpa using (hdone.impure_iff _).mp ih) _ hcall

theorem bareNodes_infect (callers : KeyMap KeySet) (fuel : Nat) (queue : List String)
    (nodes : KeyMap FunctionNode) : bareNodes (infect callers fuel queue nodes) = bareNodes nodes := by
  induction fuel generalizing queue nodes with
  | zero => rfl
  | succ fuel ih =>
    cases queue with
    | nil => rfl
    | cons b queue => exact (ih _ _).trans (infectCallers_spread b _ nodes).bare

/-! ## The inference as a whole -/

/-- The inference changes nothing but purity and reasons. -/
theorem bareNodes_inferPurity (effectsOf : String → List Effect) (sources : Sources)
    (calls : List Call) (nodes : KeyMap FunctionNode) :
    bareNodes (inferPurity effectsOf sources calls nodes) = bareNodes nodes := by
  have hsettle : ∀ m : KeyMap FunctionNode, bareNodes (m.map fun _ f => f.settle) = bareNodes m := by
    intro m
    apply KeyMap.ext_get?
    intro k
    rw [get?_bareNodes, get?_bareNodes, KeyMap.get?_map, Option.map_map]
    exact congrArg (fun h => (m.get? k).map h) (funext FunctionNode.bare_settle)
  exact (hsettle _).trans ((bareNodes_infect _ _ _ _).trans (bareNodes_markAll _ nodes))

/-- The functions from which impurity spreads, with their reasons. -/
def directRoots (effectsOf : String → List Effect) (sources : Sources)
    (nodes : KeyMap FunctionNode) : List (String × List String) :=
  (directlyImpure effectsOf sources nodes).filter fun (id, _) => nodes.contains id

theorem inferPurity_eq (effectsOf : String → List Effect) (sources : Sources) (calls : List Call)
    (nodes : KeyMap FunctionNode) :
    let roots := directRoots effectsOf sources nodes
    inferPurity effectsOf sources calls nodes =
      (infect (callerIndex calls) (nodes.size + 1) (roots.map (·.1)) (markAll roots nodes)).map
        fun _ f => f.settle := rfl

theorem mem_directRoots {effectsOf : String → List Effect} {sources : Sources}
    {nodes : KeyMap FunctionNode} (hid : ∀ id f, nodes.get? id = some f → f.id = id) {id : String} :
    id ∈ (directRoots effectsOf sources nodes).map (·.1) ↔
      IsDirectlyImpure effectsOf sources nodes id := by
  rw [← mem_ids_directlyImpure hid, List.mem_map, List.mem_map]
  constructor
  · rintro ⟨p, hp, rfl⟩
    exact ⟨p, (List.mem_filter.mp hp).1, rfl⟩
  · rintro ⟨p, hp, rfl⟩
    have hdirect := (mem_ids_directlyImpure hid).mp (List.mem_map_of_mem hp)
    exact ⟨p, List.mem_filter.mpr ⟨hp, hdirect.contains⟩, rfl⟩

theorem directRoots_nodup (effectsOf : String → List Effect) (sources : Sources)
    (nodes : KeyMap FunctionNode) : ((directRoots effectsOf sources nodes).map (·.1)).Nodup :=
  (KeyMap.keys_nodup _).sublist (List.filter_sublist.map _)

theorem isImpure_markAll_directRoots {effectsOf : String → List Effect} {sources : Sources}
    {nodes : KeyMap FunctionNode} (hpure : ∀ id, ¬ IsImpure nodes id) {id : String} :
    IsImpure (markAll (directRoots effectsOf sources nodes) nodes) id ↔
      id ∈ (directRoots effectsOf sources nodes).map (·.1) := by
  unfold directRoots
  rw [isImpure_markAll (fun p hp => (of_mem_directlyImpure (List.mem_filter.mp hp).1).1)
    fun p hp => (List.mem_filter.mp hp).2]
  exact or_iff_right (hpure id)

/-- Turning what is left unknown into pure leaves the impure functions as they are. -/
theorem isImpure_settle {nodes : KeyMap FunctionNode} {id : String} :
    IsImpure (nodes.map fun _ f => f.settle) id ↔ IsImpure nodes id := by
  unfold IsImpure
  rw [KeyMap.get?_map]
  cases nodes.get? id with
  | none => simp
  | some f => by_cases hp : f.purity = .impure <;> simp [f.purity_settle, hp]

/-- Where nothing is impure at the start, a function ends up impure if it is so by itself or calls
such a function, directly or through others. -/
theorem isImpure_inferPurity {effectsOf : String → List Effect} {sources : Sources}
    {calls : List Call} {nodes : KeyMap FunctionNode}
    (hid : ∀ id f, nodes.get? id = some f → f.id = id) (hpure : ∀ id, ¬ IsImpure nodes id)
    {id : String} : IsImpure (inferPurity effectsOf sources calls nodes) id ↔
      ∃ d, IsDirectlyImpure effectsOf sources nodes d ∧
        ReflTransGen (KnownCall calls nodes) id d := by
  have hrun := isImpure_infect calls (bareNodes_markAll (directRoots effectsOf sources nodes) nodes)
    (directRoots_nodup ..) (fun _ => isImpure_markAll_directRoots hpure) id
  rw [inferPurity_eq, isImpure_settle, hrun]
  simp only [mem_directRoots hid]

theorem purity_inferPurity {effectsOf : String → List Effect} {sources : Sources}
    {calls : List Call} {nodes : KeyMap FunctionNode}
    (hid : ∀ id f, nodes.get? id = some f → f.id = id) (hpure : ∀ id, ¬ IsImpure nodes id)
    {id : String} {f : FunctionNode}
    (hf : (inferPurity effectsOf sources calls nodes).get? id = some f) :
    f.purity ≠ .unknown ∧ (f.purity = .impure ↔
      ∃ d, IsDirectlyImpure effectsOf sources nodes d ∧
        ReflTransGen (KnownCall calls nodes) id d) := by
  have himpure : f.purity = .impure ↔ IsImpure (inferPurity effectsOf sources calls nodes) id := by
    simp [IsImpure, hf]
  refine ⟨?_, himpure.trans (isImpure_inferPurity hid hpure)⟩
  rw [inferPurity_eq, KeyMap.get?_map, Option.map_eq_some_iff] at hf
  obtain ⟨g, _, rfl⟩ := hf
  rw [g.purity_settle]
  split_ifs <;> simp

end SymbolGraph
