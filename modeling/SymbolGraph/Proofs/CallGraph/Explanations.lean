import Mathlib.Order.Lattice.Nat
import SymbolGraph.Proofs.CallGraph.Infection
import SymbolGraph.Proofs.Walks

/-!
# Why a function is impure

A function ends up impure exactly if a chain of calls between known functions leads from it to one that
is impure by itself. The worklist is a breadth-first search from these, so the call that a function is
blamed for starts a shortest such chain: the queue holds functions of at most two depths, the smaller
depth first, and whatever has a smaller depth than its head is done.
-/
namespace SymbolGraph
open Text Relation

/-! ## Chains of calls -/

/-- Known functions, each of which calls the next. -/
def CallChain (calls : List Call) (nodes : KeyMap FunctionNode) (a b : String)
    (chain : List String) : Prop :=
  IsWalk (fun x y => ⟨x, y⟩ ∈ calls) a b chain ∧ ∀ n ∈ chain, nodes.contains n = true

/-- The numbers of calls on the chains from a function to a target. -/
def callSteps (calls : List Call) (nodes : KeyMap FunctionNode) (target : String → Prop) (id : String) :
    Set Nat :=
  {k | ∃ d chain, target d ∧ CallChain calls nodes id d chain ∧ chain.length = k + 1}

section
variable {calls : List Call} {nodes : KeyMap FunctionNode} {target : String → Prop} {a b : String}

theorem CallChain.cons {chain : List String} (hcall : ⟨a, b⟩ ∈ calls)
    (ha : nodes.contains a = true) {c : String} (h : CallChain calls nodes b c chain) :
    CallChain calls nodes a c (a :: chain) :=
  ⟨.cons hcall h.1, fun n hn => by
    rcases List.mem_cons.1 hn with rfl | hn
    · exact ha
    · exact h.2 n hn⟩

/-- Calls of a function to itself can be left out of a chain. -/
theorem CallChain.reaches {chain : List String} (h : CallChain calls nodes a b chain) :
    ReflTransGen (KnownCall calls nodes) a b := by
  obtain ⟨walk, known⟩ := h
  induction walk with
  | single a => exact .refl
  | @cons a c _ w first rest ih =>
    have hrest := ih fun n hn => known n (List.mem_cons_of_mem a hn)
    by_cases hac : a = c
    · rw [hac]
      exact hrest
    · have hc : nodes.contains c = true := known c (List.mem_cons_of_mem a rest.start_mem)
      exact .head ⟨first, hac, known a (by simp), hc⟩ hrest

theorem exists_callChain (h : ReflTransGen (KnownCall calls nodes) a b)
    (hb : nodes.contains b = true) : ∃ chain, CallChain calls nodes a b chain := by
  induction h using ReflTransGen.head_induction_on with
  | refl => exact ⟨[b], .single b, by simpa using hb⟩
  | head first _ ih =>
    obtain ⟨chain, hchain⟩ := ih
    exact ⟨_, hchain.cons first.1 first.2.2.1⟩

variable {roots : List String}

theorem callSteps_nonempty (hroots : ∀ d ∈ roots, nodes.contains d = true) :
    (callSteps calls nodes (· ∈ roots) a).Nonempty ↔
      ∃ d ∈ roots, ReflTransGen (KnownCall calls nodes) a d := by
  constructor
  · rintro ⟨_, d, chain, hd, hchain, _⟩
    exact ⟨d, hd, hchain.reaches⟩
  · rintro ⟨d, hd, h⟩
    obtain ⟨chain, hchain⟩ := exists_callChain h (hroots d hd)
    have hpos : 0 < chain.length := List.length_pos_iff.2 hchain.1.ne_nil
    exact ⟨chain.length - 1, d, chain, hd, hchain, by omega⟩

theorem zero_mem_callSteps (htarget : ∀ d, target d → nodes.contains d = true) :
    0 ∈ callSteps calls nodes target a ↔ target a := by
  constructor
  · rintro ⟨d, chain, hd, ⟨walk, _⟩, hlength⟩
    obtain ⟨x, rfl⟩ := List.length_eq_one_iff.1 hlength
    obtain ⟨rfl, rfl⟩ := walk.eq_of_singleton
    exact hd
  · intro ha
    exact ⟨a, [a], ha, ⟨.single a, by simpa using htarget a ha⟩, rfl⟩

theorem succ_mem_callSteps {k : Nat} :
    k + 1 ∈ callSteps calls nodes target a ↔
      ∃ b, ⟨a, b⟩ ∈ calls ∧ nodes.contains a = true ∧ k ∈ callSteps calls nodes target b := by
  constructor
  · rintro ⟨d, chain, hd, ⟨walk, known⟩, hlength⟩
    cases walk with
    | single => simp at hlength
    | @cons _ b _ w first rest =>
      have hw : w.length = k + 1 := by simpa using hlength
      exact ⟨b, first, known a (by simp), d, w, hd,
        ⟨rest, fun n hn => known n (List.mem_cons_of_mem a hn)⟩, hw⟩
  · rintro ⟨b, hcall, ha, d, chain, hd, hchain, hlength⟩
    exact ⟨d, a :: chain, hd, hchain.cons hcall ha, by simp [hlength]⟩

/-! ## Depth -/

/-- The least number of calls to a root. -/
noncomputable def callDepth (calls : List Call) (nodes : KeyMap FunctionNode) (roots : List String)
    (id : String) : Nat :=
  sInf (callSteps calls nodes (· ∈ roots) id)

theorem isLeast_callDepth (h : (callSteps calls nodes (· ∈ roots) a).Nonempty) :
    IsLeast (callSteps calls nodes (· ∈ roots) a) (callDepth calls nodes roots a) :=
  ⟨Nat.sInf_mem h, fun _ hk => Nat.sInf_le hk⟩

theorem callDepth_of_root (hroots : ∀ d ∈ roots, nodes.contains d = true) (ha : a ∈ roots) :
    callDepth calls nodes roots a = 0 := by
  have h0 : 0 ∈ callSteps calls nodes (· ∈ roots) a := (zero_mem_callSteps hroots).2 ha
  have : callDepth calls nodes roots a ≤ 0 := Nat.sInf_le h0
  omega

theorem callDepth_le (hcall : KnownCall calls nodes a b)
    (hb : (callSteps calls nodes (· ∈ roots) b).Nonempty) :
    callDepth calls nodes roots a ≤ callDepth calls nodes roots b + 1 :=
  Nat.sInf_le (succ_mem_callSteps.2 ⟨b, hcall.1, hcall.2.2.1, Nat.sInf_mem hb⟩)

/-- Behind a function that is no root stands a call that leads one step nearer to one. -/
theorem exists_nearer_call (hroots : ∀ d ∈ roots, nodes.contains d = true)
    (h : (callSteps calls nodes (· ∈ roots) a).Nonempty) (ha : a ∉ roots) :
    ∃ b, KnownCall calls nodes a b ∧ (callSteps calls nodes (· ∈ roots) b).Nonempty ∧
      callDepth calls nodes roots a = callDepth calls nodes roots b + 1 := by
  have hleast := isLeast_callDepth h
  cases hk : callDepth calls nodes roots a with
  | zero =>
    rw [hk] at hleast
    exact absurd ((zero_mem_callSteps hroots).1 hleast.1) ha
  | succ k =>
    rw [hk] at hleast
    obtain ⟨b, hcall, hknown, hb⟩ := succ_mem_callSteps.1 hleast.1
    have hle : callDepth calls nodes roots b ≤ k := Nat.sInf_le hb
    have hge : k + 1 ≤ callDepth calls nodes roots b + 1 :=
      hleast.2 (succ_mem_callSteps.2 ⟨b, hcall, hknown, Nat.sInf_mem ⟨k, hb⟩⟩)
    have hne : a ≠ b := by
      rintro rfl
      omega
    have hknown' : nodes.contains b = true := by
      obtain ⟨d, chain, _, hchain, _⟩ := hb
      exact hchain.2 b hchain.1.start_mem
    exact ⟨b, ⟨hcall, hne, hknown, hknown'⟩, ⟨k, hb⟩, by omega⟩

end

/-! ## The order of the worklist -/

/-- The reason of a function that is impure because it calls another. -/
def callReason (id : String) : String := "calls impure function " ++ id

/-- The state of the worklist by depth. The queue ascends and spans two depths at most; what is impure
without being a root was marked for a call that starts a shortest chain; the rest is as it was. -/
structure Layered (calls : List Call) (start marked : KeyMap FunctionNode) (roots done queue : List String)
    (nodes : KeyMap FunctionNode) : Prop extends Infection calls start roots done queue nodes where
  rooted : ∀ d ∈ roots, IsImpure nodes d
  ordered : queue.Pairwise fun a b =>
    callDepth calls start roots a ≤ callDepth calls start roots b ∧
      callDepth calls start roots b ≤ callDepth calls start roots a + 1
  kept : ∀ id, id ∈ roots ∨ ¬ IsImpure nodes id → nodes.get? id = marked.get? id
  explained : ∀ id, IsImpure nodes id → id ∉ roots → ∃ f b, marked.get? id = some f ∧
    nodes.get? id = some (f.markImpure (callReason b)) ∧ KnownCall calls start id b ∧
    IsImpure nodes b ∧ callDepth calls start roots id = callDepth calls start roots b + 1

/-- A step marks the callers it finds and leaves all else alone. -/
theorem get?_infectCallers (impure : String) (ids : List String) (nodes : KeyMap FunctionNode)
    (id : String) : (infectCallers impure ids nodes).1.get? id =
      if id ∈ (infectCallers impure ids nodes).2 then
        (nodes.get? id).map (·.markImpure (callReason impure))
      else nodes.get? id := by
  unfold callReason
  induction ids generalizing nodes with
  | nil => simp [infectCallers]
  | cons caller rest ih =>
    rw [infectCallers]
    cases hf : nodes.get? caller with
    | none => exact ih nodes
    | some f =>
      by_cases hp : f.purity = .impure
      · simpa only [hp, beq_self_eq_true, if_true] using ih nodes
      · simp only [beq_eq_false_iff_ne.mpr hp, Bool.false_eq_true, if_false, List.mem_cons]
        generalize hn : nodes.insert caller (f.markImpure ("calls impure function " ++ impure)) = nodes'
        -- the caller is impure from here on, so it is not found again
        have hcaller : caller ∉ (infectCallers impure rest nodes').2 := by
          intro hmem
          have hnot := ((infectCallers_spread impure rest nodes').found_iff caller).1 hmem
          rw [← hn] at hnot
          exact hnot.2.2 ((isImpure_insert rfl).2 (.inl rfl))
        rw [ih nodes', ← hn, KeyMap.get?_insert, hn]
        by_cases hid : id = caller
        · subst hid
          simp [hcaller, hf]
        · simp [hid]

namespace Layered

variable {calls : List Call} {start marked nodes : KeyMap FunctionNode}
  {roots done queue : List String} {a b : String}

theorem known_of_root (h : Layered calls start marked roots done queue nodes) {d : String}
    (hd : d ∈ roots) : start.contains d = true := by
  rw [← contains_congr_bare h.bare]
  exact (h.rooted d hd).contains

theorem callSteps_of_isImpure (h : Layered calls start marked roots done queue nodes)
    (ha : IsImpure nodes a) : (callSteps calls start (· ∈ roots) a).Nonempty :=
  (callSteps_nonempty fun _ => h.known_of_root).2 (h.sound a ha)

theorem depth_le_of_mem (h : Layered calls start marked roots done (b :: queue) nodes)
    (ha : a ∈ b :: queue) :
    callDepth calls start roots b ≤ callDepth calls start roots a := by
  rcases List.mem_cons.1 ha with rfl | ha
  · exact le_rfl
  · exact ((List.pairwise_cons.1 h.ordered).1 a ha).1

/-- What has a smaller depth than the head of the queue is done. -/
theorem mem_done_of_lt (h : Layered calls start marked roots done (b :: queue) nodes)
    (ha : (callSteps calls start (· ∈ roots) a).Nonempty)
    (hlt : callDepth calls start roots a < callDepth calls start roots b) : a ∈ done := by
  -- an impure function that is not done is in the queue, which begins with the smallest depth
  have done_of_isImpure : ∀ c, IsImpure nodes c →
      callDepth calls start roots c < callDepth calls start roots b → c ∈ done := by
    intro c hc hlt
    rcases (h.impure_iff c).1 hc with hdone | hqueue
    · exact hdone
    · have := h.depth_le_of_mem hqueue
      omega
  generalize hk : callDepth calls start roots a = k at hlt
  induction k using Nat.strong_induction_on generalizing a with
  | h k ih =>
    refine done_of_isImpure a ?_ (hk ▸ hlt)
    by_cases hroot : a ∈ roots
    · exact h.rooted a hroot
    · obtain ⟨c, hcall, hc, hdepth⟩ := exists_nearer_call (fun _ => h.known_of_root) ha hroot
      have hdone : c ∈ done := ih _ (by omega) hc rfl (by omega)
      exact h.closed c hdone a hcall

/-- The callers found behind the head of the queue are one call deeper. -/
theorem depth_of_found (h : Layered calls start marked roots done (b :: queue) nodes)
    (hcall : KnownCall calls start a b) (ha : ¬ IsImpure nodes a) :
    callDepth calls start roots a = callDepth calls start roots b + 1 := by
  have hb : IsImpure nodes b := (h.impure_iff b).2 (.inr (by simp))
  have hsteps := h.callSteps_of_isImpure hb
  have hle := callDepth_le hcall hsteps
  have hroot : a ∉ roots := fun hmem => ha (h.rooted a hmem)
  have hsteps' : (callSteps calls start (· ∈ roots) a).Nonempty :=
    ⟨_, succ_mem_callSteps.2 ⟨b, hcall.1, hcall.2.2.1, hsteps.some_mem⟩⟩
  obtain ⟨c, hcall', hc, hdepth⟩ := exists_nearer_call (fun _ => h.known_of_root) hsteps' hroot
  -- a nearer callee would be done, and its callers marked
  by_contra hne
  have hdone : c ∈ done := h.mem_done_of_lt hc (by omega)
  exact ha (h.closed c hdone a hcall')

theorem step (h : Layered calls start marked roots done (b :: queue) nodes) :
    let out := infectCallers b ((((callerIndex calls).get? b).map (·.toList)).getD []) nodes
    Layered calls start marked roots (done ++ [b]) (queue ++ out.2) out.1 := by
  intro out
  have hs : Spread nodes _ out := infectCallers_spread b _ nodes
  have hget : ∀ id, out.1.get? id = if id ∈ out.2 then
      (nodes.get? id).map (·.markImpure (callReason b)) else nodes.get? id :=
    get?_infectCallers b _ nodes
  have hb : IsImpure nodes b := (h.impure_iff b).2 (.inr (by simp))
  have hfound : ∀ a ∈ out.2, KnownCall calls start a b ∧ ¬ IsImpure nodes a := by
    intro a ha
    obtain ⟨hcaller, hknown, hpure⟩ := (hs.found_iff a).1 ha
    obtain ⟨hcall, hne⟩ := mem_callerIndex.1 hcaller
    rw [contains_congr_bare h.bare] at hknown
    have hb' : start.contains b = true := by
      rw [← contains_congr_bare h.bare]
      exact hb.contains
    exact ⟨⟨hcall, hne, hknown, hb'⟩, hpure⟩
  have hdepth : ∀ a ∈ out.2,
      callDepth calls start roots a = callDepth calls start roots b + 1 :=
    fun a ha => h.depth_of_found (hfound a ha).1 (hfound a ha).2
  obtain ⟨hhead, htail⟩ := List.pairwise_cons.1 h.ordered
  refine ⟨h.toInfection.step hs, ?_, ?_, ?_, ?_⟩
  · exact fun d hd => (hs.impure_iff d).2 (.inl (h.rooted d hd))
  · refine List.pairwise_append.2 ⟨htail, ?_, ?_⟩
    · refine List.pairwise_of_forall_mem_list fun x hx y hy => ?_
      have := hdepth x hx
      have := hdepth y hy
      omega
    · intro x hx y hy
      have := hhead x hx
      have := hdepth y hy
      omega
  · intro id hid
    have hpure : id ∈ roots ∨ ¬ IsImpure nodes id :=
      hid.imp_right fun hn himp => hn ((hs.impure_iff id).2 (.inl himp))
    have hnot : id ∉ out.2 := by
      intro hmem
      rcases hid with hroot | hn
      · exact (hfound id hmem).2 (h.rooted id hroot)
      · exact hn ((hs.impure_iff id).2 (.inr hmem))
    rw [hget, if_neg hnot]
    exact h.kept id hpure
  · intro id himp hroot
    by_cases hmem : id ∈ out.2
    · obtain ⟨hcall, hpure⟩ := hfound id hmem
      obtain ⟨f, hf⟩ := KeyMap.contains_iff.1 ((hs.found_iff id).1 hmem).2.1
      refine ⟨f, b, ?_, ?_, hcall, (hs.impure_iff b).2 (.inl hb), hdepth id hmem⟩
      · rw [← h.kept id (.inr hpure), hf]
      · rw [hget, if_pos hmem, hf, Option.map_some]
    · have himp' : IsImpure nodes id := ((hs.impure_iff id).1 himp).resolve_right hmem
      obtain ⟨f, c, hmarked, hnodes, hcall, hc, hdeep⟩ := h.explained id himp' hroot
      refine ⟨f, c, hmarked, ?_, hcall, (hs.impure_iff c).2 (.inl hc), hdeep⟩
      rw [hget, if_neg hmem, hnodes]

end Layered

theorem layered_infect (calls : List Call) {start marked : KeyMap FunctionNode} {roots : List String}
    (hb : bareNodes marked = bareNodes start) (hn : roots.Nodup)
    (hi : ∀ id, IsImpure marked id ↔ id ∈ roots) :
    ∃ done, Layered calls start marked roots done []
      (infect (callerIndex calls) (start.size + 1) roots marked) := by
  have hroot : ∀ d ∈ roots, start.contains d = true := by
    intro d hd
    rw [← contains_congr_bare hb]
    exact ((hi d).2 hd).contains
  have hzero : ∀ d ∈ roots, callDepth calls start roots d = 0 :=
    fun d hd => callDepth_of_root hroot hd
  have hstart : Layered calls start marked roots [] roots marked := by
    refine ⟨⟨hb, by simpa using hi, by simpa using hn, by simp, ?_⟩, ?_, ?_, ?_, ?_⟩
    · exact fun a ha => ⟨a, (hi a).1 ha, .refl⟩
    · exact fun d hd => (hi d).2 hd
    · refine List.pairwise_of_forall_mem_list fun x hx y hy => ?_
      have := hzero x hx
      have := hzero y hy
      omega
    · exact fun _ _ => rfl
    · exact fun id himp hnot => absurd ((hi id).1 himp) hnot
  exact infect_induction (fun h => h.toInfection) Layered.step (start.size + 1) hstart (by simp)

/-! ## Reasons found in a function itself -/

theorem FunctionNode.eq_of_bare_eq {f g : FunctionNode} (h : f.bare = g.bare) :
    { f with purity := g.purity, reasons := g.reasons } = g := by
  cases f
  cases g
  simpa [bare] using h

theorem FunctionNode.mem_reasons_markImpure {f : FunctionNode} {reason r : String} :
    r ∈ (f.markImpure reason).reasons ↔ r ∈ f.reasons ∨ r = reason := by
  by_cases hr : reason ∈ f.reasons
  · simp only [markImpure, List.contains_iff_mem, hr, if_true]
    grind
  · simp [markImpure, hr]

theorem FunctionNode.mem_reasons_foldl_markImpure {f : FunctionNode} {reasons : List String} {r : String} :
    r ∈ (reasons.foldl markImpure f).reasons ↔ r ∈ f.reasons ∨ r ∈ reasons := by
  induction reasons generalizing f with
  | nil => simp
  | cons reason rest ih =>
    rw [List.foldl_cons, ih, mem_reasons_markImpure, List.mem_cons, or_assoc]

theorem mem_directReasons {effects : List Effect} {f : FunctionNode} {text : List String}
    {sameFile : List FunctionNode} {r : String} :
    r ∈ directReasons effects f text sameFile ↔ r ∈ f.reasons ∨
      ∃ e ∈ effects, e.pattern.occursIn (ownBody f text sameFile) = true ∧ e.reason = r := by
  have hfold : ∀ l found : List String, r ∈ l.foldl
      (fun found reason => if found.contains reason then found else found ++ [reason]) found ↔
        r ∈ found ∨ r ∈ l := by
    intro l
    induction l with
    | nil => simp
    | cons reason rest ih =>
      intro found
      rw [List.foldl_cons, ih]
      by_cases hr : reason ∈ found
      · simp only [List.contains_iff_mem, hr, if_true, List.mem_cons]
        grind
      · simp [hr, or_assoc]
  simp only [directReasons, hfold, Effect.reasonsIn, List.mem_map, List.mem_filter, and_assoc]

theorem get?_markAll_of_not_mem {direct : List (String × List String)} {nodes : KeyMap FunctionNode}
    {id : String} (h : id ∉ direct.map (·.1)) : (markAll direct nodes).get? id = nodes.get? id := by
  induction direct generalizing nodes with
  | nil => rfl
  | cons p rest ih =>
    rw [List.map_cons, List.mem_cons, not_or] at h
    let nodes' := nodes.modify p.1 fun f => p.2.foldl FunctionNode.markImpure f
    have hstep : markAll (p :: rest) nodes = markAll rest nodes' := rfl
    rw [hstep, ih h.2, KeyMap.get?_modify, if_neg h.1]

theorem get?_markAll_of_mem {direct : List (String × List String)} {nodes : KeyMap FunctionNode}
    {id : String} {reasons : List String} (hn : (direct.map (·.1)).Nodup) (h : (id, reasons) ∈ direct) :
    (markAll direct nodes).get? id =
      (nodes.get? id).map fun f => reasons.foldl FunctionNode.markImpure f := by
  induction direct generalizing nodes with
  | nil => cases h
  | cons p rest ih =>
    obtain ⟨hp, hrest⟩ := List.nodup_cons.1 hn
    let nodes' := nodes.modify p.1 fun f => p.2.foldl FunctionNode.markImpure f
    have hstep : markAll (p :: rest) nodes = markAll rest nodes' := rfl
    rcases List.mem_cons.1 h with rfl | h
    · rw [hstep, get?_markAll_of_not_mem hp, KeyMap.get?_modify, if_pos rfl]
    · have hne : id ≠ p.1 := by
        rintro rfl
        exact hp (List.mem_map.2 ⟨_, h, rfl⟩)
      rw [hstep, ih hrest h, KeyMap.get?_modify, if_neg hne]

/-! ## The inference as a whole -/

/-- Functions that are kept under their ids, and of which no purity is known. -/
def Unsettled (nodes : KeyMap FunctionNode) : Prop :=
  ∀ id f, nodes.get? id = some f → f.id = id ∧ f.purity = .unknown

instance (nodes : KeyMap FunctionNode) : Decidable (Unsettled nodes) :=
  decidable_of_iff (∀ p ∈ nodes.toList, p.2.id = p.1 ∧ p.2.purity = .unknown)
    ⟨fun h id f hf => h (id, f) (KeyMap.mem_toList.2 hf), fun h p hp => h p.1 p.2 (KeyMap.mem_toList.1 hp)⟩

theorem Unsettled.not_isImpure {nodes : KeyMap FunctionNode} (h : Unsettled nodes) (id : String) :
    ¬ IsImpure nodes id := by
  rintro ⟨f, hf, hp⟩
  have := (h id f hf).2
  rw [hp] at this
  cases this

section
variable {effectsOf : String → List Effect} {sources : Sources} {calls : List Call}
  {nodes : KeyMap FunctionNode}

theorem Unsettled.mem_directRoots (h : Unsettled nodes) {id : String} :
    id ∈ (directRoots effectsOf sources nodes).map (·.1) ↔ IsDirectlyImpure effectsOf sources nodes id :=
  SymbolGraph.mem_directRoots fun id f hf => (h id f hf).1

theorem Unsettled.isImpure_iff (h : Unsettled nodes) {id : String} :
    IsImpure (inferPurity effectsOf sources calls nodes) id ↔
      ∃ d chain, IsDirectlyImpure effectsOf sources nodes d ∧ CallChain calls nodes id d chain := by
  rw [isImpure_inferPurity (fun id f hf => (h id f hf).1) h.not_isImpure]
  constructor
  · rintro ⟨d, hd, hpath⟩
    obtain ⟨chain, hchain⟩ := exists_callChain hpath hd.contains
    exact ⟨d, chain, hd, hchain⟩
  · rintro ⟨d, chain, hd, hchain⟩
    exact ⟨d, hd, hchain.reaches⟩

theorem Unsettled.layered (h : Unsettled nodes) (effectsOf : String → List Effect) (sources : Sources)
    (calls : List Call) :
    let roots := directRoots effectsOf sources nodes
    ∃ done, Layered calls nodes (markAll roots nodes) (roots.map (·.1)) done []
      (infect (callerIndex calls) (nodes.size + 1) (roots.map (·.1)) (markAll roots nodes)) :=
  layered_infect calls (bareNodes_markAll _ nodes) (directRoots_nodup effectsOf sources nodes)
    fun _ => isImpure_markAll_directRoots h.not_isImpure

/-- Where no purity is known at the start, a function ends up impure exactly if a chain of calls leads
from it to one that is impure by itself, and pure otherwise. Nothing but purity and reasons changes. -/
theorem impure_iff_callChain (effectsOf : String → List Effect) (sources : Sources) (calls : List Call)
    {nodes : KeyMap FunctionNode} (h : Unsettled nodes) :
    let result := inferPurity effectsOf sources calls nodes
    result.keys = nodes.keys ∧ ∀ id f, nodes.get? id = some f → ∃ f', result.get? id = some f' ∧
      { f' with purity := f.purity, reasons := f.reasons } = f ∧
      (f'.purity = .impure ↔ ∃ d chain, IsDirectlyImpure effectsOf sources nodes d ∧
        CallChain calls nodes id d chain) ∧
      (f'.purity = .pure ↔ ¬ ∃ d chain, IsDirectlyImpure effectsOf sources nodes d ∧
        CallChain calls nodes id d chain) := by
  intro result
  have hbare : bareNodes result = bareNodes nodes := bareNodes_inferPurity ..
  refine ⟨keys_congr_bare hbare, fun id f hf => ?_⟩
  have hget : (result.get? id).map FunctionNode.bare = some f.bare := by
    rw [← get?_bareNodes, hbare, get?_bareNodes, hf, Option.map_some]
  obtain ⟨f', hf', hfields⟩ := Option.map_eq_some_iff.1 hget
  have hknown : f'.purity ≠ .unknown :=
    (purity_inferPurity (fun id f hf => (h id f hf).1) h.not_isImpure hf').1
  have himpure : f'.purity = .impure ↔ IsImpure result id := by
    simp [IsImpure, hf']
  rw [← h.isImpure_iff]
  refine ⟨f', hf', FunctionNode.eq_of_bare_eq hfields, himpure, ?_⟩
  rw [← himpure]
  cases hp : f'.purity <;> simp [hp] at hknown ⊢

/-- Three functions in a circle, of which `c` writes to the console, and one that calls itself. -/
def circleNodes : KeyMap FunctionNode :=
  .ofList ([("c", 1), ("b", 2), ("a", 3), ("d", 4)].map fun (name, line) =>
    (symbolKey "m.ts" name, .named "m.ts" name line line))

def circleSources : Sources :=
  .ofList [("m.ts", "const c = () => console.log(a());\nconst b = () => c();\n" ++
    "const a = () => b();\nconst d = () => d();\n")]

def circleCalls : List Call :=
  [⟨"m.ts:a", "m.ts:b"⟩, ⟨"m.ts:a", "m.ts:b"⟩, ⟨"m.ts:b", "m.ts:c"⟩, ⟨"m.ts:c", "m.ts:a"⟩,
   ⟨"m.ts:d", "m.ts:d"⟩, ⟨"m.ts:d", "m.ts:e"⟩, ⟨"m.ts:e", "m.ts:c"⟩]

def consoleEffects (_ : String) : List Effect := [⟨.edge ++ .text "console.", "console output"⟩]

theorem unsettled_circleNodes : Unsettled circleNodes := by
  decide +kernel

theorem impure_iff_callChain_circle : Unsettled circleNodes ∧ ∃ f',
    (inferPurity consoleEffects circleSources circleCalls circleNodes).get? "m.ts:a" = some f' ∧
      f'.purity = .impure := by
  obtain ⟨f', hf', _, himpure, _⟩ := (impure_iff_callChain consoleEffects circleSources circleCalls
    unsettled_circleNodes).2 "m.ts:a" (.named "m.ts" "a" 3 3) (by decide +kernel)
  have hdirect : IsDirectlyImpure consoleEffects circleSources circleNodes "m.ts:c" :=
    unsettled_circleNodes.mem_directRoots.1 (by decide +kernel)
  have hwalk : IsWalk (fun x y => ⟨x, y⟩ ∈ circleCalls) "m.ts:a" "m.ts:c" ["m.ts:a", "m.ts:b", "m.ts:c"] :=
    .cons (by decide) (.cons (by decide) (.single "m.ts:c"))
  exact ⟨unsettled_circleNodes, f', hf', himpure.2 ⟨_, _, hdirect, hwalk, by decide +kernel⟩⟩

/-- A function is as it was but marked for the call of another. -/
def Blames (nodes result : KeyMap FunctionNode) (a b : String) : Prop :=
  ∃ f, nodes.get? a = some f ∧ result.get? a = some (f.markImpure (callReason b))

/-- A function that is impure, but not by itself, is marked for a call that starts a shortest chain. -/
theorem exists_blames (h : Unsettled nodes) {a : String}
    (himpure : IsImpure (inferPurity effectsOf sources calls nodes) a)
    (hdirect : ¬ IsDirectlyImpure effectsOf sources nodes a) :
    ∃ b, Blames nodes (inferPurity effectsOf sources calls nodes) a b ∧ ⟨a, b⟩ ∈ calls ∧
      IsImpure (inferPurity effectsOf sources calls nodes) b ∧
      ∃ k, IsLeast (callSteps calls nodes (IsDirectlyImpure effectsOf sources nodes) b) k ∧
        IsLeast (callSteps calls nodes (IsDirectlyImpure effectsOf sources nodes) a) (k + 1) := by
  let roots := directRoots effectsOf sources nodes
  have htarget : IsDirectlyImpure effectsOf sources nodes = (· ∈ roots.map (·.1)) :=
    funext fun d => propext h.mem_directRoots.symm
  obtain ⟨done, hrun⟩ := h.layered effectsOf sources calls
  rw [htarget] at hdirect ⊢
  rw [inferPurity_eq, isImpure_settle] at himpure
  obtain ⟨f, b, hmarked, hget, hcall, hb, hdepth⟩ := hrun.explained a himpure hdirect
  rw [get?_markAll_of_not_mem hdirect] at hmarked
  refine ⟨b, ⟨f, hmarked, ?_⟩, hcall.1, ?_, callDepth calls nodes (roots.map (·.1)) b, ?_, ?_⟩
  · rw [inferPurity_eq, KeyMap.get?_map, hget]
    rfl
  · rw [inferPurity_eq, isImpure_settle]
    exact hb
  · exact isLeast_callDepth (hrun.callSteps_of_isImpure hb)
  · rw [← hdepth]
    exact isLeast_callDepth (hrun.callSteps_of_isImpure himpure)

theorem callReason_injective {a b : String} (h : callReason a = callReason b) : a = b :=
  (String.append_right_inj "calls impure function ").1 h

/-- Following the calls that functions are blamed for leads to one that is impure by itself. -/
theorem exists_trail (h : Unsettled nodes) {id : String} {k : Nat}
    (hk : IsLeast (callSteps calls nodes (IsDirectlyImpure effectsOf sources nodes) id) k) :
    ∃ d trail, IsDirectlyImpure effectsOf sources nodes d ∧ trail.length = k + 1 ∧
      IsWalk (Blames nodes (inferPurity effectsOf sources calls nodes)) id d trail := by
  induction k generalizing id with
  | zero => exact ⟨id, [id], (zero_mem_callSteps fun _ hd => hd.contains).1 hk.1, rfl, .single id⟩
  | succ k ih =>
    have hdirect : ¬ IsDirectlyImpure effectsOf sources nodes id := by
      intro hd
      have := hk.2 ((zero_mem_callSteps fun _ hd => hd.contains).2 hd)
      omega
    obtain ⟨d, chain, hd, hchain, _⟩ := hk.1
    have himpure := h.isImpure_iff.2 ⟨d, chain, hd, hchain⟩
    obtain ⟨b, hblames, _, _, k', hb, hid⟩ := exists_blames h himpure hdirect
    have hk' : k' = k := by
      have := hid.unique hk
      omega
    subst hk'
    obtain ⟨d, trail, hd, hlength, hwalk⟩ := ih hb
    exact ⟨d, id :: trail, hd, by simp [hlength], .cons hblames hwalk⟩

/-- The reasons of a function that is impure by itself are those it started with and those found in its
own lines; no call adds to them. -/
theorem mem_reasons_of_directlyImpure (h : Unsettled nodes) {id : String} {f f' : FunctionNode}
    (hdirect : IsDirectlyImpure effectsOf sources nodes id) (hf : nodes.get? id = some f)
    (hf' : (inferPurity effectsOf sources calls nodes).get? id = some f') :
    ∃ content, sources.get? f.file = some content ∧ ∀ r, r ∈ f'.reasons ↔ r ∈ f.reasons ∨
      ∃ e ∈ effectsOf f.file, e.pattern.occursIn (ownBody f (lines content)
        (nodes.values.filter (·.file == f.file))) = true ∧ e.reason = r := by
  obtain ⟨done, hrun⟩ := h.layered effectsOf sources calls
  have hroot := h.mem_directRoots.2 hdirect
  obtain ⟨p, hmem, hp⟩ := List.mem_map.1 hroot
  obtain ⟨-, g, hg, content, hcontent, hpair⟩ := of_mem_directlyImpure (List.mem_filter.1 hmem).1
  -- the function that was found is the one kept under this id
  obtain ⟨k, hk⟩ := KeyMap.mem_values.1 hg
  have hgf : g = f := by
    have hgk : g.id = k := (h k g hk).1
    have hgid : g.id = id := by rw [← hp, hpair]
    rw [← hgk, hgid, hf] at hk
    exact (Option.some.inj hk).symm
  subst hgf
  have hget : (infect (callerIndex calls) (nodes.size + 1)
      ((directRoots effectsOf sources nodes).map (·.1))
      (markAll (directRoots effectsOf sources nodes) nodes)).get? id =
        some (p.2.foldl FunctionNode.markImpure g) := by
    have hmem' : (id, p.2) ∈ directRoots effectsOf sources nodes := by
      rw [← hp]
      exact hmem
    rw [hrun.kept id (.inl hroot), get?_markAll_of_mem (directRoots_nodup ..) hmem', hf, Option.map_some]
  rw [inferPurity_eq, KeyMap.get?_map, hget, Option.map_some] at hf'
  refine ⟨content, hcontent, fun r => ?_⟩
  rw [← Option.some.inj hf', FunctionNode.reasons_settle, FunctionNode.mem_reasons_foldl_markImpure, hpair,
    mem_directReasons, or_self_left]

theorem reasons_markImpure_of_nil {f : FunctionNode} (hf : f.reasons = []) (reason : String) :
    (f.markImpure reason).reasons = [reason] := by
  simp [FunctionNode.markImpure, hf]

/-- A function that started without reasons is blamed for one call only. -/
theorem Blames.unique {result : KeyMap FunctionNode} {a b b' : String}
    (hnone : (nodes.get? a).any (·.reasons.isEmpty) = true) (h : Blames nodes result a b)
    (h' : Blames nodes result a b') : b = b' := by
  obtain ⟨f, hf, hget⟩ := h
  obtain ⟨f', hf', hget'⟩ := h'
  have hsame : f' = f := Option.some.inj (hf'.symm.trans hf)
  subst hsame
  have hreasons : f'.reasons = [] := by simpa [hf] using hnone
  have hmarked := congrArg FunctionNode.reasons (Option.some.inj (hget.symm.trans hget'))
  rw [reasons_markImpure_of_nil hreasons, reasons_markImpure_of_nil hreasons] at hmarked
  exact callReason_injective (List.singleton_injective hmarked)

/-- Each call on such a trail leads one step nearer. -/
theorem callSteps_of_trail (h : Unsettled nodes) {id b : String} {trail : List String} {k : Nat}
    (hk : IsLeast (callSteps calls nodes (IsDirectlyImpure effectsOf sources nodes) id) k)
    (htrail : IsWalk (fun x y => Blames nodes (inferPurity effectsOf sources calls nodes) x y ∧
      ¬ IsDirectlyImpure effectsOf sources nodes x ∧
      (nodes.get? x).any (·.reasons.isEmpty) = true) id b trail) :
    ∃ j, IsLeast (callSteps calls nodes (IsDirectlyImpure effectsOf sources nodes) b) j ∧
      trail.length + j = k + 1 := by
  induction htrail generalizing k with
  | single id => exact ⟨k, hk, by simp; omega⟩
  | @cons a b _ trail first _ ih =>
    obtain ⟨hblames, hdirect, hnone⟩ := first
    obtain ⟨d, chain, hd, hchain, _⟩ := hk.1
    have himpure := h.isImpure_iff.2 ⟨d, chain, hd, hchain⟩
    obtain ⟨c, hblames', _, _, k', hc, ha⟩ := exists_blames h himpure hdirect
    have hbc : c = b := hblames'.unique hnone hblames
    subst hbc
    obtain ⟨j, hj, hlength⟩ := ih hc
    have hkk : k' + 1 = k := ha.unique hk
    exact ⟨j, hj, by simp only [List.length_cons]; omega⟩

/-- A function that is impure for its calls alone has one reason, a call that starts a shortest chain to
a function that is impure by itself. Following these reasons takes exactly as many calls as the shortest
chain has. The reasons of a function that is impure by itself are found in its own lines. -/
theorem blamed_calls_are_shortest (effectsOf : String → List Effect) (sources : Sources)
    (calls : List Call) {nodes : KeyMap FunctionNode} (h : Unsettled nodes) :
    let result := inferPurity effectsOf sources calls nodes
    let direct := IsDirectlyImpure effectsOf sources nodes
    let steps := callSteps calls nodes direct
    (∀ id f f', nodes.get? id = some f → result.get? id = some f' → f'.purity = .impure →
      ¬ direct id → f.reasons = [] →
      ∃ x, f'.reasons = ["calls impure function " ++ x] ∧ ⟨id, x⟩ ∈ calls ∧ IsImpure result x ∧
        ∃ k, IsLeast (steps x) k ∧ IsLeast (steps id) (k + 1)) ∧
    (∀ id k, IsLeast (steps id) k →
      (∃ d trail, direct d ∧ trail.length = k + 1 ∧ IsWalk (Blames nodes result) id d trail) ∧
      ∀ b trail, IsWalk (fun x y => Blames nodes result x y ∧ ¬ direct x ∧
          (nodes.get? x).any (·.reasons.isEmpty) = true) id b trail →
        ∃ j, IsLeast (steps b) j ∧ trail.length + j = k + 1) ∧
    (∀ id f f', direct id → nodes.get? id = some f → result.get? id = some f' →
      ∃ content, sources.get? f.file = some content ∧ ∀ r, r ∈ f'.reasons ↔ r ∈ f.reasons ∨
        ∃ e ∈ effectsOf f.file, e.pattern.occursIn (ownBody f (lines content)
          (nodes.values.filter (·.file == f.file))) = true ∧ e.reason = r) := by
  intro result direct steps
  refine ⟨fun id f f' hf hf' himpure hdirect hnone => ?_, fun id k hk => ⟨exists_trail h hk, ?_⟩, ?_⟩
  · obtain ⟨x, ⟨g, hg, hmarked⟩, hcall, hx, hsteps⟩ := exists_blames h ⟨f', hf', himpure⟩ hdirect
    have hgf : g = f := Option.some.inj (hg.symm.trans hf)
    have hf'g : f' = g.markImpure (callReason x) := Option.some.inj (hf'.symm.trans hmarked)
    subst hgf hf'g
    exact ⟨x, reasons_markImpure_of_nil hnone _, hcall, hx, hsteps⟩
  · exact fun b trail htrail => callSteps_of_trail h hk htrail
  · exact fun id f f' hdirect hf hf' => mem_reasons_of_directlyImpure h hdirect hf hf'

theorem blamed_calls_are_shortest_circle : Unsettled circleNodes ∧
    let steps := callSteps circleCalls circleNodes
      (IsDirectlyImpure consoleEffects circleSources circleNodes)
    ∃ k, IsLeast (steps "m.ts:b") k ∧ IsLeast (steps "m.ts:a") (k + 1) := by
  let marked := (FunctionNode.named "m.ts" "a" 3 3).markImpure "calls impure function m.ts:b"
  have hdirect : ¬ IsDirectlyImpure consoleEffects circleSources circleNodes "m.ts:a" :=
    mt unsettled_circleNodes.mem_directRoots.2 (by decide +kernel)
  obtain ⟨x, hx, _, _, hsteps⟩ := (blamed_calls_are_shortest consoleEffects circleSources circleCalls
    unsettled_circleNodes).1 "m.ts:a" (.named "m.ts" "a" 3 3) marked (by decide +kernel)
    (by decide +kernel) rfl hdirect rfl
  have hb : "m.ts:b" = x := callReason_injective (List.singleton_injective hx)
  subst hb
  exact ⟨unsettled_circleNodes, hsteps⟩

end
end SymbolGraph
