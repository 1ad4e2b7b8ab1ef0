import Mathlib.Tactic.SplitIfs
import SymbolGraph.Proofs.Tree
import SymbolGraph.Script.Facts
import SymbolGraph.Script.Grammar
import SymbolGraph.Script.References

/-!
# Scopes of the walk for references

The walk for references opens a scope at every node that binds names and closes it behind the node,
while `localBinding` looks at the nodes around a place. Both see the same names bound at every node
that the walk comes to. So the walk records exactly those of the names it comes to that are not
bound locally.
-/
namespace SymbolGraph.Script
open Relation

/-! ## Steps of the walk -/

/-- Where the walk stands: the open scopes and the nodes around, both with the innermost first, and
the node it has come to. -/
structure Visit where
  scopes : List (List String)
  around : List Node
  node : Node

/-- Nodes that refer by themselves unless a scope binds them. -/
def Kind.isName (kind : Kind) : Bool :=
  kind == .identifier || kind == .shorthandPropertyIdentifier || kind == .typeIdentifier

/-- An access to a member by its name. -/
def isAccess (t : Node) : Bool :=
  t.kind == .memberExpression && (t.child? .object).isSome && (t.child? .property).isSome

/-- Nodes whose children are looked at one by one. -/
def isOpen (t : Node) : Bool :=
  !t.kind.isSilent && !t.kind.isName && !isAccess t && t.kind != .nestedTypeIdentifier &&
    !(t.kind == .exportStatement && (t.child? .source).isSome)

/-- The walk goes from a node to one of its children. Of an access it sees the object only, and of a
qualified type the first name. -/
inductive Enters (t : Node) : Node → Prop
  | child {c : Node} : isOpen t → c ∈ t.children → isWalked t c → Enters t c
  | object {c member : Node} : t.kind = .memberExpression → t.child? .object = some c →
      t.child? .property = some member → Enters t c
  | qualifier {c next : Node} {rest : List Node} : t.kind = .nestedTypeIdentifier →
      namedChildren t = c :: next :: rest → Enters t c

/-- The scopes that are open inside a node. -/
def scopesInside (scopes : List (List String)) (t : Node) : List (List String) :=
  if t.kind.opensScope then scopeNames t :: scopes else scopes

namespace Visit

/-- One step of the walk. -/
inductive Goes : Visit → Visit → Prop
  | into {scopes : List (List String)} {around : List Node} {t c : Node} : Enters t c →
      Goes ⟨scopes, around, t⟩ ⟨scopesInside scopes t, t :: around, c⟩

/-- The walk over a script comes to a node. -/
def Reached (root : Node) (v : Visit) : Prop := ReflTransGen Goes ⟨[], [], root⟩ v

end Visit

theorem Enters.mem_children {t c : Node} (h : Enters t c) : c ∈ t.children := by
  cases h with
  | child _ hc _ => exact hc
  | object _ ho _ => exact Tree.mem_children_of_child? ho
  | qualifier _ hn => exact (List.mem_filter.1 (hn ▸ List.mem_cons_self : c ∈ namedChildren t)).1

theorem Enters.not_isName {t c : Node} (h : Enters t c) : ¬t.kind.isName := by
  cases h with
  | child ho _ _ =>
    simp only [isOpen, Bool.and_eq_true, Bool.not_eq_true'] at ho
    simp [ho.1.1.1.2]
  | object hk _ _ => simp [hk, Kind.isName]
  | qualifier hk _ => simp [hk, Kind.isName]

/-! ## What the walk records -/

/-- The member that a name stands in front of: the property of an access, or the last part of a
qualified type. -/
def accessed? (parent t : Node) : Option Node :=
  if t.kind != .identifier then none
  else match parent.kind with
    | .memberExpression => if t.role == some .object then parent.child? .property else none
    | .nestedTypeIdentifier => match namedChildren parent with
      | _ :: next :: rest => some (rest.getLast?.getD next)
      | _ => none
    | _ => none

/-- What an access to a member of a namespace is used for. -/
def accessUsage (access : Node) (around : List Node) : UsageType :=
  if access.kind == .nestedTypeIdentifier then .type
  else if around.head?.any (·.kind == .callExpression) && access.role == some .function then .call
  else .namespace

/-- What a name that stands alone in a node of the given kind is used for. -/
def nameUsage (parent : Kind) (t : Node) : UsageType :=
  match t.kind with
  | .shorthandPropertyIdentifier => .reference
  | .typeIdentifier => .type
  | _ => usageTypeIn parent t.role

/-- The kind of the innermost node around. -/
def parentKind (around : List Node) : Kind := (around.head?.map Tree.kind).getD .program

/-- The reference that a name makes where no scope binds it: an access to a namespace refers to the
member as a whole. -/
def referenceAt (s : Search) (around : List Node) (t : Node) : Option Reference :=
  let alone := (s.target? t.text).map (s.found · t.line (nameUsage (parentKind around) t))
  match around with
  | [] => alone
  | parent :: outer => match accessed? parent t with
    | some member =>
      if s.isNamespace t.text then
        some (s.found (.imported t.text (some member.text)) parent.line (accessUsage parent outer))
      else alone
    | none => alone

section Walk

variable (s : Search) (scopes : List (List String)) (parent : Kind)

theorem referencesIn_of_isName {t : Node} (h : t.kind.isName) :
    referencesIn s scopes parent t =
      nameReference s scopes t.text t.line (nameUsage parent t) := by
  obtain ⟨kind, role, text, span, children⟩ := t
  simp only [Kind.isName, Tree.kind, Bool.or_eq_true, beq_iff_eq] at h
  rcases h with (rfl | rfl) | rfl <;> rw [referencesIn] <;> rfl

theorem referencesIn_of_isOpen {t : Node} (h : isOpen t) :
    referencesIn s scopes parent t =
      referencesInAll s (scopesInside scopes t) t t.children := by
  obtain ⟨kind, role, text, span, children⟩ := t
  simp only [isOpen, Kind.isName, Tree.kind, Bool.and_eq_true, Bool.not_eq_true', Bool.or_eq_false_iff,
    bne_iff_ne, beq_eq_false_iff_ne] at h
  obtain ⟨⟨⟨⟨hsilent, ⟨hi, hsh⟩, hty⟩, hacc⟩, hq⟩, he⟩ := h
  rw [referencesIn]
  simp only [hsilent, hi, hsh, hty, hq, beq_iff_eq, if_false, Bool.false_eq_true, he, scopesInside,
    Tree.kind]
  split
  · rename_i hm
    subst hm
    simp only [isAccess, Tree.kind, beq_self_eq_true, Bool.true_and] at hacc
    split
    · rename_i ho hp
      simp [ho, hp] at hacc
    · rfl
  · by_cases hs : kind.opensScope <;> simp [hs, Tree.children]

theorem referencesInRole_eq {role : Role} {l : List Node} {c : Node}
    (h : l.find? (·.role == some role) = some c) :
    referencesInRole s scopes parent role l = referencesIn s scopes parent c := by
  induction l with
  | nil => cases h
  | cons t rest ih =>
    rw [referencesInRole]
    rw [List.find?_cons] at h
    split at h
    · rename_i ht
      rw [if_pos ht, Option.some_inj.1 h]
    · rename_i ht
      rw [if_neg (by simp [ht]), ih h]

theorem referencesInNamed_eq {l : List Node} {c : Node} {rest : List Node}
    (h : l.filter isNamed = c :: rest) :
    referencesInNamed s scopes parent l = referencesIn s scopes parent c := by
  induction l with
  | nil => cases h
  | cons t more ih =>
    rw [referencesInNamed]
    rw [List.filter_cons] at h
    split_ifs at h ⊢ with ht
    · rw [(List.cons.inj h).1]
    · exact ih h

theorem referencesIn_of_access {t object member : Node} (hk : t.kind = .memberExpression)
    (ho : t.child? .object = some object) (hm : t.child? .property = some member) :
    referencesIn s scopes parent t = match memberReference? s scopes object member with
      | some target =>
        [s.found target t.line
          (if parent == .callExpression && t.role == some .function then .call else .namespace)]
      | none => referencesIn s scopes .memberExpression object := by
  obtain ⟨kind, role, text, span, children⟩ := t
  obtain rfl : kind = .memberExpression := hk
  rw [referencesIn, if_neg (by decide), if_neg (by decide), if_neg (by decide), if_neg (by decide),
    if_pos (by decide), ho, hm]
  dsimp only
  cases memberReference? s scopes object member with
  | some target => rfl
  | none => exact referencesInRole_eq s scopes _ ho

theorem referencesIn_of_qualified {t module next : Node} {rest : List Node}
    (hk : t.kind = .nestedTypeIdentifier) (hn : namedChildren t = module :: next :: rest) :
    referencesIn s scopes parent t =
      match memberReference? s scopes module (rest.getLast?.getD next) with
      | some target => [s.found target t.line .type]
      | none => referencesIn s scopes .nestedTypeIdentifier module := by
  obtain ⟨kind, role, text, span, children⟩ := t
  obtain rfl : kind = .nestedTypeIdentifier := hk
  rw [referencesIn, if_neg (by decide), if_neg (by decide), if_neg (by decide), if_neg (by decide),
    if_neg (by decide), if_pos (by decide), hn]
  dsimp only
  cases memberReference? s scopes module (rest.getLast?.getD next) with
  | some target => rfl
  | none => exact referencesInNamed_eq s scopes _ hn

theorem mem_referencesInAll {t : Node} {l : List Node} {r : Reference} :
    r ∈ referencesInAll s scopes t l ↔
      ∃ c ∈ l, isWalked t c ∧ r ∈ referencesIn s scopes t.kind c := by
  induction l with
  | nil => simp [referencesInAll]
  | cons c rest ih =>
    rw [referencesInAll, List.mem_append, ih, List.exists_mem_cons_iff]
    split_ifs with hc <;> simp [hc]

theorem referencesIn_eq_nil {t : Node} (hn : ¬t.kind.isName) (ho : ¬isOpen t) (ha : ¬isAccess t)
    (hq : t.kind = .nestedTypeIdentifier → ∀ c next rest, namedChildren t ≠ c :: next :: rest) :
    referencesIn s scopes parent t = [] := by
  have hclosed : t.kind.isSilent ∨ t.kind = .nestedTypeIdentifier ∨
      (t.kind = .exportStatement ∧ (t.child? .source).isSome) := by
    simp only [isOpen, Bool.not_eq_true, Bool.and_eq_false_iff] at ho hn ha
    simp only [hn, ha] at ho
    grind
  obtain ⟨kind, role, text, span, children⟩ := t
  rw [referencesIn]
  rcases hclosed with h | h | ⟨h, hsource⟩
  · exact if_pos h
  · obtain rfl : kind = .nestedTypeIdentifier := h
    rw [if_neg (by decide), if_neg (by decide), if_neg (by decide), if_neg (by decide),
      if_neg (by decide), if_pos (by decide)]
    split
    · rename_i hn
      exact absurd hn (hq rfl _ _ _)
    · rfl
  · obtain rfl : kind = .exportStatement := h
    rw [if_neg (by decide), if_neg (by decide), if_neg (by decide), if_neg (by decide),
      if_neg (by decide), if_neg (by decide), if_pos (by simpa using hsource)]

end Walk

namespace Visit

variable (s : Search)

/-- What the walk finds from a visit on. A name in front of a member counts for the whole access. -/
def findings (v : Visit) : List Reference :=
  match v.around with
  | [] => referencesIn s v.scopes .program v.node
  | parent :: outer =>
    match (accessed? parent v.node).bind (memberReference? s v.scopes v.node) with
    | some target => [s.found target parent.line (accessUsage parent outer)]
    | none => referencesIn s v.scopes parent.kind v.node

variable {s}

theorem findings_of_accessed?_eq_none {v : Visit}
    (h : ∀ parent ∈ v.around.head?, accessed? parent v.node = none) :
    v.findings s = referencesIn s v.scopes (parentKind v.around) v.node := by
  obtain ⟨scopes, around, t⟩ := v
  cases around with
  | nil => rfl
  | cons parent outer =>
    have := h parent rfl
    simp only at this
    simp [findings, this, parentKind]

theorem findings_of_isName {v : Visit} (h : v.node.kind.isName) :
    v.findings s =
      if isShadowed v.scopes v.node.text then [] else (referenceAt s v.around v.node).toList := by
  obtain ⟨scopes, around, t⟩ := v
  have alone (parent : Kind) : referencesIn s scopes parent t =
      if isShadowed scopes t.text then []
      else ((s.target? t.text).map (s.found · t.line (nameUsage parent t))).toList := by
    rw [referencesIn_of_isName s scopes parent h, nameReference]
    cases s.target? t.text <;> rfl
  cases around with
  | nil => exact alone .program
  | cons parent outer =>
    simp only [findings, referenceAt]
    cases ha : accessed? parent t with
    | none => exact alone parent.kind
    | some member =>
      have hk : t.kind = .identifier := by
        by_contra hk
        simp [accessed?, hk] at ha
      simp only [Option.bind_some, memberReference?, hk, beq_self_eq_true, Bool.true_and]
      cases hshadow : isShadowed scopes t.text <;> cases hspace : s.isNamespace t.text
      all_goals simp [alone, hshadow, parentKind]

/-- A name among children that are looked at one by one is in front of no member. -/
theorem accessed?_of_isOpen {t c : Node} (ht : isOpen t) (hc : c ∈ t.children) :
    accessed? t c = none := by
  simp only [isOpen, Bool.and_eq_true, Bool.not_eq_true', bne_iff_ne] at ht
  obtain ⟨⟨⟨-, haccess⟩, hq⟩, -⟩ := ht
  unfold accessed?
  by_cases hk : c.kind = .identifier
  · rw [if_neg (by simp [hk])]
    split
    · rename_i hm
      split
      · rename_i hr
        have ho := Tree.isSome_child? hc (beq_iff_eq.1 hr)
        simpa [isAccess, hm, ho] using haccess
      · rfl
    · rename_i hn
      exact absurd hn hq
    · rfl
  · rw [if_pos (by simp [hk])]

section Step

variable {scopes : List (List String)} {around : List Node} {t : Node}

theorem findings_of_not_isName (ht : ¬t.kind.isName) :
    (⟨scopes, around, t⟩ : Visit).findings s = referencesIn s scopes (parentKind around) t := by
  refine findings_of_accessed?_eq_none fun parent _ => if_pos ?_
  simp only [Kind.isName, Bool.or_eq_true, beq_iff_eq, not_or] at ht
  exact bne_iff_ne.2 ht.1.1

theorem findings_child {c : Node} (ht : isOpen t) (hc : c ∈ t.children) :
    (⟨scopes, t :: around, c⟩ : Visit).findings s = referencesIn s scopes t.kind c :=
  findings_of_accessed?_eq_none (by simpa using accessed?_of_isOpen ht hc)

theorem scopesInside_of_not_opensScope (ht : t.kind.opensScope = false) :
    scopesInside scopes t = scopes := by
  simp [scopesInside, ht]

theorem findings_object {object member : Node} (hk : t.kind = .memberExpression)
    (ho : t.child? .object = some object) (hm : t.child? .property = some member) :
    (⟨scopes, t :: around, object⟩ : Visit).findings s =
      referencesIn s scopes (parentKind around) t := by
  rw [referencesIn_of_access s scopes _ hk ho hm]
  have hr := Tree.role_of_child? ho
  by_cases hi : object.kind = .identifier
  · have ha : accessed? t object = some member := by simp [accessed?, hi, hk, hr, hm]
    simp only [findings, ha, Option.bind_some]
    cases memberReference? s scopes object member with
    | none => simp [hk]
    | some target => cases around <;> simp [accessUsage, parentKind, hk]
  · have ha : accessed? t object = none := by simp [accessed?, hi]
    have hno : memberReference? s scopes object member = none := by simp [memberReference?, hi]
    simp only [findings, ha, Option.bind_none, hno, hk]

theorem findings_qualifier {module next : Node} {rest : List Node}
    (hk : t.kind = .nestedTypeIdentifier) (hn : namedChildren t = module :: next :: rest) :
    (⟨scopes, t :: around, module⟩ : Visit).findings s =
      referencesIn s scopes (parentKind around) t := by
  rw [referencesIn_of_qualified s scopes _ hk hn]
  by_cases hi : module.kind = .identifier
  · have ha : accessed? t module = some (rest.getLast?.getD next) := by
      simp [accessed?, hi, hk, hn]
    simp only [findings, ha, Option.bind_some]
    cases memberReference? s scopes module (rest.getLast?.getD next) with
    | none => simp [hk]
    | some target => simp [accessUsage, hk]
  · have ha : accessed? t module = none := by simp [accessed?, hi]
    have hno : memberReference? s scopes module (rest.getLast?.getD next) = none := by
      simp [memberReference?, hi]
    simp only [findings, ha, Option.bind_none, hno, hk]

end Step

/-- What is found in a node that is no name is found in the nodes that the walk goes to from there. -/
theorem mem_findings_step {v : Visit} (hv : ¬v.node.kind.isName) {r : Reference} :
    r ∈ v.findings s ↔ ∃ w, Goes v w ∧ r ∈ w.findings s := by
  obtain ⟨scopes, around, t⟩ := v
  rw [findings_of_not_isName hv]
  constructor
  · intro hr
    by_cases ho : isOpen t
    · rw [referencesIn_of_isOpen s scopes _ ho, mem_referencesInAll] at hr
      obtain ⟨c, hc, hw, hr⟩ := hr
      exact ⟨_, .into (.child ho hc hw), by rwa [findings_child ho hc]⟩
    by_cases ha : isAccess t
    · simp only [isAccess, Bool.and_eq_true, beq_iff_eq, Option.isSome_iff_exists] at ha
      obtain ⟨⟨hk, object, hobject⟩, member, hmember⟩ := ha
      refine ⟨_, .into (.object hk hobject hmember), ?_⟩
      rwa [scopesInside_of_not_opensScope (by rw [hk]; rfl), findings_object hk hobject hmember]
    by_cases hq : t.kind = .nestedTypeIdentifier ∧ ∃ c next rest, namedChildren t = c :: next :: rest
    · obtain ⟨hk, c, next, rest, hn⟩ := hq
      refine ⟨_, .into (.qualifier hk hn), ?_⟩
      rwa [scopesInside_of_not_opensScope (by rw [hk]; rfl), findings_qualifier hk hn]
    · rw [referencesIn_eq_nil s scopes _ hv ho ha fun hk c next rest hn => hq ⟨hk, c, next, rest, hn⟩] at hr
      cases hr
  · rintro ⟨w, ⟨henters⟩, hr⟩
    cases henters with
    | child ho hc hw =>
      rw [findings_child ho hc] at hr
      rw [referencesIn_of_isOpen s scopes _ ho, mem_referencesInAll]
      exact ⟨_, hc, hw, hr⟩
    | object hk ho hm =>
      rwa [scopesInside_of_not_opensScope (by rw [hk]; rfl), findings_object hk ho hm] at hr
    | qualifier hk hn =>
      rwa [scopesInside_of_not_opensScope (by rw [hk]; rfl), findings_qualifier hk hn] at hr

theorem Goes.sizeOf_lt {v w : Visit} (h : v.Goes w) : sizeOf w.node < sizeOf v.node := by
  obtain ⟨h⟩ := h
  exact Tree.sizeOf_lt_of_mem_children h.mem_children

theorem Goes.not_isName {v w : Visit} (h : v.Goes w) : ¬v.node.kind.isName := by
  obtain ⟨h⟩ := h
  exact h.not_isName

/-- The walk finds the references of the names it comes to that none of its scopes binds. -/
theorem mem_findings {v : Visit} {r : Reference} :
    r ∈ v.findings s ↔ ∃ u, ReflTransGen Goes v u ∧ u.node.kind.isName ∧
      isShadowed u.scopes u.node.text = false ∧ referenceAt s u.around u.node = some r := by
  have step (v : Visit) (r : Reference) : r ∈ v.findings s ↔
      r ∈ (if v.node.kind.isName then v.findings s else []) ∨ ∃ w, Goes v w ∧ r ∈ w.findings s := by
    split_ifs with hv
    · exact ⟨.inl, fun h => h.elim id fun ⟨_, hgoes, _⟩ => absurd hv hgoes.not_isName⟩
    · simp [mem_findings_step hv]
  rw [mem_collected (fun v => sizeOf v.node) Goes.sizeOf_lt step]
  refine exists_congr fun u => and_congr_right fun _ => ?_
  by_cases hu : u.node.kind.isName
  · rw [if_pos hu, findings_of_isName hu]
    cases isShadowed u.scopes u.node.text <;> simp [hu]
  · simp [hu]

end Visit

/-! ## Open scopes and the nodes around -/

theorem scopeNames_of_isFunctionScope {t : Node} (h : t.kind.isFunctionScope) :
    scopeNames t =
      parameterNames t ++ (if t.kind.isNamedInside then (textIn? t .name).toList else []) := by
  unfold scopeNames
  split <;> simp_all [Kind.isFunctionScope]

theorem scopeNames_of_not_opensScope {t : Node} (h : ¬t.kind.opensScope) : scopeNames t = [] := by
  unfold scopeNames
  split <;> simp_all [Kind.opensScope]

/-- A node binds the names of the scope it opens. -/
theorem isSome_bindingIn (name : String) (t : Node) :
    (bindingIn name t).isSome = (scopeNames t).contains name := by
  unfold bindingIn
  split
  · rename_i hk
    have : scopeNames t = blockNames t := by simp only [scopeNames, hk]
    rw [this]
    split_ifs with h <;> simp_all
  · rename_i hk
    have : scopeNames t = blockNames t := by simp only [scopeNames, hk]
    rw [this]
    split_ifs with h <;> simp_all
  · split_ifs with hf hp hn hs
    · simp_all [scopeNames_of_isFunctionScope hf]
    · simp_all [scopeNames_of_isFunctionScope hf]
    · simp_all [scopeNames_of_isFunctionScope hf]
    · simp_all
    · simp_all

/-- The open scopes hold what the nodes around bind. -/
def Visit.Agrees (v : Visit) : Prop :=
  ∀ name, isShadowed v.scopes name = (localBinding v.around name).isSome

theorem Visit.Goes.agrees {v w : Visit} (h : v.Goes w) (hv : v.Agrees) : w.Agrees := by
  obtain ⟨hentered⟩ := h
  rename_i scopes around t c
  intro name
  have hscopes : isShadowed (scopesInside scopes t) name =
      ((scopeNames t).contains name || isShadowed scopes name) := by
    unfold scopesInside
    split_ifs with ho
    · rfl
    · simp [scopeNames_of_not_opensScope ho]
  have haround : (localBinding (t :: around) name).isSome =
      ((bindingIn name t).isSome || (localBinding around name).isSome) := by
    rw [localBinding, List.findSome?_cons]
    cases bindingIn name t <;> rfl
  rw [hscopes, haround, isSome_bindingIn, hv name]

theorem Visit.Reached.agrees {root : Node} {v : Visit} (h : Reached root v) : v.Agrees := by
  induction h with
  | refl => exact fun _ => rfl
  | tail _ hgoes ih => exact hgoes.agrees ih

/-! ## Scripts -/

theorem references_eq_findings (s : Search) {root : Node} (hroot : root.kind = .program) :
    references s root = (⟨[], [], root⟩ : Visit).findings s := by
  have hopen : isOpen root := by simp [isOpen, isAccess, hroot, Kind.isSilent, Kind.isName]
  rw [Visit.findings_of_not_isName (by simp [hroot, Kind.isName]), referencesIn_of_isOpen _ _ _ hopen,
    Visit.scopesInside_of_not_opensScope (by rw [hroot]; rfl), references]

theorem mem_references {s : Search} {root : Node} (hroot : root.kind = .program) {r : Reference} :
    r ∈ references s root ↔ ∃ v, Visit.Reached root v ∧ v.node.kind.isName ∧
      isShadowed v.scopes v.node.text = false ∧ referenceAt s v.around v.node = some r := by
  rw [references_eq_findings s hroot, Visit.mem_findings]
  rfl

theorem kind_of_program {env : Env} {cur cur' : Cursor} {t : Node}
    (h : program env cur = some (t, cur')) : t.kind = .program := by
  simp only [program, bind, ReaderT.bind, StateT.bind, Option.bind_eq_some_iff] at h
  obtain ⟨_, _, _, _, _, _, _, _, _, _, h⟩ := h
  obtain rfl := (Prod.mk.inj (Option.some.inj h)).1
  rfl

/-- Every text is read as a program. -/
theorem kind_parse (dialect : Dialect) (text : String) : (parse dialect text).kind = .program := by
  unfold parse
  dsimp only
  split
  · rename_i tree cursor h
    refine List.foldlRecOn (motive := fun t : Node => t.kind = .program) _ _ (kind_of_program h) ?_
    rintro ⟨kind, role, text, span, children⟩ hk comment -
    rw [insertComment]
    exact hk
  · rfl

/-- The walk and `localBinding` see the same scopes. At every node that the walk comes to, the open
scopes hold a name exactly if a node around binds it, and the names recorded are those that no scope
holds; so a name that is bound locally is never recorded. -/
theorem references_agree_with_localBinding (s : Search) {root : Node} (hroot : root.kind = .program) :
    (∀ v, Visit.Reached root v → ∀ name,
      isShadowed v.scopes name = true ↔ (localBinding v.around name).isSome = true) ∧
    (∀ r, r ∈ references s root ↔ ∃ v, Visit.Reached root v ∧ v.node.kind.isName ∧
      isShadowed v.scopes v.node.text = false ∧ referenceAt s v.around v.node = some r) ∧
    (∀ r ∈ references s root, ∃ v, Visit.Reached root v ∧ v.node.kind.isName ∧
      localBinding v.around v.node.text = none ∧ referenceAt s v.around v.node = some r) := by
  refine ⟨fun v hv name => by rw [hv.agrees name], fun r => mem_references hroot, fun r hr => ?_⟩
  obtain ⟨v, hv, hname, hfree, hr⟩ := (mem_references hroot).1 hr
  rw [hv.agrees] at hfree
  exact ⟨v, hv, hname, by simpa using hfree, hr⟩

/-- A parameter inside a pattern and the name of a function expression hide the imported names, and
what is left are the two names in the last line. -/
theorem references_beside_local_names :
    let text := "import \x7b a, b \x7d from './m';\nconst f = function b([a]) \x7b return a + b; \x7d;\na + b;\n"
    let root := parseFile "f.ts" text
    let s : Search := ⟨text, (factsOf "f.ts" root).bindings, .empty⟩
    (references s root).map (fun r => (r.localName, r.line)) = [("a", 3), ("b", 3)] ∧
      ∀ r ∈ references s root, ∃ v, Visit.Reached root v ∧ v.node.kind.isName ∧
        localBinding v.around v.node.text = none ∧ referenceAt s v.around v.node = some r :=
  ⟨by decide +kernel, (references_agree_with_localBinding _ (kind_parse _ _)).2.2⟩

end SymbolGraph.Script
