import Mathlib.Tactic.SplitIfs
import SymbolGraph.Proofs.Readers
import SymbolGraph.Proofs.Tree
import SymbolGraph.Script.Facts
import SymbolGraph.Script.Grammar

/-!
# Names in the import statements of scripts

The names that an import statement binds hold no star, so that they are never taken for all names of a
module. The names are read by `anyName`, whatever else the statement holds, and comments between them do
not change that.
-/
namespace SymbolGraph.Script

namespace Parse

variable {α β : Type} {p q : Parse α} {P Q : α → Prop} {R : β → Prop}

/-- Whatever the reader gives, in any text and from wherever it starts, has the property. -/
def Gives (p : Parse α) (P : α → Prop) : Prop := ∀ env, SymbolGraph.Gives (p env) P

theorem Gives.mono (h : Gives p P) (himp : ∀ a, P a → Q a) : Gives p Q := fun env => (h env).mono himp

theorem gives_pure {a : α} (h : P a) : Gives (pure a) P := fun _ => SymbolGraph.gives_pure h

theorem gives_fail : Gives (fail : Parse α) P := fun _ => SymbolGraph.gives_fail

theorem Gives.bind {f : α → Parse β} (hp : Gives p P) (hf : ∀ a, P a → Gives (f a) R) :
    Gives (p >>= f) R := fun env => (hp env).bind fun a ha => hf a ha env

/-- Nothing has to be known about what is read first. -/
theorem Gives.after {f : α → Parse β} (hf : ∀ a, Gives (f a) R) : Gives (p >>= f) R :=
  fun env => .after fun a => hf a env

theorem Gives.ite {c : Prop} [Decidable c] (hp : Gives p P) (hq : Gives q P) :
    Gives (if c then p else q) P := by
  split
  · exact hp
  · exact hq

theorem Gives.orElse (hp : Gives p P) (hq : Gives q P) : Gives (p <|> q) P :=
  fun env => (hp env).orElse (hq env)

theorem gives_optional {p : Parse (List Node)} {P : Node → Prop} (h : Gives p fun l => ∀ t ∈ l, P t) :
    Gives (optional p) fun l => ∀ t ∈ l, P t :=
  h.orElse (gives_pure (List.forall_mem_nil P))

theorem gives_attempt (h : Gives p P) : Gives (attempt p) fun o => ∀ a, o = some a → P a := by
  refine Gives.orElse ?_ (gives_pure fun _ hnone => nomatch hnone)
  rw [map_eq_pure_bind]
  exact h.bind fun a ha => gives_pure fun _ heq => Option.some.inj heq ▸ ha

theorem gives_many (h : Gives p P) : Gives (many p) fun l => ∀ a ∈ l, P a := by
  have collected : ∀ env fuel cur acc l next, (∀ a ∈ acc, P a) →
      many.go p env fuel cur acc = some (l, next) → ∀ a ∈ l, P a := by
    intro env fuel
    induction fuel with
    | zero =>
      intro cur acc l next hacc heq
      obtain ⟨rfl, rfl⟩ := Prod.mk.inj (Option.some.inj heq)
      exact fun a ha => hacc a (List.mem_reverse.1 ha)
    | succ fuel ih =>
      intro cur acc l next hacc heq
      have stops (heq : some (acc.reverse, cur) = some (l, next)) : ∀ a ∈ l, P a := by
        obtain ⟨rfl, rfl⟩ := Prod.mk.inj (Option.some.inj heq)
        exact fun a ha => hacc a (List.mem_reverse.1 ha)
      rw [many.go] at heq
      split at heq
      · rename_i a mid ha
        split at heq
        · exact ih mid (a :: acc) l next (List.forall_mem_cons.2 ⟨h env cur a mid ha, hacc⟩) heq
        · exact stops heq
      · exact stops heq
  intro env cur l next heq
  exact collected env _ cur [] l next (List.forall_mem_nil _) heq

theorem gives_phrase {kind : Kind} {children : List Node} {P : Node → Prop}
    (h : ∀ text span, P (.node kind none text span children)) : Gives (phrase kind children) P :=
  .after fun _ => .after fun _ => gives_pure (h _ _)

theorem gives_commaList {item : Parse Node} {P : Node → Prop} (hmark : Gives (mark ",") P)
    (h : Gives item P) : Gives (commaList item) fun l => ∀ t ∈ l, P t := by
  have next : Gives (do
      let comma ← mark ","
      let next ← attempt item
      return comma :: next.toList) fun l => ∀ t ∈ l, P t :=
    hmark.bind fun comma hcomma => (gives_attempt h).bind fun next hnext => gives_pure (by
      simpa [hcomma] using hnext)
  refine (gives_attempt h).bind fun first hfirst => (gives_many next).bind fun rest hrest =>
    gives_pure fun t ht => ?_
  rcases List.mem_append.1 ht with ht | ht
  · exact hfirst t (Option.mem_toList.1 ht)
  · obtain ⟨l, hl, htl⟩ := List.mem_flatten.1 ht
    exact hrest l hl t htl

end Parse

/-! ## Names without stars -/

/-- The node is written without a star. -/
def IsStarless (t : Node) : Prop := '*' ∉ t.text.toList

/-- What a node of an import clause binds has no star: neither an identifier nor the name under which a
specifier makes something known. -/
structure BindsStarless (d : Node) : Prop where
  identifier : d.kind = .identifier → IsStarless d
  specifier : d.kind = .importSpecifier →
    ∀ n, (d.child? .givenName).or (d.child? .name) = some n → IsStarless n

/-- Nothing in the tree binds a name with a star. -/
def AllStarless (t : Node) : Prop := ∀ d ∈ t.nodes, BindsStarless d

theorem allStarless_node {kind : Kind} {role : Option Role} {text : String} {span : Span}
    {children : List Node} : AllStarless (.node kind role text span children) ↔
      BindsStarless (.node kind role text span children) ∧ ∀ c ∈ children, AllStarless c := by
  simp only [AllStarless, Tree.nodes, Tree.nodesAll_eq, List.forall_mem_cons, List.forall_mem_flatMap]

theorem bindsStarless_of_kind {d : Node} (h : d.kind ≠ .identifier ∧ d.kind ≠ .importSpecifier) :
    BindsStarless d :=
  ⟨fun heq => absurd heq h.1, fun heq => absurd heq h.2⟩

theorem allStarless_of_kind {kind : Kind} {role : Option Role} {text : String} {span : Span}
    {children : List Node} (h : kind ≠ .identifier ∧ kind ≠ .importSpecifier)
    (hchildren : ∀ c ∈ children, AllStarless c) : AllStarless (.node kind role text span children) :=
  allStarless_node.2 ⟨bindsStarless_of_kind h, hchildren⟩

theorem allStarless_withRole {t : Node} {r : Role} : AllStarless (t.withRole r) ↔ AllStarless t := by
  obtain ⟨kind, role, text, span, children⟩ := t
  have same : BindsStarless (.node kind (some r) text span children) ↔
      BindsStarless (.node kind role text span children) :=
    ⟨fun h => ⟨h.identifier, h.specifier⟩, fun h => ⟨h.identifier, h.specifier⟩⟩
  exact allStarless_node.trans ((and_congr_left' same).trans allStarless_node.symm)

theorem isStarless_withRole {t : Node} {r : Role} : IsStarless (t.withRole r) ↔ IsStarless t := by
  rw [IsStarless, Tree.text_withRole, IsStarless]

/-- A specifier that renames makes the new name known. -/
theorem bindsStarless_renamed {front : List Node} {name kw given : Node} {text : String} {span : Span}
    (hfront : ∀ t ∈ front, t.role = none) (hkw : kw.role = none) (hgiven : IsStarless given) :
    BindsStarless (.node .importSpecifier none text span
      (front ++ [name.withRole .name, kw, given.withRole .givenName])) := by
  refine ⟨fun hkind => (nomatch hkind), fun _ n hn => ?_⟩
  rcases Option.or_eq_some_iff.1 hn with hn | ⟨hnone, -⟩
  · have hrole := Tree.role_of_child? hn
    have hmem := Tree.mem_children_of_child? hn
    simp only [Tree.children, List.mem_append, List.mem_cons, List.not_mem_nil, or_false] at hmem
    rcases hmem with hmem | rfl | rfl | rfl
    · simp [hfront n hmem] at hrole
    · simp at hrole
    · simp [hkw] at hrole
    · exact isStarless_withRole.2 hgiven
  · have found := List.find?_eq_none.1 hnone (given.withRole .givenName) (by simp [Tree.children])
    simp at found

/-- A specifier that does not rename makes its own name known. -/
theorem bindsStarless_lone {front : List Node} {name : Node} {text : String} {span : Span}
    (hfront : ∀ t ∈ front, t.role = none) (hname : IsStarless name) :
    BindsStarless (.node .importSpecifier none text span (front ++ [name.withRole .name])) := by
  refine ⟨fun hkind => (nomatch hkind), fun _ n hn => ?_⟩
  have own {role : Role} (hn : Tree.child? (.node .importSpecifier none text span
      (front ++ [name.withRole .name]) : Node) role = some n) : IsStarless n := by
    have hrole := Tree.role_of_child? hn
    have hmem := Tree.mem_children_of_child? hn
    rcases List.mem_append.1 hmem with hmem | hmem
    · simp [hfront n hmem] at hrole
    · obtain rfl := List.mem_singleton.1 hmem
      exact isStarless_withRole.2 hname
  rcases Option.or_eq_some_iff.1 hn with hn | ⟨-, hn⟩
  · exact own hn
  · exact own hn

/-- Import statements bind no name with a star. -/
def ImportsStarless (t : Node) : Prop :=
  t.kind = .importStatement → ∀ c ∈ t.children, c.kind = .importClause → AllStarless c

/-- The node binds nothing for an import statement, or binds no name with a star. -/
def ClauseStarless (c : Node) : Prop := c.kind = .importClause → AllStarless c

theorem clauseStarless_of_kind {c : Node} (h : c.kind ≠ .importClause) : ClauseStarless c :=
  fun heq => absurd heq h

/-- Words and marks are tokens in no role. -/
structure IsToken (t : Node) : Prop where
  kind : t.kind = .token
  role : t.role = none
  starless : AllStarless t

theorem clauseStarless_of_token {t : Node} (h : IsToken t) : ClauseStarless t :=
  clauseStarless_of_kind (by simp [h.kind])

/-- A name runs over characters that are no stars. -/
theorem ne_star_of_lt_nameEnd {src : Source} {i k : Nat} {c : Char} (hi : i ≤ k)
    (hk : k < nameEnd src i) (hget : src.get? k = some c) : c ≠ '*' := by
  rintro rfl
  unfold nameEnd at hk
  split at hk
  · split at hk
    · exact absurd (Source.get?_of_lt_skipWhile hi hk hget) (by decide)
    · split at hk
      · exact absurd (Source.get?_of_lt_skipWhile hi hk hget) (by decide)
      · omega
  · omega

namespace Parse

theorem gives_token (start stop : Nat) : Gives (leaf .token start stop) IsToken :=
  .after fun _ => .after fun _ => gives_pure
    ⟨rfl, rfl, allStarless_of_kind (by decide) (List.forall_mem_nil _)⟩

theorem gives_word (spelling : String) : Gives (word spelling) IsToken :=
  .after fun _ => .after fun _ => .after fun _ => gives_token _ _

theorem gives_mark (spelling : String) : Gives (mark spelling) IsToken :=
  .after fun _ => .after fun _ => .after fun _ => gives_token _ _

theorem gives_anyName : Gives (anyName .identifier) fun t => IsStarless t ∧ AllStarless t := by
  intro env cur t next h
  simp only [anyName, bind, ReaderT.bind, StateT.bind, Option.bind_eq_some_iff] at h
  obtain ⟨_, -, ⟨src, _⟩, hsrc, ⟨i, _⟩, -, _, -, hleaf⟩ := h
  obtain rfl : env.source = src := (Prod.mk.inj (Option.some.inj hsrc)).1
  obtain rfl := (Prod.mk.inj (Option.some.inj hleaf)).1
  have starless : '*' ∉ (env.source.slice i (nameEnd env.source i)).toList := by
    intro hstar
    obtain ⟨k, hi, hk, hget⟩ := Source.mem_slice.1 hstar
    exact ne_star_of_lt_nameEnd hi hk hget rfl
  exact ⟨starless, allStarless_node.2 ⟨⟨fun _ => starless, fun hkind => nomatch hkind⟩, List.forall_mem_nil _⟩⟩

theorem gives_identifier : Gives identifier fun t => IsStarless t ∧ AllStarless t :=
  .after fun _ => .after fun _ => gives_anyName

theorem gives_stringLiteral : Gives stringLiteral fun t => t.kind = .string ∧ AllStarless t := by
  refine .after fun _ => .after fun _ => .after fun _ => .after fun _ => ?_
  split
  · exact .after fun _ => .after fun _ => gives_pure
      ⟨rfl, allStarless_of_kind (by decide) (List.forall_mem_nil _)⟩
  · exact gives_fail

theorem gives_moduleExportName : Gives moduleExportName AllStarless :=
  (gives_stringLiteral.mono fun _ h => h.2).orElse (gives_anyName.mono fun _ h => h.2)

/-! ## Import clauses -/

theorem gives_importSpecifier : Gives importSpecifier AllStarless := by
  refine (gives_optional (P := IsToken) ?_).bind fun front hfront => ?_
  · exact .after fun _ => .after fun _ => (gives_word _).bind fun t ht => .after fun _ =>
      .after fun _ => .after fun _ => .after fun _ => .after fun _ => gives_pure (by simpa using ht)
  have roles : ∀ t ∈ front, t.role = none := fun t ht => (hfront t ht).role
  have starless : ∀ t ∈ front, AllStarless t := fun t ht => (hfront t ht).starless
  refine Gives.bind (P := fun names => (∀ t ∈ names, AllStarless t) ∧ ∀ text span,
    BindsStarless (.node .importSpecifier none text span (front ++ names))) (.orElse ?_ ?_) ?_
  · refine gives_moduleExportName.bind fun name hname => (gives_word "as").bind fun kw hkw =>
      gives_anyName.bind fun given hgiven => gives_pure ⟨?_, fun _ _ => ?_⟩
    · simp [allStarless_withRole, hname, hkw.starless, hgiven.2]
    · exact bindsStarless_renamed roles hkw.role hgiven.1
  · refine gives_anyName.bind fun name hname => gives_pure ⟨?_, fun _ _ => ?_⟩
    · simp [allStarless_withRole, hname.2]
    · exact bindsStarless_lone roles hname.1
  · rintro names ⟨hnames, hbinds⟩
    exact gives_phrase fun _ _ => allStarless_node.2
      ⟨hbinds _ _, List.forall_mem_append.2 ⟨starless, hnames⟩⟩

theorem gives_namespaceImport : Gives namespaceImport AllStarless :=
  (gives_mark "*").bind fun star hstar => (gives_word "as").bind fun kw hkw =>
    gives_identifier.bind fun name hname => gives_phrase fun _ _ =>
      allStarless_of_kind (by decide) (by simp [hstar.starless, hkw.starless, hname.2])

theorem gives_namedImports : Gives namedImports AllStarless := by
  have comma : Gives (mark ",") AllStarless := (gives_mark ",").mono fun _ h => h.starless
  exact (gives_mark _).bind fun l hl => (gives_commaList comma gives_importSpecifier).bind
    fun items hitems => (gives_mark _).bind fun r hr => gives_phrase fun _ _ =>
      allStarless_of_kind (by decide)
        (by simpa [or_imp, forall_and, hl.starless, hr.starless] using hitems)

theorem gives_importClause : Gives importClause AllStarless := by
  have part : Gives (namespaceImport <|> namedImports) AllStarless :=
    gives_namespaceImport.orElse gives_namedImports
  refine (gives_attempt part).bind fun only honly => ?_
  split
  · rename_i t
    exact gives_phrase fun _ _ => allStarless_of_kind (by decide) (by simpa using honly t rfl)
  · refine gives_identifier.bind fun name hname => (gives_optional (P := AllStarless) ?_).bind
      fun more hmore => gives_phrase fun _ _ => allStarless_of_kind (by decide)
        (List.forall_mem_cons.2 ⟨hname.2, hmore⟩)
    exact (gives_mark ",").bind fun comma hcomma => part.bind fun t ht =>
      gives_pure (by simp [hcomma.starless, ht])

/-! ## Import statements -/

theorem gives_importContent : Gives importContent fun l => ∀ c ∈ l, ClauseStarless c := by
  have source : Gives stringLiteral fun t => ClauseStarless (t.withRole .source) :=
    gives_stringLiteral.mono fun t ht => clauseStarless_of_kind (by simp [ht.1])
  refine .orElse ?_ (.orElse ?_ ?_)
  · exact source.bind fun t ht => gives_pure (by simpa using ht)
  · refine Gives.bind (P := ClauseStarless) ?_ fun t ht => gives_pure (by simpa using ht)
    exact .after fun _ => .after fun _ => .after fun _ => .after fun _ => .after fun _ =>
      .after fun _ => gives_phrase fun _ _ => clauseStarless_of_kind (by simp [Tree.kind])
  · refine gives_importClause.bind fun clause hclause => Gives.bind
      (P := fun l => ∀ c ∈ l, ClauseStarless c) ?_ fun rest hrest => gives_pure ?_
    · exact (gives_word "from").bind fun kw hkw => source.bind fun t ht => gives_pure (by
        simpa [ht] using clauseStarless_of_kind (by simp [hkw.kind]))
    · exact List.forall_mem_cons.2 ⟨fun _ => hclause, hrest⟩

theorem gives_semicolon (inExpression : Bool) :
    Gives (semicolon inExpression) fun l => ∀ c ∈ l, ClauseStarless c :=
  .orElse ((gives_mark ";").bind fun _ h => gives_pure (by simpa using clauseStarless_of_token h))
    (.after fun _ => gives_pure (List.forall_mem_nil _))

variable {self : Self}

theorem gives_importAttribute : Gives (importAttribute self) fun l => ∀ c ∈ l, ClauseStarless c := by
  refine gives_optional (.after fun _ => .after fun _ => .after fun _ => .after fun _ =>
    Gives.bind (P := ClauseStarless) ?_ fun t ht => gives_pure (by simpa using ht))
  exact gives_phrase fun _ _ => clauseStarless_of_kind (by simp [Tree.kind])

theorem gives_importStatement : Gives (importStatement self) ImportsStarless := by
  refine (gives_word "import").bind fun kw hkw => Gives.bind (P := fun l => ∀ c ∈ l, ClauseStarless c)
    (gives_importContent.orElse ?_) fun content hcontent => gives_importAttribute.bind
      fun attributes hattributes => (gives_semicolon true).bind fun stop hstop =>
        gives_phrase fun _ _ _ c hc => ?_
  · exact .after fun _ => .after fun _ => (gives_word _).bind fun t ht => gives_importContent.bind
      fun content hcontent => gives_pure (List.forall_mem_cons.2 ⟨clauseStarless_of_token ht, hcontent⟩)
  · simp only [Tree.children, List.cons_append, List.mem_cons, List.mem_append] at hc
    rcases hc with rfl | (hc | hc) | hc
    · exact clauseStarless_of_token hkw
    · exact hcontent c hc
    · exact hattributes c hc
    · exact hstop c hc

/-! ## Other statements -/

theorem gives_other {kind : Kind} {children : List Node} (h : kind ≠ .importStatement) :
    Gives (phrase kind children) ImportsStarless :=
  gives_phrase fun _ _ heq => absurd heq h

theorem gives_classDeclaration : Gives (classDeclaration self) ImportsStarless :=
  .after fun _ => .after fun _ => .after fun _ => .after fun _ => .after fun _ =>
    gives_other (by split <;> decide)

theorem gives_functionDeclaration : Gives (functionDeclaration self) ImportsStarless := by
  refine .after fun ⟨_, _⟩ => .after fun _ => .after fun _ => .after fun _ => ?_
  split
  · exact .after fun _ => gives_other (by split <;> decide)
  · exact .after fun _ => .after fun _ => gives_other (by decide)

theorem gives_variableDeclaration : Gives (variableDeclaration self) ImportsStarless := by
  refine Gives.bind (P := fun r => r.1 ≠ Kind.importStatement) ?_ fun r hr => .after fun _ => gives_other hr
  exact .after fun _ => .after fun _ => .after fun _ => .after fun _ =>
    gives_pure (by dsimp only; split <;> decide)

theorem gives_importAlias : Gives importAlias ImportsStarless :=
  .after fun _ => .after fun _ => .after fun _ => .after fun _ => .after fun _ => gives_other (by decide)

theorem gives_declarationOf (w : String) : Gives (declarationOf self w) ImportsStarless := by
  have enum : Gives (enumDeclaration self) ImportsStarless :=
    .after fun _ => .after fun _ => .after fun _ => .after fun _ => gives_other (by decide)
  have interface : Gives (interfaceDeclaration self) ImportsStarless :=
    .after fun _ => .after fun _ => .after fun _ => .after fun _ => .after fun _ =>
      gives_other (by decide)
  have typeAlias : Gives (typeAliasDeclaration self) ImportsStarless :=
    .after fun _ => .after fun _ => .after fun _ => .after fun _ => .after fun _ => .after fun _ =>
      gives_other (by decide)
  have space : Gives (namespaceDeclaration self) ImportsStarless :=
    .after fun _ => .after fun _ => .after fun _ => .after fun _ => gives_other (by decide)
  have module : Gives (moduleDeclaration self) ImportsStarless :=
    .after fun _ => .after fun _ => .after fun _ => .after fun _ => gives_other (by decide)
  exact .ite gives_functionDeclaration <| .ite gives_classDeclaration <|
    .ite (enum.orElse gives_variableDeclaration) <| .ite gives_variableDeclaration <|
    .ite interface <| .ite typeAlias <| .ite enum <| .ite space <| .ite module <| .ite gives_importAlias gives_fail

theorem gives_declaration : Gives (declaration self) ImportsStarless := by
  refine .after fun _ => .ite gives_classDeclaration (.after fun _ => .ite ?_ (gives_declarationOf _))
  refine .after fun _ => .after fun _ => .after fun _ => .after fun _ => ?_
  split
  · exact .after fun _ => .after fun _ => gives_other (by decide)
  · exact .after fun _ => gives_other (by decide)

theorem gives_exportStatement : Gives (exportStatement self) ImportsStarless :=
  .after fun _ => .after fun _ => .after fun _ => gives_other (by decide)

theorem gives_forStatement : Gives (forStatement self) ImportsStarless := by
  refine .after fun _ => .after fun _ => .after fun _ =>
    Gives.bind (P := fun r => r.1 ≠ Kind.importStatement) (.orElse ?_ ?_) fun _ hr => .after fun _ =>
      gives_other hr
  · exact .after fun _ => .after fun _ => gives_pure (by simp)
  · exact .after fun _ => .after fun _ => gives_pure (by simp)

theorem gives_leaveStatement {kind : Kind} (h : kind ≠ .importStatement) (w : String) :
    Gives (leaveStatement self kind w) ImportsStarless := by
  refine .after fun _ => .after fun _ => ?_
  split
  · exact gives_other h
  · exact .after fun _ => .after fun _ => gives_other h

theorem gives_jumpStatement {kind : Kind} (h : kind ≠ .importStatement) (w : String) :
    Gives (jumpStatement kind w) ImportsStarless :=
  .after fun _ => .after fun _ => .after fun _ => gives_other h

theorem gives_wordStatement (w : String) : Gives (wordStatement self w) ImportsStarless := by
  have expression : Gives (expressionStatement self) ImportsStarless :=
    .after fun _ => .after fun _ => gives_other (by decide)
  have labeled : Gives (labeledStatement self) ImportsStarless :=
    .after fun _ => .after fun _ => .after fun _ => gives_other (by decide)
  have space : Gives (namespaceStatement self) ImportsStarless :=
    .after fun _ => .after fun _ => gives_other (by decide)
  have condition : Gives (ifStatement self) ImportsStarless :=
    .after fun _ => .after fun _ => .after fun _ => .after fun _ => gives_other (by decide)
  have cases : Gives (switchStatement self) ImportsStarless :=
    .after fun _ => .after fun _ => .after fun _ => .after fun _ => .after fun _ => .after fun _ =>
      gives_other (by decide)
  have while_ : Gives (whileStatement self) ImportsStarless :=
    .after fun _ => .after fun _ => .after fun _ => gives_other (by decide)
  have with_ : Gives (withStatement self) ImportsStarless :=
    .after fun _ => .after fun _ => .after fun _ => gives_other (by decide)
  have do_ : Gives (doStatement self) ImportsStarless :=
    .after fun _ => .after fun _ => .after fun _ => .after fun _ => .after fun _ =>
      gives_other (by decide)
  have try_ : Gives (tryStatement self) ImportsStarless :=
    .after fun _ => .after fun _ => .after fun _ => .after fun _ => gives_other (by decide)
  have debugger : Gives (do phrase .debuggerStatement ((← word w) :: (← semicolon true)))
      ImportsStarless :=
    .after fun _ => .after fun _ => gives_other (by decide)
  exact .ite (gives_importAlias.orElse (gives_importStatement.orElse expression)) <|
    .ite gives_exportStatement <| .ite condition <| .ite cases <| .ite gives_forStatement <|
    .ite while_ <| .ite with_ <| .ite do_ <| .ite try_ <|
    .ite (gives_leaveStatement (by decide) w) <| .ite (gives_leaveStatement (by decide) w) <|
    .ite (gives_jumpStatement (by decide) w) <| .ite (gives_jumpStatement (by decide) w) <|
    .ite debugger <| .ite (space.orElse expression) <| .ite gives_declaration <|
    .ite (gives_declaration.orElse (labeled.orElse expression)) (labeled.orElse expression)

theorem gives_statement : Gives (statement self) ImportsStarless := by
  refine .after fun c => ?_
  split
  · exact .after fun _ => .after fun _ => .after fun _ => gives_other (by decide)
  · exact .after fun _ => gives_other (by decide)
  · exact gives_exportStatement.orElse gives_classDeclaration
  · exact .after fun _ => gives_wordStatement _
  · exact gives_fail

end Parse

/-! ## Programs -/

theorem gives_program : program.Gives fun root => ∀ t ∈ root.children, ImportsStarless t := by
  have other {kind : Kind} (h : kind ≠ .importStatement) (start stop : Nat) :
      (Parse.leaf kind start stop).Gives ImportsStarless :=
    .after fun _ => .after fun _ => Parse.gives_pure fun heq => absurd heq h
  have statement (depth : Nat) : (Rule.run depth .statement).Gives ImportsStarless := by
    cases depth with
    | zero => exact Parse.gives_fail
    | succ depth => exact Parse.gives_statement
  have line : skipLine.Gives ImportsStarless :=
    .after fun _ => .after fun _ => .after fun _ => .after fun _ => other (by decide) _ _
  refine .after fun _ => (Parse.gives_optional (P := ImportsStarless) ?_).bind fun front hfront =>
    (Parse.gives_many ((statement _).orElse line)).bind fun body hbody => .after fun _ => .after fun _ =>
      Parse.gives_pure fun t ht => (List.mem_append.1 ht).elim (hfront t) (hbody t)
  refine Parse.Gives.bind (P := ImportsStarless) ?_ fun t ht => Parse.gives_pure (by simpa using ht)
  exact .after fun _ => .after fun _ => other (by decide) _ _

/-! ## Comments -/

theorem mem_insertAmong {comment x : Node} {l : List Node} (h : x ∈ insertAmong comment l) :
    x = comment ∨ x ∈ l ∨ ∃ t ∈ l, x = insertComment comment t := by
  induction l with
  | nil =>
    rw [insertAmong, List.mem_singleton] at h
    exact .inl h
  | cons t rest ih =>
    rw [insertAmong] at h
    split_ifs at h
    · exact (List.mem_cons.1 h).imp_right .inl
    · exact .inr (.inl h)
    · rcases List.mem_cons.1 h with rfl | h
      · exact .inr (.inr ⟨t, List.mem_cons_self, rfl⟩)
      · exact .inr (.inl (List.mem_cons_of_mem t h))
    · rcases List.mem_cons.1 h with rfl | h
      · exact .inr (.inl List.mem_cons_self)
      · rcases ih h with h | h | ⟨u, hu, h⟩
        · exact .inl h
        · exact .inr (.inl (List.mem_cons_of_mem t h))
        · exact .inr (.inr ⟨u, List.mem_cons_of_mem t hu, h⟩)

theorem insertComment_eq (comment t : Node) : insertComment comment t =
    .node t.kind t.role t.text t.span (insertAmong comment t.children) := by
  cases t
  rw [insertComment]
  rfl

theorem role_insertComment (comment t : Node) : (insertComment comment t).role = t.role := by
  rw [insertComment_eq]
  rfl

theorem text_insertComment (comment t : Node) : (insertComment comment t).text = t.text := by
  rw [insertComment_eq]
  rfl

/-- Comments have no role, so what stands in a role stays. -/
theorem text_find?_insertAmong {comment : Node} (h : comment.role = none) (role : Role) (l : List Node) :
    ((insertAmong comment l).find? (·.role == some role)).map Tree.text =
      (l.find? (·.role == some role)).map Tree.text := by
  have hcomment : (comment.role == some role) = false := by simp [h]
  induction l with
  | nil => simp [insertAmong, hcomment]
  | cons t rest ih =>
    rw [insertAmong]
    split_ifs
    · rw [List.find?_cons, hcomment]
    · rfl
    · rw [List.find?_cons, List.find?_cons, role_insertComment]
      cases t.role == some role
      · rfl
      · simp [text_insertComment]
    · rw [List.find?_cons, List.find?_cons]
      cases t.role == some role
      · exact ih
      · rfl

/-- A comment as `parse` puts it into the tree. -/
structure IsComment (t : Node) : Prop where
  kind : t.kind = .comment
  role : t.role = none
  starless : AllStarless t

theorem bindsStarless_insertComment {comment t : Node} (hcomment : IsComment comment)
    (h : BindsStarless t) : BindsStarless (insertComment comment t) := by
  rw [insertComment_eq]
  refine ⟨fun hkind => h.identifier hkind, fun hkind n hn => ?_⟩
  have same := congrArg (Option.map Tree.text) hn
  simp only [Tree.child?, Tree.children, Option.map_or, text_find?_insertAmong hcomment.role,
    Option.map_some] at same
  rw [← Option.map_or] at same
  obtain ⟨m, hm, htext⟩ := Option.map_eq_some_iff.1 same
  have starless := h.specifier hkind m hm
  rwa [IsStarless, htext] at starless

theorem allStarless_insertComment {comment : Node} (hcomment : IsComment comment) :
    ∀ t : Node, AllStarless t → AllStarless (insertComment comment t)
  | .node kind role text span children, h => by
    obtain ⟨hown, hchildren⟩ := allStarless_node.1 h
    have own := bindsStarless_insertComment hcomment hown
    rw [insertComment] at own ⊢
    refine allStarless_node.2 ⟨own, fun c hc => ?_⟩
    rcases mem_insertAmong hc with rfl | hc | ⟨u, hu, rfl⟩
    · exact hcomment.starless
    · exact hchildren c hc
    · exact allStarless_insertComment hcomment u (hchildren u hu)

theorem importsStarless_insertComment {comment root : Node} (hcomment : IsComment comment)
    (h : ∀ t ∈ root.children, ImportsStarless t) :
    ∀ t ∈ (insertComment comment root).children, ImportsStarless t := by
  rw [insertComment_eq]
  intro t ht hkind
  rcases mem_insertAmong ht with rfl | ht | ⟨u, hu, rfl⟩
  · exact absurd (hcomment.kind.symm.trans hkind) (by decide)
  · exact h t ht hkind
  · rw [insertComment_eq] at hkind ⊢
    intro c hc hclause
    rcases mem_insertAmong hc with rfl | hc | ⟨v, hv, rfl⟩
    · exact hcomment.starless
    · exact h u hu hkind c hc hclause
    · rw [insertComment_eq] at hclause
      exact allStarless_insertComment hcomment v (h u hu hkind v hv hclause)

/-- The import statements of a script bind no name with a star. -/
theorem importsStarless_parseFile (path text : String) :
    ∀ t ∈ (parseFile path text).children, ImportsStarless t := by
  unfold parseFile parse
  dsimp only
  split
  · rename_i tree cursor h
    refine List.foldlRecOn (motive := fun root : Node => ∀ t ∈ root.children, ImportsStarless t) _ _
      (gives_program _ _ _ _ h) fun root hroot comment hcomment => ?_
    obtain ⟨span, -, rfl⟩ := List.mem_map.1 hcomment
    exact importsStarless_insertComment
      ⟨rfl, rfl, allStarless_of_kind (by decide) (List.forall_mem_nil _)⟩ hroot
  · exact List.forall_mem_nil _

/-! ## Imports -/

theorem mem_of_mem_trimBoth {p : Char → Bool} {s : String} {c : Char}
    (h : c ∈ (Text.trimBoth p s).toList) : c ∈ s.toList := by
  simp only [Text.trimBoth, Text.trimEnd, Text.trimStart, String.toList_ofList, List.mem_reverse] at h
  have front := (List.dropWhile_suffix p).subset h
  exact (List.dropWhile_suffix p).subset (List.mem_reverse.1 front)

theorem IsStarless.text_ne {t : Node} (h : IsStarless t) : t.text ≠ starName := by
  intro heq
  exact h (heq ▸ by decide)

theorem IsStarless.literalText_ne {t : Node} (h : IsStarless t) : literalText t ≠ starName := by
  intro heq
  have hstar : '*' ∈ (literalText t).toList := heq ▸ by decide
  exact h (mem_of_mem_trimBoth hstar)

/-- The imports of a clause bind names that are no stars. -/
theorem localName_importPart {file specifier : String} {line : Nat} {clause part : Node} {i : Import}
    (hclause : AllStarless clause) (hpart : part ∈ clause.children)
    (hi : i ∈ importPart file specifier line part) :
    i.localName ≠ starName ∧ i.isReExport = false := by
  have below {d : Node} (hd : d ∈ part.nodes) : BindsStarless d :=
    hclause d (Tree.mem_nodes_of_mem_children hpart hd)
  have child {d : Node} (hd : d ∈ namedChildren part) : BindsStarless d :=
    below (Tree.mem_nodes_of_mem_children (List.mem_filter.1 hd).1 d.mem_nodes_self)
  unfold importPart at hi
  split at hi
  · rename_i hkind
    obtain rfl := List.mem_singleton.1 hi
    exact ⟨((below part.mem_nodes_self).identifier hkind).text_ne, rfl⟩
  · split at hi
    · rename_i name hname
      obtain rfl := List.mem_singleton.1 hi
      have hkind : name.kind = .identifier := by simpa using List.find?_some hname
      exact ⟨((child (List.mem_of_find?_eq_some hname)).identifier hkind).text_ne, rfl⟩
    · exact absurd hi List.not_mem_nil
  · obtain ⟨spec, hspec, hi⟩ := List.mem_filterMap.1 hi
    obtain ⟨hspec, hkind⟩ := List.mem_filter.1 hspec
    obtain ⟨name, hname, hi⟩ := Option.bind_eq_some_iff.1 hi
    obtain rfl := Option.some.inj hi
    have binds := (child hspec).specifier (by simpa using hkind)
    refine ⟨?_, rfl⟩
    rw [Import.localName, textIn?]
    cases hgiven : spec.child? .givenName with
    | some given => exact (binds given (by rw [hgiven]; rfl)).text_ne
    | none => exact (binds name (by rw [hgiven, hname]; rfl)).literalText_ne
  · exact absurd hi List.not_mem_nil

end SymbolGraph.Script
