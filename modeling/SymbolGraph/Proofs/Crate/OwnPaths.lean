import SymbolGraph.Proofs.Crate.Calls

/-!
# Functions called by their own paths

The name of a function joins the modules around it by double colons. A path in a call is looked up with
all its segments joined by dots. So the path of a function from the top of its file leads to it if no
module is on the path, and never if there is one.
-/
namespace SymbolGraph.Crate
open Text

/-! ## Paths of functions -/

/-- An item stands in modules of the file, the outermost first. -/
inductive StandsIn (root : Node) : List String → Node → Prop
  | top {item : Node} : root.kind = .file → item ∈ root.children → StandsIn root [] item
  | inner {modules : List String} {m name body item : Node} : StandsIn root modules m →
      m.kind = .moduleItem → nameOf? m = some name → m.child? .content = some body →
      body.kind = .moduleBody → item ∈ body.children → StandsIn root (modules ++ [name.text]) item

/-- The type or the trait whose members an item holds. -/
def ownerOf? (item : Node) : Option String :=
  if item.kind == .traitItem then (nameOf? item).map Tree.text else (item.child? .type).map typeName

/-- A function with a body stands in modules of the file, free or as a member of a type or trait. -/
inductive HasPath (root : Node) : List String → Option String → String → Node → Prop
  | free {modules : List String} {f name : Node} : StandsIn root modules f → f.kind = .functionItem →
      isFunction f = true → (f.child? .signature).bind nameOf? = some name →
      HasPath root modules none name.text f
  | member {modules : List String} {item f name : Node} {owner : String} : StandsIn root modules item →
      item.kind = .implItem ∨ item.kind = .traitItem → ownerOf? item = some owner →
      f ∈ item.children → f.kind = .method → isFunction f = true →
      (f.child? .signature).bind nameOf? = some name → HasPath root modules (some owner) name.text f

section Entered

variable {s : Surroundings} {t c : Node} {e : Entry}

theorem mem_entered_of_child {goesTo : Kind → Node → Bool} (hc : c ∈ t.children)
    (goes : goesTo t.kind c = true) (he : e ∈ entered goesTo (s.inside t) c) : e ∈ entered goesTo s t := by
  rw [entered_eq]
  exact List.mem_append_right _ (List.mem_flatMap.2 ⟨c, hc, by rwa [if_pos goes]⟩)

theorem functionName?_eq_some {name : Node} (hf : isFunction t = true)
    (hname : (t.child? .signature).bind nameOf? = some name) : functionName? s t =
      some (s.nodeName (if t.kind = .method then s.implType else none) name.text) := by
  obtain ⟨signature, hsignature, hname⟩ := Option.bind_eq_some_iff.1 hname
  simp only [isFunction, Bool.and_eq_true, Bool.or_eq_true, beq_iff_eq] at hf
  obtain ⟨body, hbody⟩ := Option.isSome_iff_exists.1 hf.2
  rw [nameOf?] at hname
  rcases hf.1.1 with hk | hk <;> simp [functionName?, hsignature, hname, hbody, hk]

theorem inside_eq_self (h : t.kind = .file ∨ t.kind = .moduleBody) : s.inside t = s := by
  rcases h with h | h <;>
  · have unnamed : functionName? s t = none := functionName?_eq_none (by simp [isFunction, h])
    simp [Surroundings.inside, unnamed, h]

theorem inside_module {name : Node} (h : t.kind = .moduleItem) (hname : nameOf? t = some name) :
    s.inside t = s.inModule name.text := by
  have unnamed : functionName? s t = none := functionName?_eq_none (by simp [isFunction, h])
  simp [Surroundings.inside, unnamed, h, hname]

theorem inside_type (h : t.kind = .implItem ∨ t.kind = .traitItem) : s.inside t = s.inType t := by
  rcases h with h | h <;>
  · have unnamed : functionName? s t = none := functionName?_eq_none (by simp [isFunction, h])
    simp [Surroundings.inside, unnamed, h]

/-- What the walk for functions enters in an item with only modules around, it enters in the file. -/
theorem StandsIn.mem_entered {root item : Node} {modules : List String} (h : StandsIn root modules item)
    (he : e ∈ entered holdsFunctions { modules } item) : e ∈ entered holdsFunctions {} root := by
  induction h with
  | top hk hitem =>
    refine mem_entered_of_child hitem (by simp [holdsFunctions, hk]) ?_
    rwa [inside_eq_self (.inl hk)]
  | inner _ hm hname hbody hk hitem ih =>
    refine ih (mem_entered_of_child (Tree.mem_children_of_child? hbody)
      (by simp [holdsFunctions, hm, Tree.role_of_child? hbody]) ?_)
    rw [inside_module hm hname]
    refine mem_entered_of_child hitem (by simp [holdsFunctions, hk]) ?_
    rwa [inside_eq_self (.inr hk)]

theorem exists_entered_self {name : Node} (hf : isFunction t = true)
    (hname : (t.child? .signature).bind nameOf? = some name) : ∃ e ∈ entered holdsFunctions s t,
      e.function = t ∧ e.name = s.nodeName (if t.kind = .method then s.implType else none) name.text := by
  obtain ⟨e, he⟩ := Option.isSome_iff_exists.1 ((isSome_entryOf? s t).trans hf)
  obtain ⟨named, -, -, function⟩ := entryOf?_eq_some.1 he
  rw [functionName?_eq_some hf hname] at named
  refine ⟨e, ?_, function, (Option.some_inj.1 named).symm⟩
  rw [entered_eq, he]
  exact List.mem_append_left _ (List.mem_singleton_self e)

theorem inType_eq (s : Surroundings) (item : Node) :
    ∃ isOpen, s.inType item = { s with implType := ownerOf? item, isOpen } := by
  unfold Surroundings.inType ownerOf?
  split
  · exact ⟨_, rfl⟩
  · exact ⟨_, rfl⟩

/-- A function is entered under the name that joins its modules by double colons. -/
theorem HasPath.exists_entered {root f : Node} {modules : List String} {owner : Option String}
    {name : String} (h : HasPath root modules owner name f) :
    ∃ e ∈ entered holdsFunctions {} root, e.function = f ∧
      e.name = qualifiedName modules (joinWith "." (owner.toList ++ [name])) := by
  cases h with
  | free stands hk hf hname =>
    obtain ⟨e, he, function, named⟩ := exists_entered_self (s := { modules }) hf hname
    refine ⟨e, stands.mem_entered he, function, ?_⟩
    simp [named, hk, Surroundings.nodeName, Surroundings.moduleName, joinWith]
  | member stands hitem howner hmem hk hf hname =>
    rename_i item n owner
    obtain ⟨isOpen, inType⟩ := inType_eq { modules } item
    obtain ⟨e, he, function, named⟩ :=
      exists_entered_self (s := ({ modules } : Surroundings).inType item) hf hname
    have holds : holdsFunctions item.kind f = true := by
      rcases hitem with h | h <;> simp [holdsFunctions, h, hk]
    refine ⟨e, stands.mem_entered (mem_entered_of_child hmem holds ?_), function, ?_⟩
    · rwa [inside_type hitem]
    · simp [named, hk, inType, howner, Surroundings.nodeName, Surroundings.moduleName, joinWith]

end Entered

/-! ## Names joined by dots and by colons -/

theorem length_joinWith_le {a b : String} (h : a.length ≤ b.length) (l : List String) :
    (joinWith a l).length ≤ (joinWith b l).length := by
  induction l with
  | nil => exact le_rfl
  | cons x rest ih =>
    cases rest with
    | nil => simp [joinWith]
    | cons y rest =>
      simp only [joinWith, String.intercalate_cons_cons, String.length_append] at ih ⊢
      omega

/-- With a module in front, the name joined by dots is shorter. -/
theorem joinWith_ne_qualifiedName {modules rest : List String} (hmodules : modules ≠ []) (hrest : rest ≠ []) :
    joinWith "." (modules ++ rest) ≠ qualifiedName modules (joinWith "." rest) := by
  intro h
  have lengths := congrArg String.length h
  have shorter := length_joinWith_le (a := ".") (b := "::") (by decide) modules
  have dot : ".".length = 1 := rfl
  have colons : "::".length = 2 := rfl
  rw [joinWith, String.intercalate_append_of_ne_nil hmodules hrest, qualifiedName,
    if_neg (by simpa using hmodules)] at lengths
  simp only [String.length_append, dot, colons] at lengths
  simp only [joinWith] at lengths shorter
  omega

/-! ## What a called path stands for -/

/-- The segments of the path that a node calls. -/
def calledPath? (t : Node) : Option (List String) := do
  let callee ← (t.child? .function).filter fun _ => t.kind == .callExpression
  match callee.kind, callee.children with
  | .pathExpression, [path] => if path.kind == .path then some (path.children.map Tree.text) else none
  | _, _ => none

/-- A name that is no keyword of paths, no import and no file of a module. -/
structure IsUnclaimed (c : CallSearch) (name : String) : Prop where
  plain : name ∉ ["Self", "crate", "self", "super"]
  unimported : c.table.binding? c.file name = none
  noChild : c.index.contains ⟨(ModulePath.ofFile c.file).crateDir,
    (ModulePath.ofFile c.file).segments ++ [name]⟩ = false
  noRoot : c.index.contains ⟨(ModulePath.ofFile c.file).crateDir, [name]⟩ = false

/-- Nothing nearer than the top of the file has the name: no variable, and no function named after one
around. -/
structure IsUnshadowed (c : CallSearch) (v : CallVisit) (name : String) : Prop where
  unbound : v.scopes.binds name = false
  noInner : ∀ owner ∈ (surroundingsIn v.around).owners, c.table.idIn? c.file (owner ++ "." ++ name) = none

section Targets

variable {c : CallSearch} {s : Surroundings} {scopes : Scopes} {t : Node} {name : String}

theorem inModules?_eq_none (h : IsUnclaimed c name) (rest : List String) :
    c.inModules? (name :: rest) = none := by
  have plain := h.plain
  simp only [List.mem_cons, List.not_mem_nil, or_false, not_or] at plain
  have outside : c.index.absolute? (ModulePath.ofFile c.file) (name :: rest) = none := by
    simp [ModuleIndex.absolute?, plain, h.noChild, h.noRoot]
  simp [CallSearch.inModules?, ModuleIndex.resolve?, outside]

theorem target?_of_called (c : CallSearch) (s : Surroundings) (scopes : Scopes) {segments : List String}
    (h : calledPath? t = some segments) :
    ∃ path : Node, path.kind = .path ∧ path.children.map Tree.text = segments ∧
      c.target? s scopes t = c.pathTarget? s scopes path := by
  obtain ⟨callee, hcallee, h⟩ := Option.bind_eq_some_iff.1 h
  obtain ⟨hcallee, hk⟩ := Option.filter_eq_some_iff.1 hcallee
  have hk : t.kind = .callExpression := by simpa using hk
  split at h
  · rename_i path hck hchildren
    obtain ⟨hpath, hsegments⟩ : path.kind = .path ∧ path.children.map Tree.text = segments := by
      simpa using h
    exact ⟨path, hpath, hsegments, by simp [CallSearch.target?, hk, hcallee, hck, hchildren]⟩
  · cases h

/-- A path of several segments is looked up as one name, joined by dots. -/
theorem target?_of_long_path {rest : List String} (h : calledPath? t = some (name :: rest)) (long : rest ≠ [])
    (unclaimed : IsUnclaimed c name) (top : s.modules = []) :
    c.target? s scopes t = c.table.idIn? c.file (joinWith "." (name :: rest)) := by
  obtain ⟨path, hpath, hsegments, target⟩ := target?_of_called c s scopes h
  obtain ⟨second, rest, rfl⟩ := List.exists_cons_of_ne_nil long
  have plain := unclaimed.plain
  simp only [List.mem_cons, List.not_mem_nil, or_false, not_or] at plain
  rw [target, CallSearch.pathTarget?]
  simp [hpath, hsegments, plain, unclaimed.unimported, inModules?_eq_none unclaimed,
    Surroundings.moduleName, qualifiedName, top]

/-- So it never leads to the function that has the path, if there is a module in front. -/
theorem target?_ne_of_module {inner rest : List String} (h : calledPath? t = some (name :: inner ++ rest))
    (hrest : rest ≠ []) (unclaimed : IsUnclaimed c name) (top : s.modules = []) :
    c.target? s scopes t ≠ some (symbolKey c.file (qualifiedName (name :: inner) (joinWith "." rest))) := by
  intro leads
  have long : inner ++ rest ≠ [] := by simp [hrest]
  rw [target?_of_long_path h long unclaimed top, NodeTable.idIn?, Option.ite_none_right_eq_some] at leads
  have modules : name :: inner ≠ [] := List.cons_ne_nil name inner
  exact joinWith_ne_qualifiedName modules hrest (symbolKey_injective (Option.some_inj.1 leads.2))

theorem target?_of_name {v : CallVisit} {id : String} (h : calledPath? v.node = some [name])
    (unclaimed : IsUnclaimed c name) (unshadowed : IsUnshadowed c v name)
    (top : (surroundingsIn v.around).modules = []) (known : c.table.idIn? c.file name = some id) :
    c.target? (surroundingsIn v.around) v.scopes v.node = some id := by
  obtain ⟨path, hpath, hsegments, target⟩ := target?_of_called c (surroundingsIn v.around) v.scopes h
  have outer : (surroundingsIn v.around).owners.findSome? (fun owner =>
      c.table.idIn? c.file (owner ++ "." ++ name)) = none :=
    List.findSome?_eq_none_iff.2 unshadowed.noInner
  rw [target, CallSearch.pathTarget?]
  simp [hpath, hsegments, unshadowed.unbound, NodeTable.imported?, unclaimed.unimported,
    CallSearch.local?, outer, Surroundings.moduleName, qualifiedName, top, known]

end Targets

/-- A function of a file has a node under the name that joins its modules by double colons. A call of
the path of the function, written outside of modules, leads to that node exactly if the path has no
module in it. If another function is the innermost one around the call, it then has an edge to the
node. -/
theorem own_path_leads_to_function_iff (p : Parsed) (file : String) (table : NodeTable)
    (held : ∀ f ∈ p.functions file, table.ids.contains f.id = true) {modules : List String}
    {owner : Option String} {name first : String} {f : Node} (hpath : HasPath p.root modules owner name f)
    {v : CallVisit} (reached : CallVisit.Reached (callSearch file table) p.root v)
    (top : (surroundingsIn v.around).modules = [])
    (called : calledPath? v.node = some (modules ++ owner.toList ++ [name]))
    (hfirst : (modules ++ owner.toList ++ [name]).head? = some first)
    (unclaimed : IsUnclaimed (callSearch file table) first)
    (unshadowed : modules = [] → owner = none → IsUnshadowed (callSearch file table) v name) :
    ∃ e ∈ entered holdsFunctions {} p.root, e.function = f ∧
      e.name = qualifiedName modules (joinWith "." (owner.toList ++ [name])) ∧
      (∃ g ∈ p.functions file, g.id = symbolKey file e.name) ∧
      ((callSearch file table).target? (surroundingsIn v.around) v.scopes v.node =
        some (symbolKey file e.name) ↔ modules = []) ∧
      (modules = [] → ∀ g ∈ entered holdsFunctions {} p.root, IsInnermost v.around g → g.name ≠ e.name →
        ⟨symbolKey file g.name, symbolKey file e.name⟩ ∈ p.calls file table) := by
  obtain ⟨e, he, function, named⟩ := hpath.exists_entered
  have known : table.idIn? file e.name = some (symbolKey file e.name) := idIn?_of_entered held he
  have leads : (callSearch file table).target? (surroundingsIn v.around) v.scopes v.node =
      some (symbolKey file e.name) ↔ modules = [] := by
    rcases modules with _ | ⟨m, inner⟩
    · refine iff_of_true ?_ rfl
      rcases owner with _ | o
      · obtain rfl : name = first := by simpa using hfirst
        rw [show e.name = name by simpa [qualifiedName, joinWith] using named] at known ⊢
        exact target?_of_name called unclaimed (unshadowed rfl rfl) top known
      · obtain rfl : o = first := by simpa using hfirst
        have long : [name] ≠ [] := by simp
        rw [show e.name = joinWith "." [o, name] by simpa [qualifiedName] using named] at known ⊢
        rw [target?_of_long_path called long unclaimed top]
        exact known
    · obtain rfl : m = first := by simpa using hfirst
      rw [List.append_assoc] at called
      refine iff_of_false ?_ (by simp)
      rw [named]
      exact target?_ne_of_module called (by simp) unclaimed top
  refine ⟨e, he, function, named, exists_function file he, leads, fun hmodules g hg innermost other => ?_⟩
  have caller := reached.caller_of_isInnermost innermost (idIn?_of_entered held hg)
  have target := leads.2 hmodules
  rw [← reached.surroundings] at target
  exact CallVisit.mem_calls.2 ⟨v, reached, ownCall?_eq_some.2 ⟨caller, target,
    fun same => other (symbolKey_injective same).symm⟩⟩

/-- The call of `f` by its name leads to it. -/
theorem free_function_called_by_name :
    let text := "fn f() \x7b\x7d\nfn main(v: u32) \x7b\n    let w = v;\n    f();\n\x7d\n"
    ∃ parsed, parse? text = some parsed ∧ ⟨"src/lib.rs:main", "src/lib.rs:f"⟩ ∈
      parsed.calls "src/lib.rs" (NodeTable.ofNodes (parsed.functions "src/lib.rs")) := by
  intro text
  have evaluated : ((parse? text).any fun parsed =>
      let table := NodeTable.ofNodes (parsed.functions "src/lib.rs")
      let c := callSearch "src/lib.rs" table
      let m := ModulePath.ofFile "src/lib.rs"
      decide ((∀ f ∈ parsed.functions "src/lib.rs", table.ids.contains f.id = true) ∧
        HidesNone isPassedOver parsed.root ∧ HidesNone isBindingAttribute parsed.root ∧
        c.table.binding? c.file "f" = none ∧ c.index.contains ⟨m.crateDir, m.segments ++ ["f"]⟩ = false ∧
        c.index.contains ⟨m.crateDir, ["f"]⟩ = false) &&
      (parsed.root.kind == .file && parsed.root.children.head?.any fun f =>
        f.kind == .functionItem && isFunction f &&
        ((f.child? .signature).bind nameOf?).any fun name => name.text == "f") &&
      (CallVisit.at? c parsed.root [1, 1, 1]).any fun v : CallVisit =>
        decide ((surroundingsIn v.around).modules = [] ∧ calledPath? v.node = some ["f"] ∧
          v.scopes.binds "f" = false ∧ ∀ owner ∈ (surroundingsIn v.around).owners,
            c.table.idIn? c.file (owner ++ "." ++ "f") = none) &&
        v.around.head?.any fun body => !isFunction body && v.around.tail.head?.any fun f =>
        (entryOf? (surroundingsIn v.around.tail.tail) f).any fun g => g.name == "main") = true := by
    decide +kernel
  simp only [Option.any_eq_true, Bool.and_eq_true, decide_eq_true_eq, beq_iff_eq,
    Bool.not_eq_true'] at evaluated
  obtain ⟨parsed, hparsed, ⟨⟨held, passed, attributes, unimported, noChild, noRoot⟩, hroot, f, hf,
    ⟨hfk, function⟩, name, hname, htext⟩, v, hv, ⟨top, called, unbound, noInner⟩, body, hbody, plain,
    caller, hcaller, g, hg, hgname⟩ := evaluated
  have hpath : HasPath parsed.root [] none "f" f := htext ▸
    .free (.top hroot (List.mem_of_mem_head? hf)) hfk function hname
  have reached := CallVisit.reached_of_at? hv
  obtain ⟨around, haround⟩ := List.head?_eq_some_iff.1 hbody
  rw [haround, List.tail_cons] at hcaller hg
  obtain ⟨outer, rfl⟩ := List.head?_eq_some_iff.1 hcaller
  have innermost : IsInnermost v.around g := by
    rw [haround]
    exact isInnermost_cons.2 (.inr ⟨plain, isInnermost_cons.2 (.inl hg)⟩)
  obtain ⟨e, -, -, hename, -, -, edge⟩ := own_path_leads_to_function_iff parsed "src/lib.rs"
    (NodeTable.ofNodes (parsed.functions "src/lib.rs")) held hpath reached top called rfl
    ⟨by decide, unimported, noChild, noRoot⟩ fun _ _ => ⟨unbound, noInner⟩
  have hename : e.name = "f" := hename.trans (by decide)
  have edge := edge rfl g (entered_holdsCalls passed attributes ▸ reached.mem_entered innermost) innermost
    (by rw [hgname, hename]; decide)
  rw [hgname, hename] at edge
  exact ⟨parsed, hparsed, edge⟩

/-- The call of `m::f` by its path from the top of the file leads nowhere. -/
theorem function_in_module_not_called_by_path :
    let text := "mod m \x7b\n    pub fn f() \x7b\x7d\n\x7d\nfn main() \x7b\n    m::f();\n\x7d\n"
    ∃ parsed, parse? text = some parsed ∧
      let table := NodeTable.ofNodes (parsed.functions "src/lib.rs")
      let c := callSearch "src/lib.rs" table
      (∃ f v, HasPath parsed.root ["m"] none "f" f ∧ CallVisit.Reached c parsed.root v ∧
        (surroundingsIn v.around).modules = [] ∧ calledPath? v.node = some ["m", "f"] ∧
        IsUnclaimed c "m" ∧ v.scopes.binds "m" = false) ∧
      (parsed.functions "src/lib.rs").map (·.id) = ["src/lib.rs:m::f", "src/lib.rs:main"] ∧
      parsed.calls "src/lib.rs" table = [] := by
  intro text
  have evaluated : ((parse? text).any fun parsed =>
      let table := NodeTable.ofNodes (parsed.functions "src/lib.rs")
      let c := callSearch "src/lib.rs" table
      let m := ModulePath.ofFile "src/lib.rs"
      decide ((parsed.functions "src/lib.rs").map (·.id) = ["src/lib.rs:m::f", "src/lib.rs:main"] ∧
        parsed.calls "src/lib.rs" table = [] ∧
        c.table.binding? c.file "m" = none ∧ c.index.contains ⟨m.crateDir, m.segments ++ ["m"]⟩ = false ∧
        c.index.contains ⟨m.crateDir, ["m"]⟩ = false) &&
      (parsed.root.kind == .file && parsed.root.children.head?.any fun outer =>
        outer.kind == .moduleItem && (nameOf? outer).any fun name => name.text == "m" &&
        (outer.child? .content).any fun body => body.kind == .moduleBody &&
        body.children.head?.any fun f => f.kind == .functionItem && isFunction f &&
        ((f.child? .signature).bind nameOf?).any fun name => name.text == "f") &&
      (CallVisit.at? c parsed.root [0, 1, 1]).any fun v : CallVisit =>
        decide ((surroundingsIn v.around).modules = [] ∧ calledPath? v.node = some ["m", "f"] ∧
          v.scopes.binds "m" = false)) = true := by
    decide +kernel
  simp only [Option.any_eq_true, Bool.and_eq_true, decide_eq_true_eq, beq_iff_eq] at evaluated
  obtain ⟨parsed, hparsed, ⟨⟨ids, none, unimported, noChild, noRoot⟩, hroot, outer, houter, hok, module, hmodule,
    hmtext, body, hbody, hbk, f, hf, ⟨hfk, function⟩, name, hname, htext⟩, v, hv, top, called, unbound⟩ :=
    evaluated
  have stands : StandsIn parsed.root ["m"] f := hmtext ▸ .inner (.top hroot (List.mem_of_mem_head? houter)) hok
    hmodule hbody hbk (List.mem_of_mem_head? hf)
  exact ⟨parsed, hparsed, ⟨f, v, htext ▸ .free stands hfk function hname, CallVisit.reached_of_at? hv, top,
    called, ⟨by decide, unimported, noChild, noRoot⟩, unbound⟩, ids, none⟩

end SymbolGraph.Crate
