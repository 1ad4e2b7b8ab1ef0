import SymbolGraph.CallGraph.Build
import SymbolGraph.Proofs.Ordered

/-!
# Functions of a project

The functions of a file carry the path of the file in their ids, and nothing is known about their
purity. So the functions of a project are kept under their own ids, each belongs to one of the files,
and a file can be replaced without a look at the others.
-/
namespace SymbolGraph

theorem symbolKey_injective {file a b : String} (h : symbolKey file a = symbolKey file b) : a = b := by
  have chars := congrArg String.toList h
  simp only [symbolKey, String.toList_append, List.append_cancel_left_eq] at chars
  exact String.toList_injective chars

/-- A function as it is found in a file. -/
structure FunctionNode.FoundIn (file : String) (f : FunctionNode) : Prop where
  id_eq : f.id = symbolKey file f.name
  file_eq : f.file = file
  purity_eq : f.purity = .unknown

/-! ## Scripts -/

namespace Script

theorem foundIn_functionNode (s : Surroundings) (declaration function : Node) (name : String) :
    (functionNode s declaration function name).FoundIn s.file := by
  unfold functionNode
  split
  exact ⟨rfl, rfl, rfl⟩

-- One statement for each function of the walk; only the surroundings differ, never the file.
mutual

theorem foundIn_declaredIn (s : Surroundings) (holder : Option String) (place : List Nat) (t : Node) :
    ∀ d ∈ declaredIn s holder place t, d.node.FoundIn s.file := by
  obtain ⟨kind, role, text, span, children⟩ := t
  intro d hd
  rw [declaredIn] at hd
  split at hd
  · rcases List.mem_cons.mp hd with rfl | hd
    · exact foundIn_functionNode ..
    · exact foundIn_declaredInBody (s.within _) place 0 children d hd
  · exact foundIn_declaredInValue s _ _ place 0 children d hd
  · exact foundIn_declaredInBody (s.within _) place 0 children d hd
  · rename_i name _
    exact foundIn_declaredInBody { s with modules := s.modules ++ [name] } place 0 children d hd
  · exact foundIn_declaredInAll s _ place 0 children d hd

theorem foundIn_declaredInAll (s : Surroundings) (holder : Option String) (place : List Nat)
    (i : Nat) (ts : List Node) : ∀ d ∈ declaredInAll s holder place i ts, d.node.FoundIn s.file := by
  cases ts with
  | nil => simp [declaredInAll]
  | cons t rest =>
    intro d hd
    rw [declaredInAll] at hd
    rcases List.mem_append.mp hd with hd | hd
    · exact foundIn_declaredIn s holder (i :: place) t d hd
    · exact foundIn_declaredInAll s holder place (i + 1) rest d hd

theorem foundIn_declaredInBody (s : Surroundings) (place : List Nat) (i : Nat) (ts : List Node) :
    ∀ d ∈ declaredInBody s place i ts, d.node.FoundIn s.file := by
  cases ts with
  | nil => simp [declaredInBody]
  | cons t rest =>
    obtain ⟨kind, role, text, span, children⟩ := t
    intro d hd
    rw [declaredInBody] at hd
    split at hd
    · exact foundIn_declaredInAll s _ (i :: place) 0 children d hd
    · exact foundIn_declaredInBody s place (i + 1) rest d hd

theorem foundIn_declaredInValue (s : Surroundings) (declaration : Node) (name : String)
    (place : List Nat) (i : Nat) (ts : List Node) :
    ∀ d ∈ declaredInValue s declaration name place i ts, d.node.FoundIn s.file := by
  cases ts with
  | nil => simp [declaredInValue]
  | cons t rest =>
    obtain ⟨kind, role, text, span, children⟩ := t
    intro d hd
    rw [declaredInValue] at hd
    split at hd
    · rcases List.mem_cons.mp hd with rfl | hd
      · exact foundIn_functionNode ..
      · exact foundIn_declaredInBody (s.within _) (i :: place) 0 children d hd
    · exact foundIn_declaredInValue s declaration name place (i + 1) rest d hd

end

theorem foundIn_functions {file : String} {root : Node} {f : FunctionNode}
    (h : f ∈ functions file root) : f.FoundIn file := by
  obtain ⟨d, hd, rfl⟩ := List.mem_map.mp h
  exact foundIn_declaredInAll _ _ _ _ _ d ((firstOfEach_sublist ..).subset hd)

end Script

/-! ## Rust files -/

namespace Crate

/-- A function of a node is the node itself or a function of a child, whatever the surroundings
become on the way. -/
theorem mem_functionsIn {p : Parsed} {file : String} {s : Surroundings} {kind : Kind}
    {role : Option Role} {text : String} {span : Span} {children : List Node} {f : FunctionNode}
    (h : f ∈ p.functionsIn file s (.node kind role text span children)) :
    (∃ t name, f = p.functionNode file s t name) ∨
      ∃ s', f ∈ p.functionsInAll file s' kind children := by
  rw [Parsed.functionsIn] at h
  rcases List.mem_append.mp h with h | h
  · obtain ⟨name, -, rfl⟩ := Option.map_eq_some_iff.mp (Option.mem_toList.mp h)
    exact .inl ⟨_, name, rfl⟩
  · exact .inr ⟨_, h⟩

mutual

theorem foundIn_functionsIn (p : Parsed) (file : String) (s : Surroundings) (t : Node) :
    ∀ f ∈ p.functionsIn file s t, f.FoundIn file := by
  obtain ⟨kind, role, text, span, children⟩ := t
  intro f hf
  rcases mem_functionsIn hf with ⟨t, name, rfl⟩ | ⟨s', hf⟩
  · exact ⟨rfl, rfl, rfl⟩
  · exact foundIn_functionsInAll p file s' kind children f hf

theorem foundIn_functionsInAll (p : Parsed) (file : String) (s : Surroundings) (parent : Kind)
    (ts : List Node) : ∀ f ∈ p.functionsInAll file s parent ts, f.FoundIn file := by
  cases ts with
  | nil => simp [Parsed.functionsInAll]
  | cons t rest =>
    intro f hf
    rw [Parsed.functionsInAll] at hf
    rcases List.mem_append.mp hf with hf | hf
    · split at hf
      · exact foundIn_functionsIn p file s t f hf
      · simp at hf
    · exact foundIn_functionsInAll p file s parent rest f hf

end

theorem foundIn_functions {p : Parsed} {file : String} {f : FunctionNode}
    (h : f ∈ p.functions file) : f.FoundIn file :=
  foundIn_functionsIn p file {} p.root f ((firstOfEach_sublist ..).subset h)

end Crate

/-! ## Files and projects -/

theorem Language.foundIn_functions {l : Language} {path content : String} {fs : List FunctionNode}
    (h : l.functions path content = .ok fs) {f : FunctionNode} (hf : f ∈ fs) : f.FoundIn path := by
  cases l with
  | script =>
    simp only [functions, Except.ok.injEq] at h
    subst h
    exact Script.foundIn_functions hf
  | crate =>
    simp only [functions] at h
    cases hp : parseCrate path content with
    | error e => simp [hp, bind, Except.bind] at h
    | ok p =>
      simp only [hp, bind, Except.bind, pure, Except.pure, Except.ok.injEq] at h
      subst h
      exact Crate.foundIn_functions hf

theorem foundIn_functionsOfFile {path content : String} {f : FunctionNode}
    (h : f ∈ functionsOfFile path content) : f.FoundIn path := by
  unfold functionsOfFile at h
  split at h
  · rename_i l hl
    cases hfs : l.functions path content with
    | error e => simp [hfs, Except.toOption] at h
    | ok fs =>
      simp only [hfs, Except.toOption, Option.getD_some] at h
      exact Language.foundIn_functions hfs h
  · simp at h

/-- A function of a project is found in one of its files and kept under its id. -/
theorem foundIn_functionsOfSources {sources : Sources} {id : String} {f : FunctionNode}
    (h : (functionsOfSources sources).get? id = some f) :
    f.id = id ∧ ∃ path content, sources.get? path = some content ∧ f.FoundIn path := by
  rw [functionsOfSources, KeyMap.get?_ofListFirst, Option.map_eq_some_iff] at h
  obtain ⟨⟨id', f'⟩, hp, rfl⟩ := h
  have hk : id' = id := by simpa using List.find?_some hp
  have hm := List.mem_of_find?_eq_some hp
  simp only [List.mem_map, List.mem_flatMap, Prod.mk.injEq] at hm
  obtain ⟨g, ⟨⟨path, content⟩, hs, hg⟩, rfl, rfl⟩ := hm
  exact ⟨hk, path, content, KeyMap.mem_toList.mp hs, foundIn_functionsOfFile hg⟩

end SymbolGraph
