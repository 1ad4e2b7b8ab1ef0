import SymbolGraph.CallGraph.Snapshot
import SymbolGraph.Proofs.CallGraph.Edges
import SymbolGraph.Proofs.Json.Record
import SymbolGraph.Proofs.Timestamp

/-!
# Stored call graphs

A graph that is in order is read back from its stored form, field by field. Assembling a graph and
reading one both give graphs that are in order, so a stored form changes at most once when it is read
and stored again.
-/
namespace SymbolGraph
open Json

theorem Purity.ofJson?_text (p : Purity) : Purity.ofJson? (.string p.text) = some p := by
  cases p <;> rfl

/-! ## Functions and calls -/

/-- Line numbers are machine words. -/
structure FunctionNode.FitsWords (f : FunctionNode) : Prop where
  line : f.line < 2 ^ 64
  endLine : f.endLine < 2 ^ 64

instance (f : FunctionNode) : Decidable f.FitsWords :=
  decidable_of_iff (f.line < 2 ^ 64 ∧ f.endLine < 2 ^ 64) ⟨fun h => ⟨h.1, h.2⟩, fun h => ⟨h.1, h.2⟩⟩

theorem FunctionNode.fields?_toJson (f : FunctionNode) :
    fields? ["id", "name", "filePath", "line", "endLine", "isExported", "isMethod",
      "isNested", "purity", "impurityReasons", "signature"] f.toJson =
        some [some (.string f.id), some (.string f.name), some (.string f.file), some (.nat f.line),
          some (.nat f.endLine), some (.bool f.isExported), some (.bool f.isMethod),
          some (.bool f.isNested), some (.string f.purity.text), some (strings f.reasons),
          f.signature.map .string] := by
  cases hs : f.signature with
  | none =>
    simp only [FunctionNode.toJson, members, hs, Option.map_none, Option.map_some,
      List.filterMap_cons, List.filterMap_nil]
    rw [fields?_object (by simp)]
    simp
  | some s =>
    simp only [FunctionNode.toJson, members, hs, Option.map_some,
      List.filterMap_cons, List.filterMap_nil]
    rw [fields?_object (by simp)]
    simp

theorem FunctionNode.ofJson?_toJson {f : FunctionNode} (h : f.FitsWords) :
    FunctionNode.ofJson? f.toJson = some f := by
  have purity : required Purity.ofJson? (some (.string f.purity.text)) = some f.purity :=
    f.purity.ofJson?_text
  have reasons : Json.optional [] (listOf string?) (some (strings f.reasons)) = some f.reasons :=
    listOf_strings f.reasons
  have signature : Json.optional none (nullable string?) (f.signature.map Json.string) =
      some f.signature := by
    cases f.signature <;> rfl
  have text (s : String) : required string? (some (.string s)) = some s := rfl
  have flag (b : Bool) : required bool? (some (.bool b)) = some b := rfl
  exact step f.fields?_toJson (step (text f.id) (step (text f.name) (step (text f.file) (step
    (required_word h.line) (step (required_word h.endLine) (step (flag f.isExported) (step (flag f.isMethod) (step (flag f.isNested)
    (step purity (step reasons (step signature rfl)))))))))))

theorem FunctionNode.fitsWords_of_ofJson? {j : Json} {f : FunctionNode}
    (h : FunctionNode.ofJson? j = some f) : f.FitsWords := by
  obtain ⟨fields, -, h⟩ := Option.bind_eq_some_iff.1 h
  split at h
  · obtain ⟨_, -, h⟩ := Option.bind_eq_some_iff.1 h
    obtain ⟨_, -, h⟩ := Option.bind_eq_some_iff.1 h
    obtain ⟨_, -, h⟩ := Option.bind_eq_some_iff.1 h
    obtain ⟨line, hline, h⟩ := Option.bind_eq_some_iff.1 h
    obtain ⟨endLine, hendLine, h⟩ := Option.bind_eq_some_iff.1 h
    iterate 6 obtain ⟨_, -, h⟩ := Option.bind_eq_some_iff.1 h
    obtain rfl := Option.some_inj.1 h
    exact ⟨lt_of_required hline, lt_of_required hendLine⟩
  · cases h

theorem FunctionNode.plain_toJson (f : FunctionNode) : Plain f.toJson := by
  have reasons : PlainItems (f.reasons.map Json.string) := plainItems_map fun _ _ => trivial
  cases hs : f.signature <;>
    simp [FunctionNode.toJson, members, hs, Plain, PlainMembers, Json.nat, strings, reasons]

theorem Call.plain_toJson (c : Call) : Plain c.toJson := ⟨trivial, trivial, trivial⟩

theorem Call.ofJson?_toJson (c : Call) : Call.ofJson? c.toJson = some c := by
  rfl

/-! ## Graphs -/

/-- Counts are machine words. -/
structure Stats.FitsWords (s : Stats) : Prop where
  functions : s.functions < 2 ^ 64
  pureFunctions : s.pureFunctions < 2 ^ 64
  impureFunctions : s.impureFunctions < 2 ^ 64
  unknownFunctions : s.unknownFunctions < 2 ^ 64
  exportedFunctions : s.exportedFunctions < 2 ^ 64
  edges : s.edges < 2 ^ 64

instance (s : Stats) : Decidable s.FitsWords :=
  decidable_of_iff (s.functions < 2 ^ 64 ∧ s.pureFunctions < 2 ^ 64 ∧ s.impureFunctions < 2 ^ 64 ∧
      s.unknownFunctions < 2 ^ 64 ∧ s.exportedFunctions < 2 ^ 64 ∧ s.edges < 2 ^ 64)
    ⟨fun ⟨h₁, h₂, h₃, h₄, h₅, h₆⟩ => ⟨h₁, h₂, h₃, h₄, h₅, h₆⟩,
      fun ⟨h₁, h₂, h₃, h₄, h₅, h₆⟩ => ⟨h₁, h₂, h₃, h₄, h₅, h₆⟩⟩

theorem Stats.ofJson?_toJson {s : Stats} (h : s.FitsWords) : Stats.ofJson? s.toJson = some s := by
  have fields : fields? ["totalFunctions", "pureFunctions", "impureFunctions", "unknownFunctions",
      "exportedFunctions", "totalEdges"] s.toJson = some [some (.nat s.functions),
        some (.nat s.pureFunctions), some (.nat s.impureFunctions), some (.nat s.unknownFunctions),
        some (.nat s.exportedFunctions), some (.nat s.edges)] := by
    rw [Stats.toJson, fields?_object (by simp)]
    simp
  exact step fields (step (required_word h.functions) (step (required_word h.pureFunctions)
    (step (required_word h.impureFunctions) (step (required_word h.unknownFunctions)
    (step (required_word h.exportedFunctions) (step (required_word h.edges) rfl))))))

theorem Stats.fitsWords_of_ofJson? {j : Json} {s : Stats} (h : Stats.ofJson? j = some s) :
    s.FitsWords := by
  obtain ⟨fields, -, h⟩ := Option.bind_eq_some_iff.1 h
  split at h
  · obtain ⟨functions, h₁, h⟩ := Option.bind_eq_some_iff.1 h
    obtain ⟨pureFunctions, h₂, h⟩ := Option.bind_eq_some_iff.1 h
    obtain ⟨impureFunctions, h₃, h⟩ := Option.bind_eq_some_iff.1 h
    obtain ⟨unknownFunctions, h₄, h⟩ := Option.bind_eq_some_iff.1 h
    obtain ⟨exportedFunctions, h₅, h⟩ := Option.bind_eq_some_iff.1 h
    obtain ⟨edges, h₆, h⟩ := Option.bind_eq_some_iff.1 h
    obtain rfl := Option.some_inj.1 h
    exact ⟨lt_of_required h₁, lt_of_required h₂, lt_of_required h₃, lt_of_required h₄,
      lt_of_required h₅, lt_of_required h₆⟩
  · cases h

namespace CallGraph

/-- A graph of the stored version whose functions stand under their own ids, whose edges ascend and
whose indexes are those of its edges. -/
structure InOrder (g : CallGraph) : Prop where
  version_eq : g.version = graphVersion
  keyed : ∀ id f, g.nodes.get? id = some f → f.id = id
  ascending : Call.Ascending g.edges
  callees_eq : g.callees = indexBy (·.caller) (·.callee) g.edges
  callers_eq : g.callers = indexBy (·.callee) (·.caller) g.edges

/-- Line numbers and counts are machine words. -/
structure FitsWords (g : CallGraph) : Prop where
  nodes : ∀ id f, g.nodes.get? id = some f → f.FitsWords
  stats : g.stats.FitsWords

instance (g : CallGraph) : Decidable g.FitsWords :=
  decidable_of_iff ((∀ f ∈ g.nodes.values, f.FitsWords) ∧ g.stats.FitsWords)
    ⟨fun h => ⟨fun id f hf => h.1 f (KeyMap.mem_values.2 ⟨id, hf⟩), h.2⟩,
      fun h => ⟨fun f hf => (KeyMap.mem_values.1 hf).elim fun id hid => h.nodes id f hid, h.stats⟩⟩

theorem InOrder.eq_withIndexes {g : CallGraph} (h : g.InOrder) :
    withIndexes g.version g.generatedAt g.rootDir g.nodes g.edges g.files g.stats = g := by
  rw [withIndexes, ← h.callees_eq, ← h.callers_eq]

theorem InOrder.ofList_values {g : CallGraph} (h : g.InOrder) :
    KeyMap.ofList (g.nodes.values.map fun f => (f.id, f)) = g.nodes := by
  have entries : (g.nodes.values.map fun f => (f.id, f)) = g.nodes.entries := by
    rw [KeyMap.values, List.map_map]
    refine (List.map_congr_left fun p hp => ?_).trans (List.map_id _)
    have key : p.2.id = p.1 := h.keyed p.1 p.2 (KeyMap.get?_eq_some.2 hp)
    exact Prod.ext key rfl
  rw [entries, KeyMap.ofList_entries]

theorem ofJson?_toJson {g : CallGraph} (order : g.InOrder) (fits : g.FitsWords)
    (time : g.generatedAt.Tellable) : ofJson? g.toJson = some g := by
  have fields : fields? ["version", "generatedAt", "rootDir", "nodes", "edges", "files", "stats"]
      g.toJson = some [some (.nat g.version), some (.string g.generatedAt.text),
        some (.string g.rootDir), some (.array (g.nodes.values.map FunctionNode.toJson)),
        some (.array (g.edges.map Call.toJson)), some (strings g.files), some g.stats.toJson] := by
    rw [toJson, fields?_object (by simp)]
    simp
  have nodes : required (listOf FunctionNode.ofJson?)
      (some (.array (g.nodes.values.map FunctionNode.toJson))) = some g.nodes.values := by
    refine listOf_map _ _ fun f hf => FunctionNode.ofJson?_toJson ?_
    obtain ⟨id, hid⟩ := KeyMap.mem_values.1 hf
    exact fits.nodes id f hid
  have version : required (natBelow? (Nat.pow 2 32)) (some (.nat g.version)) = some g.version := by
    rw [required, Option.bind_some, order.version_eq]
    exact natBelow?_nat (by decide)
  have generatedAt : required (fun j => j.string?.bind Timestamp.read?)
      (some (.string g.generatedAt.text)) = some g.generatedAt := by
    rw [required, Option.bind_some, string?, Option.bind_some, Timestamp.read?_text time]
  have rootDir : required string? (some (.string g.rootDir)) = some g.rootDir := rfl
  have edges : required (listOf Call.ofJson?) (some (.array (g.edges.map Call.toJson))) =
      some g.edges := listOf_map _ _ fun c _ => c.ofJson?_toJson
  have files : required (listOf string?) (some (strings g.files)) = some g.files :=
    listOf_strings g.files
  have stats : required Stats.ofJson? (some g.stats.toJson) = some g.stats := by
    rw [required, Option.bind_some, Stats.ofJson?_toJson fits.stats]
  refine step fields (step nodes (step version (step generatedAt (step rootDir (step edges (step files
    (step stats ?_)))))))
  rw [Snapshot.graph, order.ofList_values, Call.sorted_eq_self order.ascending, order.eq_withIndexes]
  rfl

/-- What is read is in order and within machine words, and its time can be told. -/
theorem inOrder_of_deserialize? {text : String} {g : CallGraph} (h : deserialize? text = some g) :
    g.InOrder ∧ g.FitsWords ∧ g.generatedAt.Tellable := by
  obtain ⟨j, -, h⟩ := Option.bind_eq_some_iff.1 h
  obtain ⟨g', hread, h⟩ := Option.bind_eq_some_iff.1 h
  split_ifs at h with version
  obtain rfl := Option.some_inj.1 h
  obtain ⟨fields, -, hread⟩ := Option.bind_eq_some_iff.1 hread
  split at hread
  · obtain ⟨nodes, hnodes, hread⟩ := Option.bind_eq_some_iff.1 hread
    obtain ⟨_, -, hread⟩ := Option.bind_eq_some_iff.1 hread
    obtain ⟨generatedAt, htime, hread⟩ := Option.bind_eq_some_iff.1 hread
    obtain ⟨_, -, hread⟩ := Option.bind_eq_some_iff.1 hread
    obtain ⟨edges, -, hread⟩ := Option.bind_eq_some_iff.1 hread
    obtain ⟨_, -, hread⟩ := Option.bind_eq_some_iff.1 hread
    obtain ⟨stats, hstats, hread⟩ := Option.bind_eq_some_iff.1 hread
    obtain rfl := Option.some_inj.1 hread
    have node {id : String} {f : FunctionNode}
        (hf : (KeyMap.ofList (nodes.map fun f => (f.id, f))).get? id = some f) :
        f ∈ nodes ∧ f.id = id := by
      obtain ⟨f', hf', heq⟩ := List.mem_map.1
        (KeyMap.mem_of_mem_ofList (p := (id, f)) (KeyMap.mem_toList.2 hf))
      obtain ⟨rfl, rfl⟩ := Prod.mk.inj heq
      exact ⟨hf', rfl⟩
    refine ⟨⟨by simpa using version, fun id f hf => (node hf).2, Call.ascending_sorted _, rfl, rfl⟩,
      ⟨fun id f hf => ?_, ?_⟩, ?_⟩
    · obtain ⟨j', hj'⟩ := exists_of_mem_listOf hnodes (node hf).1
      exact FunctionNode.fitsWords_of_ofJson? hj'
    · obtain ⟨j', -, hj'⟩ := Option.bind_eq_some_iff.1 hstats
      exact Stats.fitsWords_of_ofJson? hj'
    · obtain ⟨j', -, hj'⟩ := Option.bind_eq_some_iff.1 htime
      obtain ⟨text', -, htext⟩ := Option.bind_eq_some_iff.1 hj'
      exact Timestamp.tellable_of_read? htext
  · cases hread

theorem inOrder_assemble {generatedAt : Timestamp} {rootDir : String} {nodes : KeyMap FunctionNode}
    {calls : List Call} {files : List String}
    (keyed : ∀ id f, nodes.get? id = some f → f.id = id) :
    (assemble generatedAt rootDir nodes calls files).InOrder :=
  ⟨rfl, keyed, ascending_edges_assemble, rfl, rfl⟩

theorem plain_toJson (g : CallGraph) : Plain g.toJson := by
  have nodes : PlainItems (g.nodes.values.map FunctionNode.toJson) :=
    plainItems_map fun f _ => f.plain_toJson
  have edges : PlainItems (g.edges.map Call.toJson) := plainItems_map fun c _ => c.plain_toJson
  have files : PlainItems (g.files.map Json.string) := plainItems_map fun _ _ => trivial
  simp [toJson, Plain, PlainMembers, Json.nat, strings, Stats.toJson, nodes, edges, files]

theorem deserialize?_serialize {g : CallGraph} (order : g.InOrder) (fits : g.FitsWords)
    (time : g.generatedAt.Tellable) : deserialize? g.serialize = some g := by
  refine step (read?_pretty g.plain_toJson) (step (ofJson?_toJson order fits time) ?_)
  rw [if_pos (by simp [order.version_eq])]

/-- Every graph that is in order is read back from its stored form as it was, assembling gives graphs
in order, and every stored form that can be read gives a graph that is read back as it is. -/
theorem stored_graph_round_trip :
    (∀ g : CallGraph, g.InOrder → g.FitsWords → g.generatedAt.Tellable →
      deserialize? g.serialize = some g) ∧
    (∀ (generatedAt : Timestamp) (rootDir : String) (nodes : KeyMap FunctionNode) (calls : List Call)
      (files : List String), (∀ id f, nodes.get? id = some f → f.id = id) →
        (assemble generatedAt rootDir nodes calls files).InOrder) ∧
    ∀ (text : String) (g : CallGraph), deserialize? text = some g →
      g.InOrder ∧ g.FitsWords ∧ g.generatedAt.Tellable ∧ deserialize? g.serialize = some g := by
  refine ⟨fun g => deserialize?_serialize, fun _ _ _ _ _ => inOrder_assemble, fun text g h => ?_⟩
  obtain ⟨order, fits, time⟩ := inOrder_of_deserialize? h
  exact ⟨order, fits, time, deserialize?_serialize order fits time⟩

/-- Texts with quotes, control and other characters, the largest line number and a leap second. -/
theorem stored_graph_round_trip_extremes :
    let f : FunctionNode :=
      { id := "é \"q\\.ts:f", name := "f\n\x01", file := "é \"q\\.ts", line := 18446744073709551615,
        endLine := 18446744073709551615, purity := .impure, reasons := ["mutates \t😀", ""],
        signature := some "(x: \"y\")" }
    let h : FunctionNode := { id := "a.ts:h", name := "h", file := "a.ts", line := 0, endLine := 1 }
    let g := assemble ⟨1483228799, 1500000000⟩ "/r" (.ofList [(f.id, f), (h.id, h)])
      [⟨f.id, h.id⟩, ⟨h.id, f.id⟩] ["b.ts", "a.ts"]
    g.InOrder ∧ g.FitsWords ∧ g.generatedAt.Tellable ∧ deserialize? g.serialize = some g := by
  intro f h g
  have nodes {id : String} {k : FunctionNode} (hk : g.nodes.get? id = some k) :
      id = k.id ∧ (k = f ∨ k = h) := by
    have := KeyMap.mem_of_mem_ofList (p := (id, k)) (KeyMap.mem_toList.2 hk)
    simp only [List.mem_cons, Prod.mk.injEq, List.not_mem_nil, or_false] at this
    rcases this with ⟨rfl, rfl⟩ | ⟨rfl, rfl⟩
    · exact ⟨rfl, Or.inl rfl⟩
    · exact ⟨rfl, Or.inr rfl⟩
  have order : g.InOrder := stored_graph_round_trip.2.1 _ _ _ _ _ fun id k hk => (nodes hk).1.symm
  have fits : g.FitsWords := by decide +kernel
  have time : g.generatedAt.Tellable :=
    ⟨by decide +kernel, by decide +kernel, Or.inr ⟨by decide, by decide⟩⟩
  exact ⟨order, fits, time, stored_graph_round_trip.1 g order fits time⟩

end CallGraph
end SymbolGraph
