import SymbolGraph.CallGraph.Baseline
import SymbolGraph.Proofs.CallGraph.Purity
import SymbolGraph.Proofs.CallGraph.Snapshot
import SymbolGraph.Proofs.FileTree

/-!
# Checking against a baseline

A proposed change of one file is checked by putting the new functions of the file into the stored
graph. Where the files of a project share no function ids, this gives the same differences as building
the graph of the changed project anew, unless the new text declares a function that a later file has
under the same id with another signature.
-/
namespace SymbolGraph

/-! ## Differences -/

theorem GraphDiff.ext {d e : GraphDiff} (removed : d.removed = e.removed)
    (changes : d.signatureChanges = e.signatureChanges) (added : d.added = e.added) : d = e := by
  cases d
  cases e
  simp_all

namespace CallGraph

/-- The signature under an id, if there is a function. -/
def signatureAt (g : CallGraph) (id : String) : Option (Option String) :=
  (g.nodes.get? id).map (·.signature)

theorem contains_iff_signatureAt {g : CallGraph} {id : String} :
    g.nodes.contains id = (g.signatureAt id).isSome := by
  simp [KeyMap.contains, signatureAt]

end CallGraph

theorem mem_removed {b g : CallGraph} {id : String} :
    id ∈ (compareGraphs b g).removed ↔ (b.signatureAt id).isSome = true ∧ g.signatureAt id = none := by
  simp [compareGraphs, KeyMap.mem_keys, CallGraph.contains_iff_signatureAt, CallGraph.signatureAt,
    Option.isSome_iff_exists]

theorem mem_added {b g : CallGraph} {id : String} :
    id ∈ (compareGraphs b g).added ↔ b.signatureAt id = none ∧ (g.signatureAt id).isSome = true := by
  simp [compareGraphs, KeyMap.mem_keys, CallGraph.contains_iff_signatureAt, CallGraph.signatureAt,
    Option.isSome_iff_exists]
  tauto

theorem mem_signatureChanges {b g : CallGraph} {c : SignatureChange} :
    c ∈ (compareGraphs b g).signatureChanges ↔
      b.signatureAt c.id = some c.before ∧ g.signatureAt c.id = some c.after ∧ c.after ≠ c.before := by
  simp only [compareGraphs, List.mem_filterMap, CallGraph.signatureAt, Option.map_eq_some_iff]
  constructor
  · rintro ⟨⟨id, before⟩, hbefore, h⟩
    obtain ⟨after, hafter, h⟩ := Option.bind_eq_some_iff.1 h
    split_ifs at h with same
    obtain rfl := Option.some_inj.1 h
    exact ⟨⟨before, KeyMap.mem_toList.1 hbefore, rfl⟩, ⟨after, hafter, rfl⟩, by simpa using same⟩
  · rintro ⟨⟨before, hbefore, hb⟩, ⟨after, hafter, ha⟩, hne⟩
    refine ⟨(c.id, before), KeyMap.mem_toList.2 hbefore, Option.bind_eq_some_iff.2 ⟨after, hafter, ?_⟩⟩
    rw [if_neg (by simpa [ha, hb] using hne), ha, hb]

/-- Two graphs differ from a baseline in the same way if they have the same functions and give those
of the baseline the same signatures. -/
theorem compareGraphs_eq_iff {b g h : CallGraph} :
    compareGraphs b g = compareGraphs b h ↔
      (∀ id, (g.signatureAt id).isSome = (h.signatureAt id).isSome) ∧
        ∀ id, (b.signatureAt id).isSome = true → g.signatureAt id = h.signatureAt id := by
  constructor
  · intro same
    have removed (id : String) : id ∈ (compareGraphs b g).removed ↔ id ∈ (compareGraphs b h).removed := by
      rw [same]
    have added (id : String) : id ∈ (compareGraphs b g).added ↔ id ∈ (compareGraphs b h).added := by
      rw [same]
    have changes (c : SignatureChange) : c ∈ (compareGraphs b g).signatureChanges ↔
        c ∈ (compareGraphs b h).signatureChanges := by
      rw [same]
    simp only [mem_removed] at removed
    simp only [mem_added] at added
    simp only [mem_signatureChanges] at changes
    have present (id : String) : (g.signatureAt id).isSome = (h.signatureAt id).isSome := by
      have hr := removed id
      have ha := added id
      cases hb : b.signatureAt id <;> cases hg : g.signatureAt id <;> cases hh : h.signatureAt id <;>
        simp_all
    refine ⟨present, fun id hid => ?_⟩
    obtain ⟨before, hbefore⟩ := Option.isSome_iff_exists.1 hid
    have both := present id
    cases hg : g.signatureAt id with
    | none => cases hh : h.signatureAt id <;> simp_all
    | some a =>
      cases hh : h.signatureAt id with
      | none => simp_all
      | some a' =>
        have forth := changes ⟨id, before, a⟩
        have back := changes ⟨id, before, a'⟩
        simp only [hbefore, hg, hh, true_and, Option.some_inj] at forth back
        grind
  · rintro ⟨present, same⟩
    have contains (id : String) : g.nodes.contains id = h.nodes.contains id := by
      rw [CallGraph.contains_iff_signatureAt, CallGraph.contains_iff_signatureAt, present]
    have keys : g.nodes.keys = h.nodes.keys := by
      refine List.Pairwise.eq_of_mem_iff g.nodes.keys_pairwise h.nodes.keys_pairwise fun id => ?_
      rw [KeyMap.mem_keys, KeyMap.mem_keys, ← KeyMap.contains_iff, ← KeyMap.contains_iff, contains]
    have changes : (compareGraphs b g).signatureChanges = (compareGraphs b h).signatureChanges := by
      refine List.filterMap_congr fun p hp => ?_
      have known : (b.signatureAt p.1).isSome = true := by
        rw [← CallGraph.contains_iff_signatureAt]
        exact KeyMap.contains_iff.2 ⟨p.2, KeyMap.mem_toList.1 hp⟩
      have signature := same p.1 known
      unfold CallGraph.signatureAt at signature
      cases hg : g.nodes.get? p.1 <;> cases hh : h.nodes.get? p.1 <;> simp_all
    have removed : (compareGraphs b g).removed = (compareGraphs b h).removed :=
      List.filter_congr fun id _ => by rw [contains]
    have added : (compareGraphs b g).added = (compareGraphs b h).added := by
      simp only [compareGraphs, keys]
    exact GraphDiff.ext removed changes added

/-- A graph with the functions of the baseline does not differ from it. -/
theorem compareGraphs_of_nodes_eq {b g : CallGraph} (h : g.nodes = b.nodes) :
    compareGraphs b g = ⟨[], [], []⟩ := by
  have same (id : String) : g.signatureAt id = b.signatureAt id := by
    simp only [CallGraph.signatureAt, h]
  have removed : (compareGraphs b g).removed = [] := by
    refine List.eq_nil_iff_forall_not_mem.2 fun id hid => ?_
    rw [mem_removed, same] at hid
    simp [hid.2] at hid
  have changes : (compareGraphs b g).signatureChanges = [] := by
    refine List.eq_nil_iff_forall_not_mem.2 fun c hc => ?_
    rw [mem_signatureChanges, same] at hc
    exact hc.2.2 (Option.some_inj.1 (hc.2.1.symm.trans hc.1))
  have added : (compareGraphs b g).added = [] := by
    refine List.eq_nil_iff_forall_not_mem.2 fun id hid => ?_
    rw [mem_added, same] at hid
    simp [hid.1] at hid
  exact GraphDiff.ext removed changes added

/-! ## Functions of a project, file by file -/

/-- The function of a file that has an id. -/
def functionIn? (path content id : String) : Option FunctionNode :=
  (functionsOfFile path content).find? (·.id == id)

theorem functionIn?_mem {path content id : String} {f : FunctionNode}
    (h : functionIn? path content id = some f) :
    f ∈ functionsOfFile path content ∧ f.id = id ∧ f.file = path := by
  have mem := List.mem_of_find?_eq_some h
  exact ⟨mem, by simpa using List.find?_some h, (foundIn_functionsOfFile mem).file_eq⟩

/-- The first file with a function of an id provides it. -/
theorem get?_functionsOfSources (sources : Sources) (id : String) :
    (functionsOfSources sources).get? id =
      sources.toList.findSome? fun p => functionIn? p.1 p.2 id := by
  rw [functionsOfSources, KeyMap.get?_ofListFirst, List.find?_map, Option.map_map]
  change Option.map (fun f => f) (List.find? (fun f : FunctionNode => f.id == id) (List.flatMap _ _)) = _
  rw [Option.map_id', List.find?_flatMap]
  rfl

/-- No id is shared by functions of two files. -/
def DistinctIds (sources : Sources) : Prop :=
  ∀ p q content content' f f', sources.get? p = some content → sources.get? q = some content' →
    f ∈ functionsOfFile p content → f' ∈ functionsOfFile q content' → f.id = f'.id → p = q

instance (sources : Sources) : Decidable (DistinctIds sources) :=
  decidable_of_iff (∀ p ∈ sources.toList, ∀ q ∈ sources.toList, ∀ f ∈ functionsOfFile p.1 p.2,
      ∀ f' ∈ functionsOfFile q.1 q.2, f.id = f'.id → p.1 = q.1)
    ⟨fun h p q content content' f f' hp hq hf hf' => h (p, content) (KeyMap.mem_toList.2 hp) (q, content')
        (KeyMap.mem_toList.2 hq) f hf f' hf',
      fun h p hp q hq f hf f' hf' => h p.1 q.1 p.2 q.2 f f' (KeyMap.mem_toList.1 hp)
        (KeyMap.mem_toList.1 hq) hf hf'⟩

/-- The new text of a file declares a function whose id a later file has with another signature. -/
def ClashesLater (sources : Sources) (path content : String) : Prop :=
  ∃ id later text f h, path < later ∧ sources.get? later = some text ∧
    functionIn? path content id = some f ∧ functionIn? later text id = some h ∧
      f.signature ≠ h.signature

instance (sources : Sources) (path content : String) : Decidable (ClashesLater sources path content) :=
  decidable_of_iff (∃ p ∈ sources.toList, path < p.1 ∧ ∃ id ∈ (functionsOfFile path content).map (·.id),
      ∃ f ∈ functionIn? path content id, ∃ h ∈ functionIn? p.1 p.2 id, f.signature ≠ h.signature)
    ⟨fun ⟨p, hp, before, id, _, f, hf, h, hh, differ⟩ =>
        ⟨id, p.1, p.2, f, h, before, KeyMap.mem_toList.1 hp, hf, hh, differ⟩,
      fun ⟨id, later, text, f, h, before, hlater, hf, hh, differ⟩ =>
        ⟨(later, text), KeyMap.mem_toList.2 hlater, before, id, List.mem_map.2 ⟨f, (functionIn?_mem hf).1,
          (functionIn?_mem hf).2.1⟩, f, hf, h, hh, differ⟩⟩

theorem get?_insert_ne {sources : Sources} {path content k v : String} (hk : k ≠ path) :
    (sources.insert path content).get? k = some v ↔ sources.get? k = some v := by
  rw [KeyMap.get?_insert, if_neg hk]

theorem get?_insert_self (sources : Sources) (path content : String) :
    (sources.insert path content).get? path = some content := by
  rw [KeyMap.get?_insert, if_pos rfl]

/-- An id of another file comes from there, unless the replaced file has it too and comes first. -/
theorem get?_functionsOfSources_other {sources : Sources} (distinct : DistinctIds sources)
    {path other text id : String} {h : FunctionNode} (content : String) (hne : other ≠ path)
    (hother : sources.get? other = some text) (hh : functionIn? other text id = some h) :
    (functionsOfSources sources).get? id = some h ∧
      (functionsOfSources (sources.insert path content)).get? id =
        if path < other then (functionIn? path content id).or (some h) else some h := by
  -- the ids are distinct, so no third file has this one
  have only {k v : String} (hv : sources.get? k = some v) (hk : k ≠ other) :
      functionIn? k v id = none := by
    cases hf : functionIn? k v id with
    | none => rfl
    | some f =>
      obtain ⟨mem, hid, -⟩ := functionIn?_mem hf
      obtain ⟨mem', hid', -⟩ := functionIn?_mem hh
      exact absurd (distinct k other v text f h hv hother mem mem' (hid.trans hid'.symm)) hk
  constructor
  · rw [get?_functionsOfSources]
    exact KeyMap.findSome?_toList_eq_some hother hh fun k v hv hk => only hv (ne_of_lt hk)
  · rw [get?_functionsOfSources]
    split_ifs with before
    · cases hf : functionIn? path content id with
      | some f =>
        refine KeyMap.findSome?_toList_eq_some (get?_insert_self sources path content) hf
          fun k v hv hk => ?_
        exact only ((get?_insert_ne (ne_of_lt hk)).1 hv) (ne_of_lt (hk.trans before))
      | none =>
        refine KeyMap.findSome?_toList_eq_some ((get?_insert_ne hne).2 hother) hh fun k v hv hk => ?_
        by_cases hkp : k = path
        · subst hkp
          rw [get?_insert_self] at hv
          rw [← Option.some_inj.1 hv, hf]
        · exact only ((get?_insert_ne hkp).1 hv) (ne_of_lt hk)
    · refine KeyMap.findSome?_toList_eq_some ((get?_insert_ne hne).2 hother) hh fun k v hv hk => ?_
      have hkp : k ≠ path := fun heq => before (heq ▸ hk)
      exact only ((get?_insert_ne hkp).1 hv) (ne_of_lt hk)

/-- An id that no other file has comes from the replaced file. -/
theorem get?_functionsOfSources_own {sources : Sources} {path id : String} (content : String)
    (away : ∀ other text, other ≠ path → sources.get? other = some text →
      functionIn? other text id = none) :
    (∀ h, (functionsOfSources sources).get? id = some h → h.file = path) ∧
      (functionsOfSources (sources.insert path content)).get? id = functionIn? path content id := by
  constructor
  · intro h hh
    rw [get?_functionsOfSources] at hh
    obtain ⟨p, hp, hf⟩ := List.exists_of_findSome?_eq_some hh
    by_cases hpath : p.1 = path
    · rw [← hpath]
      exact (functionIn?_mem hf).2.2
    · rw [away p.1 p.2 hpath (KeyMap.mem_toList.1 hp)] at hf
      cases hf
  · rw [get?_functionsOfSources]
    cases hf : functionIn? path content id with
    | some f =>
      refine KeyMap.findSome?_toList_eq_some (get?_insert_self sources path content) hf fun k v hv hk => ?_
      exact away k v (ne_of_lt hk) ((get?_insert_ne (ne_of_lt hk)).1 hv)
    | none =>
      refine KeyMap.findSome?_toList_eq_none.2 fun k v hv => ?_
      by_cases hkp : k = path
      · subst hkp
        rw [get?_insert_self] at hv
        rw [← Option.some_inj.1 hv, hf]
      · exact away k v hkp ((get?_insert_ne hkp).1 hv)

/-- An id is one of another file, or only the replaced file can have it. -/
theorem id_elsewhere_or_own (sources : Sources) (path id : String) :
    (∃ other text h, other ≠ path ∧ sources.get? other = some text ∧
      functionIn? other text id = some h) ∨
    ∀ other text, other ≠ path → sources.get? other = some text → functionIn? other text id = none := by
  by_cases away : ∃ other text h, other ≠ path ∧ sources.get? other = some text ∧
      functionIn? other text id = some h
  · exact Or.inl away
  · refine Or.inr fun other text hne hother => ?_
    cases hf : functionIn? other text id with
    | none => rfl
    | some f => exact absurd ⟨other, text, f, hne, hother, hf⟩ away

/-! ## A replaced file -/

namespace CallGraph

theorem signatureAt_ofSources (now : Timestamp) (c : Config) (sources : Sources) (id : String) :
    (ofSources now c sources).signatureAt id =
      ((functionsOfSources sources).get? id).map (·.signature) := by
  have bare := congrArg (fun m => (KeyMap.get? m id).map FunctionNode.signature)
    (bareNodes_ofSources now c sources)
  simp only [get?_bareNodes, Option.map_map] at bare
  exact bare

/-- The functions of the other files stay, those of the replaced file come from its new text. -/
theorem signatureAt_withFile {now later : Timestamp} {c : Config} {sources : Sources}
    {path content id : String} :
    (withFile later c sources (ofSources now c sources) path content).signatureAt id =
      ((((functionsOfSources sources).get? id).filter (·.file != path)).or
        (functionIn? path content id)).map (·.signature) := by
  have bare := congrArg (fun m => (KeyMap.get? m id).map fun f => (f.file, f.signature))
    (bareNodes_ofSources now c sources)
  simp only [get?_bareNodes, Option.map_map] at bare
  have nodes : (withFile later c sources (ofSources now c sources) path content).nodes.get? id =
      (((ofSources now c sources).nodes.get? id).filter (·.file != path)).or
        (functionIn? path content id) := by
    have fold := KeyMap.get?_foldl_insertNew ((functionsOfFile path content).map fun f => (f.id, f))
      ((ofSources now c sources).nodes.filter fun _ f => f.file != path) id
    rw [List.foldl_map, KeyMap.get?_filter, List.find?_map, Option.map_map] at fold
    exact fold.trans (congrArg _ Option.map_id')
  rw [signatureAt, nodes]
  cases hf : (ofSources now c sources).nodes.get? id with
  | none =>
    cases hh : (functionsOfSources sources).get? id with
    | none => rfl
    | some h => simp [hf, hh] at bare
  | some f =>
    cases hh : (functionsOfSources sources).get? id with
    | none => simp [hf, hh] at bare
    | some h =>
      simp only [hf, hh, Option.map_some, Option.some_inj] at bare
      obtain ⟨file, signature⟩ := Prod.mk.inj bare
      change f.file = h.file at file
      change f.signature = h.signature at signature
      simp only [Option.filter_some, file]
      split_ifs
      · simp [signature]
      · rfl

/-- The check of a proposed change finds what building anew finds, unless the new text clashes with a
later file. -/
theorem compareGraphs_withFile_iff {now later : Timestamp} {c : Config} {sources : Sources}
    (distinct : DistinctIds sources) {path content : String} :
    compareGraphs (ofSources now c sources)
        (withFile later c sources (ofSources now c sources) path content) =
      compareGraphs (ofSources now c sources) (ofSources later c (sources.insert path content)) ↔
    ¬ ClashesLater sources path content := by
  have apart {other text id : String} {h : FunctionNode} (hne : other ≠ path)
      (hh : functionIn? other text id = some h) : (h.file != path) = true := by
    rw [(functionIn?_mem hh).2.2]
    simpa using hne
  rw [compareGraphs_eq_iff]
  simp only [signatureAt_withFile, signatureAt_ofSources]
  constructor
  · rintro ⟨-, same⟩ ⟨id, other, text, f, h, before, hother, hf, hh, differ⟩
    obtain ⟨hold, hnew⟩ := get?_functionsOfSources_other distinct content (ne_of_gt before) hother hh
    have clash := same id (by rw [hold]; rfl)
    rw [hold, hnew, if_pos before, hf] at clash
    simp only [Option.filter_some, apart (ne_of_gt before) hh, ↓reduceIte, Option.some_or,
      Option.map_some, Option.some_inj] at clash
    exact differ clash.symm
  · intro free
    have same (id : String) :
        ((((functionsOfSources sources).get? id).filter (·.file != path)).or
          (functionIn? path content id)).map (·.signature) =
        ((functionsOfSources (sources.insert path content)).get? id).map (·.signature) := by
      rcases id_elsewhere_or_own sources path id with ⟨other, text, h, hne, hother, hh⟩ | away
      · obtain ⟨hold, hnew⟩ := get?_functionsOfSources_other distinct content hne hother hh
        rw [hold, hnew]
        simp only [Option.filter_some, apart hne hh, ↓reduceIte, Option.some_or, Option.map_some]
        split_ifs with before
        · cases hf : functionIn? path content id with
          | none => rfl
          | some f =>
            by_contra differ
            exact free ⟨id, other, text, f, h, before, hother, hf, hh, fun eq => differ (by simp [eq])⟩
        · rfl
      · obtain ⟨inPath, hnew⟩ := get?_functionsOfSources_own content away
        rw [hnew]
        cases hold : (functionsOfSources sources).get? id with
        | none => rfl
        | some h =>
          have file : (h.file != path) = false := by simp [inPath h hold]
          simp only [Option.filter_some, file, Bool.false_eq_true, ↓reduceIte, Option.none_or]
    exact ⟨fun id => by rw [same], fun id _ => same id⟩

/-! ## The project on disk -/

/-- A path relative to the project in its own spelling. -/
structure IsProjectPath (path : String) : Prop where
  slashes : '\\' ∉ path.toList
  relative : Text.startsWith "/" path = false
  direct : Text.startsWith "./" path = false

instance (path : String) : Decidable (IsProjectPath path) :=
  decidable_of_iff ('\\' ∉ path.toList ∧ Text.startsWith "/" path = false ∧
      Text.startsWith "./" path = false)
    ⟨fun h => ⟨h.1, h.2.1, h.2.2⟩, fun h => ⟨h.slashes, h.relative, h.direct⟩⟩

theorem IsProjectPath.relativePath_eq {path : String} (h : IsProjectPath path) (c : Config) :
    relativePath c path = path ∧ relativePath c ("./" ++ path) = path := by
  have same : path.toList.map (fun c => if c = '\\' then '/' else c) = path.toList := by
    refine (List.map_congr_left fun c hc => ?_).trans (List.map_id' _)
    have : c ≠ '\\' := fun heq => h.slashes (heq ▸ hc)
    simp [this]
  have stop (n : Nat) : Text.dropAllStart.go "./" n path.toList = path.toList := by
    have direct := h.direct
    rw [Text.startsWith] at direct
    cases n with
    | zero => rfl
    | succ n => rw [Text.dropAllStart.go, direct]; rfl
  have dropped (n : Nat) :
      Text.dropAllStart.go "./" (n + 1) ('.' :: '/' :: path.toList) = path.toList := stop n
  have here : ("./" ++ path).toList = '.' :: '/' :: path.toList := by simp
  have relative : Text.startsWith "/" ("./" ++ path) = false := by
    rw [Text.startsWith, here]
    rfl
  constructor
  · rw [relativePath, h.relative, Path.normalize, Text.replaceChar, same]
    simp [Text.dropAllStart, stop]
  · rw [relativePath, relative, Path.normalize, Text.replaceChar, here, List.map_cons, List.map_cons,
      same]
    change String.ofList (Text.dropAllStart.go "./" (String.ofList ('.' :: '/' :: path.toList)).length
      (String.ofList ('.' :: '/' :: path.toList)).toList) = path
    rw [String.toList_ofList, String.length_ofList, List.length_cons, List.length_cons, dropped,
      String.ofList_toList]

theorem saveBaseline_eq {now : Timestamp} {c : Config} {tree tree' : FileTree} {g : CallGraph}
    (h : saveBaseline now c tree = .ok (g, tree')) :
    ∃ sources, c.sources tree = .ok sources ∧ g = ofSources now c sources ∧
      tree.saveFile c.stateDir goldStandardFile g.serialize = .ok tree' := by
  unfold saveBaseline ofProject at h
  cases hsources : c.sources tree with
  | error e =>
    rw [hsources] at h
    cases h
  | ok sources =>
    rw [hsources] at h
    change (tree.saveFile c.stateDir goldStandardFile (ofSources now c sources).serialize >>=
      fun t => pure (ofSources now c sources, t)) = .ok (g, tree') at h
    cases hsave : tree.saveFile c.stateDir goldStandardFile (ofSources now c sources).serialize with
    | error e =>
      rw [hsave] at h
      cases h
    | ok t =>
      rw [hsave] at h
      obtain ⟨rfl, rfl⟩ := Prod.mk.inj (Except.ok.inj h)
      exact ⟨sources, rfl, rfl, hsave⟩

theorem isStateFile_goldStandardFile : IsStateFile goldStandardFile :=
  ⟨⟨by decide, by decide⟩, by decide⟩

theorem sources_eq {c : Config} {tree : FileTree} {sources : Sources} (h : c.sources tree = .ok sources) :
    ∃ files, c.sourceFiles tree = .ok files ∧ sources = .ofList (files.map fun path =>
      (path, (tree.readText (Path.under c.rootDir path)).toOption.getD "")) := by
  unfold Config.sources at h
  cases hfiles : c.sourceFiles tree with
  | error e =>
    rw [hfiles] at h
    cases h
  | ok files =>
    rw [hfiles] at h
    exact ⟨files, rfl, (Except.ok.inj h).symm⟩

/-- The sources of a project that ignores nothing, where its files stand in ascending order. -/
theorem sources_of_ascending {c : Config} {tree : FileTree} {entries : List (String × FileTree)}
    (hroot : tree.find c.rootDir = .ok (.folder entries)) (ignore : c.ignore = [])
    (ascending : (FileTree.wantedIn ⟨sourceExtensions, fun _ => false⟩ "" entries).Pairwise (· ≤ ·)) :
    c.sources tree = .ok (.ofList ((FileTree.wantedIn ⟨sourceExtensions, fun _ => false⟩ "" entries).map
      fun path => (path, (tree.readText (Path.under c.rootDir path)).toOption.getD ""))) := by
  unfold Config.sources
  rw [Config.sourceFiles_of_ascending hroot ignore ascending]
  rfl

/-- A baseline that can be saved is the call graph of the sources. -/
theorem exists_saveBaseline_eq (now : Timestamp) {c : Config} {tree : FileTree} {sources : Sources}
    (hsources : c.sources tree = .ok sources) (saves : (saveBaseline now c tree).toOption.isSome = true) :
    ∃ tree', saveBaseline now c tree = .ok (ofSources now c sources, tree') := by
  cases saved : saveBaseline now c tree with
  | error e =>
    rw [saved] at saves
    cases saves
  | ok p =>
    obtain ⟨sources', hsources', graph, -⟩ := saveBaseline_eq saved
    obtain rfl : sources = sources' := Except.ok.inj (hsources.symm.trans hsources')
    exact ⟨p.2, by rw [← graph]⟩

/-- Saving the baseline leaves the sources as they are. -/
theorem sources_saveFile {c : Config} {tree tree' : FileTree} {sources : Sources} {content : String}
    (hsources : c.sources tree = .ok sources)
    (h : tree.saveFile c.stateDir goldStandardFile content = .ok tree') :
    c.sources tree' = .ok sources := by
  obtain ⟨files, hfiles, rfl⟩ := sources_eq hsources
  obtain ⟨entries, hfind, -⟩ := FileTree.sourceFiles_eq hfiles
  have root : c.rootDir ≠ "" := (FileTree.find_eq hfind).1
  unfold Config.sources
  rw [Config.sourceFiles_saveFile isStateFile_goldStandardFile hfiles h]
  change Except.ok _ = Except.ok _
  congr 2
  refine List.map_congr_left fun path hpath => ?_
  rw [Config.readText_saveFile root isStateFile_goldStandardFile
    (Config.extension_of_mem_sourceFiles hfiles hpath) h]

theorem inOrder_ofSources (now : Timestamp) (c : Config) (sources : Sources) :
    (ofSources now c sources).InOrder := by
  refine inOrder_assemble fun id f hf => ?_
  have bare := congrArg (fun m => (KeyMap.get? m id).map FunctionNode.id)
    (bareNodes_ofSources now c sources)
  simp only [get?_bareNodes, Option.map_map] at bare
  rw [show (ofSources now c sources).nodes.get? id = some f from hf] at bare
  obtain ⟨f', hf', heq⟩ := Option.map_eq_some_iff.1 bare.symm
  exact heq.symm.trans (foundIn_functionsOfSources hf').1

theorem baseline_eq {now : Timestamp} {c : Config} {tree tree' disk : FileTree} {g : CallGraph}
    (saved : saveBaseline now c tree = .ok (g, tree')) (time : now.Tellable) (fits : g.FitsWords)
    (kept : (disk.readText c.goldStandardPath).toOption = (tree'.readText c.goldStandardPath).toOption) :
    baseline c disk = .ok g := by
  obtain ⟨sources, hsources, rfl, hsave⟩ := saveBaseline_eq saved
  obtain ⟨files, hfiles, -⟩ := sources_eq hsources
  obtain ⟨entries, hfind, -⟩ := FileTree.sourceFiles_eq hfiles
  have root : c.rootDir ≠ "" := (FileTree.find_eq hfind).1
  have read : (disk.readText c.goldStandardPath).toOption =
      some (ofSources now c sources).serialize := kept.trans (Config.readText_saved root hsave)
  have back := deserialize?_serialize (inOrder_ofSources now c sources) fits time
  unfold baseline baseline?
  rw [read, Option.bind_some, back]

/-- Once a baseline is saved, a proposed file is put into its graph. -/
theorem verifyFile_eq {now : Timestamp} {c : Config} {tree tree' disk : FileTree} {sources : Sources}
    {path written : String} (later : Timestamp) (content : String)
    (saved : saveBaseline now c tree = .ok (ofSources now c sources, tree'))
    (time : now.Tellable) (fits : (ofSources now c sources).FitsWords) (hdisk : c.sources disk = .ok sources)
    (kept : (disk.readText c.goldStandardPath).toOption = (tree'.readText c.goldStandardPath).toOption)
    (hpath : IsProjectPath path) (hwritten : written ∈ [path, "./" ++ path]) :
    verifyFile later c disk written content = .ok (compareGraphs (ofSources now c sources)
      (withFile later c sources (ofSources now c sources) path content)) := by
  have relative : relativePath c written = path := by
    rcases List.mem_cons.1 hwritten with rfl | hwritten
    · exact (hpath.relativePath_eq c).1
    · rw [List.mem_singleton.1 hwritten]
      exact (hpath.relativePath_eq c).2
  unfold verifyFile
  rw [baseline_eq saved time fits kept, hdisk, ← relative]
  rfl

/-- Once a baseline is saved and as long as the files stay as they are, the project does not differ
from it, and a proposed change of one file is judged as if the project were built anew with it,
exactly if the new text does not clash with a later file. Proposing the text that is there shows no
difference. -/
theorem proposed_change_agrees {now : Timestamp} {c : Config} {tree tree' : FileTree} {g : CallGraph}
    {sources : Sources} (saved : saveBaseline now c tree = .ok (g, tree')) (time : now.Tellable)
    (fits : g.FitsWords) (hsources : c.sources tree = .ok sources) (distinct : DistinctIds sources) :
    c.sources tree' = .ok sources ∧
    ∀ (later : Timestamp) (disk : FileTree), c.sources disk = .ok sources →
      (disk.readText c.goldStandardPath).toOption = (tree'.readText c.goldStandardPath).toOption →
      (∃ d, verify later c disk = .ok d ∧ d.isEquivalent = true ∧ d.removed = [] ∧ d.added = [] ∧
        d.signatureChanges = []) ∧
      ∀ path content, IsProjectPath path → ∀ written ∈ [path, "./" ++ path],
        (∃ d, verifyFile later c disk written content = .ok d ∧
          (d = compareGraphs g (ofSources later c (sources.insert path content)) ↔
            ¬ ClashesLater sources path content)) ∧
        (sources.get? path = some content →
          verifyFile later c disk written content = .ok ⟨[], [], []⟩) := by
  obtain ⟨sources', hsources', rfl, hsave⟩ := saveBaseline_eq saved
  obtain rfl : sources = sources' := Except.ok.inj (hsources.symm.trans hsources')
  refine ⟨sources_saveFile hsources hsave, fun later disk hdisk kept => ?_⟩
  have hbaseline := baseline_eq saved time fits kept
  have unchanged : compareGraphs (ofSources now c sources) (ofSources later c sources) = ⟨[], [], []⟩ :=
    compareGraphs_of_nodes_eq rfl
  refine ⟨⟨⟨[], [], []⟩, ?_, rfl, rfl, rfl, rfl⟩, fun path content hpath written hwritten => ?_⟩
  · unfold verify ofProject
    rw [hbaseline, hdisk, ← unchanged]
    rfl
  · have judged := verifyFile_eq later content saved time fits hdisk kept hpath hwritten
    refine ⟨⟨_, judged, compareGraphs_withFile_iff distinct⟩, fun present => ?_⟩
    have free : ¬ ClashesLater sources path content := by
      rintro ⟨id, other, text, f, h, before, hother, hf, hh, -⟩
      obtain ⟨mem, hid, -⟩ := functionIn?_mem hf
      obtain ⟨mem', hid', -⟩ := functionIn?_mem hh
      exact absurd (distinct _ _ _ _ _ _ present hother mem mem' (hid.trans hid'.symm)) (ne_of_lt before)
    rw [judged, (compareGraphs_withFile_iff distinct).2 free, KeyMap.insert_eq_self present, unchanged]

/-- A changed signature and a new function in the first of two files. -/
theorem proposed_change_agrees_two_files :
    let c : Config := { rootDir := "/r" }
    let entries : List (String × FileTree) :=
      [("a.ts", .file "export function f(x) \x7b\x7d\n".toUTF8),
        ("b.ts", .file "function g() \x7b\x7d\n".toUTF8)]
    let tree : FileTree := .folder [("r", .folder entries)]
    let sources : Sources := .ofList [("a.ts", "export function f(x) \x7b\x7d\n"),
      ("b.ts", "function g() \x7b\x7d\n")]
    let content := "export function f(x, y) \x7b\x7d\nfunction h() \x7b\x7d\n"
    ∃ tree', saveBaseline ⟨0, 0⟩ c tree = .ok (ofSources ⟨0, 0⟩ c sources, tree') ∧
      (ofSources ⟨0, 0⟩ c sources).FitsWords ∧ c.sources tree = .ok sources ∧ DistinctIds sources ∧
      ¬ ClashesLater sources "a.ts" content ∧
      verifyFile ⟨60, 0⟩ c tree' "./a.ts" content = .ok (compareGraphs (ofSources ⟨0, 0⟩ c sources)
        (ofSources ⟨60, 0⟩ c (sources.insert "a.ts" content))) := by
  intro c entries tree sources content
  have hsources : c.sources tree = .ok sources :=
    (sources_of_ascending (FileTree.find_top entries) rfl (by decide +kernel)).trans
      (congrArg Except.ok (by decide +kernel))
  obtain ⟨tree', saved⟩ := exists_saveBaseline_eq ⟨0, 0⟩ hsources (by decide +kernel)
  have time : Timestamp.Tellable ⟨0, 0⟩ := ⟨by decide, by decide, Or.inl (by decide)⟩
  have fits : (ofSources ⟨0, 0⟩ c sources).FitsWords := by decide +kernel
  have distinct : DistinctIds sources := by decide +kernel
  have free : ¬ ClashesLater sources "a.ts" content := by decide +kernel
  obtain ⟨kept, judged⟩ := proposed_change_agrees saved time fits hsources distinct
  obtain ⟨⟨d, hd, agrees⟩, -⟩ :=
    (judged ⟨60, 0⟩ tree' kept rfl).2 "a.ts" content (by decide +kernel) "./a.ts" (by decide)
  exact ⟨tree', saved, fits, hsources, distinct, free, hd.trans (congrArg _ (agrees.2 free))⟩

/-- The proposed text of `x.ts` declares a method with two parameters under the id of a method with one
parameter of the other file. The stored function stays, and the graph built anew has the proposed one. -/
theorem proposed_change_hidden :
    let c : Config := { rootDir := "/r" }
    let entries : List (String × FileTree) :=
      [("x.ts", .file "export const z = 1;\n".toUTF8),
        ("x.ts:A.['q.ts", .file "class X \x7b [a/*'+b/**/](p) \x7b\x7d \x7d\n".toUTF8)]
    let tree : FileTree := .folder [("r", .folder entries)]
    let sources : Sources := .ofList [("x.ts", "export const z = 1;\n"),
      ("x.ts:A.['q.ts", "class X \x7b [a/*'+b/**/](p) \x7b\x7d \x7d\n")]
    let content := "class A \x7b ['q.ts:X.[a/*'+b/**/](u, v) \x7b\x7d \x7d\n"
    ∃ tree' d, saveBaseline ⟨0, 0⟩ c tree = .ok (ofSources ⟨0, 0⟩ c sources, tree') ∧
      (ofSources ⟨0, 0⟩ c sources).FitsWords ∧ c.sources tree' = .ok sources ∧ DistinctIds sources ∧
      IsProjectPath "x.ts" ∧ verifyFile ⟨0, 0⟩ c tree' "x.ts" content = .ok d ∧
      d ≠ compareGraphs (ofSources ⟨0, 0⟩ c sources)
        (ofSources ⟨0, 0⟩ c (sources.insert "x.ts" content)) := by
  intro c entries tree sources content
  have hsources : c.sources tree = .ok sources :=
    (sources_of_ascending (FileTree.find_top entries) rfl (by decide +kernel)).trans
      (congrArg Except.ok (by decide +kernel))
  obtain ⟨tree', saved⟩ := exists_saveBaseline_eq ⟨0, 0⟩ hsources (by decide +kernel)
  have time : Timestamp.Tellable ⟨0, 0⟩ := ⟨by decide, by decide, Or.inl (by decide)⟩
  have fits : (ofSources ⟨0, 0⟩ c sources).FitsWords := by decide +kernel
  have distinct : DistinctIds sources := by decide +kernel
  have path : IsProjectPath "x.ts" := by decide +kernel
  have clash : ClashesLater sources "x.ts" content := by decide +kernel
  obtain ⟨sources', hsources', -, hsave⟩ := saveBaseline_eq saved
  have kept : c.sources tree' = .ok sources := sources_saveFile hsources hsave
  have judged := verifyFile_eq ⟨0, 0⟩ content saved time fits kept rfl path List.mem_cons_self
  exact ⟨tree', _, saved, fits, kept, distinct, path, judged,
    fun same => (compareGraphs_withFile_iff distinct).1 same clash⟩

end CallGraph
end SymbolGraph
