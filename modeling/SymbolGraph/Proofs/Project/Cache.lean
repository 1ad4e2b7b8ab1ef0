import Mathlib.Data.Set.Function
import SymbolGraph.Project.Run
import SymbolGraph.Proofs.FileTree
import SymbolGraph.Proofs.Json.Record

/-!
# Runs with the facts of earlier runs

A cache holds facts of texts that were read under the paths of its entries, and a run keeps it so. As
long as no two of the texts share a hash, the facts of a hit are those of the text at hand, and a run
with the cache reads the same source files as a run without.
-/
namespace SymbolGraph
open Json

/-! ## The stored form of facts -/

theorem ExportKind.ofJson?_text (k : ExportKind) : ExportKind.ofJson? (.string k.text) = some k := by
  cases k <;> rfl

theorem Export.readsBack_toJson : ReadsBack Export.toJson Export.ofJson? := by
  intro e e' h
  have fields : fields? ["name", "kind", "filePath", "line", "isDefault", "isReExport",
      "originalSource", "originalName", "signature"] e.toJson =
        some [some (.string e.name), some (.string e.kind.text), some (.string e.file),
          some (.nat e.line), some (.bool e.isDefault), some (.bool e.isReExport),
          e.origin.map .string, e.originName.map .string, e.signature.map .string] :=
    fields?_members rfl rfl (by decide)
  unfold Export.ofJson? at h
  rw [fields] at h
  simp only [Option.bind_eq_bind, Option.bind_some, required, string?, bool?,
    ExportKind.ofJson?_text, optional_string, Option.bind_eq_some_iff] at h
  obtain ⟨line, hline, h⟩ := h
  obtain rfl := readsBack_word _ _ hline
  exact (Option.some_inj.1 h).symm

theorem Import.readsBack_toJson : ReadsBack Import.toJson Import.ofJson? := by
  intro i i' h
  have fields : fields? ["name", "alias", "source", "filePath", "line", "isDefault", "isNamespace",
      "isReExport", "resolvedPath"] i.toJson =
        some [some (.string i.name), i.boundAs.map .string, some (.string i.specifier),
          some (.string i.file), some (.nat i.line), some (.bool i.isDefault),
          some (.bool i.isNamespace), some (.bool i.isReExport), i.target.map .string] :=
    fields?_members rfl rfl (by decide)
  unfold Import.ofJson? at h
  rw [fields] at h
  simp only [Option.bind_eq_bind, Option.bind_some, required, string?, bool?,
    optional_string, optional_some, Option.bind_eq_some_iff] at h
  obtain ⟨line, hline, h⟩ := h
  obtain rfl := readsBack_word _ _ hline
  exact (Option.some_inj.1 h).symm

theorem Binding.readsBack_toJson : ReadsBack Binding.toJson Binding.ofJson? := by
  intro b b' h
  have fields : fields? ["specifier", "source", "originalName", "isNamespace"] b.toJson =
      some [some (.string b.specifier), b.target.map .string, some (.string b.name),
        some (.bool b.isNamespace)] := fields?_members rfl rfl (by decide)
  unfold Binding.ofJson? at h
  rw [fields] at h
  simp only [Option.bind_eq_bind, Option.bind_some, required, string?, bool?,
    optional_string, optional_some] at h
  exact (Option.some_inj.1 h).symm

theorem KeyMap.readsBack_toJson {α : Type} {write : α → Json} {read : Json → Option α}
    (h : ReadsBack write read) : ReadsBack (KeyMap.toJson write) (mapOf read) := by
  intro m m' hm
  obtain ⟨entries, hentries, rfl⟩ := Option.map_eq_some_iff.1 hm
  have same : entries = m.entries := by
    refine eq_of_mapM_map (fun p q hq => ?_) hentries
    obtain ⟨v, hv, rfl⟩ := Option.map_eq_some_iff.1 hq
    rw [h p.2 v hv]
  rw [same, KeyMap.ofList_entries]

theorem Facts.readsBack_toJson : ReadsBack Facts.toJson Facts.ofJson? := by
  intro f f' h
  have fields : fields? ["exports", "imports", "localSymbols"] f.toJson =
      some [some (.array (f.exports.map Export.toJson)), some (.array (f.imports.map Import.toJson)),
        some (f.bindings.toJson Binding.toJson)] := by
    rw [Facts.toJson, fields?_object (by simp)]
    simp
  unfold Facts.ofJson? at h
  rw [fields] at h
  simp only [Option.bind_eq_bind, Option.bind_some, required, Option.bind_eq_some_iff] at h
  obtain ⟨exports, hexports, imports, himports, bindings, hbindings, h⟩ := h
  obtain rfl := Export.readsBack_toJson.listOf _ _ hexports
  obtain rfl := Import.readsBack_toJson.listOf _ _ himports
  obtain rfl := KeyMap.readsBack_toJson Binding.readsBack_toJson _ _ hbindings
  exact (Option.some_inj.1 h).symm

theorem CachedFile.readsBack_toJson : ReadsBack CachedFile.toJson CachedFile.ofJson? := by
  intro f f' h
  have fields : fields? ["contentHash", "facts"] f.toJson =
      some [some (.string f.contentHash), some f.facts.toJson] := by
    rw [CachedFile.toJson, fields?_object (by simp)]
    simp
  unfold CachedFile.ofJson? at h
  rw [fields] at h
  simp only [Option.bind_eq_bind, Option.bind_some, required, string?,
    Option.bind_eq_some_iff] at h
  obtain ⟨facts, hfacts, h⟩ := h
  obtain rfl := Facts.readsBack_toJson _ _ hfacts
  exact (Option.some_inj.1 h).symm

/-- All but the time of a cache is read as it was written. -/
theorem Cache.eq_of_ofJson?_toJson {c c' : Cache} (h : Cache.ofJson? c.toJson = some c') :
    c'.version = c.version ∧ c'.toolVersion = c.toolVersion ∧ c'.files = c.files := by
  have fields : fields? ["version", "toolVersion", "createdAt", "files"] c.toJson =
      some [some (.nat c.version), some (.string c.toolVersion), some (.string c.createdAt.text),
        some (c.files.toJson CachedFile.toJson)] := by
    rw [Cache.toJson, fields?_object (by simp)]
    simp
  unfold Cache.ofJson? at h
  rw [fields] at h
  simp only [Option.bind_eq_bind, Option.bind_some, required, string?,
    Option.bind_eq_some_iff] at h
  obtain ⟨version, hversion, _, -, files, hfiles, h⟩ := h
  obtain rfl := Option.some_inj.1 h
  exact ⟨readsBack_natBelow _ _ _ hversion, rfl,
    KeyMap.readsBack_toJson CachedFile.readsBack_toJson _ _ hfiles⟩

/-! ## Reading the stored form -/

theorem Export.plain_toJson (e : Export) : Plain e.toJson :=
  plainMembers_members (by simp [Plain, Json.nat])

theorem Import.plain_toJson (i : Import) : Plain i.toJson :=
  plainMembers_members (by simp [Plain, Json.nat])

theorem Binding.plain_toJson (b : Binding) : Plain b.toJson :=
  plainMembers_members (by simp [Plain])

theorem KeyMap.plain_toJson {α : Type} {write : α → Json} (h : ∀ a, Plain (write a)) (m : KeyMap α) :
    Plain (m.toJson write) := by
  unfold KeyMap.toJson Plain
  induction m.entries with
  | nil => exact trivial
  | cons p rest ih => exact ⟨h p.2, ih⟩

theorem Facts.plain_toJson (f : Facts) : Plain f.toJson := by
  have exports := plainItems_map fun e (_ : e ∈ f.exports) => e.plain_toJson
  have imports := plainItems_map fun i (_ : i ∈ f.imports) => i.plain_toJson
  have bindings := KeyMap.plain_toJson Binding.plain_toJson f.bindings
  exact ⟨exports, imports, bindings, trivial⟩

theorem CachedFile.plain_toJson (f : CachedFile) : Plain f.toJson :=
  ⟨trivial, f.facts.plain_toJson, trivial⟩

theorem Cache.plain_toJson (c : Cache) : Plain c.toJson :=
  ⟨trivial, trivial, trivial, KeyMap.plain_toJson CachedFile.plain_toJson c.files, trivial⟩

theorem Config.rootDir_ne_empty {c : Config} {tree : FileTree} {paths : List String}
    (h : c.sourceFiles tree = .ok paths) : c.rootDir ≠ "" := by
  obtain ⟨entries, hroot, -⟩ := FileTree.sourceFiles_eq h
  exact (FileTree.find_eq hroot).1

/-- After saving, the stored cache is the one that was saved or the one from before. -/
theorem Cache.stored?_save {c : Config} (hroot : c.rootDir ≠ "") {cache cache' : Cache} {tree : FileTree}
    (h : Cache.stored? c.stateDir (cache.save c.stateDir tree) = some cache') :
    (cache'.version = cache.version ∧ cache'.toolVersion = cache.toolVersion ∧
      cache'.files = cache.files) ∨ Cache.stored? c.stateDir tree = some cache' := by
  unfold Cache.save at h
  dsimp only at h
  split_ifs at h
  · have state : c.stateDir ≠ "" := FileTree.under_ne_empty hroot _
    have place : FileTree.placeOf (Path.under c.stateDir cacheFile) ≠ [] := by
      rw [FileTree.placeOf_under_name state ⟨by decide, by decide⟩]
      simp
    rw [Cache.stored?, FileTree.readText_removeFile place] at h
    cases h
  · split at h
    · rename_i tree' saved
      rw [Cache.stored?, Config.readText_saved hroot saved, Option.bind_some,
        read?_compact cache.plain_toJson, Option.bind_some] at h
      exact .inl (Cache.eq_of_ofJson?_toJson h)
    · exact .inr h

/-! ## Facts from a cache -/

/-- A source file without the mark that tells where its facts come from. -/
def SourceFile.fresh (f : SourceFile) : SourceFile := { f with fromCache := false }

theorem Cache.lookup?_eq_some {c : Cache} {path hash : String} {facts : Facts} :
    c.lookup? path hash = some facts ↔
      ∃ f, c.files.get? path = some f ∧ f.contentHash = hash ∧ f.facts = facts := by
  simp only [Cache.lookup?, Option.map_eq_some_iff, Option.filter_eq_some_iff, beq_iff_eq, and_assoc]

namespace SourceFile

variable {known : String → String → Option Facts}
  {parse : String → String → Except AnalysisError Facts} {tree : FileTree} {root path : String}

theorem path_load : (load known parse tree root path).path = path := by
  unfold load
  split
  · rfl
  · dsimp only
    split
    · rfl
    · split <;> rfl

/-- A file without a fault was read, and its facts are known or were parsed. -/
theorem of_load (h : (load known parse tree root path).fault = none) :
    ∃ content, tree.readText (Path.under root path) = .ok content ∧
      (load known parse tree root path).contentHash = SymbolGraph.contentHash content ∧
      (known path (SymbolGraph.contentHash content) = some (load known parse tree root path).facts ∨
        parse path content = .ok (load known parse tree root path).facts) := by
  unfold load at h ⊢
  split at h
  · cases h
  · rename_i content hread
    refine ⟨content, hread, ?_⟩
    dsimp only at h ⊢
    split at h
    · rename_i facts hknown
      simp [hknown]
    · rename_i hknown
      split at h
      · rename_i facts hparse
        simp [hknown, hparse]
      · cases h

theorem facts_load : (load known parse tree root path).facts = {} ∨
    ∃ content, known path (SymbolGraph.contentHash content) = some (load known parse tree root path).facts ∨
      parse path content = .ok (load known parse tree root path).facts := by
  cases fault : (load known parse tree root path).fault with
  | none =>
    obtain ⟨content, -, -, facts⟩ := of_load fault
    exact .inr ⟨content, facts⟩
  | some reason =>
    refine .inl ?_
    unfold load at fault ⊢
    split
    · rfl
    · rename_i content hread
      simp only [hread] at fault
      dsimp only
      split
      · rename_i facts hknown
        simp [hknown] at fault
      · rename_i hknown
        split
        · rename_i facts hparse
          simp [hknown, hparse] at fault
        · rfl

/-- Facts that are known and right make no difference but for the mark. -/
theorem fresh_load (right : ∀ content facts, tree.readText (Path.under root path) = .ok content →
      known path (SymbolGraph.contentHash content) = some facts → parse path content = .ok facts) :
    (load known parse tree root path).fresh = load (fun _ _ => none) parse tree root path := by
  unfold load
  split
  · rfl
  · rename_i content hread
    dsimp only
    split
    · rename_i facts hknown
      rw [right content facts hread hknown]
      rfl
    · split <;> rfl

end SourceFile

/-! ## Runs -/

/-- The source files of a run. -/
def Config.runSources (c : Config) (tree : FileTree) (paths : List String) : List SourceFile :=
  if c.cacheEnabled then
    loadSources (Cache.load c.stateDir tree).1 (Cache.load c.stateDir tree).2 c.rootDir paths
  else loadSources none tree c.rootDir paths

/-- The tree that a run leaves behind. -/
def Config.runTree (now : Timestamp) (c : Config) (tree : FileTree) (paths : List String) : FileTree :=
  if c.cacheEnabled then
    (Cache.ofSources now (c.runSources tree paths)).save c.stateDir (Cache.load c.stateDir tree).2
  else tree

theorem analyzeProject_of_sourceFiles (now : Timestamp) {c : Config} {tree : FileTree}
    {paths : List String} (h : c.sourceFiles tree = .ok paths) :
    analyzeProject now c tree =
      .ok (.ofFiles c paths (c.runSources tree paths), c.runTree now tree paths) := by
  unfold analyzeProject Config.runTree Config.runSources
  rw [h]
  by_cases hc : c.cacheEnabled = true
  · simp only [hc, if_true]
    rfl
  · simp only [hc]
    rfl

/-- Every entry was parsed without error from one of the texts, under the path of the entry, and has the
hash of that text. -/
def Cache.Holds (cache : Cache) (texts : Set String) : Prop :=
  ∀ path f, cache.files.get? path = some f →
    ∃ content ∈ texts, contentHash content = f.contentHash ∧
      Language.factsOf Language.all path content = .ok f.facts

/-- The files at those paths have texts of a set, as far as they can be read. -/
def FileTree.TextsIn (tree : FileTree) (root : String) (paths : List String) (texts : Set String) :
    Prop :=
  ∀ path ∈ paths, ∀ content, tree.readText (Path.under root path) = .ok content → content ∈ texts

section Step

variable {texts : Set String} {cache : Cache} {tree : FileTree} {root : String} {paths : List String}

/-- A hit on a cache that holds is right, as no other text has the hash. -/
theorem Cache.Holds.right (holds : cache.Holds texts) (distinct : texts.InjOn contentHash)
    {path content : String} (seen : content ∈ texts) {facts : Facts}
    (hit : cache.lookup? path (contentHash content) = some facts) :
    Language.factsOf Language.all path content = .ok facts := by
  obtain ⟨f, hf, hash, rfl⟩ := Cache.lookup?_eq_some.1 hit
  obtain ⟨content', seen', hash', parsed⟩ := holds path f hf
  obtain rfl : content' = content := distinct seen' seen (hash'.trans hash)
  exact parsed

theorem loadSources_fresh (holds : cache.Holds texts) (distinct : texts.InjOn contentHash)
    (seen : tree.TextsIn root paths texts) :
    (loadSources (some cache) tree root paths).map SourceFile.fresh =
      loadSources none tree root paths := by
  unfold loadSources
  rw [List.map_map]
  refine List.map_congr_left fun path hpath => SourceFile.fresh_load fun content facts read hit => ?_
  exact holds.right distinct (seen path hpath content read) hit

theorem fresh_loadSources_none :
    (loadSources none tree root paths).map SourceFile.fresh = loadSources none tree root paths := by
  unfold loadSources
  rw [List.map_map]
  exact List.map_congr_left fun path _ => SourceFile.fresh_load fun content facts _ hit => by cases hit

/-- What is kept of a run holds if the cache of the run did. -/
theorem holds_ofSources (now : Timestamp) {known : Option Cache}
    (holds : ∀ cache, known = some cache → cache.Holds texts) (seen : tree.TextsIn root paths texts) :
    (Cache.ofSources now (loadSources known tree root paths)).Holds texts := by
  intro path f hf
  obtain ⟨s, hs, heq⟩ := List.mem_map.1 (KeyMap.mem_of_mem_ofList (KeyMap.get?_eq_some.1 hf))
  obtain ⟨hs, sound⟩ := List.mem_filter.1 hs
  obtain ⟨path', hpath, rfl⟩ := List.mem_map.1 hs
  obtain ⟨rfl, rfl⟩ := Prod.mk.inj heq
  rw [SourceFile.path_load]
  obtain ⟨content, read, hash, parsed⟩ := SourceFile.of_load (Option.isNone_iff_eq_none.1 sound)
  rcases parsed with hit | parsed
  · -- the facts were parsed in an earlier run, from a text with the same hash
    obtain ⟨cache, hcache, hit⟩ := Option.bind_eq_some_iff.1 hit
    obtain ⟨f, hf, hash', facts⟩ := Cache.lookup?_eq_some.1 hit
    obtain ⟨content', seen', hash'', parsed⟩ := holds cache hcache path' f hf
    exact ⟨content', seen', hash''.trans (hash'.trans hash.symm), parsed.trans (by rw [facts])⟩
  · exact ⟨content, seen path' hpath content read, hash.symm, parsed⟩

/-- A path is read in one way only. -/
theorem eq_of_path_eq {known : Option Cache} {s s' : SourceFile}
    (hs : s ∈ loadSources known tree root paths) (hs' : s' ∈ loadSources known tree root paths)
    (h : s'.path = s.path) : s' = s := by
  obtain ⟨path, -, rfl⟩ := List.mem_map.1 hs
  obtain ⟨path', -, rfl⟩ := List.mem_map.1 hs'
  rw [SourceFile.path_load, SourceFile.path_load] at h
  rw [h]

/-- A run keeps the facts of its files without a fault, and nothing of the others. -/
theorem get?_ofSources (now : Timestamp) {known : Option Cache} {s : SourceFile}
    (hs : s ∈ loadSources known tree root paths) :
    (Cache.ofSources now (loadSources known tree root paths)).files.get? s.path =
      if s.fault.isNone then some ⟨s.contentHash, s.facts⟩ else none := by
  have kept {f : CachedFile}
      (hf : (Cache.ofSources now (loadSources known tree root paths)).files.get? s.path = some f) :
      s.fault.isNone = true ∧ f = ⟨s.contentHash, s.facts⟩ := by
    obtain ⟨s', hs', heq⟩ := List.mem_map.1 (KeyMap.mem_of_mem_ofList (KeyMap.get?_eq_some.1 hf))
    obtain ⟨hs', sound⟩ := List.mem_filter.1 hs'
    obtain ⟨hpath, rfl⟩ := Prod.mk.inj heq
    obtain rfl := eq_of_path_eq hs hs' hpath
    exact ⟨sound, rfl⟩
  split_ifs with sound
  · have key : s.path ∈ (Cache.ofSources now (loadSources known tree root paths)).files.keys := by
      refine KeyMap.mem_keys_ofList.2 (List.mem_map.2 ⟨(s.path, ⟨s.contentHash, s.facts⟩), ?_, rfl⟩)
      exact List.mem_map.2 ⟨s, List.mem_filter.2 ⟨hs, sound⟩, rfl⟩
    obtain ⟨f, hf⟩ := KeyMap.mem_keys.1 key
    rw [hf, (kept hf).2]
  · cases hf : (Cache.ofSources now (loadSources known tree root paths)).files.get? s.path with
    | none => rfl
    | some f => exact absurd (kept hf).1 sound

end Step

/-! ## Runs one after another -/

/-- The text of the cache file of a project. -/
def FileTree.cacheText (tree : FileTree) (root : String) : Option String :=
  (tree.readText (Path.under (Path.under root stateDirName) cacheFile)).toOption

/-- The trees of a project at `root` that come about by runs and by edits. An edit may change every file
but the cache, which it can only take away. The files that are analysed have texts of the set. -/
inductive Reached (root : String) (texts : Set String) : FileTree → Prop
  | start {tree : FileTree} (new : tree.cacheText root = none) : Reached root texts tree
  | edited {tree tree' : FileTree} (before : Reached root texts tree)
      (cache : tree'.cacheText root = tree.cacheText root ∨ tree'.cacheText root = none) :
      Reached root texts tree'
  | analyzed {tree tree' : FileTree} {c : Config} {now : Timestamp} {paths : List String}
      {p : ProjectAnalysis} (before : Reached root texts tree) (project : c.rootDir = root)
      (found : c.sourceFiles tree = .ok paths) (seen : tree.TextsIn root paths texts)
      (run : analyzeProject now c tree = .ok (p, tree')) : Reached root texts tree'

theorem stored?_eq (root : String) (tree : FileTree) :
    Cache.stored? (Path.under root stateDirName) tree =
      (tree.cacheText root).bind fun content => (Json.read? content).bind Cache.ofJson? := rfl

/-- A stored cache that is of use, and holds, is the one that a run works with. -/
theorem load_eq_stored? {stateDir : String} {tree : FileTree}
    (h : ∀ cache, Cache.stored? stateDir tree = some cache → cache.isCompatible = true) :
    Cache.load stateDir tree = (Cache.stored? stateDir tree, tree) := by
  unfold Cache.load
  split
  · rename_i none
    rw [none]
  · rename_i cache stored
    rw [if_pos (h cache stored), stored]

/-- One run keeps the stored cache of use and holding. -/
theorem stored?_runTree {c : Config} {tree : FileTree} {paths : List String} {texts : Set String}
    (now : Timestamp) (found : c.sourceFiles tree = .ok paths) (seen : tree.TextsIn c.rootDir paths texts)
    (before : ∀ cache, Cache.stored? c.stateDir tree = some cache →
      cache.isCompatible = true ∧ cache.Holds texts)
    {cache : Cache} (h : Cache.stored? c.stateDir (c.runTree now tree paths) = some cache) :
    cache.isCompatible = true ∧ cache.Holds texts := by
  have loaded := load_eq_stored? fun cache stored => (before cache stored).1
  unfold Config.runTree at h
  split_ifs at h with enabled
  · rw [loaded] at h
    rcases Cache.stored?_save (Config.rootDir_ne_empty found) h with ⟨version, tool, files⟩ | old
    · constructor
      · rw [Cache.isCompatible, version, tool]
        simp [Cache.ofSources]
      · have new := holds_ofSources now (fun cache stored => (before cache stored).2) seen
        rw [Config.runSources, if_pos enabled, loaded] at files
        rw [Cache.Holds, files]
        exact new
    · exact before cache old
  · exact before cache h

theorem Reached.stored {root : String} {texts : Set String} {tree : FileTree}
    (h : Reached root texts tree) {cache : Cache}
    (hcache : Cache.stored? (Path.under root stateDirName) tree = some cache) :
    cache.isCompatible = true ∧ cache.Holds texts := by
  induction h generalizing cache with
  | start new =>
    rw [stored?_eq, new] at hcache
    cases hcache
  | edited before same ih =>
    rw [stored?_eq] at hcache
    rcases same with same | gone
    · rw [same] at hcache
      exact ih hcache
    · rw [gone] at hcache
      cases hcache
  | @analyzed tree tree' c now paths p before project found seen run ih =>
    subst project
    rw [analyzeProject_of_sourceFiles now found] at run
    cases run
    exact stored?_runTree now found seen (fun cache stored => ih stored) hcache

/-- Whatever runs and edits came before, a run gives an answer about the same source files as a run
without a cache. It leaves only entries parsed without error from texts with their hashes, one for each
file without a fault. -/
theorem runSources_of_reached {root : String} {texts : Set String} (distinct : texts.InjOn contentHash)
    {tree : FileTree} (reached : Reached root texts tree) {c : Config} (project : c.rootDir = root)
    {paths : List String} (found : c.sourceFiles tree = .ok paths)
    (seen : tree.TextsIn root paths texts) (now : Timestamp) :
    ∃ tree', analyzeProject now c tree = .ok (.ofFiles c paths (c.runSources tree paths), tree') ∧
      Reached root texts tree' ∧
      (c.runSources tree paths).map SourceFile.fresh = loadSources none tree root paths ∧
      (∀ cache, Cache.stored? c.stateDir tree' = some cache → cache.Holds texts) ∧
      ∀ s ∈ c.runSources tree paths,
        (Cache.ofSources now (c.runSources tree paths)).files.get? s.path =
          if s.fault.isNone then some ⟨s.contentHash, s.facts⟩ else none := by
  subst project
  have run := analyzeProject_of_sourceFiles now found
  have next : Reached c.rootDir texts (c.runTree now tree paths) :=
    .analyzed reached rfl found seen run
  have loaded : Cache.load c.stateDir tree = (Cache.stored? c.stateDir tree, tree) :=
    load_eq_stored? fun cache stored => (reached.stored stored).1
  refine ⟨c.runTree now tree paths, run, next, ?_, fun cache stored => (next.stored stored).2, ?_⟩
  · unfold Config.runSources
    rw [loaded]
    split_ifs with enabled
    · cases stored : Cache.stored? c.stateDir tree with
      | none => exact fresh_loadSources_none
      | some cache => exact loadSources_fresh (reached.stored stored).2 distinct seen
    · exact fresh_loadSources_none
  · unfold Config.runSources
    split_ifs
    · exact fun s hs => get?_ofSources now hs
    · exact fun s hs => get?_ofSources now hs

theorem utf8ByteSize_compact_le (j : Json) : j.compact.utf8ByteSize ≤ 4 * (compactChars j).length := by
  unfold compact
  induction compactChars j with
  | nil => simp
  | cons c cs ih =>
    have h := c.utf8Size_le_four
    rw [String.ofList_cons, String.utf8ByteSize_append, String.utf8ByteSize_singleton, List.length_cons]
    omega

/-- A run without a cache stores one, where it is small enough and can be saved. -/
theorem cacheText_runTree (now : Timestamp) {c : Config} {tree : FileTree} {paths : List String}
    (found : c.sourceFiles tree = .ok paths) (enabled : c.cacheEnabled = true)
    (new : tree.cacheText c.rootDir = none)
    (small : ¬ maxCacheSize <
      (Cache.ofSources now (c.runSources tree paths)).toJson.compact.utf8ByteSize)
    (saves : (tree.saveFile c.stateDir cacheFile
      (Cache.ofSources now (c.runSources tree paths)).toJson.compact).toOption.isSome = true) :
    (c.runTree now tree paths).cacheText c.rootDir =
      some (Cache.ofSources now (c.runSources tree paths)).toJson.compact := by
  have loaded : Cache.load c.stateDir tree = (Cache.stored? c.stateDir tree, tree) :=
    load_eq_stored? fun cache h => by
      rw [Config.stateDir, stored?_eq, new] at h
      cases h
  rw [Config.runTree, if_pos enabled, loaded]
  unfold Cache.save
  dsimp only
  rw [if_neg small]
  cases h : tree.saveFile c.stateDir cacheFile
      (Cache.ofSources now (c.runSources tree paths)).toJson.compact with
  | ok tree' => exact Config.readText_saved (Config.rootDir_ne_empty found) h
  | error e =>
    rw [h] at saves
    cases saves

theorem FileTree.cacheText_top {entries inner : List (String × FileTree)} {text : String}
    (hinner : entries.lookup ".symtrace" = some (.folder inner))
    (hfile : inner.lookup "cache.json" = some (.file text.toUTF8)) :
    (FileTree.folder [("r", .folder entries)]).cacheText "/r" = some text := by
  have place : FileTree.placeOf (Path.under (Path.under "/r" stateDirName) cacheFile) =
      ["r", ".symtrace", "cache.json"] := by decide +kernel
  have file : (FileTree.folder [("r", .folder entries)]).fileAt ["r", ".symtrace", "cache.json"] =
      some text.toUTF8 := by
    simp [FileTree.fileAt, FileTree.get, hinner, hfile]
  rw [FileTree.cacheText, FileTree.toOption_readText (by decide +kernel), place, file,
    Option.bind_some, fromUTF8?_toUTF8]

/-- After a run `a.ts` is edited, so that only `b.ts` is taken from the cache of the run. -/
theorem runSources_after_edit :
    let c : Config := { rootDir := "/r" }
    let old := ""
    let new := "import \x7b b \x7d from './b';"
    let kept := "export const b = 1;"
    let first : FileTree :=
      .folder [("r", .folder [("a.ts", .file old.toUTF8), ("b.ts", .file kept.toUTF8)])]
    let saved := (Cache.ofSources ⟨0, 0⟩ (c.runSources first ["a.ts", "b.ts"])).toJson.compact
    let second : FileTree :=
      .folder [("r", .folder [("a.ts", .file new.toUTF8), ("b.ts", .file kept.toUTF8),
        (".symtrace", .folder [("cache.json", .file saved.toUTF8)])])]
    Set.InjOn contentHash {old, new, kept} ∧ Reached "/r" {old, new, kept} second ∧
      c.sourceFiles second = .ok ["a.ts", "b.ts"] ∧
      second.TextsIn "/r" ["a.ts", "b.ts"] {old, new, kept} ∧
      (c.runSources second ["a.ts", "b.ts"]).map SourceFile.fresh =
        loadSources none second "/r" ["a.ts", "b.ts"] := by
  intro c old new kept first saved second
  have distinct : Set.InjOn contentHash {old, new, kept} := by
    have h₁ : contentHash old ≠ contentHash new := by decide +kernel
    have h₂ : contentHash old ≠ contentHash kept := by decide +kernel
    have h₃ : contentHash new ≠ contentHash kept := by decide +kernel
    intro s hs t ht same
    simp only [Set.mem_insert_iff, Set.mem_singleton_iff] at hs ht
    rcases hs with rfl | rfl | rfl <;> rcases ht with rfl | rfl | rfl <;> simp_all
  have foundFirst : c.sourceFiles first = .ok ["a.ts", "b.ts"] :=
    (Config.sourceFiles_of_ascending (FileTree.find_top _) rfl (by decide +kernel)).trans
      (congrArg Except.ok (by decide +kernel))
  have foundSecond : c.sourceFiles second = .ok ["a.ts", "b.ts"] :=
    (Config.sourceFiles_of_ascending (FileTree.find_top _) rfl (by decide +kernel)).trans
      (congrArg Except.ok (by decide +kernel))
  have seen (tree : FileTree) (a : String) (ha : a = old ∨ a = new)
      (readA : tree.readText (Path.under "/r" "a.ts") = .ok a)
      (readB : tree.readText (Path.under "/r" "b.ts") = .ok kept) :
      tree.TextsIn "/r" ["a.ts", "b.ts"] {old, new, kept} := by
    intro path hpath content read
    simp only [List.mem_cons, List.not_mem_nil, or_false] at hpath
    rcases hpath with rfl | rfl
    · obtain rfl := Except.ok.inj (readA.symm.trans read)
      rcases ha with rfl | rfl <;> simp
    · obtain rfl := Except.ok.inj (readB.symm.trans read)
      simp
  have seenFirst := seen first old (.inl rfl) (by decide +kernel) (by decide +kernel)
  have seenSecond := seen second new (.inr rfl) (by decide +kernel) (by decide +kernel)
  have noCache : first.cacheText "/r" = none := by decide +kernel
  have run := analyzeProject_of_sourceFiles ⟨0, 0⟩ foundFirst
  have stored : (c.runTree ⟨0, 0⟩ first ["a.ts", "b.ts"]).cacheText "/r" = some saved :=
    cacheText_runTree ⟨0, 0⟩ foundFirst rfl noCache
      (Nat.not_lt.2 ((utf8ByteSize_compact_le _).trans (by decide +kernel))) (by decide +kernel)
  have held : second.cacheText "/r" = some saved := FileTree.cacheText_top rfl rfl
  have reached : Reached "/r" {old, new, kept} second :=
    .edited (.analyzed (.start noCache) rfl foundFirst seenFirst run) (.inl (held.trans stored.symm))
  obtain ⟨_, -, -, same, -⟩ := runSources_of_reached distinct reached rfl foundSecond seenSecond ⟨0, 0⟩
  exact ⟨distinct, reached, foundSecond, seenSecond, same⟩

end SymbolGraph
