import Mathlib.Data.List.Nodup
import SymbolGraph.Proofs.FileTree

/-!
# The source files of a tree

The walk over a tree passes over folders while it goes down and chooses files where it finds them.
Its result is told by the places of the tree alone: a file is listed if it is wanted and if all folders
on the way to it are entered.
-/
namespace SymbolGraph

/-- All folders on the way to a place are entered; what stands at the place does not count. -/
def SourceFilter.EntersTo (f : SourceFilter) : String → List String → Prop
  | _, [] => True
  | dir, name :: rest => (rest ≠ [] → f.enters name (FileTree.childPath dir name) = true) ∧
      f.EntersTo (FileTree.childPath dir name) rest

namespace FileTree
open Text

/-- The path of a place below a folder with the given path. -/
def pathFrom (dir : String) (place : List String) : String := place.foldl childPath dir

/-- A tree as a file system holds it: the entries of a folder have names, which are different. -/
def WellNamed (tree : FileTree) : Prop :=
  ∀ place entries, tree.get place = .ok (.folder entries) →
    (entries.map Prod.fst).Nodup ∧ "" ∉ entries.map Prod.fst

/-- The files of a tree that are wanted below the path of the tree. -/
structure Wants (f : SourceFilter) (path : String) (tree : FileTree) (place : List String) : Prop where
  file : ∃ content, tree.get place = .ok (.file content)
  wanted : f.wants (pathFrom path place) = true
  entered : f.EntersTo path place

/-- The places of the wanted files of a tree, each once, in the order of the walk. -/
structure IsListing (f : SourceFilter) (path : String) (tree : FileTree)
    (places : List (List String)) : Prop where
  nodup : places.Nodup
  mem_iff : ∀ place, place ∈ places ↔ Wants f path tree place
  paths : tree.wanted f path = places.map (pathFrom path)

/-! ## Going into a folder -/

theorem get_cons_folder (name other : String) (child : FileTree) (entries : List (String × FileTree))
    (place : List String) : (FileTree.folder ((name, child) :: entries)).get (other :: place) =
      if other = name then child.get place else (FileTree.folder entries).get (other :: place) := by
  rw [get, get, lookup_cons]
  split_ifs <;> rfl

theorem mem_names_of_get {tree : FileTree} {entries : List (String × FileTree)} {name : String}
    {place : List String} (h : (FileTree.folder entries).get (name :: place) = .ok tree) :
    name ∈ entries.map Prod.fst := by
  rw [get] at h
  cases hlookup : entries.lookup name with
  | none =>
    rw [hlookup] at h
    cases h
  | some child =>
    obtain ⟨before, after, rfl, -⟩ := List.lookup_eq_some_iff.1 hlookup
    simp

/-- The place of a file is empty if and only if the file is the whole tree. -/
theorem isFolder_iff_of_get {tree : FileTree} {place : List String} {content : ByteArray}
    (h : tree.get place = .ok (.file content)) : tree.isFolder = true ↔ place ≠ [] := by
  cases place with
  | nil =>
    obtain rfl := Except.ok.inj h
    simp [isFolder]
  | cons name rest =>
    cases tree with
    | file content => cases h
    | folder entries => simp [isFolder]

section Entry

variable {f : SourceFilter} {dir name : String} {child : FileTree} {entries : List (String × FileTree)}

theorem wants_cons_self {place : List String} :
    Wants f dir (.folder ((name, child) :: entries)) (name :: place) ↔
      (child.isFolder = true → f.enters name (childPath dir name) = true) ∧
        Wants f (childPath dir name) child place := by
  have below := get_cons_folder name name child entries place
  rw [if_pos rfl] at below
  constructor
  · rintro ⟨⟨content, file⟩, wanted, enters, entered⟩
    rw [below] at file
    exact ⟨fun folder => enters ((isFolder_iff_of_get file).1 folder), ⟨content, file⟩, wanted, entered⟩
  · rintro ⟨enters, ⟨content, file⟩, wanted, entered⟩
    refine ⟨⟨content, below.trans file⟩, wanted, fun proper => enters ?_, entered⟩
    exact (isFolder_iff_of_get file).2 proper

theorem wants_cons_of_ne {other : String} (h : other ≠ name) {place : List String} :
    Wants f dir (.folder ((name, child) :: entries)) (other :: place) ↔
      Wants f dir (.folder entries) (other :: place) := by
  have aside := get_cons_folder name other child entries place
  rw [if_neg h] at aside
  exact ⟨fun w => ⟨aside ▸ w.file, w.wanted, w.entered⟩, fun w => ⟨aside ▸ w.file, w.wanted, w.entered⟩⟩

theorem not_wants_nil : ¬ Wants f dir (.folder entries) [] := by
  rintro ⟨⟨content, file⟩, -, -⟩
  cases file

/-! ## The walk -/

/-- The places that the walk finds through one entry of a folder. -/
def placesThrough (f : SourceFilter) (dir name : String) (child : FileTree)
    (places : List (List String)) : List (List String) :=
  if child.isFolder && !f.enters name (childPath dir name) then [] else places.map (name :: ·)

theorem mem_placesThrough (entries : List (String × FileTree)) {places : List (List String)}
    (h : IsListing f (childPath dir name) child places) {place : List String} :
    place ∈ placesThrough f dir name child places ↔
      ∃ rest, place = name :: rest ∧
        Wants f dir (.folder ((name, child) :: entries)) (name :: rest) := by
  have through (rest : List String) : rest ∈ places ↔ Wants f (childPath dir name) child rest :=
    h.mem_iff rest
  simp only [wants_cons_self, ← through]
  unfold placesThrough
  split_ifs with closed
  · have shut : ¬ (child.isFolder = true → f.enters name (childPath dir name) = true) := by
      simpa using closed
    simp [shut]
  · have opened : child.isFolder = true → f.enters name (childPath dir name) = true := by
      simpa using closed
    rw [List.mem_map]
    constructor
    · rintro ⟨rest, hrest, rfl⟩
      exact ⟨rest, rfl, opened, hrest⟩
    · rintro ⟨rest, rfl, -, hrest⟩
      exact ⟨rest, hrest, rfl⟩

/-- A folder lists what its first entry lists, and then what its other entries list. -/
theorem isListing_cons {places others : List (List String)} (new : name ∉ entries.map Prod.fst)
    (here : IsListing f (childPath dir name) child places)
    (there : IsListing f dir (.folder entries) others) :
    IsListing f dir (.folder ((name, child) :: entries))
      (placesThrough f dir name child places ++ others) where
  nodup := by
    refine List.nodup_append'.2 ⟨?_, there.nodup, fun place hplace hother => ?_⟩
    · unfold placesThrough
      split_ifs
      · exact List.nodup_nil
      · exact here.nodup.map fun _ _ heq => (List.cons.inj heq).2
    · obtain ⟨rest, rfl, -⟩ := (mem_placesThrough entries here).1 hplace
      obtain ⟨content, file⟩ := ((there.mem_iff _).1 hother).file
      exact new (mem_names_of_get file)
  mem_iff := by
    intro place
    rw [List.mem_append, mem_placesThrough entries here, there.mem_iff]
    cases place with
    | nil => simp [not_wants_nil]
    | cons other rest =>
      by_cases same : other = name
      · subst same
        have aside : ¬ Wants f dir (.folder entries) (other :: rest) := fun w =>
          w.file.elim fun _ file => new (mem_names_of_get file)
        simp [aside]
      · rw [wants_cons_of_ne same]
        simp [same]
  paths := by
    have first : (if child.isFolder && !f.enters name (childPath dir name) then []
        else child.wanted f (childPath dir name)) =
          (placesThrough f dir name child places).map (pathFrom dir) := by
      unfold placesThrough
      split_ifs
      · rfl
      · rw [here.paths, List.map_map]
        rfl
    have rest : wantedIn f dir entries = others.map (pathFrom dir) := by
      simpa only [wanted] using there.paths
    rw [wanted, wantedIn, first, rest, List.map_append]

theorem wellNamed_cons_iff : (FileTree.folder ((name, child) :: entries)).WellNamed ↔
    name ≠ "" ∧ name ∉ entries.map Prod.fst ∧ child.WellNamed ∧ (FileTree.folder entries).WellNamed := by
  have top (inner : List (String × FileTree)) :
      (FileTree.folder entries).get [] = .ok (.folder inner) ↔ entries = inner := by
    simp [get]
  constructor
  · intro h
    have names := h [] _ rfl
    rw [List.map_cons, List.nodup_cons, List.mem_cons, not_or] at names
    refine ⟨Ne.symm names.2.1, names.1.1, fun place inner hget => ?_, fun place inner hget => ?_⟩
    · exact h (name :: place) inner (by rw [get_cons_folder, if_pos rfl, hget])
    · cases place with
      | nil =>
        obtain rfl := (top inner).1 hget
        exact ⟨names.1.2, names.2.2⟩
      | cons other place =>
        have aside : other ≠ name := fun same => names.1.1 (same ▸ mem_names_of_get hget)
        exact h (other :: place) inner (by rw [get_cons_folder, if_neg aside, hget])
  · rintro ⟨named, new, here, there⟩ place inner hget
    cases place with
    | nil =>
      obtain ⟨distinct, proper⟩ := there [] entries rfl
      obtain rfl : (name, child) :: entries = inner := by simpa [get] using hget
      simp [distinct, proper, new, Ne.symm named]
    | cons other place =>
      rw [get_cons_folder] at hget
      split_ifs at hget
      · exact here place inner hget
      · exact there (other :: place) inner hget

end Entry

theorem isListing_file (f : SourceFilter) (path : String) (content : ByteArray) :
    IsListing f path (.file content) (if f.wants path then [[]] else []) where
  nodup := by split_ifs <;> simp
  mem_iff := by
    intro place
    cases place with
    | nil =>
      have here : Wants f path (.file content) [] ↔ f.wants path = true :=
        ⟨fun w => w.wanted, fun wanted => ⟨⟨content, rfl⟩, wanted, trivial⟩⟩
      rw [here]
      split_ifs with wanted <;> simp [wanted]
    | cons name rest =>
      have nowhere : ¬ Wants f path (.file content) (name :: rest) := fun w =>
        w.file.elim fun _ file => nomatch file
      split_ifs <;> simp [nowhere]
  paths := by
    rw [wanted]
    split_ifs <;> rfl

theorem isListing_empty (f : SourceFilter) (dir : String) : IsListing f dir (.folder []) [] where
  nodup := List.nodup_nil
  mem_iff := by
    intro place
    have nowhere : ¬ Wants f dir (.folder []) place := by
      rintro ⟨⟨content, file⟩, -, -⟩
      cases place <;> cases file
    simp [nowhere]
  paths := by simp [wanted, wantedIn]

mutual

/-- The walk lists the wanted files of every tree. -/
theorem exists_isListing (f : SourceFilter) (path : String) (tree : FileTree) (h : tree.WellNamed) :
    ∃ places, IsListing f path tree places := by
  match tree with
  | .file content => exact ⟨_, isListing_file f path content⟩
  | .folder entries => exact exists_isListing_folder f path entries h

theorem exists_isListing_folder (f : SourceFilter) (dir : String) (entries : List (String × FileTree))
    (h : (FileTree.folder entries).WellNamed) : ∃ places, IsListing f dir (.folder entries) places := by
  match entries with
  | [] => exact ⟨[], isListing_empty f dir⟩
  | (name, child) :: rest =>
    obtain ⟨-, new, hchild, hrest⟩ := wellNamed_cons_iff.1 h
    obtain ⟨places, here⟩ := exists_isListing f (childPath dir name) child hchild
    obtain ⟨others, there⟩ := exists_isListing_folder f dir rest hrest
    exact ⟨_, isListing_cons new here there⟩

end

/-! ## Relative paths -/

/-- The path of a place relative to the root, with forward slashes. -/
def relativePath (place : List String) : String := Path.normalize (joinWith "/" place)

theorem normalize_append (a b : String) :
    Path.normalize (a ++ b) = Path.normalize a ++ Path.normalize b :=
  String.toList_inj.1 (by simp [Path.normalize, replaceChar])

theorem normalize_ne_empty {s : String} (h : s ≠ "") : Path.normalize s ≠ "" := by
  simpa [Path.normalize, replaceChar] using h

theorem pathFrom_normalize {dir : String} (h : dir ≠ "") (place : List String) :
    pathFrom (Path.normalize dir) place = relativePath (dir :: place) := by
  induction place generalizing dir with
  | nil => simp [pathFrom, relativePath, joinWith]
  | cons name place ih =>
    have step : childPath (Path.normalize dir) name = Path.normalize (dir ++ "/" ++ name) := by
      rw [childPath, if_neg (normalize_ne_empty h), normalize_append, normalize_append]
      rfl
    have longer : dir ++ "/" ++ name ≠ "" := fun empty =>
      h (String.append_eq_empty_iff.1 (String.append_eq_empty_iff.1 empty).1).1
    have joined : relativePath ((dir ++ "/" ++ name) :: place) = relativePath (dir :: name :: place) := by
      rw [relativePath, relativePath, joinWith, joinWith, String.intercalate_cons_append,
        String.intercalate_cons_cons]
    rw [← joined, ← ih longer, ← step]
    rfl

/-- The walk knows what it finds by the relative paths. -/
theorem pathFrom_of_get {entries : List (String × FileTree)} {tree : FileTree}
    (h : (FileTree.folder entries).WellNamed) (before after : List String)
    (hget : (FileTree.folder entries).get (before ++ after) = .ok tree) :
    pathFrom "" before = relativePath before := by
  cases before with
  | nil => rfl
  | cons name before =>
    have named : name ≠ "" := fun empty => (h [] entries rfl).2 (empty ▸ mem_names_of_get hget)
    exact pathFrom_normalize named before

end FileTree

theorem SourceFilter.entersTo_iff (f : SourceFilter) (dir : String) (place : List String) :
    f.EntersTo dir place ↔ ∀ before name after, place = before ++ name :: after → after ≠ [] →
      f.enters name (FileTree.pathFrom dir (before ++ [name])) = true := by
  induction place generalizing dir with
  | nil => simp [EntersTo]
  | cons name rest ih =>
    rw [EntersTo, ih]
    constructor
    · rintro ⟨first, later⟩ before other after heq proper
      cases before with
      | nil =>
        obtain ⟨rfl, rfl⟩ := List.cons.inj heq
        exact first proper
      | cons b before =>
        obtain ⟨rfl, rfl⟩ := List.cons.inj heq
        exact later before other after rfl proper
    · intro all
      refine ⟨fun proper => all [] name rest rfl proper, fun before other after heq proper => ?_⟩
      exact all (name :: before) other after (by rw [heq, List.cons_append]) proper

theorem Glob.parseAll_of_valid {purpose : String} {patterns : List String} {globs : List Glob}
    (h : List.Forall₂ (fun text glob => parse text = .ok glob) patterns globs) :
    parseAll purpose patterns = .ok globs := by
  induction h with
  | nil => rfl
  | cons valid _ ih =>
    rw [parseAll] at ih ⊢
    rw [List.mapM_cons, valid, ih]
    rfl

namespace FileTree

/-- The source files among the files below a root: their extension is listed, no pattern ignores them,
and each folder on the way to them has no excluded name and is not ignored. -/
structure IsSource (root : FileTree) (extensions : List String) (ignored : String → Prop)
    (place : List String) : Prop where
  file : ∃ content, root.get place = .ok (.file content)
  listed : ∃ extension ∈ extensions, Path.extension? (relativePath place) = some extension
  kept : ¬ ignored (relativePath place)
  entered : ∀ before name after, place = before ++ name :: after → after ≠ [] →
    name ∉ excludedFolders ∧ ¬ ignored (relativePath (before ++ [name]))

theorem wants_iff_isSource {f : SourceFilter} {entries : List (String × FileTree)}
    (h : (FileTree.folder entries).WellNamed) (place : List String) :
    Wants f "" (.folder entries) place ↔
      IsSource (.folder entries) f.extensions (f.ignored · = true) place := by
  have wants_iff (path : String) : f.wants path = true ↔
      (∃ extension ∈ f.extensions, Path.extension? path = some extension) ∧ ¬ f.ignored path = true := by
    simp only [SourceFilter.wants, Bool.and_eq_true, Option.any_eq_true, List.contains_iff_mem,
      Bool.not_eq_eq_eq_not, Bool.not_true, Bool.not_eq_true]
    exact and_congr_left fun _ => exists_congr fun _ => and_comm
  have enters_iff (name path : String) : f.enters name path = true ↔
      name ∉ excludedFolders ∧ ¬ f.ignored path = true := by
    simp [SourceFilter.enters]
  have on_the_way {content : ByteArray} (file : (FileTree.folder entries).get place = .ok (.file content))
      {before after : List String} {name : String} (heq : place = before ++ name :: after) :
      pathFrom "" (before ++ [name]) = relativePath (before ++ [name]) :=
    pathFrom_of_get h _ after (by rw [← file, heq, List.append_assoc, List.singleton_append])
  have whole {content : ByteArray} (file : (FileTree.folder entries).get place = .ok (.file content)) :
      pathFrom "" place = relativePath place :=
    pathFrom_of_get h place [] (by rw [List.append_nil, file])
  constructor
  · rintro ⟨⟨content, file⟩, wanted, entered⟩
    rw [whole file, wants_iff] at wanted
    refine ⟨⟨content, file⟩, wanted.1, wanted.2, fun before name after heq proper => ?_⟩
    rw [← enters_iff, ← on_the_way file heq]
    exact (f.entersTo_iff "" place).1 entered before name after heq proper
  · rintro ⟨⟨content, file⟩, listed, kept, entered⟩
    refine ⟨⟨content, file⟩, ?_, (f.entersTo_iff "" place).2 fun before name after heq proper => ?_⟩
    · rw [whole file, wants_iff]
      exact ⟨listed, kept⟩
    · rw [on_the_way file heq, enters_iff]
      exact entered before name after heq proper

/-- Source discovery is exact: the result is in ascending order and has the relative path of each
source file below the root once, and nothing else. -/
theorem source_files_found_exactly {tree : FileTree} {root : String} {entries : List (String × FileTree)}
    {ignore : List String} {globs : List Glob} (hroot : tree.find root = .ok (.folder entries))
    (wellNamed : (FileTree.folder entries).WellNamed)
    (valid : List.Forall₂ (fun text glob => Glob.parse text = .ok glob) ignore globs)
    (extensions : List String) :
    ∃ (files : List String) (places : List (List String)),
      tree.sourceFiles root extensions ignore = .ok files ∧ files.Pairwise (· ≤ ·) ∧
      files.Perm (places.map relativePath) ∧ places.Nodup ∧
      ∀ place, place ∈ places ↔ IsSource (.folder entries) extensions
        (fun path => ∃ glob ∈ globs, glob.covers path = true) place := by
  let f : SourceFilter := { extensions, ignored := fun path => globs.any (·.covers path) }
  obtain ⟨places, listing⟩ := exists_isListing_folder f "" entries wellNamed
  have source (place : List String) : place ∈ places ↔ IsSource (.folder entries) extensions
      (fun path => ∃ glob ∈ globs, glob.covers path = true) place := by
    rw [listing.mem_iff, wants_iff_isSource wellNamed]
    simp only [f, List.any_eq_true]
  have paths : wantedIn f "" entries = places.map relativePath := by
    have walked : wantedIn f "" entries = places.map (pathFrom "") := by
      simpa only [wanted] using listing.paths
    rw [walked]
    refine List.map_congr_left fun place member => ?_
    obtain ⟨content, file⟩ := ((source place).1 member).file
    exact pathFrom_of_get wellNamed place [] (by rw [List.append_nil, file])
  refine ⟨(wantedIn f "" entries).mergeSort fun a b => decide (a ≤ b), places, ?_, ?_, ?_,
    listing.nodup, source⟩
  · rw [sourceFiles, hroot]
    dsimp only
    rw [Glob.parseAll_of_valid valid]
    rfl
  · have total (a b : String) : (decide (a ≤ b) || decide (b ≤ a)) = true := by
      simpa using String.le_total a b
    have trans (a b c : String) (hab : decide (a ≤ b) = true) (hbc : decide (b ≤ c) = true) :
        decide (a ≤ c) = true := by
      simpa using String.le_trans (of_decide_eq_true hab) (of_decide_eq_true hbc)
    simpa using List.pairwise_mergeSort trans total (wantedIn f "" entries)
  · rw [← paths]
    exact List.mergeSort_perm _ _

theorem source_files_found_exactly_below_folder :
    let tree : FileTree := .folder [("build", .folder [("x.ts", .file .empty)]),
      ("src", .folder [("a.ts", .file .empty), ("b.test.ts", .file .empty)])]
    ∃ files, tree.sourceFiles "." ["ts"] ["**/*.test.ts"] = .ok files ∧ files.Pairwise (· ≤ ·) ∧
      "src/a.ts" ∈ files := by
  intro tree
  have patterns : (Glob.parse "**/*.test.ts").toOption.any (fun glob =>
      !glob.covers "src" && !glob.covers "src/a.ts") = true := by
    decide +kernel
  cases hglob : Glob.parse "**/*.test.ts" with
  | error fault => simp [hglob, Except.toOption] at patterns
  | ok glob =>
    simp only [hglob, Except.toOption, Option.any_some, Bool.and_eq_true, Bool.not_eq_eq_eq_not,
      Bool.not_true] at patterns
    have wellNamed : tree.WellNamed := by
      have leaf : (FileTree.file .empty).WellNamed := fun place inner h => by cases place <;> cases h
      have bare : (FileTree.folder []).WellNamed := fun place inner h => by
        cases place <;> simp_all [get]
      simp [tree, wellNamed_cons_iff, leaf, bare]
    have hroot : tree.find "." = .ok tree := by rfl
    obtain ⟨files, places, found, sorted, perm, -, source⟩ :=
      source_files_found_exactly hroot wellNamed (.cons hglob .nil) ["ts"]
    have here : IsSource tree ["ts"] (fun path => ∃ g ∈ [glob], g.covers path = true)
        ["src", "a.ts"] := by
      refine ⟨⟨.empty, rfl⟩, ⟨"ts", by simp, by decide +kernel⟩, ?_, ?_⟩
      · have path : relativePath ["src", "a.ts"] = "src/a.ts" := by decide +kernel
        simp [path, patterns]
      · intro before name after heq proper
        obtain rfl : before = [] := by
          have lengths := congrArg List.length heq
          have behind := List.length_pos_iff.2 proper
          simp only [List.length_cons, List.length_nil, List.length_append] at lengths
          exact List.length_eq_zero_iff.1 (by omega)
        obtain ⟨rfl, -⟩ := List.cons.inj heq
        have path : relativePath ["src"] = "src" := by decide +kernel
        exact ⟨by decide, by simp [path, patterns]⟩
    refine ⟨files, found, sorted, perm.mem_iff.2 (List.mem_map.2 ⟨_, (source _).2 here, ?_⟩)⟩
    decide +kernel

end FileTree
end SymbolGraph
