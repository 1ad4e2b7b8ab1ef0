import SymbolGraph.FileTree.Sources
import SymbolGraph.Proofs.Path

/-!
# Writing into a tree of files

Writing one file changes what is read at its place and nowhere else. A file that is saved in the state
directory of a project leaves the source files of the project and their texts as they are.
-/
namespace SymbolGraph

namespace FileTree

/-! ## Places -/

theorem placeOf_under {dir : String} (h : dir ≠ "") (child : String) :
    placeOf (Path.under dir child) = (Text.split '/' child).foldl walk (placeOf dir) := by
  unfold Path.under
  rw [if_neg h]
  split_ifs with slash
  · obtain ⟨ds, hds⟩ := List.isSuffixOf_iff_suffix.1 slash
    obtain ⟨d, rfl⟩ : ∃ d : String, dir = d ++ "/" ++ "" := by
      refine ⟨String.ofList ds, String.toList_inj.1 ?_⟩
      simpa using hds.symm
    have whole : d ++ "/" ++ "" ++ child = d ++ "/" ++ child := by simp
    rw [whole, placeOf, placeOf, Text.split_append, Text.split_append, List.foldl_append,
      List.foldl_append]
    rfl
  · rw [placeOf, Text.split_append, List.foldl_append]
    rfl

/-- A path that ends in a proper name leads to that name in some folder. -/
theorem foldl_walk_fileName (place : List String) {path : String}
    (h : Path.fileName path ∉ ["", ".", ".."]) :
    ∃ init, (Text.split '/' path).foldl walk place = init ++ [Path.fileName path] := by
  obtain ⟨init, hinit⟩ := Path.split_fileName path
  simp only [List.mem_cons, List.not_mem_nil, or_false, not_or] at h
  refine ⟨init.foldl walk place, ?_⟩
  rw [hinit, List.foldl_append, List.foldl_cons, List.foldl_nil, walk, if_neg (by simp [h.1, h.2.1]),
    if_neg h.2.2]

/-! ## Reading after writing -/

/-- The content of the file at a place. -/
def fileAt (place : List String) (tree : FileTree) : Option ByteArray :=
  match tree.get place with
  | .ok (.file content) => some content
  | _ => none

@[simp] theorem fileAt_nil_folder (entries : List (String × FileTree)) :
    (FileTree.folder entries).fileAt [] = none := rfl

@[simp] theorem fileAt_cons_file (name : String) (rest : List String) (content : ByteArray) :
    (FileTree.file content).fileAt (name :: rest) = none := rfl

theorem fileAt_cons_folder (name : String) (rest : List String) (entries : List (String × FileTree)) :
    (FileTree.folder entries).fileAt (name :: rest) = (entries.lookup name).bind (fileAt rest) := by
  unfold fileAt
  rw [get]
  cases entries.lookup name <;> rfl

theorem lookup_cons (name other : String) (child : FileTree) (entries : List (String × FileTree)) :
    ((name, child) :: entries).lookup other =
      if other = name then some child else entries.lookup other := by
  rw [List.lookup_cons]
  by_cases h : other = name
  · simp [h]
  · simp [h, beq_false_of_ne h]

theorem lookup_setEntry (name other : String) (child : FileTree) (entries : List (String × FileTree)) :
    (setEntry name child entries).lookup other =
      if other = name then some child else entries.lookup other := by
  induction entries with
  | nil => rw [setEntry, lookup_cons]
  | cons e entries ih =>
    obtain ⟨name', tree⟩ := e
    rw [setEntry]
    by_cases same : name' = name
    · subst same
      rw [if_pos rfl, lookup_cons, lookup_cons]
      split_ifs <;> rfl
    · rw [if_neg same, lookup_cons, lookup_cons, ih]
      by_cases hother : other = name
      · subst hother
        simp [Ne.symm same]
      · simp [hother]

theorem put_cons {new tree tree' : FileTree} {name : String} {rest : List String}
    (h : put new (name :: rest) tree = .ok tree') :
    ∃ entries child, tree = .folder entries ∧
      put new rest ((entries.lookup name).getD (.folder [])) = .ok child ∧
      tree' = .folder (setEntry name child entries) := by
  cases tree with
  | file content => cases h
  | folder entries =>
    rw [put] at h
    cases hput : put new rest ((entries.lookup name).getD (.folder [])) with
    | error fault =>
      rw [hput] at h
      cases h
    | ok child =>
      rw [hput] at h
      exact ⟨entries, child, rfl, hput, (Except.ok.inj h).symm⟩

/-- Putting a tree at a place changes what is read there and below, and nothing else. -/
theorem fileAt_put {new tree tree' : FileTree} {place : List String} (h : put new place tree = .ok tree')
    (other : List String) :
    tree'.fileAt other =
      if place <+: other then new.fileAt (other.drop place.length) else tree.fileAt other := by
  induction place generalizing tree tree' other with
  | nil =>
    obtain rfl : new = tree' := by simpa [put] using h
    simp
  | cons name place ih =>
    obtain ⟨entries, child, rfl, hput, rfl⟩ := put_cons h
    cases other with
    | nil => simp
    | cons name' other =>
      rw [fileAt_cons_folder, fileAt_cons_folder, lookup_setEntry]
      by_cases same : name' = name
      · subst same
        rw [if_pos rfl, Option.bind_some, ih hput]
        simp only [List.cons_prefix_cons, true_and, List.length_cons, List.drop_succ_cons]
        split_ifs
        · rfl
        · cases entries.lookup name' with
          | some child => rfl
          | none => cases other <;> rfl
      · have other' : ¬ name :: place <+: name' :: other := by
          simp [List.cons_prefix_cons, Ne.symm same]
        simp [same, other']

theorem toOption_readText {path : String} (h : path ≠ "") (tree : FileTree) :
    (tree.readText path).toOption = (tree.fileAt (placeOf path)).bind String.fromUTF8? := by
  unfold readText readBytes find fileAt
  rw [if_neg h]
  cases tree.get (placeOf path) with
  | error fault => rfl
  | ok t =>
    cases t with
    | folder entries => rfl
    | file content =>
      dsimp only [bind, Except.bind, Option.bind]
      cases String.fromUTF8? content <;> rfl

theorem isFolder_of_put {new tree tree' : FileTree} {place : List String}
    (folder : place = [] → new.isFolder = true) (h : put new place tree = .ok tree') :
    tree'.isFolder = true := by
  cases place with
  | nil =>
    obtain rfl : new = tree' := by simpa [put] using h
    exact folder rfl
  | cons name rest =>
    obtain ⟨entries, child, -, -, rfl⟩ := put_cons h
    rfl

/-- Putting a tree below a folder sets one entry of the folder. -/
theorem get_put_below {new tree tree' : FileTree} {place rest : List String} {name : String}
    {entries : List (String × FileTree)} (hget : tree.get place = .ok (.folder entries))
    (h : put new (place ++ name :: rest) tree = .ok tree') :
    ∃ child, put new rest ((entries.lookup name).getD (.folder [])) = .ok child ∧
      tree'.get place = .ok (.folder (setEntry name child entries)) := by
  induction place generalizing tree tree' with
  | nil =>
    obtain ⟨entries', child, rfl, hput, rfl⟩ := put_cons h
    obtain rfl : entries' = entries := by simpa [get] using hget
    exact ⟨child, hput, rfl⟩
  | cons name' place ih =>
    obtain ⟨entries', child', rfl, hput, rfl⟩ := put_cons h
    rw [get] at hget
    cases hlookup : entries'.lookup name' with
    | none =>
      rw [hlookup] at hget
      cases hget
    | some old =>
      -- the folder on the way was there before, so both walks enter the same one
      rw [hlookup] at hget hput
      obtain ⟨child, hchild, hplace⟩ := ih hget hput
      refine ⟨child, hchild, ?_⟩
      rw [get, lookup_setEntry, if_pos rfl]
      exact hplace

theorem get_append (place rest : List String) (tree : FileTree) :
    tree.get (place ++ rest) = (tree.get place).bind (get rest) := by
  induction place generalizing tree with
  | nil => rfl
  | cons name place ih =>
    cases tree with
    | file content => rfl
    | folder entries =>
      rw [List.cons_append, get, get]
      cases entries.lookup name with
      | none => rfl
      | some child => exact ih child

/-- Below something that is no folder there is no file. -/
theorem fileAt_below {tree : FileTree} {place other : List String}
    (h : (tree.get place).toOption.any isFolder = false) (below : place <+: other)
    (proper : other ≠ place) : tree.fileAt other = none := by
  obtain ⟨rest, rfl⟩ := below
  unfold fileAt
  rw [get_append]
  cases hget : tree.get place with
  | error fault => rfl
  | ok t =>
    rw [hget] at h
    cases t with
    | folder entries => cases h
    | file content =>
      cases rest with
      | nil => exact absurd (List.append_nil place) proper
      | cons name rest => rfl

/-- A written file is read at its place, and all other files are as before. -/
theorem fileAt_writeFile {tree tree' : FileTree} {path : String} {content : ByteArray} (hpath : path ≠ "")
    (h : tree.writeFile path content = .ok tree') (other : List String) :
    tree'.fileAt other = if other = placeOf path then some content else tree.fileAt other := by
  unfold writeFile at h
  split_ifs at h with folder
  have closed : (tree.get (placeOf path)).toOption.any isFolder = false := by
    simpa [isFolderAt, find, hpath] using folder
  rw [fileAt_put h]
  by_cases same : other = placeOf path
  · subst same
    simp [fileAt, get]
  · rw [if_neg same]
    split_ifs with below
    · rw [fileAt_below closed below same]
      obtain ⟨rest, rfl⟩ := below
      cases rest with
      | nil => exact absurd (List.append_nil _) same
      | cons name rest => simp
    · rfl

/-- Making a folder leaves all files as they are. -/
theorem fileAt_makeFolder {tree tree' : FileTree} {path : String} (hpath : path ≠ "")
    (h : tree.makeFolder path = .ok tree') (other : List String) :
    tree'.fileAt other = tree.fileAt other := by
  unfold makeFolder at h
  rw [find, if_neg hpath] at h
  cases hget : tree.get (placeOf path) with
  | ok t =>
    rw [hget] at h
    cases t with
    | folder entries => rw [Except.ok.inj h]
    | file content => cases h
  | error fault =>
    rw [hget] at h
    rw [fileAt_put h]
    split_ifs with below
    · obtain ⟨rest, rfl⟩ := below
      have before : tree.fileAt (placeOf path ++ rest) = none := by
        unfold fileAt
        rw [get_append, hget]
        rfl
      rw [before, List.drop_left]
      cases rest <;> rfl
    · rfl

theorem lookup_filter_ne (name other : String) (entries : List (String × FileTree)) :
    (entries.filter fun e => e.1 != name).lookup other =
      if other = name then none else entries.lookup other := by
  induction entries with
  | nil => simp
  | cons e entries ih =>
    obtain ⟨name', tree⟩ := e
    by_cases removed : name' = name
    · subst removed
      rw [List.filter_cons_of_neg (by simp), ih, lookup_cons]
      split_ifs <;> rfl
    · rw [List.filter_cons_of_pos (by simpa using removed), lookup_cons, lookup_cons, ih]
      split_ifs with h₁ h₂
      · exact absurd (h₁.symm.trans h₂) removed
      · rfl
      · rfl
      · rfl

/-- Removing what stands at a place takes away the files there and below. -/
theorem fileAt_removeAt {place : List String} (hplace : place ≠ []) (tree : FileTree)
    (other : List String) :
    (tree.removeAt place).fileAt other = if place <+: other then none else tree.fileAt other := by
  have file (content : ByteArray) (place : List String) (hplace : place ≠ []) (other : List String) :
      (FileTree.file content).fileAt other =
        if place <+: other then none else (FileTree.file content).fileAt other := by
    cases other with
    | nil => simp [hplace]
    | cons name rest => simp
  induction place generalizing tree other with
  | nil => exact absurd rfl hplace
  | cons name rest ih =>
    cases tree with
    | file content =>
      have unchanged : (FileTree.file content).removeAt (name :: rest) = .file content := by
        cases rest <;> rfl
      rw [unchanged]
      exact file content _ hplace other
    | folder entries =>
      cases other with
      | nil =>
        cases rest with
        | nil => simp [removeAt]
        | cons name' rest =>
          rw [removeAt.eq_2 _ _ _ (by simp)]
          split <;> simp
      | cons name' other =>
        cases rest with
        | nil =>
          rw [removeAt, fileAt_cons_folder, fileAt_cons_folder, lookup_filter_ne]
          by_cases same : name' = name
          · subst same
            simp
          · simp [same, Ne.symm same]
        | cons next rest =>
          rw [removeAt.eq_2 _ _ _ (by simp)]
          by_cases same : name' = name
          · subst same
            simp only [List.cons_prefix_cons, true_and]
            split
            · rename_i child hchild
              rw [fileAt_cons_folder, fileAt_cons_folder, lookup_setEntry, if_pos rfl, hchild,
                Option.bind_some, Option.bind_some, ih (by simp)]
            · rename_i hnone
              rw [fileAt_cons_folder, hnone]
              simp
          · have other' : ¬ name :: next :: rest <+: name' :: other := by
              simp [List.cons_prefix_cons, Ne.symm same]
            rw [if_neg other']
            split
            · rw [fileAt_cons_folder, fileAt_cons_folder, lookup_setEntry, if_neg same]
            · rfl

/-- A removed file is not read any more. -/
theorem readText_removeFile {tree : FileTree} {path : String} (hplace : placeOf path ≠ []) :
    ((tree.removeFile path).readText path).toOption = none := by
  have hpath : path ≠ "" := by
    rintro rfl
    exact hplace rfl
  unfold removeFile
  split_ifs with folder
  · unfold isFolderAt at folder
    unfold readText readBytes
    cases hfind : tree.find path with
    | error fault => rfl
    | ok t =>
      rw [hfind] at folder
      cases t with
      | folder entries => rfl
      | file content => cases folder
  · rw [toOption_readText hpath, remove, fileAt_removeAt hplace, if_pos (List.prefix_refl _)]
    rfl

/-! ## Source files -/

/-- A folder that is not entered does not count. -/
theorem wantedIn_setEntry {f : SourceFilter} {dir name : String} {child : FileTree}
    {entries : List (String × FileTree)} (excluded : name ∈ excludedFolders)
    (folder : child.isFolder = true)
    (before : ∀ old, entries.lookup name = some old → old.isFolder = true) :
    wantedIn f dir (setEntry name child entries) = wantedIn f dir entries := by
  have skipped {tree : FileTree} (h : tree.isFolder = true) (rest : List (String × FileTree)) :
      wantedIn f dir ((name, tree) :: rest) = wantedIn f dir rest := by
    simp [wantedIn, h, SourceFilter.enters, excluded]
  induction entries with
  | nil => rw [setEntry, skipped folder]
  | cons e entries ih =>
    obtain ⟨name', tree⟩ := e
    rw [setEntry]
    split_ifs with same
    · subst same
      have old : tree.isFolder = true := before tree (by rw [lookup_cons, if_pos rfl])
      rw [skipped folder, skipped old]
    · have rest := ih fun old hold => before old (by rw [lookup_cons, if_neg (Ne.symm same), hold])
      rw [wantedIn, wantedIn, rest]

theorem find_eq {tree t : FileTree} {path : String} (h : tree.find path = .ok t) :
    path ≠ "" ∧ tree.get (placeOf path) = .ok t := by
  unfold find at h
  split_ifs at h with empty
  exact ⟨empty, h⟩

/-- A name that leads into a folder. -/
structure IsName (name : String) : Prop where
  single : '/' ∉ name.toList
  proper : name ∉ ["", ".", ".."]

theorem placeOf_under_name {dir name : String} (hdir : dir ≠ "") (h : IsName name) :
    placeOf (Path.under dir name) = placeOf dir ++ [name] := by
  have proper := h.proper
  simp only [List.mem_cons, List.not_mem_nil, or_false, not_or] at proper
  rw [placeOf_under hdir, Text.split, Text.splitChars_eq_singleton h.single]
  simp [walk, proper]

theorem under_ne_empty {dir : String} (hdir : dir ≠ "") (child : String) : Path.under dir child ≠ "" := by
  intro h
  unfold Path.under at h
  rw [if_neg hdir] at h
  split_ifs at h
  · exact hdir (String.append_eq_empty_iff.1 h).1
  · exact hdir (String.append_eq_empty_iff.1 (String.append_eq_empty_iff.1 h).1).1

/-- A folder that is made below another one and is never entered leaves the wanted files as they are. -/
theorem find_makeFolder {tree tree' : FileTree} {root name : String}
    {entries : List (String × FileTree)} (hname : IsName name) (excluded : name ∈ excludedFolders)
    (hroot : tree.find root = .ok (.folder entries))
    (h : tree.makeFolder (Path.under root name) = .ok tree') :
    ∃ entries', tree'.find root = .ok (.folder entries') ∧
      (∀ f dir, wantedIn f dir entries' = wantedIn f dir entries) ∧
      ∃ inner, entries'.lookup name = some (.folder inner) := by
  obtain ⟨hne, hget⟩ := find_eq hroot
  have hplace := placeOf_under_name hne hname
  unfold makeFolder at h
  rw [find, if_neg (under_ne_empty hne name), hplace, get_append, hget] at h
  dsimp only [bind, Except.bind] at h
  rw [get] at h
  cases hlookup : entries.lookup name with
  | some old =>
    rw [hlookup] at h
    cases old with
    | file content => cases h
    | folder inner =>
      obtain rfl := Except.ok.inj h
      exact ⟨entries, hroot, fun _ _ => rfl, inner, hlookup⟩
  | none =>
    rw [hlookup] at h
    obtain ⟨child, hchild, hget'⟩ := get_put_below hget h
    obtain rfl : FileTree.folder [] = child := by simpa [put] using hchild
    refine ⟨_, by rw [find, if_neg hne, hget'], fun f dir => ?_, [], ?_⟩
    · exact wantedIn_setEntry excluded rfl (by simp [hlookup])
    · rw [lookup_setEntry, if_pos rfl]

theorem find_writeFile {tree tree' : FileTree} {root name file : String} {content : ByteArray}
    {entries inner : List (String × FileTree)} (hname : IsName name) (hfile : IsName file)
    (excluded : name ∈ excludedFolders) (hroot : tree.find root = .ok (.folder entries))
    (hinner : entries.lookup name = some (.folder inner))
    (h : tree.writeFile (Path.under (Path.under root name) file) content = .ok tree') :
    ∃ entries', tree'.find root = .ok (.folder entries') ∧
      ∀ f dir, wantedIn f dir entries' = wantedIn f dir entries := by
  obtain ⟨hne, hget⟩ := find_eq hroot
  have hplace : placeOf (Path.under (Path.under root name) file) = placeOf root ++ [name, file] := by
    rw [placeOf_under_name (under_ne_empty hne name) hfile, placeOf_under_name hne hname]
    simp
  unfold writeFile at h
  split_ifs at h
  rw [hplace] at h
  obtain ⟨child, hchild, hget'⟩ := get_put_below hget h
  refine ⟨_, by rw [find, if_neg hne, hget'], fun f dir => wantedIn_setEntry excluded ?_ ?_⟩
  · exact isFolder_of_put (by simp) hchild
  · intro old hold
    obtain rfl : FileTree.folder inner = old := Option.some_inj.1 (hinner.symm.trans hold)
    rfl

theorem saveFile_eq {tree tree' : FileTree} {dir name content : String}
    (h : tree.saveFile dir name content = .ok tree') :
    ∃ tree₁, tree.makeFolder dir = .ok tree₁ ∧
      tree₁.writeFile (Path.under dir name) content.toUTF8 = .ok tree' := by
  unfold saveFile at h
  cases hmake : tree.makeFolder dir with
  | error fault =>
    rw [hmake] at h
    cases h
  | ok tree₁ =>
    rw [hmake] at h
    change (tree₁.writeFile (Path.under dir name) content.toUTF8).mapError _ = .ok tree' at h
    cases hwrite : tree₁.writeFile (Path.under dir name) content.toUTF8 with
    | error fault =>
      rw [hwrite] at h
      cases h
    | ok tree₂ =>
      rw [hwrite] at h
      obtain rfl : tree₂ = tree' := Except.ok.inj h
      exact ⟨tree₁, rfl, hwrite⟩

mutual

theorem wants_of_mem_wanted (f : SourceFilter) {path p : String} (tree : FileTree)
    (h : p ∈ tree.wanted f path) : f.wants p = true := by
  match tree with
  | .file content =>
    rw [wanted] at h
    split_ifs at h with wants
    · obtain rfl := List.mem_singleton.1 h
      exact wants
    · cases h
  | .folder entries => exact wants_of_mem_wantedIn f entries h

theorem wants_of_mem_wantedIn (f : SourceFilter) {dir p : String} (entries : List (String × FileTree))
    (h : p ∈ wantedIn f dir entries) : f.wants p = true := by
  match entries with
  | [] => cases h
  | (name, child) :: rest =>
    rw [wantedIn] at h
    rcases List.mem_append.1 h with here | there
    · split_ifs at here
      · cases here
      · exact wants_of_mem_wanted f child here
    · exact wants_of_mem_wantedIn f rest there

end

theorem sourceFiles_eq {tree : FileTree} {root : String} {extensions ignore files : List String}
    (h : tree.sourceFiles root extensions ignore = .ok files) :
    ∃ entries, tree.find root = .ok (.folder entries) ∧ ∃ f : SourceFilter, f.extensions = extensions ∧
      files = (wantedIn f "" entries).mergeSort (fun a b => decide (a ≤ b)) ∧
      ∀ (tree' : FileTree) (entries' : List (String × FileTree)),
        tree'.find root = .ok (.folder entries') → wantedIn f "" entries' = wantedIn f "" entries →
          tree'.sourceFiles root extensions ignore = .ok files := by
  unfold sourceFiles at h
  split at h
  · rename_i entries hroot
    cases hparse : Glob.parseAll "ignore" ignore with
    | error e =>
      rw [hparse] at h
      cases h
    | ok patterns =>
      rw [hparse] at h
      refine ⟨entries, hroot, _, rfl, (Except.ok.inj h).symm, fun tree' entries' hroot' same => ?_⟩
      unfold sourceFiles
      rw [hroot', hparse, ← Except.ok.inj h]
      change Except.ok _ = Except.ok _
      rw [same]
  · cases h

end FileTree

/-- A file in the state directory that is no source file. -/
structure IsStateFile (name : String) : Prop where
  isName : FileTree.IsName name
  noSource : (Path.extension? name).any sourceExtensions.contains = false

theorem isName_stateDirName : FileTree.IsName stateDirName := ⟨by decide, by decide⟩

/-- The source files of a project have the extension of some language. -/
theorem Config.extension_of_mem_sourceFiles {c : Config} {tree : FileTree} {files : List String}
    (h : c.sourceFiles tree = .ok files) {path : String} (hpath : path ∈ files) :
    (Path.extension? path).any sourceExtensions.contains = true := by
  obtain ⟨entries, -, f, hf, rfl, -⟩ := FileTree.sourceFiles_eq h
  have wants := FileTree.wants_of_mem_wantedIn f entries (List.mem_mergeSort.1 hpath)
  rw [SourceFilter.wants, hf] at wants
  exact (Bool.and_eq_true_iff.1 wants).1

/-- Saving a file in the state directory does not change which source files there are. -/
theorem Config.sourceFiles_saveFile {c : Config} {tree tree' : FileTree} {name content : String}
    {files : List String} (hname : IsStateFile name) (hfiles : c.sourceFiles tree = .ok files)
    (h : tree.saveFile c.stateDir name content = .ok tree') : c.sourceFiles tree' = .ok files := by
  obtain ⟨entries, hroot, f, -, -, transfer⟩ := FileTree.sourceFiles_eq hfiles
  obtain ⟨tree₁, hmake, hwrite⟩ := FileTree.saveFile_eq h
  have excluded : stateDirName ∈ excludedFolders := by decide
  obtain ⟨entries₁, hroot₁, same₁, inner, hinner⟩ :=
    FileTree.find_makeFolder isName_stateDirName excluded hroot hmake
  obtain ⟨entries₂, hroot₂, same₂⟩ :=
    FileTree.find_writeFile isName_stateDirName hname.isName excluded hroot₁ hinner hwrite
  exact transfer tree' entries₂ hroot₂ ((same₂ f "").trans (same₁ f ""))

/-- A source file is no file of the state directory, however its path is written. -/
theorem placeOf_ne_stateFile {root name path : String} {place : List String} (hroot : root ≠ "")
    (hname : IsStateFile name) (hpath : (Path.extension? path).any sourceExtensions.contains = true) :
    FileTree.placeOf (Path.under root path) ≠ place ++ [name] := by
  have other {n : String} (h : Path.fileName path = n) :
      (((Path.dotIndex? n).map fun i => Text.drop (i + 1) n).any sourceExtensions.contains) = true := by
    rw [Path.extension?, h] at hpath
    exact hpath
  have proper : Path.fileName path ∉ ["", ".", ".."] := by
    simp only [List.mem_cons, List.not_mem_nil, or_false, not_or]
    exact ⟨fun h => absurd (other h) (by decide), fun h => absurd (other h) (by decide),
      fun h => absurd (other h) (by decide)⟩
  obtain ⟨init, hinit⟩ := FileTree.foldl_walk_fileName (FileTree.placeOf root) proper
  rw [FileTree.placeOf_under hroot, hinit]
  intro same
  have last : Path.fileName path = name := by simpa using (List.append_inj' same rfl).2
  have self : Path.fileName name = name := by
    unfold Path.fileName
    rw [Text.lastIndexOf?_eq_none.2 hname.isName.single]
  have noSource := hname.noSource
  rw [Path.extension?, self] at noSource
  rw [other last] at noSource
  cases noSource

/-- Saving a file in the state directory does not change what is read from source files. -/
theorem Config.readText_saveFile {c : Config} {tree tree' : FileTree} {name content path : String}
    (hroot : c.rootDir ≠ "") (hname : IsStateFile name)
    (hpath : (Path.extension? path).any sourceExtensions.contains = true)
    (h : tree.saveFile c.stateDir name content = .ok tree') :
    (tree'.readText (Path.under c.rootDir path)).toOption =
      (tree.readText (Path.under c.rootDir path)).toOption := by
  obtain ⟨tree₁, hmake, hwrite⟩ := FileTree.saveFile_eq h
  have state : c.stateDir ≠ "" := FileTree.under_ne_empty hroot _
  have source : Path.under c.rootDir path ≠ "" := FileTree.under_ne_empty hroot _
  have apart : FileTree.placeOf (Path.under c.rootDir path) ≠
      FileTree.placeOf (Path.under c.stateDir name) := by
    rw [FileTree.placeOf_under_name state hname.isName]
    exact placeOf_ne_stateFile hroot hname hpath
  rw [FileTree.toOption_readText source, FileTree.toOption_readText source,
    FileTree.fileAt_writeFile (FileTree.under_ne_empty state name) hwrite, if_neg apart,
    FileTree.fileAt_makeFolder state hmake]

theorem fromUTF8?_toUTF8 (s : String) : String.fromUTF8? s.toUTF8 = some s := by
  unfold String.fromUTF8?
  rw [dif_pos (by simpa using s.isValidUTF8)]
  rfl

/-- What was saved is read back. -/
theorem Config.readText_saved {c : Config} {tree tree' : FileTree} {name content : String}
    (hroot : c.rootDir ≠ "") (h : tree.saveFile c.stateDir name content = .ok tree') :
    (tree'.readText (Path.under c.stateDir name)).toOption = some content := by
  obtain ⟨tree₁, -, hwrite⟩ := FileTree.saveFile_eq h
  have state : c.stateDir ≠ "" := FileTree.under_ne_empty hroot _
  have place : Path.under c.stateDir name ≠ "" := FileTree.under_ne_empty state _
  rw [FileTree.toOption_readText place, FileTree.fileAt_writeFile place hwrite, if_pos rfl,
    Option.bind_some, fromUTF8?_toUTF8]

/-! ## A project that ignores nothing -/

/-- Files that stand in ascending order are found in that order. -/
theorem Config.sourceFiles_of_ascending {c : Config} {tree : FileTree}
    {entries : List (String × FileTree)} (hroot : tree.find c.rootDir = .ok (.folder entries))
    (ignore : c.ignore = [])
    (ascending : (FileTree.wantedIn ⟨sourceExtensions, fun _ => false⟩ "" entries).Pairwise (· ≤ ·)) :
    c.sourceFiles tree = .ok (FileTree.wantedIn ⟨sourceExtensions, fun _ => false⟩ "" entries) := by
  unfold Config.sourceFiles FileTree.sourceFiles
  rw [hroot, ignore]
  exact congrArg Except.ok (List.mergeSort_of_pairwise (ascending.imp fun h => decide_eq_true h))

theorem FileTree.find_top (entries : List (String × FileTree)) :
    (FileTree.folder [("r", .folder entries)]).find "/r" = .ok (.folder entries) := by
  have place : FileTree.placeOf "/r" = ["r"] := by decide +kernel
  rw [FileTree.find, if_neg (by decide), place]
  rfl

end SymbolGraph
