import SymbolGraph.Language
import SymbolGraph.Proofs.Crate.ModulePaths
import SymbolGraph.Proofs.Crate.Names
import SymbolGraph.Proofs.Path

/-!
# The files of declared modules

A module that is declared without a body stands in a file beside the declaring one. Its import leads to
that file exactly if the file has the module path of a child of the declaring file. Below a directory
`src` that holds except for a few names; outside of `src` it holds only for the roots of crates.
-/
namespace SymbolGraph.Crate
open Text

/-! ## Module paths from segments -/

/-- The files that stand for the directory they are in. -/
def rootFiles : List String := ["mod.rs", "lib.rs", "main.rs"]

/-- The modules that a segment behind `src` stands for. -/
def segmentModules (s : String) : List String :=
  if s ∈ rootFiles then [] else [(dropEnd? ".rs" s).getD s]

/-- The modules that a file outside of `src` stands for. -/
def outerModules (name : String) : List String :=
  if name ∈ ["lib", "main", "mod"] then [] else [name]

theorem flatMap_segmentModules (l : List String) :
    (l.filter fun s => s != "mod.rs" && s != "lib.rs" && s != "main.rs").map
      (fun s => (dropEnd? ".rs" s).getD s) = l.flatMap segmentModules := by
  have isRoot (s : String) :
      (s != "mod.rs" && s != "lib.rs" && s != "main.rs") = !decide (s ∈ rootFiles) := by
    simp [rootFiles, bne, Bool.and_assoc, Bool.decide_or, beq_eq_decide]
  induction l with
  | nil => rfl
  | cons s rest ih =>
    simp only [isRoot] at ih ⊢
    by_cases h : s ∈ rootFiles <;> simp [h, segmentModules, ih]

theorem segments_eq_filter (path : String) :
    Path.segments path = (split '/' path).filter (· != "") := by
  simp [Path.segments, bne, beq_eq_decide]

theorem ofFile_of_src {path : String} {outer inner : List String}
    (h : Path.segments path = outer ++ "src" :: inner) (last : "src" ∉ inner) :
    ModulePath.ofFile path = ⟨joinWith "/" outer, inner.flatMap segmentModules⟩ := by
  have found : (outer ++ "src" :: inner).reverse.findIdx? (· == "src") = some inner.length := by
    rw [List.reverse_append, List.reverse_cons, List.append_assoc, List.findIdx?_append,
      List.findIdx?_eq_none_iff.2]
    · simp [List.findIdx?_cons]
    · intro s hs
      exact beq_false_of_ne fun heq => last (heq ▸ List.mem_reverse.1 hs)
  have size : (outer ++ "src" :: inner).length - inner.length = outer.length + 1 := by
    simp
    omega
  unfold ModulePath.ofFile
  simp only [← segments_eq_filter, h, found, size, flatMap_segmentModules]
  simp

theorem ofFile_of_not_src {path : String} {dirs : List String} {name : String}
    (h : Path.segments path = dirs ++ [name]) (hname : Path.fileName path = name)
    (outside : "src" ∉ dirs ++ [name]) :
    ModulePath.ofFile path = ⟨joinWith "/" dirs, outerModules (dropAllEnd ".rs" name)⟩ := by
  have found : (dirs ++ [name]).reverse.findIdx? (· == "src") = none := by
    rw [List.findIdx?_eq_none_iff]
    intro s hs
    exact beq_false_of_ne fun heq => outside (heq ▸ List.mem_reverse.1 hs)
  unfold ModulePath.ofFile
  simp only [← segments_eq_filter, h, found, hname]
  simp [outerModules, or_assoc]

/-! ## Texts of names -/

theorem append_mem_rootFiles {x : String} : x ++ ".rs" ∈ rootFiles ↔ x ∈ ["lib", "main", "mod"] := by
  have files : rootFiles = ["mod", "lib", "main"].map (· ++ ".rs") := by decide
  rw [files, List.mem_map]
  simp only [String.append_left_inj, exists_eq_right]
  simp [or_comm, or_left_comm]

theorem segmentModules_append (x : String) : segmentModules (x ++ ".rs") = outerModules x := by
  simp only [segmentModules, outerModules, append_mem_rootFiles, dropEnd?_append, Option.getD_some]

/-- A segment that is no Rust file stands for the module of its own name. -/
theorem segmentModules_eq_singleton {s : String} : segmentModules s = [s] ↔ endsWith ".rs" s = false := by
  constructor
  · intro h
    by_contra ends
    obtain ⟨front, rfl⟩ := endsWith_iff.1 (Bool.not_eq_false _ ▸ ends)
    rw [segmentModules_append, outerModules] at h
    split_ifs at h
    have longer := congrArg String.length (List.singleton_inj.1 h)
    simp at longer
  · intro h
    have other : s ∉ rootFiles := by
      intro hs
      have ends : ∀ file ∈ rootFiles, endsWith ".rs" file = true := by decide
      exact Bool.false_ne_true (h.symm.trans (ends s hs))
    rw [segmentModules, if_neg other, dropEnd?_eq_none h, Option.getD_none]

theorem dropAllEnd_append {x : String} (h : endsWith ".rs" x = false) :
    dropAllEnd ".rs" (x ++ ".rs") = x := by
  have size : (x ++ ".rs").length = x.length + 1 + 1 + 1 := String.length_append x ".rs"
  have ends : (".rs" : String).toList.isSuffixOf (x ++ ".rs").toList = true := endsWith_iff.2 ⟨x, rfl⟩
  have front : (x ++ ".rs").toList.take ((x ++ ".rs").toList.length - ".rs".length) = x.toList := by
    rw [String.toList_append, List.length_append, ← String.length_toList (s := ".rs"),
      Nat.add_sub_cancel, List.take_left]
  rw [dropAllEnd, if_neg (by decide), size, dropAllEnd.go, if_pos ends, front, dropAllEnd.go,
    if_neg (Bool.not_eq_true _ ▸ h), String.ofList_toList]

theorem Word.endsWith_rs (w : Word) : endsWith ".rs" w.text = false := by
  rw [← Bool.not_eq_true, endsWith_iff]
  rintro ⟨front, heq⟩
  exact w.not_mem (c := '.') (by decide) (by simp [heq])

theorem Word.isSegment (w : Word) : Path.IsSegment w.text :=
  ⟨w.ne_empty, w.not_mem (by decide)⟩

theorem Word.isPlain (w : Word) : IsPlain w.text := ⟨w.ne_empty, w.not_mem (by decide)⟩

/-! ## Files of a declared module -/

/-- The directory for the modules that a file declares. It is the directory of the file, except that
below `src` a file which does not stand for its directory has one of its own. -/
def moduleDir (file : String) : String :=
  if Path.fileName file ∈ rootFiles ∨ "src" ∉ Path.segments (Path.parent file) then Path.parent file
  else Path.under (Path.parent file) (Path.stem file)

/-- The files that may hold a module declared in a file. -/
def moduleFiles (file x : String) : List String :=
  [Path.under (moduleDir file) (x ++ ".rs"), Path.under (moduleDir file) (x ++ "/mod.rs")]

section Places

variable {dir : String} (w : Word)

theorem segments_under_name :
    Path.segments (Path.under dir (w.text ++ ".rs")) = Path.segments dir ++ [w.text ++ ".rs"] := by
  have name : Path.IsSegment (w.text ++ ".rs") := ⟨by simp, by simp [w.isSegment.2]⟩
  rw [Path.segments_under, Path.segments_of_isSegment name]

theorem segments_under_mod :
    Path.segments (Path.under dir (w.text ++ "/mod.rs")) = Path.segments dir ++ [w.text, "mod.rs"] := by
  have whole : w.text ++ "/mod.rs" = w.text ++ "/" ++ "mod.rs" := by
    rw [String.append_assoc]
    rfl
  rw [Path.segments_under, whole, Path.segments_append, Path.segments_of_isSegment w.isSegment]
  rfl

theorem append_rs_ne_src (x : String) : x ++ ".rs" ≠ "src" := by
  intro heq
  have ends : endsWith ".rs" "src" = true := endsWith_iff.2 ⟨x, heq.symm⟩
  exact absurd ends (by decide)

theorem ofFile_name_of_src {outer inner : List String}
    (h : Path.segments dir = outer ++ "src" :: inner) (last : "src" ∉ inner) :
    ModulePath.ofFile (Path.under dir (w.text ++ ".rs")) =
      ⟨joinWith "/" outer, inner.flatMap segmentModules ++ outerModules w.text⟩ := by
  have parts : Path.segments (Path.under dir (w.text ++ ".rs")) =
      outer ++ "src" :: (inner ++ [w.text ++ ".rs"]) := by
    rw [segments_under_name, h, List.append_assoc, List.cons_append]
  rw [ofFile_of_src parts (by simp [last, Ne.symm (append_rs_ne_src w.text)]), List.flatMap_append,
    List.flatMap_singleton, segmentModules_append]

theorem ofFile_mod_of_src {outer inner : List String}
    (h : Path.segments dir = outer ++ "src" :: inner) (last : "src" ∉ inner) (hw : w.text ≠ "src") :
    ModulePath.ofFile (Path.under dir (w.text ++ "/mod.rs")) =
      ⟨joinWith "/" outer, inner.flatMap segmentModules ++ [w.text]⟩ := by
  have parts : Path.segments (Path.under dir (w.text ++ "/mod.rs")) =
      outer ++ "src" :: (inner ++ [w.text, "mod.rs"]) := by
    rw [segments_under_mod, h, List.append_assoc, List.cons_append]
  rw [ofFile_of_src parts (by simp [last, Ne.symm hw]), List.flatMap_append,
    List.flatMap_cons, segmentModules_eq_singleton.2 w.endsWith_rs]
  rfl

theorem ofFile_mod_src (hw : w.text = "src") :
    ModulePath.ofFile (Path.under dir (w.text ++ "/mod.rs")) = ⟨joinWith "/" (Path.segments dir), []⟩ := by
  have parts : Path.segments (Path.under dir (w.text ++ "/mod.rs")) =
      Path.segments dir ++ "src" :: ["mod.rs"] := by
    rw [segments_under_mod, hw]
  rw [ofFile_of_src parts (by decide)]
  rfl

theorem fileName_under_name : Path.fileName (Path.under dir (w.text ++ ".rs")) = w.text ++ ".rs" := by
  rw [Path.fileName_under]
  rcases Path.fileName_cases (w.text ++ ".rs") with ⟨-, h⟩ | ⟨front, h, -⟩
  · exact h
  · exact absurd (show '/' ∈ (w.text ++ ".rs").toList by rw [h]; simp) (by simp [w.isSegment.2])

theorem ofFile_name_of_not_src (outside : "src" ∉ Path.segments dir) :
    ModulePath.ofFile (Path.under dir (w.text ++ ".rs")) =
      ⟨joinWith "/" (Path.segments dir), outerModules w.text⟩ := by
  rw [ofFile_of_not_src (segments_under_name w) (fileName_under_name w)
    (by simp [outside, Ne.symm (append_rs_ne_src w.text)]), dropAllEnd_append w.endsWith_rs]

theorem ofFile_mod_of_not_src (outside : "src" ∉ Path.segments dir) (hw : w.text ≠ "src") :
    ModulePath.ofFile (Path.under dir (w.text ++ "/mod.rs")) =
      ⟨joinWith "/" (Path.segments dir ++ [w.text]), []⟩ := by
  have parts : Path.segments (Path.under dir (w.text ++ "/mod.rs")) =
      (Path.segments dir ++ [w.text]) ++ ["mod.rs"] := by
    rw [segments_under_mod, List.append_assoc]
    rfl
  have name : Path.fileName (Path.under dir (w.text ++ "/mod.rs")) = "mod.rs" := by
    have whole : w.text ++ "/mod.rs" = w.text ++ "/" ++ "mod.rs" := by
      rw [String.append_assoc]
      rfl
    rw [Path.fileName_under, whole]
    exact (Path.fileName_append (by decide) w.text).1
  rw [ofFile_of_not_src parts name (by simp [outside, Ne.symm hw])]
  rfl

end Places

/-! ## The module path of a declared module -/

/-- Where the file of a declared module is found from the declaring file. Below `src` the declaring file
must not be taken for a directory `src` or for a file with two endings, and a directory `src` for the
module would start a crate of its own. Elsewhere only the root of a crate has modules beside it. -/
def Nests (file x target : String) : Prop :=
  ("src" ∈ Path.segments (Path.parent file) ∧
    (Path.fileName file ∈ rootFiles ∨
      Path.stem file ≠ "src" ∧ endsWith ".rs" (Path.stem file) = false) ∧
    (x ≠ "src" ∨ target = Path.under (moduleDir file) (x ++ ".rs"))) ∨
  ("src" ∉ Path.segments (Path.parent file) ∧
    dropAllEnd ".rs" (Path.fileName file) ∈ ["lib", "main", "mod"] ∧
    target = Path.under (moduleDir file) (x ++ ".rs"))

instance (file x target : String) : Decidable (Nests file x target) :=
  inferInstanceAs (Decidable (_ ∨ _))

theorem outerModules_eq_nil {name : String} : outerModules name = [] ↔ name ∈ ["lib", "main", "mod"] := by
  unfold outerModules
  split_ifs with h <;> simp [h]

theorem outerModules_eq_singleton {name : String} (h : outerModules name ≠ []) :
    outerModules name = [name] :=
  if_neg (mt outerModules_eq_nil.2 h)

theorem length_outerModules_le (name : String) : (outerModules name).length ≤ 1 := by
  unfold outerModules
  split_ifs <;> simp

/-- Two segments stand for the modules of their own names only if the first is no Rust file. -/
theorem segmentModules_append_outerModules {s x : String} :
    segmentModules s ++ outerModules x = [s] ++ [x] ↔
      endsWith ".rs" s = false ∧ outerModules x ≠ [] := by
  constructor
  · intro heq
    have first : (segmentModules s).length ≤ 1 := by
      unfold segmentModules
      split_ifs <;> simp
    have second := length_outerModules_le x
    have both := congrArg List.length heq
    simp only [List.length_append, List.length_singleton] at both
    obtain ⟨hs, hx⟩ := List.append_inj heq (by simp only [List.length_singleton]; omega)
    exact ⟨segmentModules_eq_singleton.1 hs, by simp [hx]⟩
  · rintro ⟨ends, hx⟩
    rw [segmentModules_eq_singleton.2 ends, outerModules_eq_singleton hx]

theorem mem_moduleFiles {file x target : String} : target ∈ moduleFiles file x ↔
    target = Path.under (moduleDir file) (x ++ ".rs") ∨
      target = Path.under (moduleDir file) (x ++ "/mod.rs") := by
  simp [moduleFiles]

theorem joinWith_append_ne {l more : List String} (hmore : more ≠ [])
    (hl : ∀ s ∈ l ++ more, Path.IsSegment s) : joinWith "/" (l ++ more) ≠ joinWith "/" l := by
  rw [Ne, Path.joinWith_inj hl fun s hs => hl s (List.mem_append_left more hs)]
  simpa using hmore

theorem under_mod_ne_name {dir : String} (w : Word) :
    Path.under dir (w.text ++ "/mod.rs") ≠ Path.under dir (w.text ++ ".rs") := by
  intro heq
  have parts := congrArg Path.segments heq
  simp [segments_under_mod, segments_under_name] at parts

section Child

variable {file target : String} (hrust : Path.extension? file = some "rs") (w : Word)
include hrust

theorem fileName_rust : Path.fileName file = Path.stem file ++ ".rs" := by
  rw [(Path.fileName_eq_of_extension? hrust).1, String.append_assoc]
  rfl

theorem isSegment_stem : Path.IsSegment (Path.stem file) := by
  refine ⟨(Path.fileName_eq_of_extension? hrust).2, fun hslash => Path.not_mem_fileName file ?_⟩
  rw [fileName_rust hrust, String.toList_append]
  exact List.mem_append_left _ hslash

theorem segments_rust :
    Path.segments file = Path.segments (Path.parent file) ++ [Path.stem file ++ ".rs"] := by
  rw [Path.segments_eq (by rw [fileName_rust hrust]; simp), fileName_rust hrust]

theorem ofFile_rust_of_src {outer inner : List String}
    (h : Path.segments (Path.parent file) = outer ++ "src" :: inner) (last : "src" ∉ inner) :
    ModulePath.ofFile file =
      ⟨joinWith "/" outer, inner.flatMap segmentModules ++ outerModules (Path.stem file)⟩ := by
  have parts : Path.segments file = outer ++ "src" :: (inner ++ [Path.stem file ++ ".rs"]) := by
    rw [segments_rust hrust, h, List.append_assoc, List.cons_append]
  rw [ofFile_of_src parts (by simp [last, Ne.symm (append_rs_ne_src _)]), List.flatMap_append,
    List.flatMap_singleton, segmentModules_append]

theorem ofFile_rust_of_not_src (outside : "src" ∉ Path.segments (Path.parent file)) :
    ModulePath.ofFile file =
      ⟨joinWith "/" (Path.segments (Path.parent file)),
        outerModules (dropAllEnd ".rs" (Path.fileName file))⟩ := by
  rw [fileName_rust hrust]
  exact ofFile_of_not_src (segments_rust hrust) (fileName_rust hrust)
    (by simp [outside, Ne.symm (append_rs_ne_src _)])

theorem segments_moduleDir : Path.segments (moduleDir file) = Path.segments (Path.parent file) ++
    if Path.fileName file ∈ rootFiles ∨ "src" ∉ Path.segments (Path.parent file) then []
    else [Path.stem file] := by
  unfold moduleDir
  split_ifs
  · rw [List.append_nil]
  · rw [Path.segments_under, Path.segments_of_isSegment (isSegment_stem hrust)]

variable (hplace : target ∈ moduleFiles file w.text)
  (hne : ModulePath.ofFile target ≠ ModulePath.ofFile file)
include hplace hne

/-- A file that stands for its directory has its modules in that directory. -/
theorem ofFile_eq_below_of_root {outer inner : List String}
    (h : Path.segments (Path.parent file) = outer ++ "src" :: inner) (last : "src" ∉ inner)
    (root : Path.fileName file ∈ rootFiles) :
    ModulePath.ofFile target = (ModulePath.ofFile file).below [w.text] ↔
      w.text ≠ "src" ∨ target = Path.under (moduleDir file) (w.text ++ ".rs") := by
  have hdir : Path.segments (moduleDir file) = outer ++ "src" :: inner := by
    rw [segments_moduleDir hrust, if_pos (.inl root), List.append_nil, h]
  have hroot : outerModules (Path.stem file) = [] := by
    rw [outerModules_eq_nil, ← append_mem_rootFiles, ← fileName_rust hrust]
    exact root
  have own := ofFile_rust_of_src hrust h last
  rw [hroot, List.append_nil] at own
  rw [own] at hne ⊢
  rcases mem_moduleFiles.1 hplace with rfl | rfl
  · rw [ofFile_name_of_src w hdir last] at hne ⊢
    have other : outerModules w.text = [w.text] := outerModules_eq_singleton fun hnil => hne (by simp [hnil])
    simp [ModulePath.below, other]
  · by_cases hsrc : w.text = "src"
    · have deeper : joinWith "/" (outer ++ "src" :: inner) ≠ joinWith "/" outer :=
        joinWith_append_ne (List.cons_ne_nil _ _) fun s hs => Path.isSegment_of_mem_segments (h ▸ hs)
      rw [ofFile_mod_src w hsrc, hdir]
      refine iff_of_false (fun heq => deeper (congrArg ModulePath.crateDir heq)) ?_
      exact not_or.2 ⟨not_not_intro hsrc, under_mod_ne_name w⟩
    · simp [ofFile_mod_of_src w hdir last hsrc, ModulePath.below, hsrc]

/-- A file with a directory of its own has its modules there, unless that directory is taken for the
start of another crate or for a Rust file. -/
theorem ofFile_eq_below_of_not_root {outer inner : List String}
    (h : Path.segments (Path.parent file) = outer ++ "src" :: inner) (last : "src" ∉ inner)
    (plain : Path.fileName file ∉ rootFiles) :
    ModulePath.ofFile target = (ModulePath.ofFile file).below [w.text] ↔
      (Path.stem file ≠ "src" ∧ endsWith ".rs" (Path.stem file) = false) ∧
        (w.text ≠ "src" ∨ target = Path.under (moduleDir file) (w.text ++ ".rs")) := by
  have hdir : Path.segments (moduleDir file) = outer ++ "src" :: (inner ++ [Path.stem file]) := by
    rw [segments_moduleDir hrust, if_neg (by simp [plain, h]), h, List.append_assoc, List.cons_append]
  have hstem : outerModules (Path.stem file) = [Path.stem file] :=
    outerModules_eq_singleton fun hnil => plain (by
      rw [fileName_rust hrust]
      exact append_mem_rootFiles.2 (outerModules_eq_nil.1 hnil))
  have own := ofFile_rust_of_src hrust h last
  rw [hstem] at own
  rw [own] at hne ⊢
  have deeper {more : List String} (hmore : more ≠ [])
      (hall : ∀ s ∈ outer ++ more, s ∈ Path.segments (moduleDir file)) :
      joinWith "/" (outer ++ more) ≠ joinWith "/" outer :=
    joinWith_append_ne hmore fun s hs => Path.isSegment_of_mem_segments (hall s hs)
  by_cases hsrc : Path.stem file = "src"
  · -- the directory of the file is the `src` of another crate
    have hdir' : Path.segments (moduleDir file) = outer ++ "src" :: inner ++ "src" :: [] := by
      rw [hdir, hsrc, List.append_assoc, List.cons_append]
    have other := deeper (List.cons_ne_nil "src" inner) fun s hs =>
      hdir' ▸ List.mem_append_left _ hs
    refine iff_of_false (fun heq => ?_) fun hright => hright.1.1 hsrc
    have hcrate := congrArg ModulePath.crateDir heq
    rcases mem_moduleFiles.1 hplace with rfl | rfl
    · rw [ofFile_name_of_src w hdir' List.not_mem_nil] at hcrate
      exact other hcrate
    · by_cases hw : w.text = "src"
      · rw [ofFile_mod_src w hw, hdir] at hcrate
        exact deeper (List.cons_ne_nil _ _) (fun s hs => hdir ▸ hs) hcrate
      · rw [ofFile_mod_of_src w hdir' List.not_mem_nil hw] at hcrate
        exact other hcrate
  · have last' : "src" ∉ inner ++ [Path.stem file] := by simp [last, Ne.symm hsrc]
    rcases mem_moduleFiles.1 hplace with rfl | rfl
    · rw [ofFile_name_of_src w hdir last'] at hne ⊢
      simp only [ModulePath.below, ModulePath.mk.injEq, true_and, List.flatMap_append,
        List.flatMap_singleton, List.append_assoc, List.append_cancel_left_eq] at hne ⊢
      rw [segmentModules_append_outerModules]
      constructor
      · exact fun both => ⟨⟨hsrc, both.1⟩, .inr trivial⟩
      · rintro ⟨⟨-, ends⟩, -⟩
        refine ⟨ends, fun hnil => hne ?_⟩
        rw [segmentModules_eq_singleton.2 ends, hnil, List.append_nil]
    · by_cases hw : w.text = "src"
      · rw [ofFile_mod_src w hw, hdir]
        refine iff_of_false (fun heq => ?_) fun hright => ?_
        · exact deeper (List.cons_ne_nil _ _) (fun s hs => hdir ▸ hs) (congrArg ModulePath.crateDir heq)
        · exact hright.2.elim (· hw) (under_mod_ne_name w)
      · rw [ofFile_mod_of_src w hdir last' hw]
        simp only [ModulePath.below, ModulePath.mk.injEq, true_and, List.flatMap_append,
          List.flatMap_singleton, List.append_assoc, List.append_cancel_left_eq,
          List.append_cancel_right_eq, segmentModules_eq_singleton]
        simp [hsrc, hw]

/-- Outside of `src` only the root of a crate has modules, each in a file beside it. -/
theorem ofFile_eq_below_of_not_src (outside : "src" ∉ Path.segments (Path.parent file)) :
    ModulePath.ofFile target = (ModulePath.ofFile file).below [w.text] ↔
      dropAllEnd ".rs" (Path.fileName file) ∈ ["lib", "main", "mod"] ∧
        target = Path.under (moduleDir file) (w.text ++ ".rs") := by
  have hdir : Path.segments (moduleDir file) = Path.segments (Path.parent file) := by
    rw [segments_moduleDir hrust, if_pos (.inr outside), List.append_nil]
  have outside' : "src" ∉ Path.segments (moduleDir file) := by rwa [hdir]
  have own := ofFile_rust_of_not_src hrust outside
  rw [own] at hne ⊢
  rw [← outerModules_eq_nil]
  rcases mem_moduleFiles.1 hplace with rfl | rfl
  · rw [ofFile_name_of_not_src w outside', hdir] at hne ⊢
    simp only [ModulePath.below, ne_eq, ModulePath.mk.injEq, true_and, and_true] at hne ⊢
    constructor
    · intro heq
      have both := congrArg List.length heq
      rw [List.length_append, List.length_singleton] at both
      have short := length_outerModules_le w.text
      exact List.length_eq_zero_iff.1 (by omega)
    · intro hnil
      rw [hnil] at hne ⊢
      exact outerModules_eq_singleton hne
  · refine iff_of_false (fun heq => ?_) fun hright => under_mod_ne_name w hright.2
    by_cases hw : w.text = "src"
    · rw [ofFile_mod_src w hw, hdir] at heq
      simpa [ModulePath.below] using congrArg ModulePath.segments heq
    · rw [ofFile_mod_of_not_src w outside' hw] at heq
      simpa [ModulePath.below] using congrArg ModulePath.segments heq

/-- The file of a declared module has the path of a child exactly in the nested places. -/
theorem ofFile_eq_below_iff_nests :
    ModulePath.ofFile target = (ModulePath.ofFile file).below [w.text] ↔ Nests file w.text target := by
  unfold Nests
  by_cases inside : "src" ∈ Path.segments (Path.parent file)
  · obtain ⟨inner, outer, hparts, last⟩ := List.eq_append_cons_of_mem (List.mem_reverse.2 inside)
    have h : Path.segments (Path.parent file) = outer.reverse ++ "src" :: inner.reverse := by
      rw [← List.reverse_reverse (Path.segments _), hparts]
      simp
    have last' : "src" ∉ inner.reverse := by simpa using last
    simp only [inside, true_and, not_true_eq_false, false_and, or_false]
    by_cases root : Path.fileName file ∈ rootFiles
    · rw [ofFile_eq_below_of_root hrust w hplace hne h last' root]
      simp [root]
    · rw [ofFile_eq_below_of_not_root hrust w hplace hne h last' root]
      simp [root]
  · rw [ofFile_eq_below_of_not_src hrust w hplace hne inside]
    simp [inside]

end Child

/-! ## Resolving a declared module -/

/-- A module declaration leads to the child, or to the own module if no file stands for the child. -/
theorem exists_target_moduleImport {r : Resolver} {file : String} {name : Node} {w : Word}
    (hname : name.text = w.text) (known : file ∈ r.files) (isRust : endsWith ".rs" file = true) :
    ∃ found, (Language.crate.resolveImport r (moduleImport file name)).target = some found ∧
      (IsFileOf r.files ((ModulePath.ofFile file).below [w.text]) found ∨
        IsFileOf r.files (ModulePath.ofFile file) found ∧
          ∀ other ∈ r.files, endsWith ".rs" other = true →
            ModulePath.ofFile other ≠ (ModulePath.ofFile file).below [w.text]) := by
  have path : pathSegments ("self::" ++ w.text) = ["self", w.text] := by
    have plain : ∀ s ∈ ["self", w.text], IsPlain s :=
      List.forall_mem_cons.2 ⟨by decide, List.forall_mem_singleton.2 w.isPlain⟩
    simpa [joinWith, String.intercalate_cons_cons] using pathSegments_joinWith plain
  have own : (ModuleIndex.ofFiles r.files.toList).fileOf? (ModulePath.ofFile file) ≠ none := fun unknown =>
    ModuleIndex.fileOf?_eq_none.1 unknown file known isRust rfl
  obtain ⟨least, hleast⟩ := Option.ne_none_iff_exists'.1 own
  obtain ⟨n, hn, found, hfound, longer⟩ := ModuleIndex.exists_longest hleast [w.text]
  have longest := ModuleIndex.longest?_below hn hfound longer
  refine ⟨found, ?_, ?_⟩
  · have resolved : (r.modules.resolve? file (pathSegments ("self::" ++ name.text))).map (·.1) =
        some found := by
      simp [hname, path, Resolver.modules, ModuleIndex.resolve?, ModuleIndex.absolute?, longest]
    exact resolved
  · rcases Nat.le_one_iff_eq_zero_or_eq_one.1 hn with rfl | rfl
    · refine .inr ⟨?_, ModuleIndex.fileOf?_eq_none.1 (longer 1 Nat.one_pos (le_refl _))⟩
      rw [List.take_zero, ModulePath.below_nil] at hfound
      exact ModuleIndex.fileOf?_eq_some.1 hfound
    · exact .inl (ModuleIndex.fileOf?_eq_some.1 hfound)

theorem endsWith_moduleFiles {file x target : String} (h : target ∈ moduleFiles file x) :
    endsWith ".rs" target = true := by
  have ends {dir child : String} (hchild : endsWith ".rs" child = true) :
      endsWith ".rs" (Path.under dir child) = true := by
    obtain ⟨front, rfl⟩ := endsWith_iff.1 hchild
    rcases Path.under_cases dir (front ++ ".rs") with ⟨-, heq⟩ | ⟨outer, heq, -⟩
    · exact endsWith_iff.2 ⟨front, heq⟩
    · exact endsWith_iff.2 ⟨outer ++ "/" ++ front, by simp only [heq, String.append_assoc]⟩
  rcases mem_moduleFiles.1 h with rfl | rfl
  · exact ends (endsWith_iff.2 ⟨x, rfl⟩)
  · exact ends (endsWith_iff.2 ⟨x ++ "/mod", by rw [String.append_assoc]; rfl⟩)

theorem endsWith_rust {file : String} (h : Path.extension? file = some "rs") :
    endsWith ".rs" file = true := by
  rcases Path.fileName_cases file with ⟨-, heq⟩ | ⟨dir, heq, -⟩
  · rw [← heq, fileName_rust h]
    exact endsWith_iff.2 ⟨_, rfl⟩
  · rw [heq, fileName_rust h, ← String.append_assoc]
    exact endsWith_iff.2 ⟨_, rfl⟩

/-- A file that stands in the place of its own module is found unless another file stands for the
child. -/
theorem target_moduleImport_self_iff {r : Resolver} {file : String} {name : Node} {w : Word}
    (hname : name.text = w.text) (hfile : file ∈ r.files) (hrust : Path.extension? file = some "rs")
    (only : ∀ other ∈ r.files, endsWith ".rs" other = true →
      ModulePath.ofFile other = ModulePath.ofFile file → other = file) :
    (Language.crate.resolveImport r (moduleImport file name)).target = some file ↔
      ∀ other ∈ r.files, endsWith ".rs" other = true →
        ModulePath.ofFile other ≠ (ModulePath.ofFile file).below [name.text] := by
  obtain ⟨found, resolved, leads⟩ := exists_target_moduleImport hname hfile (endsWith_rust hrust)
  rw [resolved, Option.some_inj, hname]
  constructor
  · rintro rfl
    rcases leads with child | ⟨-, unknown⟩
    · have longer := congrArg (·.segments.length) child.module
      simp [ModulePath.below] at longer
    · exact unknown
  · intro unknown
    rcases leads with child | ⟨own, -⟩
    · exact absurd child.module (unknown found child.known child.isRust)
    · exact only found own.known own.isRust own.module

theorem target_moduleImport_iff {r : Resolver} {file target : String} {name : Node} {w : Word}
    (hname : name.text = w.text) (hfile : file ∈ r.files) (hrust : Path.extension? file = some "rs")
    (htarget : target ∈ r.files) (hplace : target ∈ moduleFiles file name.text)
    (hother : target ≠ file)
    (only : ∀ other ∈ r.files, endsWith ".rs" other = true →
      ModulePath.ofFile other = ModulePath.ofFile target → other = target) :
    (Language.crate.resolveImport r (moduleImport file name)).target = some target ↔
      Nests file name.text target := by
  have isRust := endsWith_rust hrust
  have hne : ModulePath.ofFile target ≠ ModulePath.ofFile file := fun heq =>
    hother (only file hfile isRust heq.symm).symm
  obtain ⟨found, resolved, leads⟩ := exists_target_moduleImport hname hfile isRust
  rw [resolved, Option.some_inj, hname, ← ofFile_eq_below_iff_nests hrust w (hname ▸ hplace) hne]
  constructor
  · rintro rfl
    rcases leads with child | ⟨own, -⟩
    · exact child.module
    · exact absurd own.module hne
  · intro heq
    rcases leads with child | ⟨-, unknown⟩
    · exact only found child.known child.isRust (child.module.trans heq.symm)
    · exact absurd heq (unknown target htarget (endsWith_moduleFiles hplace))

/-! ## Module declarations -/

theorem kept_mem_imports (file : String) (i : Import) : Kept file (i ∈ ·.imports) where
  use := by
    intro site modules name given facts _ _ _ h
    cases htarget : useTarget? modules name with
    | none => rwa [addUse_of_none htarget]
    | some target =>
      rw [(addUse_eq htarget site given facts).1]
      exact List.mem_append_left _ h
  glob := by
    intro site modules facts h
    rw [(addGlob_eq site modules facts).1]
    exact List.mem_append_left _ h
  module := fun _ _ h => List.mem_append_left _ h
  exported := fun _ _ h => h

/-- What an item imports is among the imports of its file. -/
theorem mem_imports_facts {content file : String} {parsed : Parsed} {item : Node} {i : Import}
    (hparse : parse? content = some parsed) (hitem : item ∈ parsed.root.children)
    (hadds : ∀ facts, i ∈ (addImports file facts item).imports) : i ∈ (parsed.facts file).imports := by
  have kept := kept_mem_imports file i
  have words {t : Node} (ht : t ∈ parsed.root.children) : NamesWords t := namesWords_of_parse? hparse ht
  obtain ⟨before, after, hsplit⟩ := List.append_of_mem hitem
  refine kept.foldl_addExport _ ?_
  rw [hsplit, List.foldl_append, List.foldl_cons]
  exact kept.foldl_addImports (fun t ht => words (by simp [hsplit, ht])) (hadds _)

/-- The module that a file declares without a body is imported as a whole, and the import leads to the
file of the module, if no other file stands for it, exactly in the nested places. A file in the place of
its own module is found as long as no file stands for the child. -/
theorem module_declaration_leads_to_file_iff {content file target : String} {parsed : Parsed}
    {item name : Node} (r : Resolver) (hparse : parse? content = some parsed)
    (hitem : item ∈ parsed.root.children) (hkind : item.kind = .moduleItem)
    (hname : nameOf? item = some name) (hbody : item.child? .content = none) (hfile : file ∈ r.files)
    (hrust : Path.extension? file = some "rs") (htarget : target ∈ r.files)
    (hplace : target ∈ moduleFiles file name.text)
    (only : ∀ other ∈ r.files, endsWith ".rs" other = true →
      ModulePath.ofFile other = ModulePath.ofFile target → other = target) :
    ∃ i, (addImports file {} item).imports = [i] ∧ i ∈ (parsed.facts file).imports ∧
      ((Language.crate.resolveImport r i).target = some target ↔
        if target = file then ∀ other ∈ r.files, endsWith ".rs" other = true →
          ModulePath.ofFile other ≠ (ModulePath.ofFile file).below [name.text]
        else Nests file name.text target) := by
  obtain ⟨w, hw⟩ := (namesWords_of_parse? hparse hitem).module hkind name hname
  have hadds (facts : Facts) : (addImports file facts item).imports =
      facts.imports ++ [moduleImport file name] := by
    simp only [addImports, hkind, hname, hbody]
    rfl
  refine ⟨moduleImport file name, hadds {}, mem_imports_facts hparse hitem fun facts => ?_, ?_⟩
  · simp [hadds facts]
  · split_ifs with own
    · subst own
      exact target_moduleImport_self_iff hw hfile hrust only
    · exact target_moduleImport_iff hw hfile hrust htarget hplace own only

/-- The first item of a text declares a module. -/
theorem exists_declaration (text x : String)
    (h : ((parse? text).any fun parsed => parsed.root.children.head?.any fun item =>
      item.kind == .moduleItem && (item.child? .content).isNone &&
        (nameOf? item).any fun name => name.text == x) = true) :
    ∃ parsed item name, parse? text = some parsed ∧ item ∈ parsed.root.children ∧
      item.kind = .moduleItem ∧ item.child? .content = none ∧ nameOf? item = some name ∧ name.text = x := by
  simp only [Option.any_eq_true, Bool.and_eq_true, beq_iff_eq, Option.isNone_iff_eq_none] at h
  obtain ⟨parsed, hparsed, item, hitem, ⟨hkind, hbody⟩, name, hname, htext⟩ := h
  exact ⟨parsed, item, name, hparsed, List.mem_of_mem_head? hitem, hkind, hbody, hname, htext⟩

/-- A module in the directory of the file that declares it, in a crate below the root. -/
theorem module_declaration_leads_to_own_directory :
    let r : Resolver := { files := .ofList ["core/src/net.rs", "core/src/net/tcp/mod.rs"] }
    ∃ parsed item i, parse? "pub mod tcp;\n" = some parsed ∧ item ∈ parsed.root.children ∧
      (addImports "core/src/net.rs" {} item).imports = [i] ∧
      i ∈ (parsed.facts "core/src/net.rs").imports ∧
      (Language.crate.resolveImport r i).target = some "core/src/net/tcp/mod.rs" := by
  intro r
  obtain ⟨parsed, item, name, hparsed, hitem, hkind, hbody, hname, htext⟩ :=
    exists_declaration "pub mod tcp;\n" "tcp" (by decide +kernel)
  have only : ∀ other ∈ r.files.toList, endsWith ".rs" other = true →
      ModulePath.ofFile other = ModulePath.ofFile "core/src/net/tcp/mod.rs" →
        other = "core/src/net/tcp/mod.rs" := by
    decide +kernel
  have hfile : "core/src/net.rs" ∈ r.files := by decide
  have htarget : "core/src/net/tcp/mod.rs" ∈ r.files := by decide
  obtain ⟨i, hadds, hi, leads⟩ := module_declaration_leads_to_file_iff r hparsed hitem hkind hname hbody
    hfile (by decide +kernel) htarget (by rw [htext]; decide +kernel)
    fun other ho => only other (KeySet.mem_toList.2 ho)
  rw [if_neg (by decide)] at leads
  exact ⟨parsed, item, i, hparsed, hitem, hadds, hi, leads.2 (by rw [htext]; decide +kernel)⟩

/-- A module that an integration test declares leads back to the test, although its file stands beside
it. -/
theorem integration_test_module_leads_back :
    let r : Resolver := { files := .ofList ["tests/common.rs", "tests/it.rs"] }
    "tests/common.rs" ∈ moduleFiles "tests/it.rs" "common" ∧
    (∀ other ∈ r.files, ModulePath.ofFile other = ModulePath.ofFile "tests/common.rs" →
      other = "tests/common.rs") ∧
    ∃ parsed i, parse? "mod common;\n" = some parsed ∧ (parsed.facts "tests/it.rs").imports = [i] ∧
      (Language.crate.resolveImport r i).target = some "tests/it.rs" := by
  intro r
  have only : ∀ other ∈ r.files.toList, ModulePath.ofFile other = ModulePath.ofFile "tests/common.rs" →
      other = "tests/common.rs" := by
    decide +kernel
  have evaluated : ((parse? "mod common;\n").any fun parsed =>
      (parsed.facts "tests/it.rs").imports.map (fun i => (Language.crate.resolveImport r i).target) ==
        [some "tests/it.rs"]) = true := by
    decide +kernel
  obtain ⟨parsed, hparsed, targets⟩ := (Option.any_eq_true _ _).1 evaluated
  obtain ⟨i, imports, leads⟩ := List.map_eq_singleton_iff.1 (beq_iff_eq.1 targets)
  exact ⟨by decide +kernel, fun other ho => only other (KeySet.mem_toList.2 ho), parsed, i, hparsed, imports,
    leads⟩

end SymbolGraph.Crate
