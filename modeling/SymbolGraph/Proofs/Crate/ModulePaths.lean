import Mathlib.Data.Nat.Find
import Mathlib.Data.String.Basic
import SymbolGraph.Crate.ModulePath
import SymbolGraph.Proofs.Ordered

/-!
# Module paths and the files they lead to

A path that joins plain segments by double colons is read back as those segments. The index of a set of
files knows each module by its least Rust file, and a path leads to the longest known module along it. So
the path of a file from the root of its crate leads back to the least file of its module.
-/
namespace SymbolGraph.Crate
open Text

/-! ## Paths as segments -/

/-- A segment that double colons can set apart. -/
def IsPlain (segment : String) : Prop := segment ≠ "" ∧ ':' ∉ segment.toList

instance : DecidablePred IsPlain := fun _ => inferInstanceAs (Decidable (_ ∧ _))

theorem splitColons_eq_singleton {cs : List Char} (h : ':' ∉ cs) : splitColons cs = [cs] := by
  induction cs with
  | nil => rfl
  | cons c rest ih =>
    obtain ⟨hc, hrest⟩ := not_or.1 (mt List.mem_cons.2 h)
    rw [splitColons.eq_2, ih hrest]
    · rintro rest rfl
      exact absurd rfl hc

theorem splitColons_append {cs : List Char} (h : ':' ∉ cs) (rest : List Char) :
    splitColons (cs ++ ':' :: ':' :: rest) = cs :: splitColons rest := by
  induction cs with
  | nil => rfl
  | cons c cs ih =>
    obtain ⟨hc, hcs⟩ := not_or.1 (mt List.mem_cons.2 h)
    rw [List.cons_append, splitColons.eq_2, ih hcs]
    · rintro rest rfl
      exact absurd rfl hc

theorem IsPlain.toList_ne_nil {segment : String} (h : IsPlain segment) : segment.toList ≠ [] :=
  fun nil => h.1 (String.toList_eq_nil_iff.1 nil)

/-- Plain segments are read back from the path that joins them. -/
theorem pathSegments_joinWith {segments : List String} (h : ∀ s ∈ segments, IsPlain s) :
    pathSegments (joinWith "::" segments) = segments := by
  induction segments with
  | nil => rfl
  | cons s rest ih =>
    have hs := h s List.mem_cons_self
    have hrest := ih fun t ht => h t (List.mem_cons_of_mem s ht)
    cases rest with
    | nil =>
      simp [pathSegments, joinWith, splitColons_eq_singleton hs.2, hs.toList_ne_nil]
    | cons t rest =>
      have chars : (joinWith "::" (s :: t :: rest)).toList =
          s.toList ++ ':' :: ':' :: (joinWith "::" (t :: rest)).toList := by
        simp [joinWith, String.intercalate_cons_cons]
      rw [pathSegments, chars, splitColons_append hs.2]
      simpa [hs.toList_ne_nil, pathSegments] using hrest

/-- Segments that are appended to the path of a module follow its own ones. -/
theorem joinWith_cratePath (m : ModulePath) (more : List String) :
    joinWith "::" (m.cratePath :: more) = joinWith "::" ("crate" :: (m.segments ++ more)) := by
  cases more with
  | nil => simp [ModulePath.cratePath, joinWith]
  | cons s rest =>
    rw [← List.cons_append, joinWith, joinWith,
      String.intercalate_append_of_ne_nil (List.cons_ne_nil _ _) (List.cons_ne_nil _ _),
      String.intercalate_cons_cons]
    rfl

theorem pathSegments_cratePath {m : ModulePath} {more : List String}
    (hm : ∀ s ∈ m.segments, IsPlain s) (hmore : ∀ s ∈ more, IsPlain s) :
    pathSegments (joinWith "::" (m.cratePath :: more)) = "crate" :: (m.segments ++ more) := by
  rw [joinWith_cratePath, pathSegments_joinWith]
  intro s hs
  rcases List.mem_cons.1 hs with rfl | hs
  · exact ⟨by decide, by decide⟩
  · exact (List.mem_append.1 hs).elim (hm s) (hmore s)

/-! ## Files of modules -/

/-- The module that further segments lead to from a module. -/
def ModulePath.below (m : ModulePath) (segments : List String) : ModulePath :=
  { m with segments := m.segments ++ segments }

@[simp] theorem ModulePath.below_nil (m : ModulePath) : m.below [] = m := by simp [below]

theorem find?_eq_some_iff_least {α : Type} [LinearOrder α] {l : List α} (h : l.Pairwise (· < ·))
    {p : α → Bool} {a : α} :
    l.find? p = some a ↔ a ∈ l ∧ p a = true ∧ ∀ b ∈ l, p b = true → a ≤ b := by
  induction l with
  | nil => simp
  | cons b rest ih =>
    obtain ⟨first, hrest⟩ := List.pairwise_cons.1 h
    rw [List.find?_cons]
    cases hb : p b with
    | true =>
      constructor
      · intro found
        obtain rfl := Option.some.inj found
        refine ⟨List.mem_cons_self, hb, fun c hc _ => ?_⟩
        exact (List.mem_cons.1 hc).elim (·.ge) fun hc => (first c hc).le
      · rintro ⟨ha, -, least⟩
        rcases List.mem_cons.1 ha with rfl | ha
        · rfl
        · exact absurd (least b List.mem_cons_self hb) (first a ha).not_ge
    | false =>
      rw [ih hrest]
      constructor
      · rintro ⟨ha, hp, least⟩
        refine ⟨List.mem_cons_of_mem b ha, hp, fun c hc hpc => ?_⟩
        rcases List.mem_cons.1 hc with rfl | hc
        · exact absurd hpc (by simp [hb])
        · exact least c hc hpc
      · rintro ⟨ha, hp, least⟩
        refine ⟨?_, hp, fun c hc => least c (List.mem_cons_of_mem b hc)⟩
        exact (List.mem_cons.1 ha).resolve_left (by rintro rfl; simp [hb] at hp)

/-- The least of the known Rust files that stand for a module. -/
structure IsFileOf (files : KeySet) (m : ModulePath) (file : String) : Prop where
  known : file ∈ files
  isRust : endsWith ".rs" file = true
  module : ModulePath.ofFile file = m
  least : ∀ other ∈ files, endsWith ".rs" other = true → ModulePath.ofFile other = m → file ≤ other

namespace ModuleIndex

theorem fileOf?_add (index : ModuleIndex) (file : String) (m : ModulePath) :
    (index.add file).fileOf? m =
      (index.fileOf? m).or (if ModulePath.ofFile file = m then some file else none) := by
  rw [add]
  split_ifs with known same same
  · obtain ⟨found, hfound⟩ := Option.isSome_iff_exists.1 known
    rw [← same, hfound, Option.some_or]
  · rw [Option.or_none]
  · have unknown : index.fileOf? m = none := by
      rw [← same]
      simpa [contains] using known
    rw [unknown]
    simp only [fileOf?, Option.map_eq_none_iff] at unknown
    simp [fileOf?, List.find?_append, unknown, same]
  · simp [fileOf?, List.find?_append, same]

theorem fileOf?_foldl_add (files : List String) (index : ModuleIndex) (m : ModulePath) :
    (files.foldl add index).fileOf? m =
      (index.fileOf? m).or (files.find? (ModulePath.ofFile · == m)) := by
  induction files generalizing index with
  | nil => simp
  | cons file rest ih =>
    rw [List.foldl_cons, ih, fileOf?_add, Option.or_assoc, List.find?_cons]
    by_cases same : ModulePath.ofFile file = m
    · simp [same]
    · simp [same, beq_false_of_ne same]

/-- Of several files of one module the first counts. -/
theorem fileOf?_ofFiles (files : List String) (m : ModulePath) :
    (ofFiles files).fileOf? m = (files.filter (endsWith ".rs")).find? (ModulePath.ofFile · == m) := by
  rw [ofFiles, fileOf?_foldl_add]
  rfl

theorem fileOf?_eq_none {files : KeySet} {m : ModulePath} :
    (ofFiles files.toList).fileOf? m = none ↔
      ∀ file ∈ files, endsWith ".rs" file = true → ModulePath.ofFile file ≠ m := by
  simp [fileOf?_ofFiles, KeySet.mem_toList]

theorem fileOf?_eq_some {files : KeySet} {m : ModulePath} {file : String} :
    (ofFiles files.toList).fileOf? m = some file ↔ IsFileOf files m file := by
  rw [fileOf?_ofFiles, find?_eq_some_iff_least (files.ascending.filter (endsWith ".rs"))]
  simp only [List.mem_filter, KeySet.mem_toList, beq_iff_eq]
  constructor
  · rintro ⟨⟨known, isRust⟩, module, least⟩
    exact ⟨known, isRust, module, fun other ho hr hm => least other ⟨ho, hr⟩ hm⟩
  · rintro ⟨known, isRust, module, least⟩
    exact ⟨⟨known, isRust⟩, module, fun other ho hm => least other ho.1 ho.2 hm⟩

/-! ## The longest known module along a path -/

theorem findSome?_reverse_range {α : Type} {f : Nat → Option α} {a : α} {n : Nat} (hf : f n = some a) :
    ∀ {last : Nat}, n ≤ last → (∀ k, n < k → k ≤ last → f k = none) →
      (List.range (last + 1)).reverse.findSome? f = some a
  | 0, h, _ => by
    obtain rfl := Nat.le_zero.1 h
    simp [hf]
  | last + 1, h, longer => by
    rw [List.range_succ, List.reverse_append, List.reverse_singleton, List.singleton_append,
      List.findSome?_cons]
    rcases Nat.of_le_succ h with h | rfl
    · rw [longer (last + 1) (Nat.lt_succ_of_le h) le_rfl]
      exact findSome?_reverse_range hf h fun k hk hl => longer k hk (Nat.le_succ_of_le hl)
    · rw [hf]

theorem longest?_eq_some {index : ModuleIndex} {crateDir file : String} {segments : List String}
    {n : Nat} (h : n ≤ segments.length) (hfile : index.fileOf? ⟨crateDir, segments.take n⟩ = some file)
    (longer : ∀ k, n < k → k ≤ segments.length → index.fileOf? ⟨crateDir, segments.take k⟩ = none) :
    index.longest? crateDir segments = some (file, n) :=
  findSome?_reverse_range (by rw [hfile]; rfl) h fun k hk hl => by rw [longer k hk hl]; rfl

/-- Behind a known module there is a last point up to which a path is known. -/
theorem exists_longest {index : ModuleIndex} {m : ModulePath} {file : String}
    (known : index.fileOf? m = some file) (more : List String) :
    ∃ n ≤ more.length, ∃ file, index.fileOf? (m.below (more.take n)) = some file ∧
      ∀ k, n < k → k ≤ more.length → index.fileOf? (m.below (more.take k)) = none := by
  let isKnown (n : Nat) : Prop := (index.fileOf? (m.below (more.take n))).isSome
  have start : isKnown 0 := by simp [isKnown, known]
  obtain ⟨file, hfile⟩ := Option.isSome_iff_exists.1
    (Nat.findGreatest_spec (P := isKnown) (Nat.zero_le more.length) start)
  refine ⟨_, Nat.findGreatest_le _, file, hfile, fun k hk hl => ?_⟩
  simpa [isKnown] using Nat.findGreatest_is_greatest hk hl

/-- Segments behind a known module lead to the longest known module along them. -/
theorem longest?_below {index : ModuleIndex} {m : ModulePath} {file : String} {more : List String} {n : Nat}
    (h : n ≤ more.length) (hfile : index.fileOf? (m.below (more.take n)) = some file)
    (longer : ∀ k, n < k → k ≤ more.length → index.fileOf? (m.below (more.take k)) = none) :
    index.longest? m.crateDir (m.segments ++ more) = some (file, m.segments.length + n) := by
  refine longest?_eq_some (by simpa using h) ?_ fun k hk hl => ?_
  · rw [List.take_length_add_append]
    exact hfile
  · obtain ⟨j, rfl⟩ := Nat.exists_eq_add_of_le (by omega : m.segments.length ≤ k)
    rw [List.length_append] at hl
    rw [List.take_length_add_append]
    exact longer j (by omega) (by omega)

end ModuleIndex

/-- Segments behind the path of a file lead to the longest module along them that has a file. -/
theorem exists_resolve?_cratePath {files : KeySet} {f g : String} (known : f ∈ files)
    (isRust : endsWith ".rs" f = true)
    (same : (ModulePath.ofFile f).crateDir = (ModulePath.ofFile g).crateDir)
    (plain : ∀ s ∈ (ModulePath.ofFile f).segments, IsPlain s) {more : List String}
    (hmore : ∀ s ∈ more, IsPlain s) :
    ∃ n ≤ more.length, ∃ h, IsFileOf files ((ModulePath.ofFile f).below (more.take n)) h ∧
      (∀ k, n < k → k ≤ more.length → ∀ other ∈ files, endsWith ".rs" other = true →
        ModulePath.ofFile other ≠ (ModulePath.ofFile f).below (more.take k)) ∧
      (ModuleIndex.ofFiles files.toList).resolve? g
        (pathSegments (joinWith "::" ((ModulePath.ofFile f).cratePath :: more))) =
          some (h, more.drop n) := by
  have own : (ModuleIndex.ofFiles files.toList).fileOf? (ModulePath.ofFile f) ≠ none := fun unknown =>
    ModuleIndex.fileOf?_eq_none.1 unknown f known isRust rfl
  obtain ⟨file, hfile⟩ := Option.ne_none_iff_exists'.1 own
  obtain ⟨n, hn, h, hh, longer⟩ := ModuleIndex.exists_longest hfile more
  refine ⟨n, hn, h, ModuleIndex.fileOf?_eq_some.1 hh,
    fun k hk hl => ModuleIndex.fileOf?_eq_none.1 (longer k hk hl), ?_⟩
  have longest := ModuleIndex.longest?_below hn hh longer
  rw [same] at longest
  rw [pathSegments_cratePath plain hmore]
  simp [ModuleIndex.resolve?, ModuleIndex.absolute?, longest]

/-- The path of a file from the root of its crate, read in any file of the crate, leads to the least Rust
file of its module, which is the file itself if it is the only one. With more segments behind it, the path
leads to the longest module along it that has a file, and the segments behind that module are left. -/
theorem crate_path_round_trip {files : KeySet} {f g : String} (known : f ∈ files)
    (isRust : endsWith ".rs" f = true)
    (same : (ModulePath.ofFile f).crateDir = (ModulePath.ofFile g).crateDir)
    (plain : ∀ s ∈ (ModulePath.ofFile f).segments, IsPlain s) :
    (∃ h, IsFileOf files (ModulePath.ofFile f) h ∧
      (ModuleIndex.ofFiles files.toList).resolve? g (pathSegments (ModulePath.ofFile f).cratePath) =
        some (h, []) ∧
      ((∀ other ∈ files, endsWith ".rs" other = true →
        ModulePath.ofFile other = ModulePath.ofFile f → other = f) → h = f)) ∧
    ∀ more : List String, (∀ s ∈ more, IsPlain s) →
      ∃ n ≤ more.length, ∃ h, IsFileOf files ((ModulePath.ofFile f).below (more.take n)) h ∧
        (∀ k, n < k → k ≤ more.length → ∀ other ∈ files, endsWith ".rs" other = true →
          ModulePath.ofFile other ≠ (ModulePath.ofFile f).below (more.take k)) ∧
        (ModuleIndex.ofFiles files.toList).resolve? g
          (pathSegments (joinWith "::" ((ModulePath.ofFile f).cratePath :: more))) =
            some (h, more.drop n) := by
  refine ⟨?_, fun more => exists_resolve?_cratePath known isRust same plain⟩
  obtain ⟨n, -, h, isFile, -, resolved⟩ :=
    exists_resolve?_cratePath known isRust same plain (List.forall_mem_nil IsPlain)
  rw [List.take_nil, ModulePath.below_nil] at isFile
  refine ⟨h, isFile, by simpa [joinWith] using resolved, fun only => ?_⟩
  exact only h isFile.known isFile.isRust isFile.module

/-- Both `src/a.rs` and `src/a/mod.rs` stand for the module `a`, and behind it only `b` has a file. -/
theorem crate_path_round_trip_shared_module :
    let files : KeySet := .ofList ["src/a.rs", "src/a/b.rs", "src/a/mod.rs", "src/lib.rs"]
    (∃ h, IsFileOf files (ModulePath.ofFile "src/a/mod.rs") h ∧
      (ModuleIndex.ofFiles files.toList).resolve? "src/lib.rs"
        (pathSegments (ModulePath.ofFile "src/a/mod.rs").cratePath) = some (h, [])) ∧
    (ModuleIndex.ofFiles files.toList).resolve? "src/lib.rs" (pathSegments "crate::a") =
      some ("src/a.rs", []) ∧
    (ModuleIndex.ofFiles files.toList).resolve? "src/lib.rs" (pathSegments "crate::a::b::c::d") =
      some ("src/a/b.rs", ["c", "d"]) := by
  intro files
  have known : "src/a/mod.rs" ∈ files := by decide
  have same : (ModulePath.ofFile "src/a/mod.rs").crateDir = (ModulePath.ofFile "src/lib.rs").crateDir := by
    decide +kernel
  obtain ⟨h, isFile, resolved, -⟩ :=
    (crate_path_round_trip known (by decide +kernel) same (by decide +kernel)).1
  exact ⟨⟨h, isFile, resolved⟩, by decide +kernel⟩

/-- A known file of another kind may have the same directory and segments and come first. The path then
does not lead to the least of all known files with that directory and those segments. -/
theorem crate_path_passes_over_script :
    let files : KeySet := .ofList ["src/a.ts", "src/a.ts.rs"]
    let f := "src/a.ts.rs"
    (f ∈ files ∧ endsWith ".rs" f = true ∧ ∀ s ∈ (ModulePath.ofFile f).segments, IsPlain s) ∧
    ¬∃ h, (h ∈ files ∧ ModulePath.ofFile h = ModulePath.ofFile f ∧
        ∀ other ∈ files, ModulePath.ofFile other = ModulePath.ofFile f → h ≤ other) ∧
      (ModuleIndex.ofFiles files.toList).resolve? f (pathSegments (ModulePath.ofFile f).cratePath) =
        some (h, []) := by
  intro files f
  refine ⟨by decide +kernel, ?_⟩
  rintro ⟨h, ⟨-, -, least⟩, resolved⟩
  have leads : (ModuleIndex.ofFiles files.toList).resolve? f
      (pathSegments (ModulePath.ofFile f).cratePath) = some (f, []) := by decide +kernel
  obtain rfl : f = h := (Prod.mk.inj (Option.some.inj (leads.symm.trans resolved))).1
  have sooner : ¬f ≤ "src/a.ts" := by decide +kernel
  exact sooner (least "src/a.ts" (by decide) (by decide +kernel))

end SymbolGraph.Crate
