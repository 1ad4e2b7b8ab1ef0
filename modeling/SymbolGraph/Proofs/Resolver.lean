import Mathlib.Data.List.Induction
import Mathlib.Data.List.TakeWhile
import SymbolGraph.Proofs.Ordered
import SymbolGraph.Proofs.Path.Routes
import SymbolGraph.Resolver

/-!
# What specifiers lead to

Nothing but known files is ever found. A relative specifier is walked from the directory of the
importing file, and a known file that it names in full comes before all files that it may stand for.
-/
namespace SymbolGraph
open Text

/-! ## Walking along segments -/

namespace Path

/-- A path as a project knows its files: names with single slashes between them. -/
structure IsCanonical (path : String) : Prop where
  joined : joinWith "/" (segments path) = path
  plain : ∀ s ∈ segments path, s ∉ [".", ".."]

/-- Empty and `.` segments do not count. -/
theorem foldlM_step_filter {keep : String → Bool} {l : List String}
    (h : ∀ s ∈ l, keep s = false → s = "" ∨ s = ".") (dir : List String) :
    (l.filter keep).foldlM step dir = l.foldlM step dir := by
  induction l generalizing dir with
  | nil => rfl
  | cons s l ih =>
    have rest := ih fun t ht => h t (List.mem_cons_of_mem s ht)
    rw [List.foldlM_cons]
    cases kept : keep s with
    | false =>
      have skipped : step dir s = some dir := if_pos (h s List.mem_cons_self kept)
      rw [List.filter_cons_of_neg (by simp [kept]), skipped]
      exact rest dir
    | true =>
      rw [List.filter_cons_of_pos kept, List.foldlM_cons]
      congr 1
      funext place
      exact rest place

theorem foldlM_segments (rel : String) (dir : List String) :
    (segments rel).foldlM step dir = (split '/' rel).foldlM step dir :=
  foldlM_step_filter (fun s _ dropped => .inl (by simpa using dropped)) dir

theorem foldlM_step_names (dir : List String) {names : List String}
    (h : ∀ s ∈ names, s ∉ ["", ".", ".."]) : names.foldlM step dir = some (dir ++ names) := by
  induction names generalizing dir with
  | nil => simp
  | cons s names ih =>
    have proper := h s List.mem_cons_self
    simp only [List.mem_cons, List.not_mem_nil, or_false, not_or] at proper
    have walked : step dir s = some (dir ++ [s]) := by simp [step, proper]
    rw [List.foldlM_cons, walked]
    exact (ih _ fun t ht => h t (List.mem_cons_of_mem s ht)).trans (by simp)

theorem foldlM_step_up (dir up : List String) :
    (List.replicate up.length "..").foldlM step (dir ++ up) = some dir := by
  induction up using List.reverseRecOn with
  | nil => simp
  | append_singleton up s ih =>
    have walked : step (dir ++ (up ++ [s])) ".." = some (dir ++ up) := by
      simp [step, ← List.append_assoc]
    rw [List.length_append, List.length_singleton, List.replicate_succ, List.foldlM_cons, walked]
    exact ih

end Path

/-! ## Slashes at the ends of paths -/

namespace Path

theorem segments_slashes_append (n : Nat) (path : String) :
    segments (String.ofList (List.replicate n '/') ++ path) = segments path := by
  induction n with
  | zero => simp
  | succ n ih =>
    have slash : String.ofList (List.replicate (n + 1) '/') ++ path =
        "" ++ "/" ++ (String.ofList (List.replicate n '/') ++ path) :=
      String.toList_inj.1 (by simp [List.replicate_succ])
    rw [slash, segments_append, ih]
    rfl

theorem segments_append_slashes (path : String) (n : Nat) :
    segments (path ++ String.ofList (List.replicate n '/')) = segments path := by
  cases n with
  | zero => simp
  | succ n =>
    have slash : path ++ String.ofList (List.replicate (n + 1) '/') =
        path ++ "/" ++ (String.ofList (List.replicate n '/') ++ "") :=
      String.toList_inj.1 (by simp [List.replicate_succ])
    rw [slash, segments_append, segments_slashes_append]
    exact List.append_nil _

theorem segments_trimStart (path : String) :
    segments (trimStart (· == '/') path) = segments path := by
  have parts : path = String.ofList (path.toList.takeWhile (· == '/')) ++ trimStart (· == '/') path :=
    String.toList_inj.1 (by simp [trimStart])
  have slashes : path.toList.takeWhile (· == '/') =
      List.replicate (path.toList.takeWhile (· == '/')).length '/' :=
    List.eq_replicate_iff.2 ⟨rfl, fun c hc => by simpa using List.mem_takeWhile_imp hc⟩
  conv_rhs => rw [parts, slashes, segments_slashes_append]

theorem segments_trimEnd (path : String) :
    segments (trimEnd (· == '/') path) = segments path := by
  have parts : path = trimEnd (· == '/') path ++
      String.ofList (path.toList.reverse.takeWhile (· == '/')).reverse :=
    String.toList_inj.1 (by simp [trimEnd, ← List.reverse_append])
  have slashes : (path.toList.reverse.takeWhile (· == '/')).reverse =
      List.replicate (path.toList.reverse.takeWhile (· == '/')).length '/' :=
    List.eq_replicate_iff.2
      ⟨by simp, fun c hc => by simpa using List.mem_takeWhile_imp (List.mem_reverse.1 hc)⟩
  conv_rhs => rw [parts, slashes, segments_append_slashes]

end Path

theorem Text.trimEnd_append {name : String} (h : Path.IsSegment name) (front : String) :
    trimEnd (· == '/') (front ++ name) = front ++ name := by
  obtain ⟨c, cs, hname⟩ := List.exists_cons_of_ne_nil (l := name.toList.reverse) (by simpa using h.1)
  have hc : c ≠ '/' := by
    rintro rfl
    exact h.2 (List.mem_reverse.1 (hname ▸ List.mem_cons_self))
  apply String.toList_inj.1
  simp only [trimEnd, String.toList_append, List.reverse_append, hname, List.cons_append,
    String.toList_ofList]
  rw [List.dropWhile_cons_of_neg (by simpa using hc), List.reverse_cons, List.reverse_append,
    List.reverse_reverse, List.append_assoc, ← List.reverse_cons, ← hname, List.reverse_reverse]

namespace Resolver

/-! ## Known files -/

theorem mem_of_firstExisting? {r : Resolver} {base file : String}
    (h : r.firstExisting? base = some file) : file ∈ r.files := by
  unfold firstExisting? at h
  dsimp only at h
  split_ifs at h
  have known : r.files.contains file = true := List.find?_some h
  exact List.contains_iff_mem.1 known

theorem throughTarget?_eq (r : Resolver) (rest target : String) :
    r.throughTarget? rest target =
      (if rest = "" then Path.join? "" target else Path.join? target rest).bind r.firstExisting? := by
  unfold throughTarget?
  by_cases empty : rest = ""
  · simp [empty]
  · simp [empty, Path.join?, Path.segments_trimEnd]

theorem mem_of_throughTarget? {r : Resolver} {rest target file : String}
    (h : r.throughTarget? rest target = some file) : file ∈ r.files := by
  rw [throughTarget?_eq] at h
  obtain ⟨base, -, found⟩ := Option.bind_eq_some_iff.1 h
  exact mem_of_firstExisting? found

theorem mem_of_throughAlias? {r : Resolver} {specifier file : String}
    (h : r.throughAlias? specifier = some file) : file ∈ r.files := by
  obtain ⟨entry, -, through⟩ := List.exists_of_findSome?_eq_some h
  obtain ⟨rest, -, through⟩ := Option.bind_eq_some_iff.1 through
  obtain ⟨target, -, through⟩ := List.exists_of_findSome?_eq_some through
  exact mem_of_throughTarget? through

/-- A specifier that is neither relative nor from the root is tried behind the aliases and then below
the base directory. -/
theorem script?_of_bare {specifier : String} (h : isRelative specifier = false)
    (hroot : startsWith "/" specifier = false) (r : Resolver) (source : String) :
    r.script? specifier source = (r.throughAlias? specifier).or
      (r.baseDir.bind fun dir => (Path.join? dir specifier).bind r.firstExisting?) := by
  unfold script?
  rw [if_neg (by simp [h]), if_neg (by simp [hroot])]
  cases r.throughAlias? specifier <;> rfl

theorem mem_of_script? {r : Resolver} {specifier source file : String}
    (h : r.script? specifier source = some file) : file ∈ r.files := by
  by_cases relative : isRelative specifier = true
  · rw [script?, if_pos relative] at h
    obtain ⟨base, -, found⟩ := Option.bind_eq_some_iff.1 h
    exact mem_of_firstExisting? found
  · by_cases hroot : startsWith "/" specifier = true
    · rw [script?, if_neg relative, if_pos hroot] at h
      exact mem_of_firstExisting? h
    · rw [script?_of_bare (Bool.not_eq_true _ ▸ relative) (Bool.not_eq_true _ ▸ hroot),
        Option.or_eq_some_iff] at h
      rcases h with through | ⟨-, below⟩
      · exact mem_of_throughAlias? through
      · obtain ⟨dir, -, below⟩ := Option.bind_eq_some_iff.1 below
        obtain ⟨base, -, found⟩ := Option.bind_eq_some_iff.1 below
        exact mem_of_firstExisting? found

/-- A known file comes before all files that its path may stand for. -/
theorem firstExisting?_of_mem {r : Resolver} {file : String} (known : file ∈ r.files)
    (canonical : Path.IsCanonical file) (below : Path.segments file ≠ []) :
    r.firstExisting? file = some file := by
  obtain hnil | ⟨init, name, hsegments⟩ := List.eq_nil_or_concat' (Path.segments file)
  · exact absurd hnil below
  have hname : Path.IsSegment name := by
    have hlast : name ∈ Path.segments file := by simp [hsegments]
    exact Path.isSegment_of_mem_segments hlast
  obtain ⟨front, hfile⟩ : ∃ front, file = front ++ name := by
    rw [← canonical.joined, hsegments]
    cases init with
    | nil => exact ⟨"", by simp [joinWith]⟩
    | cons s init =>
      refine ⟨joinWith "/" (s :: init) ++ "/", ?_⟩
      rw [joinWith, String.intercalate_append_of_ne_nil (by simp) (by simp)]
      simp [joinWith]
  have trimmed : trimEnd (· == '/') file = file := hfile ▸ trimEnd_append hname front
  have proper : file ≠ "" := by
    rintro rfl
    exact hname.1 (String.append_eq_empty_iff.1 hfile.symm).2
  unfold firstExisting?
  dsimp only
  rw [trimmed, if_neg (by simpa using proper)]
  have first : r.files.contains file = true := List.contains_iff_mem.2 known
  simp [candidates, first]

/-! ## Relative specifiers -/

/-- The specifier that goes `up` levels up and then down along names. -/
def relativeSpecifier (up : Nat) (down : List String) : String :=
  (if up = 0 then "./" else String.join (List.replicate up "../")) ++ joinWith "/" down

theorem segments_up_append (up : Nat) (path : String) :
    Path.segments (String.join (List.replicate up "../") ++ path) =
      List.replicate up ".." ++ Path.segments path := by
  induction up with
  | zero => simp
  | succ up ih =>
    have parts : String.join (List.replicate (up + 1) "../") ++ path =
        ".." ++ "/" ++ (String.join (List.replicate up "../") ++ path) := by
      rw [List.replicate_succ, String.join_cons, String.append_assoc]
      rfl
    rw [parts, Path.segments_append, ih]
    rfl

theorem isRelative_relativeSpecifier (up : Nat) (down : List String) :
    isRelative (relativeSpecifier up down) = true := by
  cases up with
  | zero => simp [isRelative, relativeSpecifier, startsWith]
  | succ up => simp [isRelative, relativeSpecifier, startsWith, List.replicate_succ]

theorem join?_relativeSpecifier {dir : String} {common up down : List String}
    (hdir : Path.segments dir = common ++ up) (hdown : ∀ s ∈ down, Path.IsSegment s)
    (plain : ∀ s ∈ down, s ∉ [".", ".."]) :
    Path.join? dir (relativeSpecifier up.length down) = some (joinWith "/" (common ++ down)) := by
  have proper : ∀ s ∈ down, s ∉ ["", ".", ".."] := fun s hs =>
    List.not_mem_cons_of_ne_of_not_mem (hdown s hs).1 (plain s hs)
  rw [Path.join?, ← Path.foldlM_segments, hdir]
  by_cases here : up.length = 0
  · obtain rfl := List.length_eq_zero_iff.1 here
    have parts : relativeSpecifier 0 down = "." ++ "/" ++ joinWith "/" down := rfl
    rw [List.length_nil, parts, Path.segments_append, Path.segments_joinWith hdown, List.append_nil]
    exact congrArg (Option.map _) (Path.foldlM_step_names common proper)
  · rw [relativeSpecifier, if_neg here, segments_up_append, Path.segments_joinWith hdown,
      List.foldlM_append, Path.foldlM_step_up]
    exact congrArg (Option.map _) (Path.foldlM_step_names common proper)

/-- Every known file is reached by its relative specifier, from any directory and whatever else is
known, and no specifier leads to anything but a known file. -/
theorem relative_specifier_reaches_file (aliases : KeyMap (List String)) (baseDir : Option String)
    (files : List String) :
    (∀ (source file : String) (common up down : List String),
      Path.segments (Path.parent source) = common ++ up → file ∈ files → Path.IsCanonical file →
      Path.segments file = common ++ down → down ≠ [] →
      (make aliases baseDir files).script? (relativeSpecifier up.length down) source = some file) ∧
    ∀ specifier importer found,
      (make aliases baseDir files).script? specifier importer = some found → found ∈ files := by
  refine ⟨fun source file common up down hsource known canonical hfile hdown => ?_, ?_⟩
  · have members : ∀ s ∈ down, s ∈ Path.segments file := fun s hs => by simp [hfile, hs]
    have joined := join?_relativeSpecifier hsource
      (fun s hs => Path.isSegment_of_mem_segments (members s hs))
      fun s hs => canonical.plain s (members s hs)
    rw [← hfile, canonical.joined] at joined
    rw [script?, if_pos (isRelative_relativeSpecifier _ _), joined, Option.bind_some]
    refine firstExisting?_of_mem (KeySet.mem_ofList.2 known) canonical ?_
    simp [hfile, hdown]
  · exact fun specifier importer found h => KeySet.mem_ofList.1 (mem_of_script? h)

theorem relative_specifier_reaches_file_shadowed :
    let files := ["src/lib/a.js", "src/lib/a.js.ts", "src/lib/a.js/index.ts", "src/lib/a.ts"]
    (make .empty (some "src") files).script? "../../lib/a.js" "src/ui/view/button.ts" =
        some "src/lib/a.js" ∧ "src/lib/a.js" ∈ files := by
  intro files
  have known : "src/lib/a.js" ∈ files := by decide
  have hsource : Path.segments (Path.parent "src/ui/view/button.ts") = ["src"] ++ ["ui", "view"] := by
    decide +kernel
  have hfile : Path.segments "src/lib/a.js" = ["src"] ++ ["lib", "a.js"] := by decide +kernel
  have canonical : Path.IsCanonical "src/lib/a.js" := ⟨by decide +kernel, by rw [hfile]; decide⟩
  obtain ⟨reaches, all_known⟩ := relative_specifier_reaches_file .empty (some "src") files
  have reached := reaches _ _ _ _ _ hsource known canonical hfile (List.cons_ne_nil _ _)
  exact ⟨reached, all_known _ _ _ reached⟩

end Resolver
end SymbolGraph
