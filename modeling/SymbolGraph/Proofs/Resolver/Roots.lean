import SymbolGraph.Proofs.Resolver

/-!
# Spellings of roots

A target of an alias and the base directory are roots that a specifier goes on behind. A directory may
be written with `.` segments. A target that is taken as a whole is the same file in every spelling, but
behind a root a `.` counts as a name. No known file has such a name on its path, so what goes on below
a root that is written with a `.` is not found there.
-/
namespace SymbolGraph
open Text

/-! ## First results in lists -/

/-- Entries that find nothing may be left out of a search. -/
theorem findSome?_filter {α β : Type} {l : List α} {keep : α → Bool} {f g : α → Option β}
    (kept : ∀ a ∈ l, keep a = true → f a = g a) (dropped : ∀ a ∈ l, keep a = false → g a = none) :
    (l.filter keep).findSome? f = l.findSome? g := by
  induction l with
  | nil => rfl
  | cons a l ih =>
    have rest := ih (fun b hb => kept b (List.mem_cons_of_mem a hb))
      fun b hb => dropped b (List.mem_cons_of_mem a hb)
    cases keeps : keep a with
    | false =>
      rw [List.filter_cons_of_neg (by simp [keeps]), List.findSome?_cons,
        dropped a List.mem_cons_self keeps, rest]
    | true =>
      rw [List.filter_cons_of_pos keeps, List.findSome?_cons, List.findSome?_cons,
        kept a List.mem_cons_self keeps, rest]

theorem findSome?_congr {α β γ : Type} {R : α → β → Prop} {l : List α} {m : List β} {f : α → Option γ}
    {g : β → Option γ} (h : List.Forall₂ R l m) (hfg : ∀ a ∈ l, ∀ b ∈ m, R a b → f a = g b) :
    l.findSome? f = m.findSome? g := by
  induction h with
  | nil => rfl
  | @cons a b l m hab _ ih =>
    have rest := ih fun a' ha b' hb =>
      hfg a' (List.mem_cons_of_mem a ha) b' (List.mem_cons_of_mem b hb)
    rw [List.findSome?_cons, List.findSome?_cons, rest, hfg a List.mem_cons_self b List.mem_cons_self hab]

theorem forall₂_of_map_eq {α β : Type} {f : α → β} {l m : List α} (h : l.map f = m.map f) :
    List.Forall₂ (fun a b => f a = f b) l m := by
  have images : List.Forall₂ (· = ·) (l.map f) (m.map f) := h ▸ List.forall₂_refl _
  exact List.forall₂_map_left_iff.1 (List.forall₂_map_right_iff.1 images)

/-! ## Directories and their spellings -/

namespace Path

/-- The names on the way to a directory, without the `.` segments that it may be written with. -/
def directory (text : String) : List String := (segments text).filter (· ≠ ".")

def isDotted (text : String) : Bool := (segments text).contains "."

theorem directory_of_not_isDotted {text : String} (h : isDotted text = false) :
    directory text = segments text := by
  refine List.filter_eq_self.2 fun s hs => ?_
  have plain : "." ∉ segments text := by simpa [isDotted] using h
  exact decide_eq_true fun dot => plain (dot ▸ hs)

/-- Seen from the top, all spellings of a directory are the same path. -/
theorem join?_eq_of_directory {text text' : String} (h : directory text = directory text') :
    join? "" text = join? "" text' := by
  have plain (t : String) : (directory t).foldlM step [] = (split '/' t).foldlM step [] := by
    rw [← foldlM_segments]
    exact foldlM_step_filter (fun s _ dropped => .inr (by simpa using dropped)) []
  exact congrArg (Option.map (joinWith "/")) ((plain text).symm.trans (h ▸ plain text'))

/-- A path that goes down to some name, whatever it goes through on the way. -/
def Descends (rel : String) : Prop := (route rel).climb = 0 ∧ (route rel).names ≠ []

instance (rel : String) : Decidable (Descends rel) :=
  inferInstanceAs (Decidable (_ ∧ _))

/-- What lies below a directory is written behind all segments of the directory. -/
theorem join?_of_descends {root rel : String} (h : Descends rel) (hroot : segments root ≠ []) :
    ∃ front name, join? root rel = some (front ++ "/" ++ name) ∧ IsSegment name ∧
      segments root <+: segments front := by
  obtain hnil | ⟨init, name, hnames⟩ := List.eq_nil_or_concat' (route rel).names
  · exact absurd hnil h.2
  have members : ∀ s ∈ segments root ++ init ++ [name], IsSegment s := by
    rw [List.append_assoc, ← hnames]
    intro s hs
    rcases List.mem_append.1 hs with hs | hs
    · exact isSegment_of_mem_segments hs
    · exact isSegment_of_mem_route hs
  have hfront : segments root ++ init ≠ [] := by simp [hroot]
  refine ⟨joinWith "/" (segments root ++ init), name, join?_eq_some.2 ⟨by simp [h.1], ?_⟩,
    members name (by simp), ?_⟩
  · rw [h.1, Nat.sub_zero, List.take_length, hnames, ← List.append_assoc, joinWith, joinWith,
      String.intercalate_append_of_ne_nil hfront (List.cons_ne_nil _ _), String.intercalate_singleton]
  · rw [segments_joinWith fun s hs => members s (List.mem_append_left _ hs)]
    exact List.prefix_append _ _

end Path

/-- An ending without a slash leaves the directory of a path as it is. -/
theorem Text.exists_of_append_eq {front name stem ending : String} (h : '/' ∉ ending.toList)
    (heq : front ++ "/" ++ name = stem ++ ending) : ∃ tail, stem = front ++ "/" ++ tail := by
  have chars : front.toList ++ '/' :: name.toList = stem.toList ++ ending.toList := by
    simpa using congrArg String.toList heq
  rcases List.append_eq_append_iff.1 chars with ⟨tail, hstem, hname⟩ | ⟨rest, -, hending⟩
  · cases tail with
    | nil =>
      rw [List.nil_append] at hname
      exact absurd (hname ▸ List.mem_cons_self) h
    | cons c tail =>
      obtain ⟨rfl, -⟩ := List.cons.inj hname
      exact ⟨String.ofList tail, String.toList_inj.1 (by simp [hstem])⟩
  · exact absurd (hending ▸ List.mem_append_right rest List.mem_cons_self) h

namespace Resolver

/-! ## What is found behind a root -/

/-- All files that a path may stand for lie in the directory of the path. -/
theorem below_of_mem_candidates {front name candidate : String}
    (h : candidate ∈ candidates (front ++ "/" ++ name)) : ∃ tail, candidate = front ++ "/" ++ tail := by
  have slashless : ∀ e ∈ writtenEndings, '/' ∉ e.1.toList := by decide
  simp only [candidates, List.mem_append, List.mem_singleton, List.mem_filterMap, List.mem_map] at h
  rcases h with ((rfl | ⟨e, he, stripped⟩) | ⟨ending, -, rfl⟩) | ⟨ending, -, rfl⟩
  · exact ⟨name, rfl⟩
  · obtain ⟨stem, hstem, rfl⟩ := Option.map_eq_some_iff.1 stripped
    obtain ⟨tail, rfl⟩ := exists_of_append_eq (slashless e he) (dropEnd?_eq_some hstem)
    exact ⟨tail ++ e.2, by simp only [String.append_assoc]⟩
  · exact ⟨name ++ ending, by simp only [String.append_assoc]⟩
  · exact ⟨name ++ ("/index" ++ ending), by simp only [String.append_assoc]⟩

/-- Below a root that is written with a `.` nothing is found. -/
theorem find_behind_isDotted {r : Resolver} {root rest : String}
    (canonical : ∀ file ∈ r.files, Path.IsCanonical file) (dotted : Path.isDotted root = true)
    (descends : Path.Descends rest) : (Path.join? root rest).bind r.firstExisting? = none := by
  have dot : "." ∈ Path.segments root := by simpa [Path.isDotted] using dotted
  obtain ⟨front, name, joined, hname, hfront⟩ :=
    Path.join?_of_descends descends (List.ne_nil_of_mem dot)
  rw [joined, Option.bind_some, firstExisting?, trimEnd_append hname]
  split_ifs
  · rfl
  · refine List.find?_eq_none.2 fun candidate hcandidate known => ?_
    obtain ⟨tail, rfl⟩ := below_of_mem_candidates hcandidate
    refine (canonical _ (List.contains_iff_mem.1 known)).plain "." ?_ List.mem_cons_self
    rw [Path.segments_append]
    exact List.mem_append_left _ (hfront.subset dot)

/-- The targets of an alias that a specifier goes on behind, each with the rest of the specifier. -/
def behindTargets (specifier : String) (entry : String × List String) : List (String × String) :=
  match dropStart? entry.1 specifier with
  | some rest => if rest = "" then [] else entry.2.map (·, rest)
  | none => []

/-- The roots that a specifier goes on behind, in the order in which they are tried, each with the rest
of the specifier. -/
def behind (r : Resolver) (specifier : String) : List (String × String) :=
  r.aliases.flatMap (behindTargets specifier) ++ r.baseDir.toList.map (·, specifier)

theorem rest_eq_empty_iff {start specifier rest : String} (h : dropStart? start specifier = some rest) :
    rest = "" ↔ start = specifier := by
  obtain rfl := dropStart?_eq_some.1 h
  constructor
  · rintro rfl
    exact String.append_empty.symm
  · intro whole
    simpa using congrArg String.toList whole

theorem behindTargets_of_proper {specifier rest : String} {entry : String × List String}
    (starts : dropStart? entry.1 specifier = some rest) (proper : rest ≠ "") :
    behindTargets specifier entry = entry.2.map (·, rest) := by
  simp [behindTargets, starts, proper]

/-- The targets of an alias without those that another spelling of the alias writes with a `.`, unless
the specifier ends with the alias. -/
def plainTargets (specifier : String) (entry spelling : String × List String) : List String :=
  ((entry.2.zip spelling.2).filter fun t => entry.1 = specifier || !Path.isDotted t.2).map Prod.fst

/-- The resolver without the roots that another spelling of it writes with a `.`, except the targets of
the specifier itself. -/
def withoutDotted (r spelling : Resolver) (specifier : String) : Resolver :=
  { r with
    aliases := (r.aliases.zip spelling.aliases).map fun a => (a.1.1, plainTargets specifier a.1 a.2)
    baseDir := if spelling.baseDir.any Path.isDotted then none else r.baseDir }

theorem firstExisting?_congr {r r' : Resolver} (files : r.files = r'.files) :
    r.firstExisting? = r'.firstExisting? := by
  funext base
  rw [firstExisting?, firstExisting?, files]

/-- Two resolvers with the same files differ in what they find behind their roots only. -/
theorem script?_congr {r r' : Resolver} {specifier : String} (files : r.files = r'.files)
    (aliases : r.throughAlias? specifier = r'.throughAlias? specifier)
    (base : (r.baseDir.bind fun dir => (Path.join? dir specifier).bind r.firstExisting?) =
      r'.baseDir.bind fun dir => (Path.join? dir specifier).bind r'.firstExisting?) (source : String) :
    r.script? specifier source = r'.script? specifier source := by
  by_cases relative : isRelative specifier = true
  · rw [script?, script?, if_pos relative, if_pos relative, firstExisting?_congr files]
  · by_cases hroot : startsWith "/" specifier = true
    · rw [script?, script?, if_neg relative, if_neg relative, if_pos hroot, if_pos hroot,
        firstExisting?_congr files]
    · rw [script?_of_bare (Bool.not_eq_true _ ▸ relative) (Bool.not_eq_true _ ▸ hroot),
        script?_of_bare (Bool.not_eq_true _ ▸ relative) (Bool.not_eq_true _ ▸ hroot), aliases, base]

/-! ## Respelled roots -/

/-- An alias with its targets as directories. -/
def spelledOut (entry : String × List String) : String × List (List String) :=
  (entry.1, entry.2.map Path.directory)

/-- The aliases that a configuration gives, with the directories that it gives for them. -/
def rootsOf (aliases : KeyMap (List String)) : List (String × List (List String)) :=
  aliases.toList.map fun a => (a.1, a.2.map fun target => Path.directory (trimStars target))

/-- The order in which aliases are tried does not depend on how their targets are written. -/
theorem map_spelledOut_aliases (aliases : KeyMap (List String)) (baseDir : Option String)
    (files : List String) : (make aliases baseDir files).aliases.map spelledOut =
      ((rootsOf aliases).map fun a => (trimStars a.1, a.2)).mergeSort
        fun a b => aliasBefore (a.1, []) (b.1, []) := by
  have sorted := List.map_mergeSort (f := spelledOut) (r := aliasBefore)
    (s := fun a b => aliasBefore (a.1, []) (b.1, []))
    (l := aliases.toList.map fun a => (trimStars a.1, a.2.map trimStars)) fun _ _ _ _ => rfl
  have trimmed : (aliases.toList.map fun a => (trimStars a.1, a.2.map trimStars)).map spelledOut =
      (rootsOf aliases).map fun a => (trimStars a.1, a.2) := by
    rw [rootsOf, List.map_map, List.map_map]
    exact List.map_congr_left fun a _ => by simp [spelledOut]
  rw [trimmed] at sorted
  exact sorted

theorem directory_trimBoth (text : String) :
    Path.directory (trimBoth (· == '/') text) = Path.directory text := by
  rw [Path.directory, trimBoth, Path.segments_trimEnd, Path.segments_trimStart]
  rfl

theorem map_directory_baseDir (aliases : KeyMap (List String)) (baseDir : Option String)
    (files : List String) :
    (make aliases baseDir files).baseDir.map Path.directory = baseDir.map Path.directory := by
  cases baseDir with
  | none => rfl
  | some dir => exact congrArg some (directory_trimBoth dir)

section Respelled

variable {r r' : Resolver} {specifier : String}

theorem length_behindTargets {a b : String × List String} (h : spelledOut a = spelledOut b) :
    (behindTargets specifier a).length = (behindTargets specifier b).length := by
  obtain ⟨starts, targets⟩ := Prod.mk.inj h
  have lengths : a.2.length = b.2.length := by simpa using congrArg List.length targets
  unfold behindTargets
  rw [starts]
  split
  · split_ifs <;> simp [lengths]
  · rfl

/-- Aliases with the same targets in the same order keep their roots apart. -/
theorem forall₂_behindTargets {l m : List (String × List String)} {f : String × String → List String}
    (h : l.map spelledOut = m.map spelledOut)
    (same : (l.flatMap (behindTargets specifier)).map f = (m.flatMap (behindTargets specifier)).map f) :
    List.Forall₂ (fun a b => spelledOut a = spelledOut b ∧
      (behindTargets specifier a).map f = (behindTargets specifier b).map f) l m := by
  induction l generalizing m with
  | nil =>
    obtain rfl : m = [] := by simpa using h.symm
    exact .nil
  | cons a l ih =>
    cases m with
    | nil => simp at h
    | cons b m =>
      obtain ⟨hab, hrest⟩ := List.cons.inj h
      rw [List.flatMap_cons, List.flatMap_cons, List.map_append, List.map_append] at same
      obtain ⟨here, there⟩ := List.append_inj same (by simp [length_behindTargets hab])
      exact .cons ⟨hab, here⟩ (ih hrest there)

/-- A target leads to the same file if the specifier ends with it, or if it is written with the same
segments. -/
theorem throughTarget?_congr (files : r.files = r'.files) {rest target target' : String}
    (whole : Path.directory target = Path.directory target')
    (continued : rest ≠ "" → Path.segments target = Path.segments target') :
    r.throughTarget? rest target = r'.throughTarget? rest target' := by
  rw [throughTarget?_eq, throughTarget?_eq, firstExisting?_congr files]
  by_cases empty : rest = ""
  · rw [if_pos empty, if_pos empty, Path.join?_eq_of_directory whole]
  · rw [if_neg empty, if_neg empty, Path.join?, Path.join?, continued empty]

theorem findSome?_throughTarget? (files : r.files = r'.files) {rest : String}
    {a b : String × List String} (h : spelledOut a = spelledOut b)
    (starts : dropStart? b.1 specifier = some rest)
    (continued : (behindTargets specifier a).map (fun b => Path.segments b.1) =
      (behindTargets specifier b).map fun b => Path.segments b.1) :
    a.2.findSome? (r.throughTarget? rest) = b.2.findSome? (r'.throughTarget? rest) := by
  obtain ⟨start, targets⟩ := Prod.mk.inj h
  by_cases empty : rest = ""
  · refine findSome?_congr (forall₂_of_map_eq targets) fun target _ target' _ whole => ?_
    exact throughTarget?_congr files whole (absurd empty)
  · rw [behindTargets_of_proper (start ▸ starts) empty, behindTargets_of_proper starts empty,
      List.map_map, List.map_map] at continued
    refine findSome?_congr (forall₂_of_map_eq continued) fun target _ target' _ same => ?_
    exact throughTarget?_congr files (congrArg (List.filter (· ≠ ".")) same) fun _ => same

theorem script?_respelled (files : r.files = r'.files)
    (aliases : r.aliases.map spelledOut = r'.aliases.map spelledOut)
    (base : r.baseDir.map Path.directory = r'.baseDir.map Path.directory)
    (continued : (r.behind specifier).map (fun b => Path.segments b.1) =
      (r'.behind specifier).map fun b => Path.segments b.1) (source : String) :
    r.script? specifier source = r'.script? specifier source := by
  have bases : r.baseDir.toList.length = r'.baseDir.toList.length := by
    simpa [Option.toList_map] using congrArg (fun b => b.toList.length) base
  rw [behind, behind, List.map_append, List.map_append] at continued
  obtain ⟨targets, dirs⟩ := List.append_inj' continued (by simp [bases])
  refine script?_congr files ?_ ?_ source
  · refine findSome?_congr (forall₂_behindTargets aliases targets) fun a _ b _ hab => ?_
    have start : a.1 = b.1 := (Prod.mk.inj hab.1).1
    dsimp only
    rw [start]
    cases starts : dropStart? b.1 specifier with
    | none => simp only [Option.bind_eq_bind, Option.bind_none]
    | some rest => exact findSome?_throughTarget? files hab.1 starts hab.2
  · have written : r.baseDir.map Path.segments = r'.baseDir.map Path.segments := by
      simpa [Function.comp_def] using congrArg List.head? dirs
    have through (find : String → Option String) (dir : Option String) :
        (dir.bind fun d => (Path.join? d specifier).bind find) = (dir.map Path.segments).bind fun place =>
          (((split '/' specifier).foldlM Path.step place).map (joinWith "/")).bind find := by
      cases dir <;> rfl
    rw [through, through, written, firstExisting?_congr files]

/-- The targets that are left find what all targets find in the other spelling. -/
theorem findSome?_plainTargets (files : r.files = r'.files) {rest : String} {a b : String × List String}
    (h : spelledOut a = spelledOut b) (starts : dropStart? b.1 specifier = some rest)
    (plain : ∀ p ∈ behindTargets specifier a, Path.isDotted p.1 = false)
    (lost : ∀ p ∈ behindTargets specifier b, Path.isDotted p.1 = true →
      (Path.join? p.1 p.2).bind r'.firstExisting? = none) :
    b.2.findSome? (r'.throughTarget? rest) =
      (plainTargets specifier a b).findSome? (r.throughTarget? rest) := by
  obtain ⟨start, targets⟩ := Prod.mk.inj h
  have lengths : a.2.length = b.2.length := by simpa using congrArg List.length targets
  have second : b.2 = (a.2.zip b.2).map Prod.snd := (List.map_snd_zip lengths.ge).symm
  have left : (plainTargets specifier a b).findSome? (r.throughTarget? rest) =
      (a.2.zip b.2).findSome? (r'.throughTarget? rest ∘ Prod.snd) := by
    rw [plainTargets, List.findSome?_map]
    refine findSome?_filter (fun t ht kept => ?_) fun t ht dropped => ?_
    · have whole : Path.directory t.1 = Path.directory t.2 :=
        List.forall₂_zip (forall₂_of_map_eq targets) ht
      refine throughTarget?_congr files whole fun proper => ?_
      have other : a.1 ≠ specifier := fun same => proper ((rest_eq_empty_iff starts).2 (start ▸ same))
      have undotted : Path.isDotted t.2 = false := by simpa [other] using kept
      have member : (t.1, rest) ∈ behindTargets specifier a := by
        rw [behindTargets_of_proper (start ▸ starts) proper]
        exact List.mem_map_of_mem (List.of_mem_zip ht).1
      rw [← Path.directory_of_not_isDotted (plain (t.1, rest) member), whole,
        Path.directory_of_not_isDotted undotted]
    · obtain ⟨other, dotted⟩ : a.1 ≠ specifier ∧ Path.isDotted t.2 = true := by simpa using dropped
      have proper : rest ≠ "" := fun empty => other (start ▸ (rest_eq_empty_iff starts).1 empty)
      have member : (t.2, rest) ∈ behindTargets specifier b := by
        rw [behindTargets_of_proper starts proper]
        exact List.mem_map_of_mem (List.of_mem_zip ht).2
      rw [Function.comp, throughTarget?_eq, if_neg proper]
      exact lost (t.2, rest) member dotted
  rw [left, ← List.findSome?_map, ← second]

/-- Where the specifier goes down behind them, roots that are written with a `.` do not count. -/
theorem script?_withoutDotted (files : r.files = r'.files)
    (canonical : ∀ file ∈ r'.files, Path.IsCanonical file)
    (aliases : r.aliases.map spelledOut = r'.aliases.map spelledOut)
    (base : r.baseDir.map Path.directory = r'.baseDir.map Path.directory)
    (plain : ∀ b ∈ r.behind specifier, Path.isDotted b.1 = false)
    (descends : ∀ b ∈ r'.behind specifier, Path.isDotted b.1 = true → Path.Descends b.2)
    (source : String) :
    r'.script? specifier source = (r.withoutDotted r' specifier).script? specifier source := by
  have lost (b : String × String) (h : b ∈ r'.behind specifier) (dotted : Path.isDotted b.1 = true) :
      (Path.join? b.1 b.2).bind r'.firstExisting? = none :=
    find_behind_isDotted canonical dotted (descends b h dotted)
  have lengths : r.aliases.length = r'.aliases.length := by simpa using congrArg List.length aliases
  have second : r'.aliases = (r.aliases.zip r'.aliases).map Prod.snd := (List.map_snd_zip lengths.ge).symm
  have same : r'.files = (r.withoutDotted r' specifier).files := files.symm
  refine script?_congr same ?_ ?_ source
  · rw [throughAlias?, throughAlias?, withoutDotted, List.findSome?_map]
    conv_lhs => rw [second, List.findSome?_map]
    refine findSome?_congr (List.forall₂_same.2 fun p _ => rfl) fun p hp _ _ hp' => ?_
    subst hp'
    have spelled : spelledOut p.1 = spelledOut p.2 := List.forall₂_zip (forall₂_of_map_eq aliases) hp
    have start : p.1.1 = p.2.1 := (Prod.mk.inj spelled).1
    obtain ⟨here, there⟩ := List.of_mem_zip hp
    dsimp only [Function.comp]
    rw [start]
    cases starts : dropStart? p.2.1 specifier with
    | none => simp only [Option.bind_eq_bind, Option.bind_none]
    | some rest =>
      refine findSome?_plainTargets files spelled starts (fun b hb => ?_) fun b hb => ?_
      · exact plain b (List.mem_append_left _ (List.mem_flatMap_of_mem here hb))
      · exact lost b (List.mem_append_left _ (List.mem_flatMap_of_mem there hb))
  · have left : (r.withoutDotted r' specifier).baseDir =
        if r'.baseDir.any Path.isDotted then none else r.baseDir := rfl
    rw [left, ← firstExisting?_congr same]
    cases hbase' : r'.baseDir with
    | none =>
      have hbase : r.baseDir = none := by simpa [hbase'] using base
      simp [hbase]
    | some dir' =>
      obtain ⟨dir, hbase, hdir⟩ : ∃ dir, r.baseDir = some dir ∧
          Path.directory dir = Path.directory dir' := by
        simpa [hbase'] using base
      cases dotted : Path.isDotted dir' with
      | true =>
        have nothing := lost (dir', specifier) (List.mem_append_right _ (by simp [hbase'])) dotted
        simpa [dotted] using nothing
      | false =>
        have undotted := plain (dir, specifier) (List.mem_append_right _ (by simp [hbase]))
        have written : Path.segments dir = Path.segments dir' := by
          rw [← Path.directory_of_not_isDotted undotted, hdir, Path.directory_of_not_isDotted dotted]
        simp [hbase, dotted, Path.join?, written]

end Respelled

/-- Writing roots differently, with `.` segments or slashes more or less, does not change what a
specifier leads to as long as the roots that it goes on behind keep their segments; a target that the
specifier ends with may be written in any way. Where the specifier goes down behind plain roots, it is
as if those that are now written with a `.` had been left out. -/
theorem respelled_roots_resolve_alike_unless_continued {aliases aliases' : KeyMap (List String)}
    {baseDir baseDir' : Option String} {files : List String} (roots : rootsOf aliases = rootsOf aliases')
    (base : baseDir.map Path.directory = baseDir'.map Path.directory)
    (canonical : ∀ file ∈ files, Path.IsCanonical file) (specifier source : String) :
    let r := make aliases baseDir files
    let r' := make aliases' baseDir' files
    ((r.behind specifier).map (fun b => Path.segments b.1) =
        (r'.behind specifier).map (fun b => Path.segments b.1) →
      r'.script? specifier source = r.script? specifier source) ∧
    ((∀ b ∈ r.behind specifier, Path.isDotted b.1 = false) →
      (∀ b ∈ r'.behind specifier, Path.isDotted b.1 = true → Path.Descends b.2) →
      r'.script? specifier source = (r.withoutDotted r' specifier).script? specifier source) := by
  intro r r'
  have spelled : r.aliases.map spelledOut = r'.aliases.map spelledOut := by
    rw [map_spelledOut_aliases, map_spelledOut_aliases, roots]
  have dirs : r.baseDir.map Path.directory = r'.baseDir.map Path.directory := by
    rw [map_directory_baseDir, map_directory_baseDir, base]
  have files_eq : r.files = r'.files := rfl
  constructor
  · intro continued
    exact (script?_respelled files_eq spelled dirs continued source).symm
  · intro plain descends
    have known : ∀ file ∈ r'.files, Path.IsCanonical file := fun file h =>
      canonical file (KeySet.mem_ofList.1 h)
    exact script?_withoutDotted files_eq known spelled dirs plain descends source

/-- A target that is written with a `.` is found as a whole. Behind it nothing is found, and the next
target takes its place. -/
theorem respelled_target_found_whole_and_passed_over_below :
    let files := ["lib/index.ts", "lib/util.ts", "src/util.ts"]
    let plain := make (.ofList [("@/*", ["lib/*", "src/*"])]) none files
    let dotted := make (.ofList [("@/*", ["./lib/*", "src/*"])]) none files
    dotted.script? "@/" "a.ts" = plain.script? "@/" "a.ts" ∧
      dotted.script? "@/util" "a.ts" = (plain.withoutDotted dotted "@/util").script? "@/util" "a.ts" ∧
      plain.script? "@/util" "a.ts" = some "lib/util.ts" ∧
      dotted.script? "@/util" "a.ts" = some "src/util.ts" := by
  intro files plain dotted
  have roots : rootsOf (.ofList [("@/*", ["lib/*", "src/*"])]) =
      rootsOf (.ofList [("@/*", ["./lib/*", "src/*"])]) := by decide +kernel
  have canonical : ∀ file ∈ files, Path.IsCanonical file := by
    simp only [files, List.forall_mem_cons]
    exact ⟨⟨by decide +kernel, by decide +kernel⟩, ⟨by decide +kernel, by decide +kernel⟩,
      ⟨by decide +kernel, by decide +kernel⟩, List.forall_mem_nil _⟩
  have respelled := respelled_roots_resolve_alike_unless_continued roots
    (Eq.refl ((none : Option String).map Path.directory)) canonical
  exact ⟨(respelled "@/" "a.ts").1 (by decide +kernel),
    (respelled "@/util" "a.ts").2 (by decide +kernel) (by decide +kernel), by decide +kernel,
    by decide +kernel⟩

theorem base_directory_with_dot_finds_nothing :
    let files := ["src/a.ts", "src/utils/format.tsx"]
    (some "./src").map Path.directory = (some "src").map Path.directory ∧
    (make .empty (some "src") files).script? "utils/format" "src/a.ts" = some "src/utils/format.tsx" ∧
    (make .empty (some "./src") files).script? "utils/format" "src/a.ts" = none := by
  decide +kernel

end Resolver
end SymbolGraph
