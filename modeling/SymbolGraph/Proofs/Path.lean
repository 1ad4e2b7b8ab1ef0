import Mathlib.Data.List.Basic
import Mathlib.Tactic.SplitIfs
import SymbolGraph.Path

/-!
# Paths and their segments

A path is known by the segments between its slashes, of which the last is its file name. Joining
segments by slashes and putting a path under a directory do to the segments what they say.
-/
namespace SymbolGraph

/-! ## Splitting and joining -/

namespace Text

theorem splitChars_ne_nil (sep : Char) (cs : List Char) : splitChars sep cs ≠ [] := by
  cases cs with
  | nil => simp [splitChars]
  | cons c cs =>
    rw [splitChars]
    split_ifs
    · simp
    · split <;> simp

theorem splitChars_append (sep : Char) (as bs : List Char) :
    splitChars sep (as ++ sep :: bs) = splitChars sep as ++ splitChars sep bs := by
  induction as with
  | nil => simp [splitChars]
  | cons a as ih =>
    rw [List.cons_append, splitChars, splitChars, ih]
    split_ifs
    · rfl
    · cases h : splitChars sep as with
      | nil => exact absurd h (splitChars_ne_nil sep as)
      | cons piece rest => rfl

theorem splitChars_eq_singleton {sep : Char} {cs : List Char} (h : sep ∉ cs) :
    splitChars sep cs = [cs] := by
  induction cs with
  | nil => rfl
  | cons c cs ih =>
    rw [List.mem_cons, not_or] at h
    rw [splitChars, if_neg (Ne.symm h.1), ih h.2]

theorem split_append (s t : String) : split '/' (s ++ "/" ++ t) = split '/' s ++ split '/' t := by
  simp only [split, String.toList_append, ← List.map_append, ← splitChars_append]
  simp

theorem split_eq_singleton {sep : Char} {s : String} (h : sep ∉ s.toList) : split sep s = [s] := by
  simp [split, splitChars_eq_singleton h]

theorem not_mem_of_mem_splitChars {sep : Char} {cs piece : List Char} (h : piece ∈ splitChars sep cs) :
    sep ∉ piece := by
  induction cs generalizing piece with
  | nil =>
    obtain rfl := List.mem_singleton.1 h
    exact List.not_mem_nil
  | cons c cs ih =>
    rw [splitChars] at h
    split_ifs at h with hc
    · rcases List.mem_cons.1 h with rfl | h
      · exact List.not_mem_nil
      · exact ih h
    · cases hsplit : splitChars sep cs with
      | nil => exact absurd hsplit (splitChars_ne_nil sep cs)
      | cons first rest =>
        rw [hsplit] at h ih
        rcases List.mem_cons.1 h with rfl | h
        · have hfirst := ih List.mem_cons_self
          simp [hfirst, Ne.symm hc]
        · exact ih (List.mem_cons_of_mem first h)

/-! ## Positions of characters -/

theorem lastIndexOf?_eq_none {c : Char} {s : String} : lastIndexOf? c s = none ↔ c ∉ s.toList := by
  simp only [lastIndexOf?, Option.map_eq_none_iff, List.findIdx?_eq_none_iff, List.mem_reverse,
    decide_eq_false_iff_not]
  exact ⟨fun h hc => h c hc rfl, fun h d hd hdc => h (hdc ▸ hd)⟩

theorem exists_append_of_findIdx? {c : Char} {cs : List Char} {k : Nat}
    (h : cs.findIdx? (· = c) = some k) : ∃ as bs, cs = as ++ c :: bs ∧ c ∉ as ∧ as.length = k := by
  induction cs generalizing k with
  | nil => simp at h
  | cons d cs ih =>
    rw [List.findIdx?_cons] at h
    split_ifs at h with hd
    · obtain rfl := Option.some_inj.1 h
      obtain rfl : d = c := by simpa using hd
      exact ⟨[], cs, rfl, List.not_mem_nil, rfl⟩
    · obtain ⟨k, hk, rfl⟩ := Option.map_eq_some_iff.1 h
      obtain ⟨as, bs, rfl, has, rfl⟩ := ih hk
      have hne : ¬ c = d := fun heq => hd (by simp [heq])
      exact ⟨d :: as, bs, rfl, by simp [hne, has], rfl⟩

theorem lastIndexOf?_eq_some {c : Char} {s : String} {i : Nat} (h : lastIndexOf? c s = some i) :
    ∃ as bs, s.toList = as ++ c :: bs ∧ c ∉ bs ∧ as.length = i := by
  obtain ⟨k, hk, rfl⟩ := Option.map_eq_some_iff.1 h
  obtain ⟨bs, as, heq, hbs, rfl⟩ := exists_append_of_findIdx? hk
  have parts : s.toList = as.reverse ++ c :: bs.reverse := by
    rw [← List.reverse_reverse s.toList, heq]
    simp
  refine ⟨as.reverse, bs.reverse, parts, by simpa using hbs, ?_⟩
  have length := congrArg List.length parts
  simp only [String.length_toList, List.length_append, List.length_reverse, List.length_cons] at length ⊢
  omega

theorem lastIndexOf?_append {c : Char} (as : List Char) {bs : List Char} (h : c ∉ bs) :
    lastIndexOf? c (String.ofList (as ++ c :: bs)) = some as.length := by
  have last : (bs.reverse ++ c :: as.reverse).findIdx? (· = c) = some bs.length := by
    rw [List.findIdx?_append, List.findIdx?_eq_none_iff.2]
    · simp [List.findIdx?_cons]
    · intro d hd
      have hne : d ≠ c := fun heq => h (heq ▸ List.mem_reverse.1 hd)
      simp [hne]
  rw [lastIndexOf?, String.toList_ofList, List.reverse_append, List.reverse_cons, List.append_assoc,
    List.singleton_append, last]
  simp only [Option.map_some, String.length_ofList, List.length_append, List.length_cons]
  congr 1
  omega

/-! ## Starts and ends of texts -/

theorem dropStart?_eq_some {start text rest : String} :
    dropStart? start text = some rest ↔ text = start ++ rest := by
  simp only [dropStart?]
  split_ifs with h
  · obtain ⟨r, hr⟩ := List.isPrefixOf_iff_prefix.1 h
    rw [← String.toList_inj, ← hr, String.toList_append]
    simp [← String.toList_inj, ← String.length_toList]
  · simp only [false_iff]
    rintro rfl
    exact h (by simp)

theorem endsWith_iff {stop s : String} : endsWith stop s = true ↔ ∃ front, s = front ++ stop := by
  rw [endsWith, List.isSuffixOf_iff_suffix]
  constructor
  · rintro ⟨front, heq⟩
    exact ⟨String.ofList front, String.toList_inj.1 (by simp [← heq])⟩
  · rintro ⟨front, rfl⟩
    exact ⟨front.toList, by simp⟩

theorem dropEnd?_append (front stop : String) : dropEnd? stop (front ++ stop) = some front := by
  have ends : stop.toList.isSuffixOf (front ++ stop).toList = true := endsWith_iff.2 ⟨front, rfl⟩
  rw [dropEnd?, if_pos ends]
  congr 1
  apply String.toList_inj.1
  simp [← String.length_toList]

theorem dropEnd?_eq_none {stop s : String} (h : endsWith stop s = false) : dropEnd? stop s = none := by
  exact if_neg (Bool.not_eq_true _ ▸ h)

theorem dropEnd?_eq_some {stop s front : String} (h : dropEnd? stop s = some front) :
    s = front ++ stop := by
  by_cases ends : endsWith stop s = true
  · obtain ⟨front', rfl⟩ := endsWith_iff.1 ends
    rw [dropEnd?_append] at h
    rw [Option.some_inj.1 h]
  · rw [dropEnd?_eq_none (by simpa using ends)] at h
    cases h

end Text

/-! ## Segments of paths -/

namespace Path
open Text

theorem fileName_cases (path : String) :
    ('/' ∉ path.toList ∧ fileName path = path) ∨
      ∃ dir, path = dir ++ "/" ++ fileName path ∧ '/' ∉ (fileName path).toList := by
  unfold fileName
  split
  · rename_i i hi
    obtain ⟨as, bs, heq, hbs, rfl⟩ := lastIndexOf?_eq_some hi
    have name : drop (as.length + 1) path = String.ofList bs := by
      rw [drop, heq]
      simp
    rw [name]
    refine Or.inr ⟨String.ofList as, ?_, by simpa using hbs⟩
    apply String.toList_inj.1
    simp [heq]
  · rename_i hnone
    exact Or.inl ⟨lastIndexOf?_eq_none.1 hnone, rfl⟩

theorem not_mem_fileName (path : String) : '/' ∉ (fileName path).toList := by
  rcases fileName_cases path with ⟨h, heq⟩ | ⟨dir, -, h⟩
  · rwa [heq]
  · exact h

/-- The last segment of a path is its file name. -/
theorem split_fileName (path : String) : ∃ init, split '/' path = init ++ [fileName path] := by
  rcases fileName_cases path with ⟨h, heq⟩ | ⟨dir, heq, h⟩
  · exact ⟨[], by rw [heq, split_eq_singleton h, List.nil_append]⟩
  · refine ⟨split '/' dir, ?_⟩
    conv_lhs => rw [heq]
    rw [split_append, split_eq_singleton h]

/-- A text that can stand between slashes. -/
def IsSegment (s : String) : Prop := s ≠ "" ∧ '/' ∉ s.toList

theorem isSegment_of_mem_segments {path s : String} (h : s ∈ segments path) : IsSegment s := by
  rw [segments, List.mem_filter, split, List.mem_map] at h
  obtain ⟨⟨cs, hcs, rfl⟩, hne⟩ := h
  exact ⟨by simpa using hne, by simpa using not_mem_of_mem_splitChars hcs⟩

theorem segments_of_isSegment {s : String} (h : IsSegment s) : segments s = [s] := by
  simp [segments, split_eq_singleton h.2, h.1]

theorem segments_append (a b : String) : segments (a ++ "/" ++ b) = segments a ++ segments b := by
  rw [segments, split_append, List.filter_append]
  rfl

theorem segments_joinWith {l : List String} (h : ∀ s ∈ l, IsSegment s) :
    segments (joinWith "/" l) = l := by
  induction l with
  | nil => rfl
  | cons s rest ih =>
    have hs := segments_of_isSegment (h s List.mem_cons_self)
    have hrest := ih fun t ht => h t (List.mem_cons_of_mem s ht)
    cases rest with
    | nil => simpa [joinWith] using hs
    | cons t rest =>
      rw [joinWith, String.intercalate_cons_cons, segments_append, hs]
      exact congrArg (s :: ·) hrest

/-- Different segments are joined to different paths. -/
theorem joinWith_inj {l m : List String} (hl : ∀ s ∈ l, IsSegment s) (hm : ∀ s ∈ m, IsSegment s) :
    joinWith "/" l = joinWith "/" m ↔ l = m := by
  refine ⟨fun h => ?_, fun h => h ▸ rfl⟩
  rw [← segments_joinWith hl, h, segments_joinWith hm]

/-! ## File names -/

theorem fileName_append {name : String} (h : '/' ∉ name.toList) (dir : String) :
    fileName (dir ++ "/" ++ name) = name ∧ parent (dir ++ "/" ++ name) = dir := by
  have chars : dir ++ "/" ++ name = String.ofList (dir.toList ++ '/' :: name.toList) :=
    String.toList_inj.1 (by simp)
  have last : lastIndexOf? '/' (dir ++ "/" ++ name) = some dir.toList.length := by
    rw [chars, lastIndexOf?_append dir.toList h]
  constructor
  · rw [fileName, last, chars]
    apply String.toList_inj.1
    simp [drop]
  · rw [parent, last, chars]
    apply String.toList_inj.1
    simp [take]

theorem segments_eq {path : String} (h : fileName path ≠ "") :
    segments path = segments (parent path) ++ [fileName path] := by
  rcases fileName_cases path with ⟨hslash, heq⟩ | ⟨dir, heq, hslash⟩
  · have top : parent path = "" := by
      rw [parent, lastIndexOf?_eq_none.2 hslash]
    have hpath : IsSegment path := ⟨heq ▸ h, hslash⟩
    rw [segments_of_isSegment hpath, top, heq]
    rfl
  · have hparent : parent path = dir := by
      rw [heq]
      exact (fileName_append hslash dir).2
    conv_lhs => rw [heq]
    rw [segments_append, segments_of_isSegment ⟨h, hslash⟩, hparent]

/-- The file name is made of the stem and the extension. -/
theorem fileName_eq_of_extension? {path ext : String} (h : extension? path = some ext) :
    fileName path = stem path ++ "." ++ ext ∧ stem path ≠ "" := by
  obtain ⟨i, hi, rfl⟩ := Option.map_eq_some_iff.1 h
  have hlast : lastIndexOf? '.' (fileName path) = some i ∧ i ≠ 0 := by
    unfold dotIndex? at hi
    split at hi
    · exact nomatch hi
    · rename_i hne
      exact ⟨hi, fun hzero => hne (hzero ▸ hi)⟩
  obtain ⟨as, bs, heq, -, rfl⟩ := lastIndexOf?_eq_some hlast.1
  have hstem : stem path = String.ofList as := by
    rw [stem, hi]
    apply String.toList_inj.1
    simp [take, heq]
  constructor
  · apply String.toList_inj.1
    simp [hstem, drop, heq]
  · rw [hstem]
    simpa using hlast.2

/-! ## Paths under a directory -/

theorem under_cases (dir child : String) :
    (dir = "" ∧ under dir child = child) ∨
      ∃ front, under dir child = front ++ "/" ++ child ∧ segments front = segments dir := by
  unfold under
  split_ifs with hempty hslash
  · exact .inl ⟨hempty, rfl⟩
  · obtain ⟨front, rfl⟩ := endsWith_iff.1 hslash
    refine .inr ⟨front, rfl, ?_⟩
    have whole : front ++ "/" = front ++ "/" ++ "" := by simp
    rw [whole, segments_append]
    simp [segments, split, splitChars]
  · exact .inr ⟨dir, rfl, rfl⟩

theorem segments_under (dir child : String) :
    segments (under dir child) = segments dir ++ segments child := by
  rcases under_cases dir child with ⟨rfl, h⟩ | ⟨front, h, hfront⟩
  · rw [h]
    rfl
  · rw [h, segments_append, hfront]

theorem fileName_under (dir child : String) : fileName (under dir child) = fileName child := by
  rcases under_cases dir child with ⟨-, h⟩ | ⟨front, h, -⟩
  · rw [h]
  · rw [h]
    rcases fileName_cases child with ⟨hslash, heq⟩ | ⟨inner, heq, hslash⟩
    · rw [heq]
      exact (fileName_append hslash front).1
    · have whole : front ++ "/" ++ child = front ++ "/" ++ inner ++ "/" ++ fileName child := by
        conv_lhs => rw [heq]
        simp only [String.append_assoc]
      rw [whole]
      exact (fileName_append hslash _).1

end Path
end SymbolGraph
