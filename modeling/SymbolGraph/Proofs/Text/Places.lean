import Mathlib.Data.List.DropRight
import SymbolGraph.Text.Place

/-!
# Places and offsets

The offset of a place is found by counting line feeds, then characters. It lies between two characters
whatever the place, and from the line and column of a boundary it is that boundary. So the text between
two places never starts or ends inside a character.
-/
namespace SymbolGraph.Text

/-! ## Bytes -/

@[simp] theorem byteSize_append (cs ds : List Char) : byteSize (cs ++ ds) = byteSize cs + byteSize ds := by
  induction cs with
  | nil => simp [byteSize]
  | cons c cs ih => simp [byteSize, ih, Nat.add_assoc]

theorem utf8ByteSize_eq (s : String) : s.utf8ByteSize = byteSize s.toList := by
  have sizes (cs : List Char) : (String.ofList cs).utf8ByteSize = byteSize cs := by
    induction cs with
    | nil => rfl
    | cons c cs ih => simp [byteSize, String.ofList_cons, ih]
  simpa using sizes s.toList

/-- Cutting at the bytes of a front part gives that part and the rest. -/
theorem splitAtByte?_append (front rest : List Char) :
    splitAtByte? (byteSize front) (front ++ rest) = some (front, rest) := by
  induction front with
  | nil => simp [byteSize, splitAtByte?]
  | cons c front ih =>
    obtain ⟨n, hn⟩ := Nat.exists_eq_succ_of_ne_zero (Nat.pos_iff_ne_zero.1 c.utf8Size_pos)
    have hsize : byteSize (c :: front) = n + byteSize front + 1 := by rw [byteSize, hn]; omega
    rw [hsize, List.cons_append, splitAtByte?, if_pos (by omega)]
    rw [show n + byteSize front + 1 - c.utf8Size = byteSize front by omega, ih]
    rfl

theorem sliceBytes?_append (front middle rest : List Char) :
    sliceBytes? (front ++ (middle ++ rest)) (byteSize front) (byteSize (front ++ middle)) = some middle := by
  simp [sliceBytes?, splitAtByte?_append]

/-! ## Lines -/

/-- The place behind `front`: one line more than it has line feeds, and as many columns as it has
characters behind the last of them. -/
def Place.behind (front : List Char) : Place :=
  ⟨front.count '\n' + 1, (front.rtakeWhile (· ≠ '\n')).length⟩

/-- A text of `n` lines, each with its line feed. -/
structure AreLines (n : Nat) (front : List Char) : Prop where
  count : front.count '\n' = n
  last : ∀ c ∈ front.getLast?, c = '\n'

/-- Lines are read character by character, with one line fewer to read behind a line feed. -/
theorem AreLines.tail {n : Nat} {c : Char} {front : List Char} (h : AreLines n (c :: front)) :
    ∃ k, n = k + 1 ∧ AreLines (if c = '\n' then k else k + 1) front := by
  have hlast := h.last
  rw [List.getLast?_cons] at hlast
  have hcount := h.count
  rw [List.count_cons] at hcount
  have inner : ∀ d ∈ front.getLast?, d = '\n' := fun d hd => hlast d (by rw [Option.mem_def.1 hd]; rfl)
  by_cases hc : c = '\n'
  · rw [if_pos (by simp [hc])] at hcount
    exact ⟨front.count '\n', hcount.symm, (if_pos hc).symm, inner⟩
  · -- The text ends with a line feed that is not its first character.
    have ends : front.getLast? = some '\n' := by
      cases hfront : front.getLast? with
      | none => exact absurd (hlast c (by rw [hfront]; rfl)) hc
      | some d => rw [inner d hfront]
    obtain ⟨k, hk⟩ := Nat.exists_eq_succ_of_ne_zero
      (List.count_pos_iff.2 (List.mem_of_getLast? ends)).ne'
    rw [if_neg (by simp [hc]), Nat.add_zero] at hcount
    exact ⟨k, hcount.symm.trans hk, hk.trans (if_neg hc).symm, inner⟩

theorem afterLines_append {n : Nat} {front : List Char} (h : AreLines n front) (rest : List Char) :
    afterLines n (front ++ rest) = some (byteSize front, rest) := by
  induction front generalizing n with
  | nil =>
    obtain rfl : 0 = n := h.count
    simp [afterLines, byteSize]
  | cons c front ih =>
    obtain ⟨k, rfl, htail⟩ := h.tail
    rw [List.cons_append, afterLines, ih htail]
    rfl

theorem exists_front_of_afterLines {n m : Nat} {cs rest : List Char} (h : afterLines n cs = some (m, rest)) :
    ∃ front, cs = front ++ rest ∧ m = byteSize front := by
  fun_induction afterLines n cs generalizing m rest with
  | case1 cs =>
    obtain ⟨rfl, rfl⟩ := Prod.mk.inj (Option.some.inj h)
    exact ⟨[], rfl, rfl⟩
  | case2 => cases h
  | case3 n c cs ih =>
    obtain ⟨⟨before, tail⟩, htail, h⟩ := Option.bind_eq_some_iff.1 h
    obtain ⟨rfl, rfl⟩ := Prod.mk.inj (Option.some.inj h)
    obtain ⟨front, rfl, rfl⟩ := ih htail
    exact ⟨c :: front, rfl, rfl⟩

/-- Without its last, unfinished line a text is made of whole lines. -/
theorem areLines_rdropWhile (front : List Char) :
    AreLines (front.count '\n') (front.rdropWhile (· ≠ '\n')) := by
  constructor
  · have unfinished : (front.rtakeWhile (· ≠ '\n')).count '\n' = 0 :=
      List.count_eq_zero.2 fun h => by simpa using List.mem_rtakeWhile_imp h
    have parts := congrArg (List.count '\n') (List.rdropWhile_append_rtakeWhile (p := (· ≠ '\n')) (l := front))
    rwa [List.count_append, unfinished] at parts
  · intro c hc
    obtain ⟨hne, rfl⟩ := List.mem_getLast?_eq_getLast hc
    simpa using List.rdropWhile_last_not _ front hne

theorem byteOffset?_behind (front rest : List Char) :
    byteOffset? (front ++ rest) (.behind front) = some (byteSize front) := by
  have parts := List.rdropWhile_append_rtakeWhile (p := (· ≠ '\n')) (l := front)
  have found := afterLines_append (areLines_rdropWhile front) (front.rtakeWhile (· ≠ '\n') ++ rest)
  rw [← List.append_assoc, parts] at found
  simp only [byteOffset?, Place.behind, Nat.add_sub_cancel, found, Option.bind_eq_bind, Option.bind_some,
    List.take_left, Option.pure_def]
  rw [← byteSize_append, parts]

theorem exists_front_of_byteOffset? {cs : List Char} {place : Place} {n : Nat}
    (h : byteOffset? cs place = some n) : ∃ front rest, cs = front ++ rest ∧ n = byteSize front := by
  obtain ⟨⟨before, rest⟩, hlines, h⟩ := Option.bind_eq_some_iff.1 h
  obtain rfl := Option.some.inj h
  obtain ⟨lines, rfl, rfl⟩ := exists_front_of_afterLines hlines
  refine ⟨lines ++ rest.take place.column, rest.drop place.column, ?_, (byteSize_append _ _).symm⟩
  rw [List.append_assoc, List.take_append_drop]

/-! ## Boundaries of a text -/

/-- The place of a boundary, counted in the text before it. -/
def Place.ofPos {content : String} (i : content.Pos) : Place := .behind (content.sliceTo i).copy.toList

theorem toList_of_splits {content front rest : String} {i : content.Pos} (h : i.Splits front rest) :
    content.toList = front.toList ++ rest.toList := by
  rw [h.eq_append, String.toList_append]

theorem byteIdx_of_splits {content front rest : String} {i : content.Pos} (h : i.Splits front rest) :
    i.offset.byteIdx = byteSize front.toList := by
  rw [h.offset_eq_rawEndPos, String.byteIdx_rawEndPos, utf8ByteSize_eq]

theorem byteOffset?_ofPos {content : String} (i : content.Pos) :
    byteOffset? content.toList (.ofPos i) = some i.offset.byteIdx := by
  rw [byteIdx_of_splits i.splits, toList_of_splits i.splits]
  exact byteOffset?_behind _ _

theorem exists_pos_of_byteOffset? {content : String} {place : Place} {n : Nat}
    (h : byteOffset? content.toList place = some n) : ∃ i : content.Pos, i.offset.byteIdx = n := by
  obtain ⟨front, rest, htext, rfl⟩ := exists_front_of_byteOffset? h
  have text : content = String.ofList front ++ String.ofList rest := by
    rw [← String.ofList_append, ← htext, String.ofList_toList]
  refine ⟨String.Pos.ofEqAppend text, ?_⟩
  rw [byteIdx_of_splits (String.Pos.splits_ofEqAppend text), String.toList_ofList]

theorem sliceBytes?_pos {content : String} {i j : content.Pos} (h : i ≤ j) :
    sliceBytes? content.toList i.offset.byteIdx j.offset.byteIdx = some (content.extract i j).toList := by
  obtain ⟨front, rest, hi, hj⟩ :=
    String.copy_slice_eq_iff_splits.1 ⟨h, (String.extract_eq_copy_slice i j h).symm⟩
  rw [byteIdx_of_splits hi, byteIdx_of_splits hj, toList_of_splits hi, String.toList_append,
    String.toList_append, sliceBytes?_append]

theorem textBetween?_of_le {content : String} {start stop : Place} {i j : content.Pos} (h : i ≤ j)
    (hstart : byteOffset? content.toList start = some i.offset.byteIdx)
    (hstop : byteOffset? content.toList stop = some j.offset.byteIdx) :
    textBetween? content start stop = some (singleBlank (content.extract i j)) := by
  have ordered : i.offset.byteIdx ≤ j.offset.byteIdx := h
  simp [textBetween?, hstart, hstop, ordered, sliceBytes?_pos h]

theorem textBetween?_eq_none {content : String} {start stop : Place}
    (h : ∀ m n, byteOffset? content.toList start = some m →
      byteOffset? content.toList stop = some n → n < m) :
    textBetween? content start stop = none := by
  rw [textBetween?, Option.bind_eq_bind, Option.bind_eq_none_iff]
  intro m hm
  rw [Option.bind_eq_bind, Option.bind_eq_none_iff]
  intro n hn
  exact if_neg (Nat.not_le.2 (h m n hm hn))

/-- The offset of the place of a boundary is that boundary. Between two places there is either no text, because
one of them has no offset or they stand in the other order, or a text cut at two boundaries. -/
theorem offsets_are_boundaries (content : String) (i : content.Pos) (start stop : Place) :
    byteOffset? content.toList (.ofPos i) = some i.offset.byteIdx ∧
      ((textBetween? content start stop = none ∧
          ∀ m n, byteOffset? content.toList start = some m →
            byteOffset? content.toList stop = some n → n < m) ∨
        ∃ p q : content.Pos, p ≤ q ∧
          byteOffset? content.toList start = some p.offset.byteIdx ∧
          byteOffset? content.toList stop = some q.offset.byteIdx ∧
          textBetween? content start stop = some (singleBlank (content.extract p q))) := by
  refine ⟨byteOffset?_ofPos i, ?_⟩
  by_cases h : ∀ m n, byteOffset? content.toList start = some m →
      byteOffset? content.toList stop = some n → n < m
  · exact .inl ⟨textBetween?_eq_none h, h⟩
  · -- Both offsets exist here, and every offset is a boundary.
    push Not at h
    obtain ⟨m, n, hm, hn, hle⟩ := h
    obtain ⟨p, rfl⟩ := exists_pos_of_byteOffset? hm
    obtain ⟨q, rfl⟩ := exists_pos_of_byteOffset? hn
    exact .inr ⟨p, q, hle, hm, hn, textBetween?_of_le hle hm hn⟩

/-- A letter of two bytes counts as one column. -/
example : byteOffset? "fn a()\nfn é()\n".toList ⟨2, 4⟩ = some 12 := by decide

end SymbolGraph.Text
