import Mathlib.Data.List.Sort
import Mathlib.Data.List.TakeWhile
import SymbolGraph.Text.Blank

/-!
# Words and layout

The words of a text are its maximal runs without white space, in their order. A text in single-blank
form is determined by its words and determines them, because no word is empty or holds white space.
So layout does not count, and everything else does.
-/
namespace SymbolGraph.Text

/-! ## White space -/

/-- The code points with the Unicode property `White_Space`. -/
def whiteSpace : List Nat :=
  [0x0009, 0x000A, 0x000B, 0x000C, 0x000D, 0x0020, 0x0085, 0x00A0, 0x1680, 0x2000, 0x2001, 0x2002, 0x2003,
    0x2004, 0x2005, 0x2006, 0x2007, 0x2008, 0x2009, 0x200A, 0x2028, 0x2029, 0x202F, 0x205F, 0x3000]

def IsWhite (c : Char) : Prop := c.toNat ∈ whiteSpace

instance : DecidablePred IsWhite := fun c => inferInstanceAs (Decidable (c.toNat ∈ whiteSpace))

theorem isBlank_iff {c : Char} : isBlank c = true ↔ IsWhite c := by
  simp only [isBlank, IsWhite, whiteSpace, Bool.or_eq_true, Bool.and_eq_true, decide_eq_true_eq, beq_iff_eq,
    List.mem_cons, List.not_mem_nil, or_false]
  omega

theorem isBlank_eq_false {c : Char} : isBlank c = false ↔ ¬IsWhite c := by
  rw [← isBlank_iff, Bool.not_eq_true]

theorem not_isBlank {c : Char} : (!isBlank c) = true ↔ ¬IsWhite c := by
  rw [Bool.not_eq_true', isBlank_eq_false]

/-! ## Maximal runs -/

/-- In the text `front ++ run ++ back`, the part `run` is a maximal run without white space: on both sides of it
stands white space or an end of the text. -/
structure IsRun (front run back : List Char) : Prop where
  ne_nil : run ≠ []
  inside : ∀ c ∈ run, ¬IsWhite c
  before : ∀ c ∈ front.getLast?, IsWhite c
  behind : ∀ c ∈ back.head?, IsWhite c

/-- A maximal run of `cs` that has `start` characters before it. -/
def RunAt (cs : List Char) (start : Nat) (run : List Char) : Prop :=
  ∃ front back, cs = front ++ run ++ back ∧ front.length = start ∧ IsRun front run back

/-- All maximal runs of `cs` in their order, each with the number of characters before it. -/
structure AreRuns (cs : List Char) (runs : List (Nat × List Char)) : Prop where
  ascending : runs.Pairwise fun r s => r.1 < s.1
  mem_iff : ∀ r, r ∈ runs ↔ RunAt cs r.1 r.2

theorem AreRuns.eq {cs : List Char} {runs runs' : List (Nat × List Char)} (h : AreRuns cs runs)
    (h' : AreRuns cs runs') : runs = runs' := by
  have nodup : ∀ {l : List (Nat × List Char)}, (l.Pairwise fun r s => r.1 < s.1) → l.Nodup :=
    fun hl => hl.imp fun hlt heq => (heq ▸ hlt).false
  -- Both lists have the same members and are sorted, so they are the same list.
  have perm : runs.Perm runs' := (List.perm_ext_iff_of_nodup (nodup h.ascending) (nodup h'.ascending)).2
    fun r => (h.mem_iff r).trans (h'.mem_iff r).symm
  exact perm.eq_of_pairwise (fun r s _ _ hrs hsr => absurd hrs hsr.not_gt) h.ascending h'.ascending

theorem not_runAt_nil (start : Nat) (run : List Char) : ¬RunAt [] start run := by
  rintro ⟨front, back, text, -, h⟩
  exact h.ne_nil (List.append_eq_nil_iff.1 (List.append_eq_nil_iff.1 text.symm).1).2

theorem runAt_cons_succ {c : Char} {cs run : List Char} {start : Nat} :
    RunAt (c :: cs) (start + 1) run ↔ RunAt cs start run ∧ (start = 0 → IsWhite c) := by
  constructor
  · rintro ⟨_ | ⟨d, front⟩, back, text, hlen, h⟩
    · simp at hlen
    · obtain ⟨rfl, rfl⟩ := List.cons.inj text
      have hbefore := h.before
      rw [List.getLast?_cons] at hbefore
      refine ⟨⟨front, back, rfl, Nat.succ.inj hlen, h.ne_nil, h.inside, fun e he => ?_, h.behind⟩, ?_⟩
      · exact hbefore e (by rw [Option.mem_def.1 he]; rfl)
      · intro hstart
        obtain rfl := List.eq_nil_of_length_eq_zero ((Nat.succ.inj hlen).trans hstart)
        exact hbefore c rfl
  · rintro ⟨⟨front, back, rfl, rfl, h⟩, hwhite⟩
    refine ⟨c :: front, back, rfl, rfl, h.ne_nil, h.inside, fun e he => ?_, h.behind⟩
    rcases List.eq_nil_or_concat front with rfl | ⟨init, last, rfl⟩
    · obtain rfl : c = e := by simpa using he
      exact hwhite rfl
    · exact h.before e (by simpa [List.getLast?_cons] using he)

/-- The run at the front of a text goes on up to the first white space. -/
theorem runAt_cons_zero {c : Char} {cs run : List Char} :
    RunAt (c :: cs) 0 run ↔ ¬IsWhite c ∧ run = c :: cs.takeWhile (!isBlank ·) := by
  constructor
  · rintro ⟨front, back, text, hlen, h⟩
    obtain rfl := List.eq_nil_of_length_eq_zero hlen
    obtain ⟨d, rest, rfl⟩ := List.exists_cons_of_ne_nil h.ne_nil
    obtain ⟨rfl, rfl⟩ := List.cons.inj text
    refine ⟨h.inside c List.mem_cons_self, ?_⟩
    have stops : back.takeWhile (!isBlank ·) = [] := by
      cases back with
      | nil => rfl
      | cons e back => simp [isBlank_iff.2 (h.behind e rfl)]
    have inner : ∀ e ∈ rest, (!isBlank e) = true := fun e he =>
      not_isBlank.2 (h.inside e (List.mem_cons_of_mem c he))
    rw [List.append_eq, List.takeWhile_append_of_pos inner, stops, List.append_nil]
  · rintro ⟨hc, rfl⟩
    refine ⟨[], cs.dropWhile (!isBlank ·), by simp, rfl, List.cons_ne_nil _ _, ?_, by simp, ?_⟩
    · intro e he
      rcases List.mem_cons.1 he with rfl | he
      · exact hc
      · have passed := List.mem_takeWhile_imp he
        exact not_isBlank.1 passed
    · intro e he
      have stopped := List.head?_dropWhile_not (!isBlank ·) cs
      rw [Option.mem_def.1 he] at stopped
      simpa [isBlank_iff] using stopped

/-- A run in a text that has one more character before it. -/
def later (r : Nat × List Char) : Nat × List Char := (r.1 + 1, r.2)

/-- The maximal runs with their places, found from the front. A run right behind a character that is not
white is the rest of a longer one. -/
def runsOf : List Char → List (Nat × List Char)
  | [] => []
  | c :: cs =>
    if isBlank c then (runsOf cs).map later
    else (0, c :: cs.takeWhile (!isBlank ·)) :: ((runsOf cs).filter (0 < ·.1)).map later

theorem mem_runsOf {cs : List Char} {r : Nat × List Char} : r ∈ runsOf cs ↔ RunAt cs r.1 r.2 := by
  induction cs generalizing r with
  | nil => simpa [runsOf] using not_runAt_nil r.1 r.2
  | cons c cs ih =>
    obtain ⟨start, run⟩ := r
    by_cases hc : IsWhite c
    · rw [runsOf, if_pos (isBlank_iff.2 hc)]
      cases start with
      | zero => simp [later, runAt_cons_zero, hc]
      | succ start => simp [later, runAt_cons_succ, hc, ih]
    · rw [runsOf, if_neg (mt isBlank_iff.1 hc)]
      cases start with
      | zero => simp [later, runAt_cons_zero, hc]
      | succ start => simp [later, runAt_cons_succ, hc, ih, Nat.pos_iff_ne_zero]

theorem areRuns_runsOf (cs : List Char) : AreRuns cs (runsOf cs) := by
  refine ⟨?_, fun r => mem_runsOf⟩
  have shifted : ∀ {l : List (Nat × List Char)}, (l.Pairwise fun r s => r.1 < s.1) →
      (l.map later).Pairwise fun r s => r.1 < s.1 := fun hl =>
    List.pairwise_map.2 (hl.imp Nat.succ_lt_succ)
  induction cs with
  | nil => exact List.Pairwise.nil
  | cons c cs ih =>
    rw [runsOf]
    split
    · exact shifted ih
    · refine List.pairwise_cons.2 ⟨fun r hr => ?_, shifted (ih.filter _)⟩
      obtain ⟨r, -, rfl⟩ := List.mem_map.1 hr
      exact Nat.succ_pos r.1

/-! ## Words -/

theorem wordsOf_cons_of_white {c : Char} (h : IsWhite c) (cs : List Char) : wordsOf (c :: cs) = wordsOf cs := by
  rw [wordsOf.eq_def]
  exact if_pos (isBlank_iff.2 h)

/-- A word goes on up to the next white space. -/
theorem wordsOf_cons {c : Char} (h : ¬IsWhite c) (cs : List Char) :
    wordsOf (c :: cs) = (c :: cs.takeWhile (!isBlank ·)) :: wordsOf (cs.dropWhile (!isBlank ·)) := by
  induction cs generalizing c with
  | nil =>
    rw [wordsOf.eq_def]
    exact if_neg (mt isBlank_iff.1 h)
  | cons d cs ih =>
    rw [wordsOf.eq_def]
    dsimp only
    rw [if_neg (mt isBlank_iff.1 h)]
    by_cases hd : IsWhite d
    · simp [isBlank_iff.2 hd]
    · simp [isBlank_eq_false.2 hd, ih hd]

/-- The words are the maximal runs. Those that do not start at the front are the words behind the first
white space. -/
theorem map_runsOf (cs : List Char) :
    (runsOf cs).map Prod.snd = wordsOf cs ∧
      ((runsOf cs).filter (0 < ·.1)).map Prod.snd = wordsOf (cs.dropWhile (!isBlank ·)) := by
  -- The second half is what the induction needs behind a character that is not white.
  have kept (l : List (Nat × List Char)) : (l.map later).filter (0 < ·.1) = l.map later :=
    List.filter_eq_self.2 (List.forall_mem_map.2 fun r _ => decide_eq_true (Nat.succ_pos r.1))
  have same (l : List (Nat × List Char)) : (l.map later).map Prod.snd = l.map Prod.snd := by
    simp [later]
  induction cs with
  | nil => exact ⟨rfl, rfl⟩
  | cons c cs ih =>
    by_cases hc : IsWhite c
    · simp [runsOf, isBlank_iff.2 hc, kept, same, wordsOf_cons_of_white hc, ih.1]
    · simp [runsOf, isBlank_eq_false.2 hc, kept, same, wordsOf_cons hc, ih.2]

/-- White space parts the words before it from those behind it. -/
theorem wordsOf_append {c : Char} (h : IsWhite c) (cs ds : List Char) :
    wordsOf (cs ++ c :: ds) = wordsOf cs ++ wordsOf ds := by
  fun_induction wordsOf cs with
  | case1 => exact wordsOf_cons_of_white h ds
  | case2 a cs ha ih => rw [List.cons_append, wordsOf_cons_of_white (isBlank_iff.1 ha), ih]
  | case3 a ha =>
    rw [List.cons_append, wordsOf_cons (mt isBlank_iff.2 ha)]
    simp [isBlank_iff.2 h, wordsOf_cons_of_white h]
  | case4 a ha b cs hb ih =>
    rw [List.cons_append, List.cons_append, wordsOf.eq_def]
    dsimp only
    rw [if_neg ha, if_pos hb, ← List.cons_append, ih, List.cons_append]
  | case5 a ha b cs hb w ws hws ih =>
    rw [List.cons_append, List.cons_append, wordsOf.eq_def]
    dsimp only
    rw [if_neg ha, if_neg hb, ← List.cons_append, ih, hws]
    rfl
  | case6 a ha b cs hb hws =>
    -- A text that starts with a word has words.
    rw [wordsOf_cons (mt isBlank_iff.2 hb)] at hws
    cases hws

theorem wordsOf_append_of_white {gap : List Char} (h : ∀ c ∈ gap, IsWhite c) (cs : List Char) :
    wordsOf (gap ++ cs) = wordsOf cs := by
  induction gap with
  | nil => rfl
  | cons c gap ih =>
    rw [List.cons_append, wordsOf_cons_of_white (h c List.mem_cons_self), ih fun d hd => h d (.tail c hd)]

/-- A text of white space only. -/
def IsLayout (s : String) : Prop := ∀ c ∈ s.toList, IsWhite c

/-- A text that is one word. -/
def IsSolid (s : String) : Prop := s ≠ "" ∧ ∀ c ∈ s.toList, ¬IsWhite c

theorem words_layout_append {gap : String} (h : IsLayout gap) (s : String) : words (gap ++ s) = words s := by
  rw [words, String.toList_append, wordsOf_append_of_white h, words]

theorem words_append_layout_append {gap : String} (h : IsLayout gap) (hne : gap ≠ "") (s t : String) :
    words (s ++ gap ++ t) = words s ++ words t := by
  obtain ⟨c, cs, hgap⟩ := List.exists_cons_of_ne_nil (mt String.toList_eq_nil_iff.1 hne)
  rw [IsLayout, hgap, List.forall_mem_cons] at h
  rw [words, String.toList_append, String.toList_append, hgap, List.append_assoc, List.cons_append,
    wordsOf_append h.1, wordsOf_append_of_white h.2, List.map_append, words, words]

theorem words_append_layout {gap : String} (h : IsLayout gap) (s : String) : words (s ++ gap) = words s := by
  by_cases hne : gap = ""
  · rw [hne, String.append_empty]
  · have empty : words "" = [] := rfl
    simpa [empty] using words_append_layout_append h hne s ""

theorem isSolid_of_mem_words {s w : String} (h : w ∈ words s) : IsSolid w := by
  obtain ⟨run, hrun, rfl⟩ := List.mem_map.1 h
  rw [← (map_runsOf s.toList).1] at hrun
  obtain ⟨r, hr, rfl⟩ := List.mem_map.1 hrun
  obtain ⟨front, back, -, -, hr⟩ := mem_runsOf.1 hr
  exact ⟨by simpa using hr.ne_nil, by simpa using hr.inside⟩

theorem words_of_isSolid {s : String} (h : IsSolid s) : words s = [s] := by
  obtain ⟨c, cs, hs⟩ := List.exists_cons_of_ne_nil (mt String.toList_eq_nil_iff.1 h.1)
  have inner : ∀ d ∈ cs, (!isBlank d) = true := fun d hd =>
    not_isBlank.2 (h.2 d (hs ▸ List.mem_cons_of_mem c hd))
  have hc : ¬IsWhite c := h.2 c (hs ▸ List.mem_cons_self)
  rw [words, hs, wordsOf_cons hc, List.takeWhile_eq_self_iff.2 inner, List.dropWhile_eq_nil_iff.2 inner, ← hs]
  exact congrArg ([·]) String.ofList_toList

theorem isLayout_space : IsLayout " " := List.forall_mem_singleton.2 (by decide)

/-- Words joined by single spaces are the words of the joined text. -/
theorem words_joinWith {ws : List String} (h : ∀ w ∈ ws, IsSolid w) : words (joinWith " " ws) = ws := by
  induction ws with
  | nil => rfl
  | cons w ws ih =>
    have hw := words_of_isSolid (h w List.mem_cons_self)
    have hws := ih fun v hv => h v (List.mem_cons_of_mem w hv)
    cases ws with
    | nil => simpa [joinWith] using hw
    | cons v ws =>
      rw [joinWith, String.intercalate_cons_cons, words_append_layout_append isLayout_space (by decide), hw]
      exact congrArg (w :: ·) hws

@[simp] theorem words_singleBlank (s : String) : words (singleBlank s) = words s :=
  words_joinWith fun _ => isSolid_of_mem_words

theorem singleBlank_eq_iff {a b : String} : singleBlank a = singleBlank b ↔ words a = words b := by
  refine ⟨fun h => ?_, fun h => congrArg (joinWith " ") h⟩
  rw [← words_singleBlank a, h, words_singleBlank]

/-- The same maximal runs without white space in the same order, wherever they stand. -/
def SameRuns (a b : String) : Prop :=
  ∃ runs runs', AreRuns a.toList runs ∧ AreRuns b.toList runs' ∧ runs.map Prod.snd = runs'.map Prod.snd

theorem sameRuns_iff {a b : String} : SameRuns a b ↔ words a = words b := by
  have injective : Function.Injective (List.map String.ofList) :=
    List.map_injective_iff.2 fun _ _ => String.ofList_injective
  rw [words, words, injective.eq_iff, ← (map_runsOf a.toList).1, ← (map_runsOf b.toList).1]
  refine ⟨?_, fun h => ⟨_, _, areRuns_runsOf a.toList, areRuns_runsOf b.toList, h⟩⟩
  rintro ⟨runs, runs', ha, hb, h⟩
  rwa [ha.eq (areRuns_runsOf _), hb.eq (areRuns_runsOf _)] at h

/-- Two texts have the same single-blank form exactly when they have the same maximal runs without white
space. So the form of a form is itself, and white space around a text or in place of other white space
does not count. -/
theorem layout_alone_is_ignored (a b : String) :
    (singleBlank a = singleBlank b ↔ SameRuns a b) ∧
      singleBlank (singleBlank a) = singleBlank a ∧
      (∀ lead trail, IsLayout lead → IsLayout trail → singleBlank (lead ++ a ++ trail) = singleBlank a) ∧
      ∀ gap gap', IsLayout gap → gap ≠ "" → IsLayout gap' → gap' ≠ "" →
        singleBlank (a ++ gap ++ b) = singleBlank (a ++ gap' ++ b) := by
  refine ⟨singleBlank_eq_iff.trans sameRuns_iff.symm, singleBlank_eq_iff.2 (words_singleBlank a), ?_, ?_⟩
  · intro lead trail hlead htrail
    rw [singleBlank_eq_iff, words_append_layout htrail, words_layout_append hlead]
  · intro gap gap' h hne h' hne'
    rw [singleBlank_eq_iff, words_append_layout_append h hne, words_append_layout_append h' hne']

/-- A line break and an em space in a parameter list count like one space. -/
theorem layout_alone_is_ignored_line_break :
    IsLayout "\n\u2003" ∧ IsLayout " " ∧
      singleBlank ("(a: A," ++ "\n\u2003" ++ "b: B)") = singleBlank ("(a: A," ++ " " ++ "b: B)") := by
  have broken : IsLayout "\n\u2003" :=
    List.forall_mem_cons.2 ⟨by decide, List.forall_mem_singleton.2 (by decide)⟩
  exact ⟨broken, isLayout_space,
    (layout_alone_is_ignored "(a: A," "b: B)").2.2.2 _ _ broken (by decide) isLayout_space (by decide)⟩

end SymbolGraph.Text
