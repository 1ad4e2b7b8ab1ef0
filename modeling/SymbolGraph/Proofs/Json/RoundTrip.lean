import SymbolGraph.Json.Printer
import SymbolGraph.Json.Reader
import Mathlib.Data.List.Basic
import Mathlib.Data.List.TakeDrop

/-!
# Reading back what was written

`Spells cs j` says that the characters `cs` write the value `j`, with any blanks where the format
allows them. The reader takes such a text back to `j` whatever follows it, and the indented and the
compact form of a value spell it as long as the value holds neither fractions nor halves of surrogate
pairs.
-/
namespace SymbolGraph.Json

/-! ## Blanks -/

/-- Characters that stand between two parts of a value. -/
def Gap (g : List Char) : Prop := ∀ c ∈ g, isGap c = true

theorem gap_nil : Gap [] := fun _ h => absurd h List.not_mem_nil

theorem gap_blank : Gap [' '] := by
  intro c hc
  obtain rfl := List.mem_singleton.1 hc
  decide

theorem gap_lineBreak (level : Nat) : Gap (lineBreak level) := by
  intro c hc
  rcases List.mem_cons.1 hc with rfl | hc
  · decide
  · obtain rfl := List.eq_of_mem_replicate hc
    decide

theorem skipGap_append {g : List Char} (hg : Gap g) {c : Char} (hc : isGap c = false)
    (cs : List Char) : skipGap (g ++ c :: cs) = c :: cs := by
  rw [skipGap, List.dropWhile_append_of_pos hg, List.dropWhile_cons_of_neg (by simp [hc])]

theorem skipGap_cons {c : Char} (hc : isGap c = false) (cs : List Char) :
    skipGap (c :: cs) = c :: cs :=
  skipGap_append gap_nil hc cs

/-! ## Texts -/

/-- The control characters without an escape of their own. -/
theorem hex4?_control :
    ∀ n < 0x20, hex4? '0' '0' (hexDigit (n / 16)) (hexDigit (n % 16)) = some n := by
  decide

theorem textBody_escapeChar (c : Char) (acc : List Char) (fuel : Nat) (rest : List Char) :
    textBody true acc (fuel + 1) (escapeChar c ++ rest) = textBody true (c :: acc) fuel rest := by
  unfold escapeChar
  split_ifs with h₁ h₂ h₃ h₄ h₅ h₆ h₇ h₈
  · subst h₁; rfl
  · subst h₂; rfl
  · subst h₃; rfl
  · subst h₄; rfl
  · subst h₅; rfl
  · subst h₆; rfl
  · subst h₇; rfl
  · have lead : isLead c.toNat = false := by simp [isLead]; omega
    have trail : isTrail c.toNat = false := by simp [isTrail]; omega
    simp [textBody, hex4?_control _ h₈, lead, trail, Char.ofNat_toNat]
  · simp [textBody, h₂, h₈]

theorem escapeChar_ne_nil (c : Char) : escapeChar c ≠ [] := by
  unfold escapeChar
  split_ifs <;> simp

theorem textBody_escaped (s acc : List Char) {fuel : Nat}
    (hfuel : (s.flatMap escapeChar).length < fuel) (rest : List Char) :
    textBody true acc fuel (s.flatMap escapeChar ++ '"' :: rest) =
      some (some (String.ofList (acc.reverse ++ s)), rest) := by
  induction s generalizing acc fuel with
  | nil =>
    obtain ⟨fuel, rfl⟩ : ∃ f, fuel = f + 1 := ⟨fuel - 1, by simp at hfuel; omega⟩
    simp [textBody]
  | cons c s ih =>
    have one : 0 < (escapeChar c).length := List.length_pos_iff.2 (escapeChar_ne_nil c)
    rw [List.flatMap_cons, List.length_append] at hfuel
    obtain ⟨fuel, rfl⟩ : ∃ f, fuel = f + 1 := ⟨fuel - 1, by omega⟩
    rw [List.flatMap_cons, List.append_assoc, textBody_escapeChar, ih (c :: acc) (by omega)]
    simp

/-- A quoted text is read back, whatever follows it. -/
theorem textBody_quoted (s : String) (rest : List Char) :
    textBody true [] ((s.toList.flatMap escapeChar ++ '"' :: rest).length + 1)
      (s.toList.flatMap escapeChar ++ '"' :: rest) = some (some s, rest) := by
  rw [textBody_escaped s.toList [] (by simp only [List.length_append]; omega)]
  simp

/-! ## Integers -/

/-- What follows does not go on with a number. -/
def Ends (rest : List Char) : Prop :=
  ∀ c ∈ rest.head?, c.isDigit = false ∧ c ≠ '.' ∧ c ≠ 'e' ∧ c ≠ 'E'

theorem digitsValue_toDigits (n : Nat) : digitsValue (Nat.toDigits 10 n) = n := by
  have h := Nat.ofDigitChars_ten_toDigits (n := n)
  rw [Nat.ofDigitChars_eq_foldl] at h
  simpa only [digitsValue, Nat.mul_comm] using h

theorem takeDigits_toDigits (n : Nat) {rest : List Char} (hrest : Ends rest) :
    takeDigits (Nat.toDigits 10 n ++ rest) = (Nat.toDigits 10 n, rest) := by
  have digits : ∀ c ∈ Nat.toDigits 10 n, c.isDigit = true := fun c hc =>
    Nat.isDigit_of_mem_toDigits (by decide) (by decide) hc
  rw [takeDigits, List.span_eq_takeWhile_dropWhile, List.takeWhile_append_of_pos digits,
    List.dropWhile_append_of_pos digits]
  cases rest with
  | nil => simp
  | cons c rest =>
    have hc : c.isDigit = false := (hrest c rfl).1
    simp [hc]

/-- No superfluous zero stands in front. -/
theorem head?_toDigits (n : Nat) (h : 1 < (Nat.toDigits 10 n).length) :
    (Nat.toDigits 10 n).head? ≠ some '0' := by
  induction n using Nat.strongRecOn with
  | ind n ih =>
    rcases Nat.lt_or_ge n 10 with small | large
    · simp [Nat.toDigits_of_lt_base small] at h
    · rw [Nat.toDigits_of_base_le (by decide) large, List.head?_append_of_ne_nil _ Nat.toDigits_ne_nil]
      rcases Nat.lt_or_ge (n / 10) 10 with one | more
      · rw [Nat.toDigits_of_lt_base one]
        simp
        omega
      · refine ih _ (by omega) ?_
        rw [Nat.toDigits_of_base_le (by decide) more, List.length_append]
        have : 0 < (Nat.toDigits 10 (n / 10 / 10)).length := Nat.length_toDigits_pos
        simp
        omega

theorem exponentPart_of_ends {rest : List Char} (hrest : Ends rest) :
    exponentPart rest = some (none, rest) := by
  cases rest with
  | nil => rfl
  | cons c rest =>
    obtain ⟨-, -, he, hE⟩ := hrest c rfl
    simp [exponentPart, he, hE]

/-- The whole part of a number, behind its sign. -/
theorem wellFormed_toDigits (n : Nat) :
    ((Nat.toDigits 10 n).isEmpty ||
      ((Nat.toDigits 10 n).length > 1 && (Nat.toDigits 10 n).head? == some '0')) = false := by
  have filled : (Nat.toDigits 10 n).isEmpty = false := by simp [Nat.toDigits_ne_nil]
  rw [filled, Bool.false_or, Bool.and_eq_false_iff]
  by_cases h : (Nat.toDigits 10 n).length > 1
  · exact Or.inr (by simpa using head?_toDigits n h)
  · exact Or.inl (by simpa using h)

theorem numberAt_negative {n : Nat} (hn : n ≠ 0) {rest : List Char} (hrest : Ends rest) :
    numberAt ('-' :: (Nat.toDigits 10 n ++ rest)) = some (.integer (-(n : Int)), rest) := by
  unfold numberAt
  simp only [takeDigits_toDigits n hrest, wellFormed_toDigits, digitsValue_toDigits]
  cases rest with
  | nil => simp [exponentPart, hn]
  | cons c rest =>
    have point : c ≠ '.' := (hrest c rfl).2.1
    simp [point, exponentPart_of_ends hrest, hn]

/-- A number without a sign starts with a digit. -/
theorem toDigits_eq_cons (n : Nat) :
    ∃ d ds, Nat.toDigits 10 n = d :: ds ∧ d.isDigit = true := by
  obtain ⟨d, ds, h⟩ := List.exists_cons_of_ne_nil (Nat.toDigits_ne_nil (n := n) (b := 10))
  refine ⟨d, ds, h, Nat.isDigit_of_mem_toDigits (b := 10) (n := n) (by decide) (by decide) ?_⟩
  rw [h]
  exact List.mem_cons_self

theorem numberAt_natural (n : Nat) {rest : List Char} (hrest : Ends rest) :
    numberAt (Nat.toDigits 10 n ++ rest) = some (.integer n, rest) := by
  obtain ⟨d, ds, h, hd⟩ := toDigits_eq_cons n
  have sign : d ≠ '-' := by rintro rfl; simp at hd
  have taken := takeDigits_toDigits n hrest
  have form := wellFormed_toDigits n
  have value := digitsValue_toDigits n
  rw [h] at taken form value ⊢
  rw [List.cons_append] at taken ⊢
  unfold numberAt
  split
  rename_i signed
  split at signed
  · rename_i minus
    exact absurd (List.cons.inj minus).1 sign
  cases signed
  simp only [taken, form, value]
  cases rest with
  | nil => simp [exponentPart]
  | cons c rest =>
    have point : c ≠ '.' := (hrest c rfl).2.1
    simp [point, exponentPart_of_ends hrest]

theorem numberAt_integer (i : Int) {rest : List Char} (hrest : Ends rest) :
    numberAt (numberText (.integer i) ++ rest) = some (.integer i, rest) := by
  simp only [numberText]
  split_ifs with h
  · have value : -(i.natAbs : Int) = i := by omega
    rw [List.singleton_append, List.cons_append, numberAt_negative (by omega) hrest, value]
  · have value : (i.natAbs : Int) = i := by omega
    rw [List.nil_append, numberAt_natural _ hrest, value]

/-! ## The format -/

mutual

/-- The characters of a value, without blanks in front of it or behind it. -/
inductive Spells : List Char → Json → Prop
  | null : Spells "null".toList .null
  | bool_true : Spells "true".toList (.bool true)
  | bool_false : Spells "false".toList (.bool false)
  | integer (i : Int) : Spells (numberText (.integer i)) (.number (.integer i))
  | string (s : String) : Spells (quote s) (.string s)
  | empty_array {g : List Char} : Gap g → Spells ('[' :: (g ++ [']'])) (.array [])
  | array {g cs : List Char} {items : List Json} :
      Gap g → SpellsItems cs items → Spells ('[' :: (g ++ cs)) (.array items)
  | empty_object {g : List Char} : Gap g → Spells ('\x7b' :: (g ++ ['\x7d'])) (.object [])
  | object {g cs : List Char} {members : List (String × Json)} :
      Gap g → SpellsMembers cs members → Spells ('\x7b' :: (g ++ cs)) (.object members)

/-- The items of an array that has some, up to the closing bracket. -/
inductive SpellsItems : List Char → List Json → Prop
  | last {v g : List Char} {j : Json} : Spells v j → Gap g → SpellsItems (v ++ (g ++ [']'])) [j]
  | more {v g g' cs : List Char} {j : Json} {items : List Json} :
      Spells v j → Gap g → Gap g' → SpellsItems cs items →
        SpellsItems (v ++ (g ++ ',' :: (g' ++ cs))) (j :: items)

/-- The members of an object that has some, up to the closing brace. -/
inductive SpellsMembers : List Char → List (String × Json) → Prop
  | last {name : String} {v g g' : List Char} {j : Json} :
      Gap g → Spells v j → Gap g' →
        SpellsMembers (quote name ++ ':' :: (g ++ (v ++ (g' ++ ['\x7d'])))) [(name, j)]
  | more {name : String} {v g g' g'' cs : List Char} {j : Json} {members : List (String × Json)} :
      Gap g → Spells v j → Gap g' → Gap g'' → SpellsMembers cs members →
        SpellsMembers (quote name ++ ':' :: (g ++ (v ++ (g' ++ ',' :: (g'' ++ cs)))))
          ((name, j) :: members)

end

/-! ## Completeness of the reader -/

/-- Behind a value stands a blank, a comma or a closing bracket, none of which goes on with it. -/
theorem ends_gap_append {g : List Char} (hg : Gap g) {c : Char} (hc : c ∈ [',', ']', '\x7d'])
    (cs : List Char) : Ends (g ++ c :: cs) := by
  intro d hd
  cases g with
  | nil =>
    obtain rfl : c = d := by simpa using hd
    revert hc
    simp only [List.mem_cons, List.not_mem_nil, or_false]
    rintro (rfl | rfl | rfl) <;> decide
  | cons b g =>
    obtain rfl : b = d := by simpa using hd
    have hb : isGap b = true := hg b List.mem_cons_self
    simp only [isGap, Bool.or_eq_true, beq_iff_eq] at hb
    rcases hb with ((rfl | rfl) | rfl) | rfl <;> decide

/-- The first character of a value tells it from a blank and from a closing bracket. -/
theorem Spells.starts {cs : List Char} {j : Json} (h : Spells cs j) :
    ∃ c rest, cs = c :: rest ∧ isGap c = false ∧ c ≠ ']' := by
  cases h with
  | integer i =>
    obtain ⟨d, ds, hn, hd⟩ := toDigits_eq_cons i.natAbs
    simp only [numberText, hn]
    split_ifs
    · exact ⟨'-', d :: ds, rfl, by decide, by decide⟩
    · refine ⟨d, ds, rfl, ?_, ?_⟩
      · by_contra gap
        simp only [isGap, Bool.not_eq_false, Bool.or_eq_true, beq_iff_eq] at gap
        rcases gap with ((rfl | rfl) | rfl) | rfl <;> simp at hd
      · rintro rfl
        simp at hd
  | null => exact ⟨_, _, rfl, by decide, by decide⟩
  | bool_true => exact ⟨_, _, rfl, by decide, by decide⟩
  | bool_false => exact ⟨_, _, rfl, by decide, by decide⟩
  | string s => exact ⟨_, _, rfl, by decide, by decide⟩
  | empty_array => exact ⟨_, _, rfl, by decide, by decide⟩
  | array => exact ⟨_, _, rfl, by decide, by decide⟩
  | empty_object => exact ⟨_, _, rfl, by decide, by decide⟩
  | object => exact ⟨_, _, rfl, by decide, by decide⟩

theorem valueAt_integer (i : Int) {g rest : List Char} (hg : Gap g) (hrest : Ends rest) (fuel : Nat) :
    valueAt (fuel + 1) (g ++ (numberText (.integer i) ++ rest)) =
      some (.number (.integer i), rest) := by
  have number := numberAt_integer i hrest
  obtain ⟨c, ds, h, hc⟩ : ∃ c ds, numberText (.integer i) = c :: ds ∧ (c = '-' ∨ c.isDigit = true) := by
    obtain ⟨d, ds, hn, hd⟩ := toDigits_eq_cons i.natAbs
    simp only [numberText, hn]
    split_ifs
    · exact ⟨'-', d :: ds, rfl, Or.inl rfl⟩
    · exact ⟨d, ds, rfl, Or.inr hd⟩
  have other : ∀ d ∈ [' ', '\n', '\t', '\r', '"', '[', '\x7b', 't', 'f', 'n'], c ≠ d := by
    rintro d hd rfl
    revert hc hd
    simp only [List.mem_cons, List.not_mem_nil, or_false]
    rintro h' (rfl | rfl | rfl | rfl | rfl | rfl | rfl | rfl | rfl | rfl) <;> revert h' <;> decide
  simp only [List.mem_cons, List.not_mem_nil, or_false, forall_eq_or_imp, forall_eq] at other
  rw [h, List.cons_append] at number ⊢
  rw [valueAt.eq_def]
  simp only
  rw [skipGap_append hg (by simp [isGap, other])]
  split <;> simp_all

theorem SpellsItems.starts {cs : List Char} {items : List Json} (h : SpellsItems cs items) :
    ∃ c rest, cs = c :: rest ∧ isGap c = false ∧ c ≠ ']' := by
  cases h with
  | last hv =>
    obtain ⟨c, rest, rfl, hc⟩ := hv.starts
    exact ⟨c, _, rfl, hc⟩
  | more hv =>
    obtain ⟨c, rest, rfl, hc⟩ := hv.starts
    exact ⟨c, _, rfl, hc⟩

theorem SpellsMembers.starts {cs : List Char} {members : List (String × Json)}
    (h : SpellsMembers cs members) : ∃ rest, cs = '"' :: rest := by
  cases h <;> exact ⟨_, rfl⟩

mutual

theorem valueAt_spells {cs : List Char} {j : Json} (h : Spells cs j) {g : List Char} (hg : Gap g)
    {rest : List Char} (hrest : Ends rest) {fuel : Nat} (hfuel : cs.length < fuel) :
    valueAt fuel (g ++ (cs ++ rest)) = some (j, rest) := by
  obtain ⟨fuel, rfl⟩ : ∃ f, fuel = f + 1 := ⟨fuel - 1, by omega⟩
  match h with
  | .null =>
    change valueAt (fuel + 1) (g ++ 'n' :: 'u' :: 'l' :: 'l' :: rest) = _
    rw [valueAt, skipGap_append hg (by decide)]
    rfl
  | .bool_true =>
    change valueAt (fuel + 1) (g ++ 't' :: 'r' :: 'u' :: 'e' :: rest) = _
    rw [valueAt, skipGap_append hg (by decide)]
    rfl
  | .bool_false =>
    change valueAt (fuel + 1) (g ++ 'f' :: 'a' :: 'l' :: 's' :: 'e' :: rest) = _
    rw [valueAt, skipGap_append hg (by decide)]
    rfl
  | .integer i => exact valueAt_integer i hg hrest fuel
  | .string s =>
    rw [quote, List.cons_append, List.cons_append, List.append_assoc, List.singleton_append,
      valueAt, skipGap_append hg (by decide)]
    simp only [textBody_quoted]
  | .empty_array hg' =>
    rw [List.cons_append, List.append_assoc, List.singleton_append, valueAt,
      skipGap_append hg (by decide)]
    simp only [skipGap_append hg' (show isGap ']' = false by decide)]
  | .array hg' items =>
    simp only [List.length_cons, List.length_append] at hfuel
    have read := itemsAt_spells items gap_nil rest (show _ < fuel by omega)
    obtain ⟨c, tail, rfl, gap, close⟩ := items.starts
    rw [List.cons_append, List.append_assoc, List.cons_append, valueAt,
      skipGap_append hg (by decide)]
    simp only [skipGap_append hg' gap]
    simp_all
  | .empty_object hg' =>
    rw [List.cons_append, List.append_assoc, List.singleton_append, valueAt,
      skipGap_append hg (by decide)]
    simp only [skipGap_append hg' (show isGap '\x7d' = false by decide)]
  | .object hg' members =>
    simp only [List.length_cons, List.length_append] at hfuel
    have read := membersAt_spells members gap_nil rest (show _ < fuel by omega)
    obtain ⟨tail, rfl⟩ := members.starts
    rw [List.cons_append, List.append_assoc, List.cons_append, valueAt,
      skipGap_append hg (by decide)]
    simp only [skipGap_append hg' (show isGap '"' = false by decide)]
    simp_all

theorem itemsAt_spells {cs : List Char} {items : List Json} (h : SpellsItems cs items)
    {g : List Char} (hg : Gap g) (rest : List Char) {fuel : Nat} (hfuel : cs.length < fuel) :
    itemsAt fuel (g ++ (cs ++ rest)) = some (items, rest) := by
  obtain ⟨fuel, rfl⟩ : ∃ f, fuel = f + 1 := ⟨fuel - 1, by omega⟩
  match h with
  | .last hv hg' =>
    simp only [List.length_append, List.length_cons] at hfuel
    rw [itemsAt, List.append_assoc, List.append_assoc, List.singleton_append,
      valueAt_spells hv hg (ends_gap_append hg' (by simp) rest) (by omega)]
    simp only [skipGap_append hg' (show isGap ']' = false by decide)]
  | .more hv hg₁ hg₂ items =>
    simp only [List.length_append, List.length_cons] at hfuel
    rw [itemsAt, List.append_assoc, List.append_assoc, List.cons_append,
      valueAt_spells hv hg (ends_gap_append hg₁ (by simp) _) (by omega)]
    simp only [skipGap_append hg₁ (show isGap ',' = false by decide)]
    rw [List.append_assoc, itemsAt_spells items hg₂ rest (by omega)]

theorem membersAt_spells {cs : List Char} {members : List (String × Json)}
    (h : SpellsMembers cs members) {g : List Char} (hg : Gap g) (rest : List Char) {fuel : Nat}
    (hfuel : cs.length < fuel) :
    membersAt fuel (g ++ (cs ++ rest)) = some (some members, rest) := by
  obtain ⟨fuel, rfl⟩ : ∃ f, fuel = f + 1 := ⟨fuel - 1, by omega⟩
  match h with
  | .last hg₁ hv hg₂ =>
    simp only [List.length_append, List.length_cons] at hfuel
    rw [membersAt, quote]
    simp only [List.append_assoc, List.cons_append, List.nil_append]
    rw [skipGap_append hg (by decide)]
    simp only [textBody_quoted, skipGap_cons (show isGap ':' = false by decide)]
    rw [valueAt_spells hv hg₁ (ends_gap_append hg₂ (by simp) rest) (by omega)]
    simp only [skipGap_append hg₂ (show isGap '\x7d' = false by decide)]
    rfl
  | .more hg₁ hv hg₂ hg₃ members =>
    simp only [List.length_append, List.length_cons] at hfuel
    rw [membersAt, quote]
    simp only [List.append_assoc, List.cons_append, List.nil_append]
    rw [skipGap_append hg (by decide)]
    simp only [textBody_quoted, skipGap_cons (show isGap ':' = false by decide)]
    rw [valueAt_spells hv hg₁ (ends_gap_append hg₂ (by simp) _) (by omega)]
    simp only [skipGap_append hg₂ (show isGap ',' = false by decide)]
    rw [membersAt_spells members hg₃ rest (by omega)]
    rfl

end

/-- A spelled value is what a text with nothing but blanks around it is read as. -/
theorem read?_spells {cs : List Char} {j : Json} (h : Spells cs j) :
    read? (String.ofList cs) = some j := by
  have ends : Ends [] := by simp [Ends]
  have value := valueAt_spells h gap_nil ends (Nat.lt_succ_self cs.length)
  rw [List.nil_append, List.append_nil] at value
  simp [read?, value, skipGap]

/-! ## The indented and the compact form -/

mutual

/-- A value without fractions and without halves of surrogate pairs. -/
def Plain : Json → Prop
  | .null | .bool _ | .string _ | .number (.integer _) => True
  | .number (.decimal _) | .unpaired => False
  | .array items => PlainItems items
  | .object members => PlainMembers members

def PlainItems : List Json → Prop
  | [] => True
  | j :: items => Plain j ∧ PlainItems items

def PlainMembers : List (String × Json) → Prop
  | [] => True
  | (_, j) :: members => Plain j ∧ PlainMembers members

end

theorem plainItems_iff {items : List Json} : PlainItems items ↔ ∀ j ∈ items, Plain j := by
  induction items with
  | nil => simp [PlainItems]
  | cons j items ih => simp [PlainItems, ih]

mutual

theorem spells_prettyChars (level : Nat) (j : Json) (h : Plain j) : Spells (prettyChars level j) j := by
  match j with
  | .null => exact .null
  | .bool true => exact .bool_true
  | .bool false => exact .bool_false
  | .number (.integer i) => exact .integer i
  | .string s => exact .string s
  | .array [] => exact .empty_array gap_nil
  | .array (j :: items) =>
    have inner := spells_prettyItems (level + 1) (j :: items) (by simp) h (gap_lineBreak level)
    simpa [prettyChars] using Spells.array (gap_lineBreak (level + 1)) inner
  | .object [] => exact .empty_object gap_nil
  | .object (m :: members) =>
    have inner := spells_prettyMembers (level + 1) (m :: members) (by simp) h (gap_lineBreak level)
    simpa [prettyChars] using Spells.object (gap_lineBreak (level + 1)) inner

theorem spells_prettyItems (level : Nat) (items : List Json) (filled : items ≠ [])
    (h : PlainItems items) {g : List Char} (hg : Gap g) :
    SpellsItems (prettyItems level items ++ (g ++ [']'])) items := by
  match items with
  | [j] => exact .last (spells_prettyChars level j h.1) hg
  | j :: j' :: items =>
    have rest := spells_prettyItems level (j' :: items) (by simp) h.2 hg
    simpa [prettyItems] using
      SpellsItems.more (spells_prettyChars level j h.1) gap_nil (gap_lineBreak level) rest

theorem spells_prettyMembers (level : Nat) (members : List (String × Json)) (filled : members ≠ [])
    (h : PlainMembers members) {g : List Char} (hg : Gap g) :
    SpellsMembers (prettyMembers level members ++ (g ++ ['\x7d'])) members := by
  match members with
  | [(name, j)] =>
    simpa [prettyMembers] using SpellsMembers.last gap_blank (spells_prettyChars level j h.1) hg
  | (name, j) :: m :: members =>
    have rest := spells_prettyMembers level (m :: members) (by simp) h.2 hg
    simpa [prettyMembers] using SpellsMembers.more gap_blank (spells_prettyChars level j h.1) gap_nil
      (gap_lineBreak level) rest

end

/-- What is written indented is read back. -/
theorem read?_pretty {j : Json} (h : Plain j) : read? j.pretty = some j :=
  read?_spells (spells_prettyChars 0 j h)

mutual

theorem spells_compactChars (j : Json) (h : Plain j) : Spells (compactChars j) j := by
  match j with
  | .null => exact .null
  | .bool true => exact .bool_true
  | .bool false => exact .bool_false
  | .number (.integer i) => exact .integer i
  | .string s => exact .string s
  | .array [] => exact .empty_array gap_nil
  | .array (j :: items) => exact .array gap_nil (spells_compactItems (j :: items) (by simp) h)
  | .object [] => exact .empty_object gap_nil
  | .object (m :: members) => exact .object gap_nil (spells_compactMembers (m :: members) (by simp) h)

theorem spells_compactItems (items : List Json) (filled : items ≠ []) (h : PlainItems items) :
    SpellsItems (compactItems items) items := by
  match items with
  | [j] => exact .last (spells_compactChars j h.1) gap_nil
  | j :: j' :: items =>
    have rest := spells_compactItems (j' :: items) (by simp) h.2
    simpa [compactItems] using SpellsItems.more (spells_compactChars j h.1) gap_nil gap_nil rest

theorem spells_compactMembers (members : List (String × Json)) (filled : members ≠ [])
    (h : PlainMembers members) : SpellsMembers (compactMembers members) members := by
  match members with
  | [(name, j)] =>
    simpa [compactMembers] using SpellsMembers.last gap_nil (spells_compactChars j h.1) gap_nil
  | (name, j) :: m :: members =>
    have rest := spells_compactMembers (m :: members) (by simp) h.2
    simpa [compactMembers] using
      SpellsMembers.more gap_nil (spells_compactChars j h.1) gap_nil gap_nil rest

end

/-- What is written compactly is read back. -/
theorem read?_compact {j : Json} (h : Plain j) : read? j.compact = some j :=
  read?_spells (spells_compactChars j h)

end SymbolGraph.Json
