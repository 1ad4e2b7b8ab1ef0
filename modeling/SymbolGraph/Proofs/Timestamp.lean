import Mathlib.Algebra.Group.Nat.Defs
import Mathlib.Data.List.Basic
import Mathlib.Data.List.TakeWhile
import SymbolGraph.Timestamp

/-!
# Points in time that can be told

The days of the calendar and the days since 1970 correspond, so a point in time within the years that
can be told is read back from its text. Every point in time that was read from some text is such.
-/
namespace SymbolGraph.Timestamp

/-! ## Calendar -/

/-- The years of an era of 400, counted from March on, start where they should: `d` is a day of the
year `y` that the estimate finds. -/
theorem yearOfEra_bounds {d y : Int} (h₀ : 0 ≤ d) (h₁ : d < 146097)
    (hy : y = (d - d / 1460 + d / 36524 - d / 146096) / 365) :
    365 * y + y / 4 - y / 100 ≤ d ∧
      d < 365 * (y + 1) + (y + 1) / 4 - (y + 1) / 100 + (y + 1) / 400 := by
  rcases Int.lt_or_le d 146096 with within | last
  · have range : 0 ≤ y ∧ y < 400 := by omega
    have hg : d / 36524 = 0 ∨ d / 36524 = 1 ∨ d / 36524 = 2 ∨ d / 36524 = 3 := by omega
    have hh : d / 146096 = 0 := by omega
    have he : y / 100 = 0 ∨ y / 100 = 1 ∨ y / 100 = 2 ∨ y / 100 = 3 := by omega
    have he' : (y + 1) / 100 = y / 100 ∨ y = 100 * (y / 100) + 99 := by omega
    -- The arithmetic is linear once the century of the day and that of the year are fixed.
    refine ⟨?_, ?_⟩
    · rcases hg with hg | hg | hg | hg
      all_goals rw [hg, hh] at hy
      all_goals rcases he with he | he | he | he
      all_goals rw [he]
      all_goals omega
    · suffices d < 365 * (y + 1) + (y + 1) / 4 - (y + 1) / 100 by omega
      rcases he' with he' | he'
      · rw [he']
        rcases hg with hg | hg | hg | hg
        all_goals rw [hg, hh] at hy
        all_goals rcases he with he | he | he | he
        all_goals rw [he]
        all_goals omega
      · rcases he with he | he | he | he
        all_goals rw [he] at he'
        all_goals omega
  · obtain rfl : d = 146096 := by omega
    omega

/-- A year counted from March on has a last day beyond the usual ones if the next year is a leap
year. -/
theorem length_of_year {y doy : Int} (h₀ : 0 ≤ y) (h₁ : y < 400)
    (h : 365 * y + y / 4 - y / 100 + doy <
      365 * (y + 1) + (y + 1) / 4 - (y + 1) / 100 + (y + 1) / 400) :
    doy < 365 ∨
      doy = 365 ∧ (y + 1) % 4 = 0 ∧ ((y + 1) % 100 ≠ 0 ∨ (y + 1) % 400 = 0) := by
  have fourth : (y + 1) % 4 ≠ 0 ∧ (y + 1) / 4 = y / 4 ∨
      (y + 1) % 4 = 0 ∧ (y + 1) / 4 = y / 4 + 1 := by omega
  have hundredth : (y + 1) % 100 ≠ 0 ∧ (y + 1) / 100 = y / 100 ∨
      (y + 1) % 100 = 0 ∧ (y + 1) / 100 = y / 100 + 1 := by omega
  -- only the last year of an era sees the rule for four hundred years
  have last : (y + 1) / 400 = 0 ∨ y = 399 := by omega
  rcases last with last | rfl
  · rcases fourth with ⟨f, hf⟩ | ⟨f, hf⟩ <;> rcases hundredth with ⟨c, hc⟩ | ⟨c, hc⟩ <;> omega
  · omega

/-- A day as the day `doy` of the year `y` of an era and within its month `m`, all counted from March
on. -/
structure DayOf (days era y doy m : Int) : Prop where
  year_nonneg : 0 ≤ y
  year_lt : y < 400
  day_nonneg : 0 ≤ doy
  day_lt : doy < 365 ∨
    doy = 365 ∧ (y + 1) % 4 = 0 ∧ ((y + 1) % 100 ≠ 0 ∨ (y + 1) % 400 = 0)
  days_eq : days = era * 146097 + (365 * y + y / 4 - y / 100 + doy) - 719468
  month_eq : m = (5 * doy + 2) / 153

theorem DayOf.month_range {days era y doy m : Int} (h : DayOf days era y doy m) : 0 ≤ m ∧ m < 12 := by
  have := h.day_nonneg
  have := h.day_lt
  have := h.month_eq
  omega

theorem civilOf_eq (days : Int) : ∃ era y doy m : Int, DayOf days era y doy m ∧
    civilOf days = (y + era * 400 + (if 10 ≤ m then 1 else 0),
      (if 10 ≤ m then m - 9 else m + 3).toNat, (doy - (153 * m + 2) / 5 + 1).toNat) := by
  have era_eq : (days + 719468).fdiv 146097 = (days + 719468) / 146097 :=
    Int.fdiv_eq_ediv_of_nonneg _ (by decide)
  obtain ⟨era, hera⟩ : ∃ era, era = (days + 719468) / 146097 := ⟨_, rfl⟩
  obtain ⟨d, hd⟩ : ∃ d, d = days + 719468 - era * 146097 := ⟨_, rfl⟩
  obtain ⟨y, hy⟩ : ∃ y, y = (d - d / 1460 + d / 36524 - d / 146096) / 365 := ⟨_, rfl⟩
  obtain ⟨doy, hdoy⟩ : ∃ doy, doy = d - (365 * y + y / 4 - y / 100) := ⟨_, rfl⟩
  obtain ⟨m, hm⟩ : ∃ m, m = (5 * doy + 2) / 153 := ⟨_, rfl⟩
  have bounds := yearOfEra_bounds (by omega) (by omega) hy
  have day : DayOf days era y doy m :=
    ⟨by omega, by omega, by omega, length_of_year (by omega) (by omega) (by omega), by omega, hm⟩
  refine ⟨era, y, doy, m, day, ?_⟩
  have range := day.month_range
  simp only [civilOf, era_eq, ← hera, ← hd, ← hy, ← hdoy, ← hm]
  clear hera hd hy hdoy hm bounds day
  congr 1
  · split_ifs <;> omega
  · congr 1
    split_ifs <;> omega

/-- A day of the calendar that exists. -/
structure IsDate (year : Int) (month day : Nat) : Prop where
  month_pos : 1 ≤ month
  month_le : month ≤ 12
  day_pos : 1 ≤ day
  day_le : day ≤ daysInMonth year month

theorem isLeapYear_iff {year : Int} :
    isLeapYear year = true ↔ year % 4 = 0 ∧ (year % 100 ≠ 0 ∨ year % 400 = 0) := by
  simp [isLeapYear]

theorem isDate_civilOf (days : Int) :
    IsDate (civilOf days).1 (civilOf days).2.1 (civilOf days).2.2 := by
  obtain ⟨era, y, doy, m, h, heq⟩ := civilOf_eq days
  have range := h.month_range
  have nonneg := h.day_nonneg
  have bound := h.day_lt
  have month := h.month_eq
  have cases : m = 11 ∨ m = 0 ∨ m = 1 ∨ m = 2 ∨ m = 3 ∨ m = 4 ∨ m = 5 ∨ m = 6 ∨ m = 7 ∨ m = 8 ∨
    m = 9 ∨ m = 10 := by omega
  rw [heq]
  refine ⟨?_, ?_, ?_, ?_⟩
  · simp only
    split_ifs <;> omega
  · simp only
    split_ifs <;> omega
  · simp only
    omega
  · simp only [daysInMonth, isLeapYear_iff]
    rcases cases with february | h | h | h | h | h | h | h | h | h | h | h
    · subst february
      simp
      split_ifs <;> omega
    all_goals subst h
    all_goals simp
    all_goals omega

theorem daysOf_civilOf (days : Int) :
    daysOf (civilOf days).1 (civilOf days).2.1 (civilOf days).2.2 = days := by
  obtain ⟨era, y, doy, m, h, heq⟩ := civilOf_eq days
  have range := h.month_range
  have year := h.year_nonneg
  have year' := h.year_lt
  have nonneg := h.day_nonneg
  have bound := h.day_lt
  have month := h.month_eq
  have days := h.days_eq
  have era_eq : (y + era * 400) / 400 = era := by omega
  rw [heq]
  simp only [daysOf, Int.fdiv_eq_ediv_of_nonneg _ (show (0 : Int) ≤ 400 by decide)]
  by_cases late : 10 ≤ m
  · have month' : ((m - 9).toNat + 9 : Int) % 12 = m := by omega
    simp only [late, ↓reduceIte]
    rw [if_pos (by omega), Int.add_sub_cancel, era_eq, Int.add_sub_cancel, month']
    omega
  · have month' : ((m + 3).toNat + 9 : Int) % 12 = m := by omega
    simp only [late, ↓reduceIte]
    rw [if_neg (by omega), Int.add_zero, era_eq, Int.add_sub_cancel, month']
    omega

/-! ## Digits -/

open Text

theorem numberOf_eq (ds : List Char) : numberOf ds = Nat.ofDigitChars 10 ds 0 := rfl

theorem numberOf_digits (width n : Nat) : numberOf (digits width n) = n := by
  rw [numberOf_eq, digits, Nat.ofDigitChars_append, Nat.ofDigitChars_replicate_zero, Nat.mul_zero,
    Nat.ofDigitChars_ten_toDigits]

theorem isDigit_of_mem_digits {width n : Nat} {c : Char} (h : c ∈ digits width n) :
    c.isDigit = true := by
  rcases List.mem_append.1 h with zero | digit
  · rw [List.eq_of_mem_replicate zero]
    decide
  · exact Nat.isDigit_of_mem_toDigits (by decide) (by decide) digit

theorem length_digits {width n : Nat} (hw : 0 < width) (hn : n < 10 ^ width) :
    (digits width n).length = width := by
  have := (Nat.length_toDigits_le_iff (by decide) hw).2 hn
  simp only [digits, List.length_append, List.length_replicate]
  omega

theorem digits_ne_nil (width n : Nat) : digits width n ≠ [] := by
  simp [digits, Nat.toDigits_ne_nil]

theorem isBlank_of_isDigit {c : Char} (h : c.isDigit = true) : isBlank c = false := by
  have range := Char.isDigit_iff_toNat.1 h
  simp at range
  simp [isBlank]
  omega

theorem numberOf_lt {ds : List Char} (h : ∀ c ∈ ds, c.isDigit = true) :
    numberOf ds < 10 ^ ds.length := by
  induction ds with
  | nil => decide
  | cons d ds ih =>
    have digit := Char.isDigit_iff_toNat.1 (h d List.mem_cons_self)
    have rest := ih fun c hc => h c (List.mem_cons_of_mem d hc)
    have lead : 10 ^ ds.length * (d.toNat - '0'.toNat) ≤ 10 ^ ds.length * 9 :=
      Nat.mul_le_mul_left _ (by simp at digit ⊢; omega)
    rw [numberOf_eq, Nat.ofDigitChars_cons, Nat.ofDigitChars_eq_ofDigitChars_zero, ← numberOf_eq,
      Nat.mul_zero, Nat.zero_add, List.length_cons, Nat.pow_succ]
    omega

/-! ## Reading what was written -/

theorem bind_of_eq {x : Reader α} {f : α → Reader β} {cs rest : List Char} {a : α}
    (h : x cs = some (a, rest)) : (x >>= f) cs = f a rest := by
  change (x cs).bind (fun p => f p.1 p.2) = _
  rw [h]
  rfl

theorem get_eq (cs : List Char) : (get : Reader (List Char)) cs = some (cs, cs) := rfl

theorem set_eq (cs rest : List Char) : (set rest : Reader Unit) cs = some ((), rest) := rfl

theorem check_of {b : Bool} (h : b = true) (cs : List Char) : check b cs = some ((), cs) := by
  subst h
  rfl

theorem skipBlanks_eq {cs : List Char} (h : ∀ c ∈ cs.head?, isBlank c = false) :
    skipBlanks cs = some ((), cs) := by
  change some ((), cs.dropWhile isBlank) = _
  cases cs with
  | nil => rfl
  | cons c cs => rw [List.dropWhile_cons_of_neg (by simp [h c rfl])]

theorem anyChar_cons {c : Char} {cs : List Char} (h : c ∈ cs) (rest : List Char) :
    anyChar cs (c :: rest) = some (c, rest) := by
  unfold anyChar
  rw [bind_of_eq (get_eq _)]
  simp only
  rw [bind_of_eq (check_of (by simpa using h) _), bind_of_eq (set_eq _ _)]
  rfl

theorem discard_of_eq {x : Reader α} {cs rest : List Char} {a : α} (h : x cs = some (a, rest)) :
    discard x cs = some ((), rest) := by
  change (x cs).bind (fun p => some ((), p.2)) = _
  rw [h]
  rfl

theorem separator_cons {c : Char} (h : isBlank c = false) (rest : List Char) :
    separator c (c :: rest) = some ((), rest) := by
  unfold separator
  rw [bind_of_eq (skipBlanks_eq (by simp [h]))]
  exact discard_of_eq (anyChar_cons List.mem_cons_self rest)

/-- Digits are read up to their end, which is where something else follows or the width is used up. -/
theorem digitsUpTo_append {width : Nat} {ds rest : List Char} (digit : ∀ c ∈ ds, c.isDigit = true)
    (filled : ds ≠ []) (fits : ds.length ≤ width)
    (ends : ds.length = width ∨ ∀ c ∈ rest.head?, c.isDigit = false) :
    digitsUpTo width (ds ++ rest) = some ((numberOf ds, ds.length), rest) := by
  have taken : ((ds ++ rest).take width).takeWhile Char.isDigit = ds := by
    rw [List.take_append, List.take_of_length_le fits, List.takeWhile_append_of_pos digit]
    rcases ends with full | other
    · simp [full]
    · cases rest with
      | nil => simp
      | cons c rest =>
        cases width - ds.length with
        | zero => simp
        | succ k => simp [other c rfl]
  unfold digitsUpTo
  rw [bind_of_eq (get_eq _)]
  simp only [taken]
  rw [bind_of_eq (check_of (by simp [filled]) _), bind_of_eq (set_eq _ _), List.drop_left]
  rfl

theorem head?_digits {width n : Nat} {rest : List Char} {c : Char}
    (h : c ∈ (digits width n ++ rest).head?) : c.isDigit = true := by
  rw [List.head?_append_of_ne_nil _ (digits_ne_nil width n)] at h
  exact isDigit_of_mem_digits (List.mem_of_mem_head? h)

theorem digitsUpTo_digits {width w n : Nat} {rest : List Char} (fits : (digits w n).length ≤ width)
    (ends : (digits w n).length = width ∨ ∀ c ∈ rest.head?, c.isDigit = false) :
    digitsUpTo width (digits w n ++ rest) = some ((n, (digits w n).length), rest) := by
  rw [digitsUpTo_append (fun c => isDigit_of_mem_digits) (digits_ne_nil w n) fits ends,
    numberOf_digits]

theorem twoDigits_digits {low high n : Nat} (h₀ : low ≤ n) (h₁ : n ≤ high) (h₂ : n < 100)
    (rest : List Char) : twoDigits low high (digits 2 n ++ rest) = some (n, rest) := by
  have length : (digits 2 n).length = 2 := length_digits (by decide) h₂
  unfold twoDigits
  rw [bind_of_eq (skipBlanks_eq fun c hc => isBlank_of_isDigit (head?_digits hc)),
    bind_of_eq (digitsUpTo_digits (Nat.le_of_eq length) (Or.inl length))]
  simp only
  rw [bind_of_eq (check_of (by simp [h₀, h₁]) rest)]
  rfl

theorem yearNumber_yearText (year : Int) (rest : List Char) :
    yearNumber (yearText year ++ '-' :: rest) = some (year, '-' :: rest) := by
  have ends : ∀ c ∈ ('-' :: rest).head?, c.isDigit = false := by simp
  have signed : digitsUpTo (digits 4 year.natAbs ++ '-' :: rest).length
      (digits 4 year.natAbs ++ '-' :: rest) =
        some ((year.natAbs, (digits 4 year.natAbs).length), '-' :: rest) :=
    digitsUpTo_digits (by simp) (Or.inr ends)
  unfold yearNumber yearText
  split_ifs with four negative
  · have length : (digits 4 year.toNat).length = 4 := length_digits (by decide) (by omega)
    have number : digitsUpTo 4 (digits 4 year.toNat ++ '-' :: rest) =
        some ((year.toNat, (digits 4 year.toNat).length), '-' :: rest) :=
      digitsUpTo_digits (Nat.le_of_eq length) (Or.inl length)
    rw [bind_of_eq (skipBlanks_eq fun c hc => isBlank_of_isDigit (head?_digits hc)),
      bind_of_eq (get_eq _)]
    obtain ⟨d, ds, hds⟩ := List.exists_cons_of_ne_nil (digits_ne_nil 4 year.toNat)
    have digit : d.isDigit = true := isDigit_of_mem_digits (by rw [hds]; exact List.mem_cons_self)
    have minus : d ≠ '-' := by rintro rfl; simp at digit
    have plus : d ≠ '+' := by rintro rfl; simp at digit
    rw [hds, List.cons_append] at number ⊢
    refine (congrFun (?_ : _ = digitsUpTo 4 >>= fun r => pure (r.1 : Int)) _).trans ?_
    · simp [minus, plus]
    rw [bind_of_eq number]
    change some ((year.toNat : Int), '-' :: rest) = _
    rw [Int.toNat_of_nonneg four.1]
  · rw [List.cons_append, bind_of_eq (skipBlanks_eq (by simp [isBlank])), bind_of_eq (get_eq _)]
    simp only
    rw [bind_of_eq (set_eq _ _), bind_of_eq signed]
    change some (-(year.natAbs : Int), '-' :: rest) = _
    rw [Int.ofNat_natAbs_of_nonpos (by omega), Int.neg_neg]
  · rw [List.cons_append, bind_of_eq (skipBlanks_eq (by simp [isBlank])), bind_of_eq (get_eq _)]
    simp only
    rw [bind_of_eq (set_eq _ _), bind_of_eq signed]
    change some ((year.natAbs : Int), '-' :: rest) = _
    rw [Int.natAbs_of_nonneg (by omega)]

theorem fraction_digits {w n : Nat} (hw : 0 < w) (hw' : w ≤ 9) (hn : n < 10 ^ w) :
    fraction ('.' :: digits w n ++ ['Z']) = some (n * 10 ^ (9 - w), ['Z']) := by
  have length : (digits w n).length = w := length_digits hw hn
  unfold fraction
  rw [List.cons_append, bind_of_eq (get_eq _)]
  simp only
  rw [bind_of_eq (set_eq _ _), bind_of_eq (digitsUpTo_digits (by omega) (Or.inr (by simp))), length]
  rfl

theorem fraction_fractionText {nanos : Nat} (h : nanos < 1000000000) :
    fraction (fractionText nanos ++ ['Z']) = some (nanos, ['Z']) := by
  unfold fractionText
  simp only [beq_iff_eq]
  split_ifs with zero milli micro
  · rw [zero]
    rfl
  · rw [fraction_digits (by decide) (by decide) (by omega)]
    congr 2
    omega
  · rw [fraction_digits (by decide) (by decide) (by omega)]
    congr 2
    omega
  · rw [fraction_digits (by decide) (by decide) (by omega)]
    congr 2
    omega

theorem skipBlanks_utc : skipBlanks ['Z'] = some ((), ['Z']) := rfl

theorem skipBlanks_nil : skipBlanks [] = some ((), []) := rfl

theorem offset_utc : offset ['Z'] = some (0, []) := rfl

/-! ## Points in time within the years that can be told -/

/-- Within the years that can be told. The nanoseconds go beyond those of a second only in the last
second of a minute. -/
structure Tellable (t : Timestamp) : Prop where
  first : daysOf minYear 1 1 * 86400 ≤ t.seconds
  last : t.seconds < (daysOf maxYear 12 31 + 1) * 86400
  nanos : t.nanos < 1000000000 ∨ t.nanos < 2000000000 ∧ t.seconds % 60 = 59

theorem year_range {days : Int} (h₀ : daysOf minYear 1 1 ≤ days) (h₁ : days ≤ daysOf maxYear 12 31) :
    minYear ≤ (civilOf days).1 ∧ (civilOf days).1 ≤ maxYear := by
  obtain ⟨era, y, doy, m, h, heq⟩ := civilOf_eq days
  have year := h.year_nonneg
  have year' := h.year_lt
  have nonneg := h.day_nonneg
  have bound := h.day_lt
  have month := h.month_eq
  have days := h.days_eq
  have hmin : daysOf minYear 1 1 = -96465292 := by decide +kernel
  have hmax : daysOf maxYear 12 31 = 95026236 := by decide +kernel
  rw [hmin] at h₀
  rw [hmax] at h₁
  rw [heq]
  simp only [minYear, maxYear]
  have eras : -656 ≤ era ∧ era ≤ 655 := by omega
  constructor
  · rcases Int.lt_or_le (-656) era with above | first
    · omega
    · obtain rfl : era = -656 := by omega
      split_ifs <;> omega
  · rcases Int.lt_or_le era 655 with below | last
    · split_ifs <;> omega
    · obtain rfl : era = 655 := by omega
      split_ifs <;> omega

/-- The text of a date and a time of day is read as the point in time that they name. -/
theorem reader_parts {year : Int} {month day hour minute second nanos : Nat}
    (date : IsDate year month day) (hyear : minYear ≤ year ∧ year ≤ maxYear) (hhour : hour ≤ 23)
    (hminute : minute ≤ 59) (hsecond : second ≤ 60) (hnanos : nanos < 1000000000) {seconds : Int}
    (hseconds : seconds = daysOf year month day * 86400 +
      (hour * 3600 + minute * 60 + (if second = 60 then 59 else second : Nat)))
    (hfirst : daysOf minYear 1 1 * 86400 ≤ seconds)
    (hlast : seconds < (daysOf maxYear 12 31 + 1) * 86400) :
    reader (yearText year ++ '-' :: (digits 2 month ++ '-' :: (digits 2 day ++ 'T' ::
      (digits 2 hour ++ ':' :: (digits 2 minute ++ ':' :: (digits 2 second ++
        (fractionText nanos ++ ['Z']))))))) =
      some (⟨seconds, if second = 60 then nanos + 1000000000 else nanos⟩, []) := by
  have days : daysInMonth year month ≤ 31 := by
    unfold daysInMonth
    split_ifs <;> decide
  have := date.month_le
  have := date.day_le
  have known : (decide (minYear ≤ year) && decide (year ≤ maxYear) &&
      decide (day ≤ daysInMonth year month)) = true := by
    rw [decide_eq_true hyear.1, decide_eq_true hyear.2, decide_eq_true date.day_le]
    rfl
  have between : (decide (daysOf minYear 1 1 * 86400 ≤ seconds) &&
      decide (seconds < (daysOf maxYear 12 31 + 1) * 86400)) = true := by
    rw [decide_eq_true hfirst, decide_eq_true hlast]
    rfl
  unfold reader
  rw [bind_of_eq (yearNumber_yearText year _), bind_of_eq (separator_cons (by decide) _),
    bind_of_eq (twoDigits_digits date.month_pos date.month_le (by omega) _),
    bind_of_eq (separator_cons (by decide) _),
    bind_of_eq (twoDigits_digits date.day_pos (by omega) (by omega) _),
    bind_of_eq (discard_of_eq (anyChar_cons (by decide) _)),
    bind_of_eq (twoDigits_digits (Nat.zero_le _) hhour (by omega) _),
    bind_of_eq (separator_cons (by decide) _),
    bind_of_eq (twoDigits_digits (Nat.zero_le _) hminute (by omega) _),
    bind_of_eq (separator_cons (by decide) _),
    bind_of_eq (twoDigits_digits (Nat.zero_le _) hsecond (by omega) _),
    bind_of_eq (fraction_fractionText hnanos), bind_of_eq skipBlanks_utc, bind_of_eq offset_utc,
    bind_of_eq skipBlanks_nil, bind_of_eq (get_eq _), bind_of_eq (check_of (by rfl) _),
    bind_of_eq (check_of known _)]
  simp only [beq_iff_eq, Int.sub_zero, ← hseconds]
  rw [bind_of_eq (check_of between _)]
  rfl

/-- A point in time that can be told is read back from its text. -/
theorem read?_text {t : Timestamp} (h : t.Tellable) : read? t.text = some t := by
  obtain ⟨seconds, nanos⟩ := t
  obtain ⟨first, last, fraction⟩ := h
  simp only at first last fraction
  have days_eq : seconds.fdiv 86400 = seconds / 86400 := Int.fdiv_eq_ediv_of_nonneg _ (by decide)
  have day := isDate_civilOf (seconds / 86400)
  have years := year_range (show _ ≤ seconds / 86400 by omega) (show seconds / 86400 ≤ _ by omega)
  have inverse := daysOf_civilOf (seconds / 86400)
  have clock : (seconds - seconds / 86400 * 86400).toNat < 86400 := by omega
  simp only [read?, text, days_eq, String.toList_ofList]
  generalize civilOf (seconds / 86400) = date at day years inverse ⊢
  obtain ⟨year, month, day'⟩ := date
  generalize hrest : (seconds - seconds / 86400 * 86400).toNat = rest at clock ⊢
  simp only at day years inverse ⊢
  have written {second part : Nat} (hs : second ≤ 60) (hp : part < 1000000000)
      (hsec : (if second = 60 then 59 else second) = rest % 60) :=
    reader_parts day years (show rest / 3600 ≤ 23 by omega) (show rest / 60 % 60 ≤ 59 by omega) hs hp
      (show seconds = _ by rw [inverse, hsec]; omega) first last
  split_ifs with leap
  · have sixty : rest % 60 + 1 = 60 := by omega
    simp only [List.append_assoc, List.cons_append]
    rw [written (by omega) (by omega) (by rw [if_pos sixty]; omega), if_pos sixty,
      Nat.sub_add_cancel leap]
    rfl
  · simp only [List.append_assoc, List.cons_append]
    rw [written (by omega) (by omega) (if_neg (by omega)), if_neg (by omega)]
    rfl

/-! ## What a reader can yield -/

/-- Whatever is read satisfies `P`. -/
def Yields (x : Reader α) (P : α → Prop) : Prop := ∀ cs a rest, x cs = some (a, rest) → P a

theorem yields_any (x : Reader α) : Yields x fun _ => True := fun _ _ _ _ => trivial

theorem yields_pure {P : α → Prop} {a : α} (h : P a) : Yields (pure a) P := by
  intro cs b rest read
  obtain ⟨rfl, -⟩ := Prod.mk.inj (Option.some_inj.1 read)
  exact h

theorem yields_check (b : Bool) : Yields (check b) fun _ => b = true := by
  intro cs u rest read
  cases b with
  | false => cases read
  | true => rfl

theorem Yields.bind {x : Reader α} {f : α → Reader β} {P : α → Prop} {Q : β → Prop}
    (hx : Yields x P) (hf : ∀ a, P a → Yields (f a) Q) : Yields (x >>= f) Q := by
  intro cs b rest read
  cases hread : x cs with
  | none =>
    change (x cs).bind (fun p => f p.1 p.2) = _ at read
    rw [hread] at read
    cases read
  | some r =>
    rw [bind_of_eq (show x cs = some (r.1, r.2) from hread)] at read
    exact hf r.1 (hx cs r.1 r.2 hread) _ _ _ read

/-- A step whose result does not matter. -/
theorem Yields.after (x : Reader α) {f : α → Reader β} {Q : β → Prop} (hf : ∀ a, Yields (f a) Q) :
    Yields (x >>= f) Q :=
  (yields_any x).bind fun a _ => hf a

theorem yields_digitsUpTo (width : Nat) :
    Yields (digitsUpTo width) fun r => r.1 < 10 ^ r.2 ∧ r.2 ≤ width := by
  refine Yields.after get fun cs => Yields.after _ fun _ => Yields.after _ fun _ => yields_pure ⟨?_, ?_⟩
  · exact numberOf_lt fun c hc => List.mem_takeWhile_imp hc
  · exact Nat.le_trans (List.takeWhile_sublist _).length_le (List.length_take_le _ _)

theorem yields_fraction : Yields fraction (· < 1000000000) := by
  refine Yields.after get fun cs => ?_
  split
  · refine Yields.after _ fun _ => (yields_digitsUpTo 9).bind fun r hr => Yields.after _ fun _ => ?_
    refine yields_pure ?_
    calc r.1 * 10 ^ (9 - r.2) < 10 ^ r.2 * 10 ^ (9 - r.2) :=
          Nat.mul_lt_mul_of_pos_right hr.1 (Nat.pow_pos (by decide))
      _ = 1000000000 := by rw [← Nat.pow_add, Nat.add_sub_cancel' hr.2]
  · exact yields_pure (by decide)

theorem yields_offset : Yields offset (· % 60 = 0) := by
  refine Yields.after get fun cs => ?_
  split
  · exact Yields.after _ fun _ => yields_pure rfl
  · refine Yields.after _ fun sign => ?_
    split
    · exact yields_pure rfl
    · refine Yields.after _ fun hours => Yields.after _ fun _ => Yields.after _ fun minutes =>
        Yields.after _ fun _ => yields_pure ?_
      split <;> omega

theorem yields_reader : Yields reader Tellable := by
  refine Yields.after _ fun year => Yields.after _ fun _ => Yields.after _ fun month =>
    Yields.after _ fun _ => Yields.after _ fun day => Yields.after _ fun _ =>
    Yields.after _ fun hour => Yields.after _ fun _ => Yields.after _ fun minute =>
    Yields.after _ fun _ => Yields.after _ fun second => ?_
  refine yields_fraction.bind fun nanos hnanos => Yields.after _ fun _ => ?_
  refine yields_offset.bind fun shift hshift => Yields.after _ fun _ => Yields.after _ fun _ =>
    Yields.after _ fun _ => Yields.after _ fun _ => ?_
  refine (yields_check _).bind fun _ range => yields_pure ?_
  simp only [Bool.and_eq_true, decide_eq_true_eq] at range
  refine ⟨range.1, range.2, ?_⟩
  simp only [beq_iff_eq]
  split_ifs with sixty
  · exact Or.inr ⟨by omega, by omega⟩
  · exact Or.inl hnanos

/-- What was read from a text can be told. -/
theorem tellable_of_read? {s : String} {t : Timestamp} (h : read? s = some t) : t.Tellable := by
  obtain ⟨⟨t', rest⟩, read, rfl⟩ := Option.map_eq_some_iff.1 h
  exact yields_reader _ _ _ read

end SymbolGraph.Timestamp
