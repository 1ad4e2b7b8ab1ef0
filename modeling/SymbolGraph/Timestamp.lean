import SymbolGraph.Text.Blank

/-!
# Points in time

A point in time is written in the form `2024-05-06T07:08:09.250Z`. Reading is more liberal: a blank
may stand for the `T`, blanks may stand around the separators, and any offset from UTC is allowed.
-/
namespace SymbolGraph

/-- Seconds since the start of 1970 in UTC, and the nanoseconds within the second. In a leap second
the nanoseconds go on beyond those of the second before. -/
structure Timestamp where
  seconds : Int
  nanos : Nat
  deriving DecidableEq, Repr, Inhabited

namespace Timestamp
open Text

/-! ## Calendar -/

/-- Days from the start of 1970 to a day of the Gregorian calendar. Years are counted from March on, so
that the extra day comes last. -/
def daysOf (year : Int) (month day : Nat) : Int :=
  let y := if month ≤ 2 then year - 1 else year
  let era := y.fdiv 400
  let yearOfEra := y - era * 400
  let m : Int := (month + 9) % 12
  let dayOfYear := (153 * m + 2) / 5 + day - 1
  era * 146097 + (yearOfEra * 365 + yearOfEra / 4 - yearOfEra / 100 + dayOfYear) - 719468

/-- The year, month and day of a number of days from the start of 1970. -/
def civilOf (days : Int) : Int × Nat × Nat :=
  let z := days + 719468
  let era := z.fdiv 146097
  let dayOfEra := z - era * 146097
  let yearOfEra := (dayOfEra - dayOfEra / 1460 + dayOfEra / 36524 - dayOfEra / 146096) / 365
  let dayOfYear := dayOfEra - (365 * yearOfEra + yearOfEra / 4 - yearOfEra / 100)
  let m := (5 * dayOfYear + 2) / 153
  let day := dayOfYear - (153 * m + 2) / 5 + 1
  let month := if m < 10 then m + 3 else m - 9
  (yearOfEra + era * 400 + (if month ≤ 2 then 1 else 0), month.toNat, day.toNat)

def isLeapYear (year : Int) : Bool := year % 4 == 0 && (year % 100 != 0 || year % 400 == 0)

def daysInMonth (year : Int) (month : Nat) : Nat :=
  if month == 2 then (if isLeapYear year then 29 else 28)
  else if [4, 6, 9, 11].contains month then 30 else 31

/-- The first and the last year that can be told. -/
def minYear : Int := -262143
def maxYear : Int := 262142

/-! ## Writing -/

/-- A number with at least `width` digits. -/
def digits (width n : Nat) : List Char :=
  let ds := Nat.toDigits 10 n
  List.replicate (width - ds.length) '0' ++ ds

/-- Years of four digits stand alone, others have a sign. -/
def yearText (year : Int) : List Char :=
  if 0 ≤ year ∧ year ≤ 9999 then digits 4 year.toNat
  else (if year < 0 then '-' else '+') :: digits 4 year.natAbs

/-- The fraction of a second in three, six or nine digits; a whole second has none. -/
def fractionText (nanos : Nat) : List Char :=
  if nanos == 0 then []
  else if nanos % 1000000 == 0 then '.' :: digits 3 (nanos / 1000000)
  else if nanos % 1000 == 0 then '.' :: digits 6 (nanos / 1000)
  else '.' :: digits 9 nanos

def text (t : Timestamp) : String :=
  let days := t.seconds.fdiv 86400
  let rest := (t.seconds - days * 86400).toNat
  let (year, month, day) := civilOf days
  let (second, nanos) :=
    if t.nanos ≥ 1000000000 then (rest % 60 + 1, t.nanos - 1000000000) else (rest % 60, t.nanos)
  String.ofList (yearText year ++ '-' :: digits 2 month ++ '-' :: digits 2 day ++ 'T' ::
    digits 2 (rest / 3600) ++ ':' :: digits 2 (rest / 60 % 60) ++ ':' :: digits 2 second ++
    fractionText nanos ++ ['Z'])

/-! ## Reading -/

abbrev Reader := StateT (List Char) Option

def check (b : Bool) : Reader Unit := if b then return () else failure
def skipBlanks : Reader Unit := modify (·.dropWhile isBlank)

/-- One of the given characters. -/
def anyChar (cs : List Char) : Reader Char := do
  match ← get with
  | c :: rest =>
    check (cs.contains c)
    set rest
    return c
  | [] => failure

def numberOf (ds : List Char) : Nat := ds.foldl (fun n d => 10 * n + (d.toNat - '0'.toNat)) 0

/-- A number of at least one and at most `width` digits, with the count of its digits. -/
def digitsUpTo (width : Nat) : Reader (Nat × Nat) := do
  let cs ← get
  let ds := (cs.take width).takeWhile Char.isDigit
  check !ds.isEmpty
  set (cs.drop ds.length)
  return (numberOf ds, ds.length)

/-- A number of at most two digits within bounds, blanks in front allowed. -/
def twoDigits (low high : Nat) : Reader Nat := do
  skipBlanks
  let (n, _) ← digitsUpTo 2
  check (low ≤ n && n ≤ high)
  return n

/-- A separator, blanks in front allowed. -/
def separator (c : Char) : Reader Unit := do
  skipBlanks
  discard (anyChar [c])

/-- A year of at most four digits, or of any length behind a sign. -/
def yearNumber : Reader Int := do
  skipBlanks
  let cs ← get
  match cs with
  | '-' :: rest => do
    set rest
    return -((← digitsUpTo rest.length).1 : Int)
  | '+' :: rest => do
    set rest
    return (← digitsUpTo rest.length).1
  | _ => return (← digitsUpTo 4).1

/-- The fraction of a second; digits behind the ninth do not count. -/
def fraction : Reader Nat := do
  match ← get with
  | '.' :: rest =>
    set rest
    let (n, count) ← digitsUpTo 9
    modify (·.dropWhile Char.isDigit)
    return n * Nat.pow 10 (9 - count)
  | _ => return 0

/-- Exactly two digits. -/
def pair (high : Nat) : Reader Nat := do
  let (n, count) ← digitsUpTo 2
  check (count == 2 && n ≤ high)
  return n

/-- The offset from UTC in seconds. -/
def offset : Reader Int := do
  let cs ← get
  if (cs.take 3).map Char.toUpper == ['U', 'T', 'C'] then
    set (cs.drop 3)
    return 0
  let sign ← anyChar ['Z', 'z', '+', '-', '−']
  if sign == 'Z' || sign == 'z' then return 0
  let hours ← pair 99
  modify (·.dropWhile fun c => c == ':' || isBlank c)
  let minutes ← pair 59
  let seconds : Int := hours * 3600 + minutes * 60
  check (seconds < 86400)
  return if sign == '+' then seconds else -seconds

def reader : Reader Timestamp := do
  let year ← yearNumber
  separator '-'
  let month ← twoDigits 1 12
  separator '-'
  let day ← twoDigits 1 31
  discard (anyChar ['t', 'T', ' '])
  let hour ← twoDigits 0 23
  separator ':'
  let minute ← twoDigits 0 59
  separator ':'
  let second ← twoDigits 0 60
  let nanos ← fraction
  skipBlanks
  let shift ← offset
  skipBlanks
  check (← get).isEmpty
  check (minYear ≤ year && year ≤ maxYear && day ≤ daysInMonth year month)
  let clock : Int := hour * 3600 + minute * 60 + (if second == 60 then 59 else second : Nat)
  let seconds := daysOf year month day * 86400 + clock - shift
  check (daysOf minYear 1 1 * 86400 ≤ seconds && seconds < (daysOf maxYear 12 31 + 1) * 86400)
  return ⟨seconds, if second == 60 then nanos + 1000000000 else nanos⟩

/-- The point in time that a text tells. -/
def read? (s : String) : Option Timestamp := (reader s.toList).map (·.1)

end Timestamp
end SymbolGraph
