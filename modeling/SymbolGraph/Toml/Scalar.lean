import SymbolGraph.Json.Reader
import SymbolGraph.Timestamp
import SymbolGraph.Toml.Basic

/-!
# Texts, numbers and dates in TOML

Each reader takes what stands in front and gives what follows.
-/
namespace SymbolGraph.Toml
open Json (hexValue? digitsValue)

/-! ## Characters -/

/-- Characters that may stand in a line as they are: control characters other than the tab may not. -/
def isPlain (c : Char) : Bool := c == '\t' || (0x20 ≤ c.toNat && c.toNat != 0x7F)

def isGap (c : Char) : Bool := c == ' ' || c == '\t'

/-- What follows a line break. -/
def newline? : List Char → Option (List Char)
  | '\n' :: rest => some rest
  | '\r' :: '\n' :: rest => some rest
  | _ => none

/-! ## Texts -/

/-- The character of `count` hexadecimal digits, if it is one. -/
def hexEscape? (count : Nat) (cs : List Char) : Option (Char × List Char) := do
  let digits ← (cs.take count).mapM hexValue?
  let code := digits.foldl (fun n d => n * 16 + d) 0
  if digits.length = count ∧ code.isValidChar then some (Char.ofNat code, cs.drop count) else none

/-- The character of an escape behind its backslash. -/
def escape? : List Char → Option (Char × List Char)
  | 'b' :: rest => some ('\x08', rest)
  | 't' :: rest => some ('\t', rest)
  | 'n' :: rest => some ('\n', rest)
  | 'f' :: rest => some ('\x0c', rest)
  | 'r' :: rest => some ('\r', rest)
  | '"' :: rest => some ('"', rest)
  | '\\' :: rest => some ('\\', rest)
  | 'u' :: rest => hexEscape? 4 rest
  | 'U' :: rest => hexEscape? 8 rest
  | _ => none

/-- A text behind its opening quote; `acc` holds what was read, the last character first. -/
def quotedBody (acc : List Char) : Nat → List Char → Option (String × List Char)
  | 0, _ => none
  | fuel + 1, cs =>
    match cs with
    | [] => none
    | '"' :: rest => some (String.ofList acc.reverse, rest)
    | '\\' :: rest => match escape? rest with
      | some (c, rest) => quotedBody (c :: acc) fuel rest
      | none => none
    | c :: rest => if isPlain c then quotedBody (c :: acc) fuel rest else none

/-- A text between single quotes, behind the first of them. -/
def literalBody (cs : List Char) : Option (String × List Char) :=
  match cs.span fun c => isPlain c && c != '\'' with
  | (body, '\'' :: rest) => some (String.ofList body, rest)
  | _ => none

/-- What follows a backslash at the end of a line: the next character that is no blank or line
break. -/
def continuedLine? (cs : List Char) : Option (List Char) := do
  let rest ← newline? (cs.dropWhile isGap)
  return rest.dropWhile fun c => isGap c || c == '\n' || c == '\r'

/-- A text of several lines behind its opening quotes. Three quotes close it; one or two more in front
of them belong to the text. -/
def blockBody (quote : Char) (acc : List Char) : Nat → List Char → Option (String × List Char)
  | 0, _ => none
  | fuel + 1, cs =>
    match cs with
    | [] => none
    | c :: rest =>
      if c == quote then
        let quotes := cs.takeWhile (· == quote)
        let behind := cs.dropWhile (· == quote)
        if quotes.length < 3 then blockBody quote (quotes ++ acc) fuel behind
        else if quotes.length ≤ 5 then
          some (String.ofList (quotes.drop 3 ++ acc).reverse, behind)
        else none
      else if c == '\\' && quote == '"' then
        match continuedLine? rest with
        | some rest => blockBody quote acc fuel rest
        | none => match escape? rest with
          | some (e, rest) => blockBody quote (e :: acc) fuel rest
          | none => none
      else match newline? cs with
        | some rest => blockBody quote ('\n' :: acc) fuel rest
        | none => if isPlain c then blockBody quote (c :: acc) fuel rest else none

/-- A text of several lines starts behind the first line break if there is one. -/
def block (quote : Char) (cs : List Char) : Option (String × List Char) :=
  let cs := (newline? cs).getD cs
  blockBody quote [] (cs.length + 1) cs

/-- A text of any form. -/
def textAt : List Char → Option (String × List Char)
  | '"' :: '"' :: '"' :: rest => block '"' rest
  | '\'' :: '\'' :: '\'' :: rest => block '\'' rest
  | '"' :: rest => quotedBody [] (rest.length + 1) rest
  | '\'' :: rest => literalBody rest
  | _ => none

/-! ## Numbers -/

/-- Further digits of a number; an underscore may stand between two of them. -/
def moreDigits (isDigit : Char → Bool) : List Char → Option (List Char × List Char)
  | [] => some ([], [])
  | '_' :: c :: rest =>
    if isDigit c then (moreDigits isDigit rest).map fun (ds, rest) => (c :: ds, rest) else none
  | c :: rest =>
    if c == '_' then none
    else if isDigit c then (moreDigits isDigit rest).map fun (ds, rest) => (c :: ds, rest)
    else some ([], c :: rest)

/-- At least one digit. -/
def digits (isDigit : Char → Bool) : List Char → Option (List Char × List Char)
  | c :: rest =>
    if isDigit c then (moreDigits isDigit rest).map fun (ds, rest) => (c :: ds, rest) else none
  | [] => none

def sign : List Char → Bool × List Char
  | '-' :: rest => (true, rest)
  | '+' :: rest => (false, rest)
  | cs => (false, cs)

/-- The digits of a whole number, which start with a zero only if there is no other. -/
def wholePart : List Char → Option (List Char × List Char)
  | '0' :: rest => some (['0'], rest)
  | cs => digits Char.isDigit cs

def fitsInteger (i : Int) : Bool := -9223372036854775808 ≤ i && i < 9223372036854775808

/-- A number in base 16, 8 or 2. -/
def radixInteger (base : Nat) (cs : List Char) : Option (Toml × List Char) := do
  let (ds, rest) ← digits (fun c => (hexValue? c).any (· < base)) cs
  let n : Int := ds.foldl (fun n c => n * base + (hexValue? c).getD 0) 0
  if fitsInteger n then some (.integer n, rest) else none

def integerAt : List Char → Option (Toml × List Char)
  | '0' :: 'x' :: rest => radixInteger 16 rest
  | '0' :: 'o' :: rest => radixInteger 8 rest
  | '0' :: 'b' :: rest => radixInteger 2 rest
  | cs => do
    let (negative, cs) := sign cs
    let (ds, rest) ← wholePart cs
    let n : Int := digitsValue ds
    let i := if negative then -n else n
    if fitsInteger i then some (.integer i, rest) else none

/-- The double nearest to a decimal; a decimal above all doubles is refused. -/
def doubleOf? (d : Decimal.Digits) : Option Float :=
  if !Json.inRange (.decimal d) then if d.negative then some (-1.0 / 0.0) else none
  else if d.exponent < -400 - ((Nat.toDigits 10 d.digits).length : Int) then
    some (if d.negative then -0.0 else 0.0)
  else some d.toFloat

/-- An exponent behind its letter. -/
def exponentAt : List Char → Option (Int × List Char)
  | c :: rest =>
    if c == 'e' || c == 'E' then do
      let (negative, rest) := sign rest
      let (ds, rest) ← digits Char.isDigit rest
      let n : Int := digitsValue ds
      return (if negative then -n else n, rest)
    else none
  | [] => none

def specialDecimal : List Char → Option (Toml × List Char)
  | 'i' :: 'n' :: 'f' :: rest => some (.decimal (1.0 / 0.0), rest)
  | 'n' :: 'a' :: 'n' :: rest => some (.decimal (0.0 / 0.0), rest)
  | _ => none

/-- A number with a fraction or an exponent, infinity, or no number. -/
def decimalAt (cs : List Char) : Option (Toml × List Char) :=
  let (negative, cs) := sign cs
  match specialDecimal cs with
  | some (.decimal x, rest) => some (.decimal (if negative then -x else x), rest)
  | _ => do
    let (whole, rest) ← wholePart cs
    match rest with
    | '.' :: rest =>
      let (fraction, rest) ← digits Char.isDigit rest
      let (exponent, rest) := (exponentAt rest).getD (0, rest)
      let x ← doubleOf? ⟨negative, digitsValue (whole ++ fraction), exponent - fraction.length⟩
      return (.decimal x, rest)
    | _ =>
      let (exponent, rest) ← exponentAt rest
      return (.decimal (← doubleOf? ⟨negative, digitsValue whole, exponent⟩), rest)

/-! ## Dates -/

/-- A number of exactly `count` digits. -/
def fixedNumber (count : Nat) (cs : List Char) : Option (Nat × List Char) :=
  let ds := cs.take count
  if ds.length = count ∧ ds.all Char.isDigit then some (digitsValue ds, cs.drop count) else none

def expect (c : Char) : List Char → Option (List Char)
  | d :: rest => if d = c then some rest else none
  | [] => none

/-- What follows a day of the calendar. -/
def behindDay? (cs : List Char) : Option (List Char) := do
  let (year, cs) ← fixedNumber 4 cs
  let (month, cs) ← fixedNumber 2 (← expect '-' cs)
  let (day, cs) ← fixedNumber 2 (← expect '-' cs)
  if 1 ≤ month ∧ month ≤ 12 ∧ 1 ≤ day ∧ day ≤ Timestamp.daysInMonth year month then some cs else none

/-- What follows a time of day. -/
def behindTime? (cs : List Char) : Option (List Char) := do
  let (hour, cs) ← fixedNumber 2 cs
  let (minute, cs) ← fixedNumber 2 (← expect ':' cs)
  let (second, cs) ← fixedNumber 2 (← expect ':' cs)
  if hour ≤ 23 ∧ minute ≤ 59 ∧ second ≤ 60 then
    match cs with
    | '.' :: c :: rest => if c.isDigit then some (rest.dropWhile Char.isDigit) else none
    | ['.'] => none
    | _ => some cs
  else none

/-- What follows an offset from UTC. -/
def behindOffset? : List Char → Option (List Char)
  | 'Z' :: rest => some rest
  | 'z' :: rest => some rest
  | c :: rest =>
    if c == '+' || c == '-' then do
      let (hour, rest) ← fixedNumber 2 rest
      let (minute, rest) ← fixedNumber 2 (← expect ':' rest)
      if hour ≤ 23 ∧ minute ≤ 59 then some rest else none
    else none
  | [] => none

/-- What follows a date, a time, or both. -/
def behindDate? (cs : List Char) : Option (List Char) :=
  match behindDay? cs with
  | some rest => match rest with
    | c :: late =>
      if c == 'T' || c == 't' || c == ' ' then match behindTime? late with
        | some rest => some ((behindOffset? rest).getD rest)
        | none => some rest
      else some rest
    | [] => some []
  | none => behindTime? cs

def dateAt (cs : List Char) : Option (Toml × List Char) :=
  (behindDate? cs).map fun rest => (.date (String.ofList (cs.take (cs.length - rest.length))), rest)

/-- A value that is no list or table. -/
def scalarAt (cs : List Char) : Option (Toml × List Char) :=
  match cs with
  | 't' :: 'r' :: 'u' :: 'e' :: rest => some (.flag true, rest)
  | 'f' :: 'a' :: 'l' :: 's' :: 'e' :: rest => some (.flag false, rest)
  | '"' :: _ => (textAt cs).map fun (s, rest) => (.text s, rest)
  | '\'' :: _ => (textAt cs).map fun (s, rest) => (.text s, rest)
  | _ => dateAt cs <|> decimalAt cs <|> integerAt cs

end SymbolGraph.Toml
