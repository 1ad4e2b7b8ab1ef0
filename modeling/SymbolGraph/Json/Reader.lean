import SymbolGraph.Json.Basic

/-!
# Reading JSON

The whole text must be one value, with blanks around it. Numbers have no superfluous leading zero
and no sign other than minus, and control characters in texts are escaped.
-/
namespace SymbolGraph.Json

def isGap (c : Char) : Bool := c == ' ' || c == '\n' || c == '\t' || c == '\r'

def skipGap (cs : List Char) : List Char := cs.dropWhile isGap

def hexValue? (c : Char) : Option Nat :=
  if '0' ≤ c ∧ c ≤ '9' then some (c.toNat - '0'.toNat)
  else if 'a' ≤ c ∧ c ≤ 'f' then some (c.toNat - 'a'.toNat + 10)
  else if 'A' ≤ c ∧ c ≤ 'F' then some (c.toNat - 'A'.toNat + 10)
  else none

def hex4? (a b c d : Char) : Option Nat := do
  let a ← hexValue? a
  let b ← hexValue? b
  let c ← hexValue? c
  let d ← hexValue? d
  return ((a * 16 + b) * 16 + c) * 16 + d

/-- The character of a one-letter escape. -/
def plainEscape? : Char → Option Char
  | '"' => some '"'
  | '\\' => some '\\'
  | '/' => some '/'
  | 'b' => some '\x08'
  | 'f' => some '\x0c'
  | 'n' => some '\n'
  | 'r' => some '\r'
  | 't' => some '\t'
  | _ => none

def isLead (n : Nat) : Bool := 0xD800 ≤ n && n ≤ 0xDBFF
def isTrail (n : Nat) : Bool := 0xDC00 ≤ n && n ≤ 0xDFFF

/-- The text behind an opening quote up to the closing one, with what follows. The text is none if
half of a surrogate pair stands alone. -/
def textBody (paired : Bool) (acc : List Char) : Nat → List Char → Option (Option String × List Char)
  | 0, _ => none
  | fuel + 1, cs =>
    match cs with
    | [] => none
    | '"' :: rest => some (if paired then some (String.ofList acc.reverse) else none, rest)
    | '\\' :: 'u' :: a :: b :: c :: d :: rest =>
      match hex4? a b c d with
      | none => none
      | some n =>
        if isLead n then
          match rest with
          | '\\' :: 'u' :: a' :: b' :: c' :: d' :: rest' =>
            match hex4? a' b' c' d' with
            | some low =>
              if isTrail low then
                let code := 0x10000 + (n - 0xD800) * 0x400 + (low - 0xDC00)
                textBody paired (Char.ofNat code :: acc) fuel rest'
              else textBody false acc fuel rest
            | none => none
          | _ => textBody false acc fuel rest
        else if isTrail n then textBody false acc fuel rest
        else textBody paired (Char.ofNat n :: acc) fuel rest
    | '\\' :: e :: rest =>
      match plainEscape? e with
      | some c => textBody paired (c :: acc) fuel rest
      | none => none
    | c :: rest => if c.toNat < 0x20 then none else textBody paired (c :: acc) fuel rest

def digitsValue (ds : List Char) : Nat :=
  ds.foldl (fun n c => n * 10 + (c.toNat - '0'.toNat)) 0

/-- Splits off the digits in front. -/
def takeDigits (cs : List Char) : List Char × List Char := cs.span Char.isDigit

def exponentPart (cs : List Char) : Option (Option Int × List Char) :=
  match cs with
  | e :: rest =>
    if e == 'e' || e == 'E' then
      let (sign, rest) : Int × List Char := match rest with
        | '-' :: r => (-1, r)
        | '+' :: r => (1, r)
        | r => (1, r)
      let (ds, rest) := takeDigits rest
      if ds.isEmpty then none else some (some (sign * digitsValue ds), rest)
    else some (none, cs)
  | [] => some (none, cs)

def numberAt (cs : List Char) : Option (JsonNumber × List Char) := do
  let (negative, cs) := match cs with
    | '-' :: r => (true, r)
    | r => (false, r)
  let (whole, rest) := takeDigits cs
  if whole.isEmpty || (whole.length > 1 && whole.head? == some '0') then none
  else
    let (fraction, rest) ← match rest with
      | '.' :: r =>
        let (ds, r) := takeDigits r
        if ds.isEmpty then none else some (some ds, r)
      | r => some (none, r)
    let (exponent, rest) ← exponentPart rest
    match fraction, exponent with
    | none, none =>
      let n := digitsValue whole
      if negative && n == 0 then some (.decimal ⟨true, 0, 0⟩, rest)
      else some (.integer (if negative then -(n : Int) else n), rest)
    | fraction, exponent =>
      let ds := whole ++ fraction.getD []
      let e := exponent.getD 0 - ((fraction.getD []).length : Int)
      some (.decimal ⟨negative, digitsValue ds, e⟩, rest)

mutual

def valueAt : Nat → List Char → Option (Json × List Char)
  | 0, _ => none
  | fuel + 1, cs =>
    match skipGap cs with
    | '"' :: rest => match textBody true [] (rest.length + 1) rest with
      | some (some s, rest) => some (.string s, rest)
      | some (none, rest) => some (.unpaired, rest)
      | none => none
    | '[' :: rest => match skipGap rest with
      | ']' :: rest => some (.array [], rest)
      | rest => match itemsAt fuel rest with
        | some (items, rest) => some (.array items, rest)
        | none => none
    | '\x7b' :: rest => match skipGap rest with
      | '\x7d' :: rest => some (.object [], rest)
      | rest => match membersAt fuel rest with
        | some (some members, rest) => some (.object members, rest)
        | some (none, rest) => some (.unpaired, rest)
        | none => none
    | 't' :: 'r' :: 'u' :: 'e' :: rest => some (.bool true, rest)
    | 'f' :: 'a' :: 'l' :: 's' :: 'e' :: rest => some (.bool false, rest)
    | 'n' :: 'u' :: 'l' :: 'l' :: rest => some (.null, rest)
    | rest => match numberAt rest with
      | some (n, rest) => some (.number n, rest)
      | none => none

def itemsAt : Nat → List Char → Option (List Json × List Char)
  | 0, _ => none
  | fuel + 1, cs =>
    match valueAt fuel cs with
    | none => none
    | some (item, rest) =>
      match skipGap rest with
      | ',' :: rest => match itemsAt fuel rest with
        | some (items, rest) => some (item :: items, rest)
        | none => none
      | ']' :: rest => some ([item], rest)
      | _ => none

def membersAt : Nat → List Char → Option (Option (List (String × Json)) × List Char)
  | 0, _ => none
  | fuel + 1, cs =>
    match skipGap cs with
    | '"' :: rest =>
      match textBody true [] (rest.length + 1) rest with
      | none => none
      | some (name, rest) =>
        match skipGap rest with
        | ':' :: rest =>
          match valueAt fuel rest with
          | none => none
          | some (item, rest) =>
            match skipGap rest with
            | ',' :: rest => match membersAt fuel rest with
              | some (members, rest) =>
                some (name.bind fun name => members.map fun ms => (name, item) :: ms, rest)
              | none => none
            | '\x7d' :: rest => some (name.map fun name => [(name, item)], rest)
            | _ => none
        | _ => none
    | _ => none

end

/-- The value that the whole text is. -/
def read? (text : String) : Option Json :=
  let cs := text.toList
  match valueAt (cs.length + 1) cs with
  | some (j, rest) => if (skipGap rest).isEmpty then some j else none
  | none => none

/-- Deeper nesting than this is refused where a value is read without a known shape. -/
def maxDepth : Nat := 127

/-- The least number that no double is near to. -/
def doubleBound : Nat := Nat.pow 2 1024 - Nat.pow 2 970

/-- Whether some double is near to a number. -/
def inRange : JsonNumber → Bool
  | .integer i => i.natAbs < doubleBound
  | .decimal d =>
    if d.digits = 0 then true
    else if d.exponent ≤ 0 then d.digits < doubleBound * Nat.pow 10 (min (-d.exponent) 400).toNat
    else if d.exponent > 400 then false
    else d.digits * Nat.pow 10 d.exponent.toNat < doubleBound

mutual

/-- Whether a value read without a known shape is acceptable: nested at most `depth` deep, every
text Unicode and every number in range. -/
def acceptable (depth : Nat) : Json → Bool
  | .unpaired => false
  | .number n => inRange n
  | .array items => match depth with
    | 0 => false
    | d + 1 => acceptableItems d items
  | .object members => match depth with
    | 0 => false
    | d + 1 => acceptableMembers d members
  | _ => true

def acceptableItems (depth : Nat) : List Json → Bool
  | [] => true
  | j :: rest => acceptable depth j && acceptableItems depth rest

def acceptableMembers (depth : Nat) : List (String × Json) → Bool
  | [] => true
  | (_, j) :: rest => acceptable depth j && acceptableMembers depth rest

end

/-- A value without a known shape. -/
def readAny? (text : String) : Option Json :=
  (read? text).filter (acceptable maxDepth)

end SymbolGraph.Json
