import SymbolGraph.Json.Basic

/-!
# Writing JSON

Quotes, backslashes and control characters are escaped; everything else is written as it is. The
compact form has no blanks; the indented form puts each item on a line of its own, two spaces per
level, and writes empty arrays and objects on one line.
-/
namespace SymbolGraph.Json

def hexDigit (n : Nat) : Char := (Nat.digitChar n)

def escapeChar (c : Char) : List Char :=
  if c = '"' then ['\\', '"']
  else if c = '\\' then ['\\', '\\']
  else if c = '\n' then ['\\', 'n']
  else if c = '\r' then ['\\', 'r']
  else if c = '\t' then ['\\', 't']
  else if c = '\x08' then ['\\', 'b']
  else if c = '\x0c' then ['\\', 'f']
  else if c.toNat < 0x20 then
    ['\\', 'u', '0', '0', hexDigit (c.toNat / 16), hexDigit (c.toNat % 16)]
  else [c]

def quote (s : String) : List Char := '"' :: s.toList.flatMap escapeChar ++ ['"']

/-- Decimals are positional from `1e-5` up to below `1e16`, and keep a digit after the point. -/
def decimalText (d : Decimal.Digits) : List Char :=
  let sign := if d.negative then ['-'] else []
  let ds := Nat.toDigits 10 d.digits
  let k : Int := ds.length
  let point := k + d.exponent
  let body :=
    if d.digits = 0 then ['0', '.', '0']
    else if 0 ≤ d.exponent && point ≤ 16 then
      ds ++ List.replicate d.exponent.toNat '0' ++ ['.', '0']
    else if 0 < point && point ≤ 16 then
      ds.take point.toNat ++ '.' :: ds.drop point.toNat
    else if -5 < point && point ≤ 0 then
      ['0', '.'] ++ List.replicate (-point).toNat '0' ++ ds
    else
      let tail := ds.drop 1
      let e := point - 1
      ds.take 1 ++ (if tail.isEmpty then [] else '.' :: tail) ++ 'e' ::
        (if e < 0 then ['-'] else []) ++ Nat.toDigits 10 e.natAbs
  sign ++ body

def numberText : JsonNumber → List Char
  | .integer i => (if i < 0 then ['-'] else []) ++ Nat.toDigits 10 i.natAbs
  | .decimal d => decimalText d

mutual

def compactChars : Json → List Char
  | .null => "null".toList
  | .bool true => "true".toList
  | .bool false => "false".toList
  | .number n => numberText n
  | .string s => quote s
  | .unpaired => "null".toList
  | .array items => '[' :: compactItems items
  | .object members => '\x7b' :: compactMembers members

def compactItems : List Json → List Char
  | [] => [']']
  | [j] => compactChars j ++ [']']
  | j :: rest => compactChars j ++ ',' :: compactItems rest

def compactMembers : List (String × Json) → List Char
  | [] => ['\x7d']
  | [(name, j)] => quote name ++ ':' :: compactChars j ++ ['\x7d']
  | (name, j) :: rest => quote name ++ ':' :: compactChars j ++ ',' :: compactMembers rest

end

def compact (j : Json) : String := String.ofList (compactChars j)

def lineBreak (level : Nat) : List Char := '\n' :: List.replicate (2 * level) ' '

mutual

def prettyChars (level : Nat) : Json → List Char
  | .array [] => ['[', ']']
  | .array (j :: rest) =>
    '[' :: lineBreak (level + 1) ++ prettyItems (level + 1) (j :: rest) ++ lineBreak level ++ [']']
  | .object [] => ['\x7b', '\x7d']
  | .object (m :: rest) =>
    '\x7b' :: lineBreak (level + 1) ++ prettyMembers (level + 1) (m :: rest) ++ lineBreak level ++
      ['\x7d']
  | .null => "null".toList
  | .bool true => "true".toList
  | .bool false => "false".toList
  | .number n => numberText n
  | .string s => quote s
  | .unpaired => "null".toList

def prettyItems (level : Nat) : List Json → List Char
  | [] => []
  | [j] => prettyChars level j
  | j :: rest => prettyChars level j ++ ',' :: lineBreak level ++ prettyItems level rest

def prettyMembers (level : Nat) : List (String × Json) → List Char
  | [] => []
  | [(name, j)] => quote name ++ ':' :: ' ' :: prettyChars level j
  | (name, j) :: rest =>
    quote name ++ ':' :: ' ' :: prettyChars level j ++ ',' :: lineBreak level ++
      prettyMembers level rest

end

def pretty (j : Json) : String := String.ofList (prettyChars 0 j)

end SymbolGraph.Json
