/-!
# Splitting a text at a separator

Splitting keeps empty pieces, so that joining the pieces gives the text back.
-/
namespace SymbolGraph.Text

/-- The pieces of `cs` between the occurrences of `sep`; there is always at least one. -/
def splitChars (sep : Char) : List Char → List (List Char)
  | [] => [[]]
  | c :: cs =>
    if c = sep then [] :: splitChars sep cs
    else match splitChars sep cs with
      | piece :: rest => (c :: piece) :: rest
      | [] => [[c]]

def split (sep : Char) (s : String) : List String :=
  (splitChars sep s.toList).map String.ofList

/-- The pieces joined by `sep`. -/
def joinWith (sep : String) (pieces : List String) : String :=
  sep.intercalate pieces

/-- What follows `start` in `s`, if `s` starts with it. -/
def dropStart? (start : String) (s : String) : Option String :=
  if start.toList.isPrefixOf s.toList then some (String.ofList (s.toList.drop start.length)) else none

/-- What precedes `stop` in `s`, if `s` ends with it. -/
def dropEnd? (stop : String) (s : String) : Option String :=
  if stop.toList.isSuffixOf s.toList then
    some (String.ofList (s.toList.take (s.length - stop.length)))
  else none

def startsWith (start : String) (s : String) : Bool := start.toList.isPrefixOf s.toList
def endsWith (stop : String) (s : String) : Bool := stop.toList.isSuffixOf s.toList

/-- Drops every leading character of the class. -/
def trimStart (p : Char → Bool) (s : String) : String :=
  String.ofList (s.toList.dropWhile p)

/-- Drops every trailing character of the class. -/
def trimEnd (p : Char → Bool) (s : String) : String :=
  String.ofList (s.toList.reverse.dropWhile p).reverse

def trimBoth (p : Char → Bool) (s : String) : String :=
  trimEnd p (trimStart p s)

/-- Drops `start` from the front as long as it stands there. -/
def dropAllStart (start : String) (s : String) : String :=
  let rec go : Nat → List Char → List Char
    | 0, cs => cs
    | n + 1, cs => if start.toList.isPrefixOf cs then go n (cs.drop start.length) else cs
  if start.isEmpty then s else String.ofList (go s.length s.toList)

/-- Drops `stop` from the end as long as it stands there. -/
def dropAllEnd (stop : String) (s : String) : String :=
  let rec go : Nat → List Char → List Char
    | 0, cs => cs
    | n + 1, cs =>
      if stop.toList.isSuffixOf cs then go n (cs.take (cs.length - stop.length)) else cs
  if stop.isEmpty then s else String.ofList (go s.length s.toList)

def containsText (part : String) (s : String) : Bool :=
  let rec go : List Char → Bool
    | [] => part.isEmpty
    | c :: cs => part.toList.isPrefixOf (c :: cs) || go cs
  go s.toList

/-- Every `old` replaced by `new`. -/
def replaceChar (old new : Char) (s : String) : String :=
  String.ofList (s.toList.map fun c => if c = old then new else c)

/-- Each character for which `f` gives a text is replaced by that text. -/
def expandChars (f : Char → Option String) (s : String) : String :=
  String.ofList (s.toList.flatMap fun c => match f c with
    | some t => t.toList
    | none => [c])

/-- The last position of `c`, counted from the front. -/
def lastIndexOf? (c : Char) (s : String) : Option Nat :=
  (s.toList.reverse.findIdx? (· = c)).map fun i => s.length - 1 - i

def take (n : Nat) (s : String) : String := String.ofList (s.toList.take n)
def drop (n : Nat) (s : String) : String := String.ofList (s.toList.drop n)

end SymbolGraph.Text
