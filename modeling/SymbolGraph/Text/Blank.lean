import SymbolGraph.Text.Split

/-!
# Blank characters

Blank means the Unicode property `White_Space`. Words are the maximal runs of characters that are
not blank; a text in single-blank form has its words separated by one space and nothing else.
-/
namespace SymbolGraph.Text

/-- The characters with the Unicode property `White_Space`. -/
def isBlank (c : Char) : Bool :=
  let n := c.toNat
  (9 ≤ n && n ≤ 13) || n == 0x20 || n == 0x85 || n == 0xA0 || n == 0x1680 ||
  (0x2000 ≤ n && n ≤ 0x200A) || n == 0x2028 || n == 0x2029 || n == 0x202F || n == 0x205F ||
  n == 0x3000

def trim (s : String) : String := trimBoth isBlank s

/-- The maximal runs of characters that are not blank. -/
def wordsOf : List Char → List (List Char)
  | [] => []
  | c :: cs =>
    if isBlank c then wordsOf cs
    else match cs with
      | [] => [[c]]
      | d :: _ =>
        if isBlank d then [c] :: wordsOf cs
        else match wordsOf cs with
          | w :: ws => (c :: w) :: ws
          | [] => [[c]]

def words (s : String) : List String := (wordsOf s.toList).map String.ofList

/-- Runs of blanks collapse to one space and the ends are trimmed, so that layout does not count. -/
def singleBlank (s : String) : String := joinWith " " (words s)

end SymbolGraph.Text
