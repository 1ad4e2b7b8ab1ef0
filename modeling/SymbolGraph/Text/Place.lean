import SymbolGraph.Text.Blank
import SymbolGraph.Tree.Source

/-!
# Places in a text

A place is a line, counted from one, and a column, counted in characters from zero. The offset of a
place counts the bytes of the text's UTF-8 form before it.
-/
namespace SymbolGraph.Text

structure Place where
  line : Nat
  column : Nat
  deriving DecidableEq, Repr, Inhabited

/-- The number of bytes of a list of characters. -/
def byteSize : List Char → Nat
  | [] => 0
  | c :: rest => c.utf8Size + byteSize rest

/-- What follows the first `n` line feeds, with the number of bytes before it. -/
def afterLines : Nat → List Char → Option (Nat × List Char)
  | 0, cs => some (0, cs)
  | _ + 1, [] => none
  | n + 1, c :: cs => do
    let (before, rest) ← afterLines (if c = '\n' then n else n + 1) cs
    return (c.utf8Size + before, rest)

/-- The offset of a place. A column may reach beyond its line; beyond the end of the text it is read
as the end. A place on a line that does not exist has no offset. -/
def byteOffset? (cs : List Char) (place : Place) : Option Nat := do
  let (before, rest) ← afterLines (place.line - 1) cs
  return before + byteSize (rest.take place.column)

/-- The characters up to an offset and those behind it, if it lies between two characters. -/
def splitAtByte? : Nat → List Char → Option (List Char × List Char)
  | 0, cs => some ([], cs)
  | _ + 1, [] => none
  | n + 1, c :: cs =>
    if c.utf8Size ≤ n + 1 then
      (splitAtByte? (n + 1 - c.utf8Size) cs).map fun (front, rest) => (c :: front, rest)
    else none
termination_by _ cs => cs.length

/-- The characters between two offsets. -/
def sliceBytes? (cs : List Char) (start stop : Nat) : Option (List Char) := do
  let (_, rest) ← splitAtByte? start cs
  return (← splitAtByte? (stop - start) rest).1

/-- The text between two places in single-blank form. -/
def textBetween? (content : String) (start stop : Place) : Option String := do
  let cs := content.toList
  let i ← byteOffset? cs start
  let j ← byteOffset? cs stop
  if i ≤ j then return singleBlank (String.ofList (← sliceBytes? cs i j)) else none

end SymbolGraph.Text

namespace SymbolGraph.Source

/-- The number of characters between offset `i` and the line feed before it. -/
def columnAt (src : Source) : Nat → Nat
  | 0 => 0
  | i + 1 => if src.chars[i]? == some '\n' then 0 else src.columnAt i + 1

/-- The place of a character offset. -/
def placeAt (src : Source) (i : Nat) : Text.Place := ⟨src.lineAt i, src.columnAt i⟩

end SymbolGraph.Source
