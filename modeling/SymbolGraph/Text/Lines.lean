import SymbolGraph.Text.Blank

/-!
# Lines of a text

A line ends at a line feed; a carriage return right before the line feed belongs to the line break.
A text that ends with a line feed has no empty last line.
-/
namespace SymbolGraph.Text

private def dropReturn (cs : List Char) : List Char :=
  match cs.reverse with
  | '\r' :: rest => rest.reverse
  | _ => cs

/-- The lines of `cs` without their line breaks. -/
def lineList : List (List Char) → List (List Char)
  | [] => []
  | [last] => if last.isEmpty then [] else [last]
  | line :: rest => dropReturn line :: lineList rest

def lines (s : String) : List String :=
  (lineList (splitChars '\n' s.toList)).map String.ofList

/-- The longest piece of a line that is shown as the context of a usage. -/
def maxContext : Nat := 120

/-- The trimmed line with the given number (from one), cut after `maxContext` characters. Line zero
is read as the first line and a line that does not exist as an empty one. -/
def lineContext (content : String) (line : Nat) : String :=
  take maxContext (trim ((lines content)[line - 1]?.getD ""))

end SymbolGraph.Text
