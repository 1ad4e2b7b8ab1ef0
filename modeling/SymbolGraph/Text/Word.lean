import SymbolGraph.Text.LetterTable
import SymbolGraph.Text.MarkTable

/-!
# Characters of words and names

A word character is a letter, a mark, a digit, a connector such as the underscore, or a joiner. A
name starts with a letter or, by the rules of some language, an underscore; the rules for names leave
out some letters whose normal forms are no names.
-/
namespace SymbolGraph.Text

def inRanges (ranges : List (Nat × Nat)) (n : Nat) : Bool := ranges.any fun r => r.1 ≤ n && n ≤ r.2

/-- Letters that are neither letters nor marks by their category. -/
def otherWordRanges : List (Nat × Nat) :=
  [(0x200c, 0x200d), (0x24b6, 0x24e9), (0x1f130, 0x1f149), (0x1f150, 0x1f169), (0x1f170, 0x1f189)]

def isAsciiWord (c : Char) : Bool := c.isAlphanum || c == '_'

/-- Word characters in the sense of Unicode regular expressions. -/
def isWord (c : Char) : Bool :=
  if c.toNat < 128 then isAsciiWord c
  else inRanges letterRanges c.toNat || inRanges markRanges c.toNat ||
    inRanges otherWordRanges c.toNat

/-- Letters that no name may start with. -/
def noNameStartRanges : List (Nat × Nat) :=
  [(0x37a, 0x37a), (0xe33, 0xe33), (0xeb3, 0xeb3), (0x2e2f, 0x2e2f), (0xfc5e, 0xfc63),
   (0xfdfa, 0xfdfb), (0xfe70, 0xfe70), (0xfe72, 0xfe72), (0xfe74, 0xfe74), (0xfe76, 0xfe76),
   (0xfe78, 0xfe78), (0xfe7a, 0xfe7a), (0xfe7c, 0xfe7c), (0xfe7e, 0xfe7e), (0xff9e, 0xff9f)]

def otherNameStartRanges : List (Nat × Nat) :=
  [(0x1885, 0x1886), (0x2118, 0x2118), (0x212e, 0x212e)]

/-- Characters that a name may start with, the underscore apart. -/
def startsName (c : Char) : Bool :=
  if c.toNat < 128 then c.isAlpha
  else (inRanges letterRanges c.toNat && !inRanges noNameStartRanges c.toNat) ||
    inRanges otherNameStartRanges c.toNat

/-- Letters and marks that no name may hold. -/
def noNamePartRanges : List (Nat × Nat) :=
  [(0x37a, 0x37a), (0x488, 0x489), (0x1abe, 0x1abe), (0x20dd, 0x20e0), (0x20e2, 0x20e4),
   (0x2e2f, 0x2e2f), (0xa670, 0xa672), (0xfc5e, 0xfc63), (0xfdfa, 0xfdfb), (0xfe70, 0xfe70),
   (0xfe72, 0xfe72), (0xfe74, 0xfe74), (0xfe76, 0xfe76), (0xfe78, 0xfe78), (0xfe7a, 0xfe7a),
   (0xfe7c, 0xfe7c), (0xfe7e, 0xfe7e)]

def otherNamePartRanges : List (Nat × Nat) :=
  [(0xb7, 0xb7), (0x387, 0x387), (0x1369, 0x1371), (0x19da, 0x19da), (0x2118, 0x2118),
   (0x212e, 0x212e)]

/-- Characters that may go on with a name. -/
def continuesName (c : Char) : Bool :=
  if c.toNat < 128 then isAsciiWord c
  else ((inRanges letterRanges c.toNat || inRanges markRanges c.toNat) &&
      !inRanges noNamePartRanges c.toNat) ||
    inRanges otherNamePartRanges c.toNat

end SymbolGraph.Text
