import SymbolGraph.Error
import SymbolGraph.Text.Split

/-!
# Path patterns

A pattern matches whole paths, byte by byte. `?` stands for one byte and `*` for any number of them,
slashes included; `**/` in front, `/**/` inside and `/**` at the end stand for whole folders; `[a-z]`
is one of several bytes, `[!a-z]` one of the others; `\x7ba,b\x7d` is either of two patterns; a
backslash takes away the meaning of what follows.
-/
namespace SymbolGraph

inductive GlobFault
  | unclosedClass
  | invalidRange (first last : Char)
  | unclosedGroup
  | unopenedGroup
  | danglingEscape
  deriving DecidableEq, Repr, Inhabited

def GlobFault.message : GlobFault → String
  | .unclosedClass => "unclosed character class; missing ']'"
  | .invalidRange first last =>
    "invalid range; '" ++ first.toString ++ "' > '" ++ last.toString ++ "'"
  | .unclosedGroup =>
    "unclosed alternate group; missing '\x7d' (maybe escape '\x7b' with '[\x7b]'?)"
  | .unopenedGroup =>
    "unopened alternate group; missing '\x7b' (maybe escape '\x7d' with '[\x7d]'?)"
  | .danglingEscape => "dangling '\\'"

namespace Glob

inductive Token
  | literal (c : Char)
  /-- Any one byte. -/
  | one
  /-- Any number of bytes. -/
  | any
  /-- Nothing, or folders down to a slash. -/
  | leadingFolders
  /-- A slash, or folders between two slashes. -/
  | innerFolders
  /-- A slash and all that follows. -/
  | trailingPath
  | class (negated : Bool) (ranges : List (Char × Char))
  | choice (branches : List (List Token))
  deriving Repr, Inhabited

/-! ## Reading -/

/-- The part of a pattern read so far, each list with its last element first. -/
structure Draft where
  /-- The finished branches of the innermost open group. -/
  branches : List (List Token) := []
  /-- The tokens of the present branch. -/
  tokens : List Token := []
  /-- The finished branches and tokens around the open groups, the innermost first. -/
  outer : List (List (List Token) × List Token) := []

namespace Draft

def push (d : Draft) (t : Token) : Draft := { d with tokens := t :: d.tokens }

/-- The draft with its last token replaced. -/
def replaceLast (d : Draft) (f : Token → Token) : Draft :=
  match d.tokens with
  | [] => d
  | t :: rest => { d with tokens := f t :: rest }

def inGroup (d : Draft) : Bool := !d.outer.isEmpty

def openGroup (d : Draft) : Draft := { outer := (d.branches, d.tokens) :: d.outer }

def nextBranch (d : Draft) : Draft := { d with branches := d.tokens :: d.branches, tokens := [] }

def closeGroup (d : Draft) : Except GlobFault Draft :=
  match d.outer with
  | [] => .error .unopenedGroup
  | (branches, tokens) :: outer =>
    let group := Token.choice ((d.tokens :: d.branches).reverse.map List.reverse)
    .ok { branches, tokens := group :: tokens, outer }

end Draft

/-- The ranges of a class, read so far with the last one first; `pending` says that a range waits for
its end. -/
def rangesFrom (ranges : List (Char × Char)) (pending : Bool) :
    List Char → Except GlobFault (List (Char × Char))
  | [] => .ok (if pending then ('-', '-') :: ranges else ranges).reverse
  | c :: rest =>
    match pending, ranges with
    | true, (first, _) :: others =>
      if c < first then .error (.invalidRange first c)
      else rangesFrom ((first, c) :: others) false rest
    | _, _ =>
      if c = '-' then rangesFrom ranges true rest else rangesFrom ((c, c) :: ranges) false rest

/-- The class behind an opening bracket. Its first character is always a member. -/
def classOf (cs : List Char) : Except GlobFault Token :=
  let (negated, cs) := match cs with
    | '!' :: rest => (true, rest)
    | '^' :: rest => (true, rest)
    | rest => (false, rest)
  match cs with
  | [] => .error .unclosedClass
  | first :: rest => do
    let ranges ← rangesFrom [(first, first)] false (rest.takeWhile (· ≠ ']'))
    if rest.contains ']' then return .class negated ranges else .error .unclosedClass

/-- What follows the class behind an opening bracket. -/
def behindClass (cs : List Char) : List Char :=
  let cs := match cs with
    | '!' :: rest => rest
    | '^' :: rest => rest
    | rest => rest
  ((cs.drop 1).dropWhile (· ≠ ']')).drop 1

theorem length_behindClass_le (cs : List Char) : (behindClass cs).length ≤ cs.length := by
  have h (l : List Char) : (((l.drop 1).dropWhile (· ≠ ']')).drop 1).length ≤ l.length := by
    have := (List.dropWhile_sublist (· ≠ ']') (l := l.drop 1)).length_le
    simp only [List.length_drop] at this ⊢
    omega
  unfold behindClass
  split
  · exact Nat.le_trans (h _) (by simp)
  · exact Nat.le_trans (h _) (by simp)
  · exact h _

/-- Two stars between other tokens: they stand for folders if a slash or the edge of a branch is on
either side, and else for any bytes. -/
def doubleStar (before : Option Char) (behind : List Char) (d : Draft) : Draft × List Char :=
  let plain := (d.push .any |>.push .any, behind)
  let folders (ending : Bool) (rest : List Char) := (d.replaceLast fun t => match t with
    | .leadingFolders => .leadingFolders
    | .trailingPath => .trailingPath
    | _ => if ending then .trailingPath else .innerFolders, rest)
  if d.tokens.isEmpty then
    match behind with
    | [] => (d.push .leadingFolders, [])
    | '/' :: rest => (d.push .leadingFolders, rest)
    | _ => plain
  else if before != some '/' && !(d.inGroup && (before == some ',' || before == some '\x7b')) then plain
  else match behind with
    | [] => folders true []
    | '/' :: rest => folders false rest
    | c :: _ => if d.inGroup && (c == ',' || c == '\x7d') then folders true behind else plain

theorem length_doubleStar_le (before : Option Char) (behind : List Char) (d : Draft) :
    (doubleStar before behind d).2.length ≤ behind.length := by
  unfold doubleStar
  split
  · split <;> simp
  · split
    · simp
    · split
      · simp
      · simp
      · split <;> simp

/-- The tokens of a pattern; `before` is the character in front. -/
def draftFrom (before : Option Char) (d : Draft) (cs : List Char) : Except GlobFault Draft :=
  match cs with
  | [] => .ok d
  | '?' :: rest => draftFrom (some '?') (d.push .one) rest
  | '*' :: '*' :: rest =>
    let next := doubleStar before rest d
    draftFrom (some (if next.2.length < rest.length then '/' else '*')) next.1 next.2
  | '*' :: rest => draftFrom (some '*') (d.push .any) rest
  | '[' :: rest => do draftFrom (some ']') (d.push (← classOf rest)) (behindClass rest)
  | '\x7b' :: rest => draftFrom (some '\x7b') d.openGroup rest
  | '\x7d' :: rest => do draftFrom (some '\x7d') (← d.closeGroup) rest
  | ',' :: rest =>
    draftFrom (some ',') (if d.inGroup then d.nextBranch else d.push (.literal ',')) rest
  | '\\' :: c :: rest => draftFrom (some c) (d.push (.literal c)) rest
  | ['\\'] => .error .danglingEscape
  | c :: rest => draftFrom (some c) (d.push (.literal c)) rest
termination_by cs.length
decreasing_by
  all_goals grind [length_doubleStar_le, length_behindClass_le]

end Glob

structure Glob where
  tokens : List Glob.Token
  deriving Repr, Inhabited

namespace Glob

def parse (pattern : String) : Except GlobFault Glob := do
  let d ← draftFrom none {} pattern.toList
  if d.inGroup then .error .unclosedGroup else return ⟨d.tokens.reverse⟩

/-! ## Matching -/

/-- All ends of a text, the text itself first. -/
def suffixes : List UInt8 → List (List UInt8)
  | [] => [[]]
  | b :: rest => (b :: rest) :: suffixes rest

def slash : UInt8 := '/'.toUInt8

/-- The text itself and what follows each slash. -/
def folderStarts : List UInt8 → List (List UInt8)
  | [] => [[]]
  | b :: rest => (b :: rest) :: (suffixesBehindSlash (b :: rest))
where
  suffixesBehindSlash : List UInt8 → List (List UInt8)
    | [] => []
    | b :: rest =>
      if b = slash then rest :: suffixesBehindSlash rest else suffixesBehindSlash rest

/-- A range of characters as ranges of bytes: only the bytes that meet at the dash make a range. -/
def byteRanges (range : Char × Char) : List (UInt8 × UInt8) :=
  let first := (String.singleton range.1).toUTF8.toList
  let last := (String.singleton range.2).toUTF8.toList
  let single (bytes : List UInt8) : List (UInt8 × UInt8) := bytes.map fun b => (b, b)
  if range.1 = range.2 then single first
  else single first.dropLast ++ ((first.getLast?.getD 0, last.head?.getD 0) :: single last.tail)

def inClass (negated : Bool) (ranges : List (Char × Char)) (b : UInt8) : Bool :=
  (ranges.flatMap byteRanges).any (fun r => r.1 ≤ b && b ≤ r.2) != negated

mutual

/-- A token that can only stand for nothing: a group without a branch that says anything. -/
def Token.isVoid : Token → Bool
  | .choice branches => allVoid branches
  | _ => false

def branchVoid : List Token → Bool
  | [] => true
  | t :: rest => t.isVoid && branchVoid rest

def allVoid : List (List Token) → Bool
  | [] => true
  | b :: rest => branchVoid b && allVoid rest

end

mutual

/-- What may follow the part of a text that a token matches. -/
def Token.rests : Token → List UInt8 → List (List UInt8)
  | .literal c, text =>
    let bytes := (String.singleton c).toUTF8.toList
    if bytes.isPrefixOf text then [text.drop bytes.length] else []
  | .one, text => match text with
    | [] => []
    | _ :: rest => [rest]
  | .any, text => suffixes text
  | .leadingFolders, text => folderStarts text
  | .innerFolders, text => match text with
    | [] => []
    | b :: rest => if b = slash then folderStarts rest else []
  | .trailingPath, text => match text with
    | [] => []
    | b :: rest => if b = slash then suffixes rest else []
  | .class negated ranges, text => match text with
    | [] => []
    | b :: rest => if inClass negated ranges b then [rest] else []
  | .choice branches, text => if allVoid branches then [text] else branchRests branches text

/-- What may follow a match of a sequence of tokens. -/
def sequenceRests : List Token → List (List UInt8) → List (List UInt8)
  | [], texts => texts
  | t :: rest, texts => sequenceRests rest (texts.flatMap t.rests).eraseDups

/-- What may follow a match of one of the branches; a branch that says nothing does not count. -/
def branchRests : List (List Token) → List UInt8 → List (List UInt8)
  | [], _ => []
  | b :: rest, text => (if branchVoid b then [] else sequenceRests b [text]) ++ branchRests rest text

end

/-- Whether the pattern matches the whole path. -/
def covers (g : Glob) (path : String) : Bool :=
  match g.tokens with
  | [.leadingFolders] => true
  | tokens => (sequenceRests tokens [path.toUTF8.toList]).any List.isEmpty

/-- Reads the patterns that a configuration gives for some purpose. -/
def parseAll (purpose : String) (patterns : List String) : Except AnalysisError (List Glob) :=
  patterns.mapM fun p => (parse p).mapError fun fault =>
    .invalidArgument ("invalid " ++ purpose ++ " glob '" ++ p ++ "': error parsing glob '" ++ p ++
      "': " ++ fault.message)

end Glob
end SymbolGraph
