import SymbolGraph.Text.Blank
import SymbolGraph.Text.Word

/-!
# Patterns of text

A pattern is looked for anywhere in a text. It is given by the places at which an occurrence that starts
at a given place can end.
-/
namespace SymbolGraph.Text

/-- A place in a text: the character before it and the characters behind it. -/
structure Spot where
  before : Option Char
  behind : List Char

namespace Spot

def isEdge (s : Spot) : Bool := s.before.any isWord != s.behind.head?.any isWord

/-- The place behind the given characters, if they come next. -/
def past? (s : Spot) : List Char → Option Spot
  | [] => some s
  | c :: cs => match s.behind with
    | d :: rest => if c = d then past? ⟨some d, rest⟩ cs else none
    | [] => none

/-- The places behind any number of blanks, the nearest first. -/
def pastBlanks (before : Option Char) : List Char → List Spot
  | [] => [⟨before, []⟩]
  | c :: rest => ⟨before, c :: rest⟩ :: if isBlank c then pastBlanks (some c) rest else []

end Spot

structure Pattern where
  /-- Where an occurrence that starts at the place can end. -/
  ends : Spot → List Spot

namespace Pattern

/-- Exactly these characters. -/
def exactly (chars : List Char) : Pattern := ⟨fun s => (s.past? chars).toList⟩

/-- Between a word character and one that is none. -/
def edge : Pattern := ⟨fun s => if s.isEdge then [s] else []⟩

/-- Any number of blanks. -/
def blanks : Pattern := ⟨fun s => Spot.pastBlanks s.before s.behind⟩

/-- One blank. -/
def blank : Pattern := ⟨fun s => match s.behind with
  | c :: rest => if isBlank c then [⟨some c, rest⟩] else []
  | [] => []⟩

/-- Occurs nowhere. -/
def never : Pattern := ⟨fun _ => []⟩

def both (first second : Pattern) : Pattern := ⟨fun s => (first.ends s).flatMap second.ends⟩
def either (first second : Pattern) : Pattern := ⟨fun s => first.ends s ++ second.ends s⟩

def text (s : String) : Pattern := exactly s.toList

instance : Append Pattern := ⟨both⟩

/-- One of several texts. -/
def anyOf : List String → Pattern
  | [] => never
  | s :: rest => either (text s) (anyOf rest)

/-- Whether the pattern occurs at or behind a place. -/
def occursFrom (p : Pattern) (before : Option Char) : List Char → Bool
  | [] => !(p.ends ⟨before, []⟩).isEmpty
  | c :: rest => !(p.ends ⟨before, c :: rest⟩).isEmpty || p.occursFrom (some c) rest

/-- Whether the pattern occurs in a text. -/
def occursIn (p : Pattern) (text : String) : Bool := p.occursFrom none text.toList

end Pattern
end SymbolGraph.Text
