import SymbolGraph.Crate.Kind
import SymbolGraph.Crate.Token

/-!
# Reading token trees

A cursor walks over the tokens of one bracket. What stands in an inner bracket is read by a reader of
its own, which has to use up everything.
-/
namespace SymbolGraph.Crate

/-- Words that are no names unless they are written raw. -/
def keywords : List String :=
  ["_", "abstract", "as", "async", "await", "become", "box", "break", "const", "continue", "crate",
   "do", "dyn", "else", "enum", "extern", "false", "final", "fn", "for", "if", "impl", "in", "let",
   "loop", "macro", "match", "mod", "move", "mut", "override", "priv", "pub", "ref", "return", "Self",
   "self", "static", "struct", "super", "trait", "true", "try", "type", "typeof", "unsafe", "unsized",
   "use", "virtual", "where", "while", "yield"]

/-! ## Looking ahead -/

/-- Whether the punctuation marks of `spelling` come next, joined to each other. -/
def atMarks : List Char → List Token → Bool
  | [], _ => true
  | [c], .mark d _ _ :: _ => c == d
  | c :: cs, .mark d joint _ :: rest => c == d && joint && atMarks cs rest
  | _, _ => false

def atMark (spelling : String) (ts : List Token) : Bool := atMarks spelling.toList ts

def atWord (spelling : String) : List Token → Bool
  | .word w _ :: _ => w.text == spelling
  | _ => false

/-- Any word, keywords included. -/
def atAnyWord : List Token → Bool
  | .word _ _ :: _ => true
  | _ => false

/-- A name that is no keyword. -/
def atName : List Token → Bool
  | .word w _ :: _ => !keywords.contains w.text
  | _ => false

def atLifetime : List Token → Bool
  | .lifetime _ _ :: _ => true
  | _ => false

def atGroup (d : Delimiter) : List Token → Bool
  | .group e _ _ _ :: _ => d == e
  | _ => false

def atParen : List Token → Bool := atGroup .parenthesis
def atBrace : List Token → Bool := atGroup .brace
def atBracket : List Token → Bool := atGroup .bracket

def atText : List Token → Bool
  | .literal .string _ _ :: _ => true
  | _ => false

/-- A literal: a text, a character, a number with or without sign, or a truth value. -/
def atLiteral : List Token → Bool
  | .literal _ _ _ :: _ => true
  | .word w _ :: _ => w.text == "true" || w.text == "false"
  | .mark '-' _ _ :: .literal .integer _ _ :: _ => true
  | .mark '-' _ _ :: .literal .float _ _ :: _ => true
  | _ => false

/-! ## Reading -/

structure Cursor where
  rest : List Token
  /-- The last token read. -/
  last : Span

abbrev Parse := StateT Cursor Option

namespace Parse

def fail {α : Type} : Parse α := failure
def guard (b : Bool) : Parse Unit := if b then return () else fail

/-- The tokens that are still to be read. -/
def ahead : Parse (List Token) := return (← get).rest

def test (p : List Token → Bool) : Parse Bool := return p (← ahead)
def isEmpty : Parse Bool := return (← ahead).isEmpty

/-- The result of `p`, or none with the cursor where it was. -/
def attempt {α : Type} (p : Parse α) : Parse (Option α) := (some <$> p) <|> return none

/-- Passes one token. -/
def skip : Parse Unit := do
  match ← ahead with
  | t :: rest => set (⟨rest, t.stop⟩ : Cursor)
  | [] => fail

def skipMany : Nat → Parse Unit
  | 0 => return ()
  | n + 1 => do skip; skipMany n

/-- A given punctuation mark. -/
def mark (spelling : String) : Parse Unit := do
  guard (← test (atMark spelling))
  skipMany spelling.length

/-- Passes a mark if it comes next. -/
def optionalMark (spelling : String) : Parse Bool := do
  if ← test (atMark spelling) then mark spelling; return true else return false

def word (spelling : String) : Parse Unit := do
  guard (← test (atWord spelling))
  skip

def optionalWord (spelling : String) : Parse Bool := do
  if ← test (atWord spelling) then skip; return true else return false

/-- Any word as a name. -/
def anyName : Parse Node := do
  match ← ahead with
  | .word w span :: _ => skip; return .node .name none w.text span []
  | _ => fail

/-- A name that is no keyword. -/
def name : Parse Node := do
  guard (← test atName)
  anyName

def lifetime : Parse Unit := do
  guard (← test atLifetime)
  skip

def optionalLifetime : Parse Unit := do
  if ← test atLifetime then skip

def literal : Parse Unit := do
  guard (← test atLiteral)
  if ← test (atMark "-") then skip
  skip

/-- Reads the content of a bracket with `p`, which has to use it up. The result comes with the places
of both brackets. -/
def within {α : Type} (d : Delimiter) (p : Parse α) : Parse (α × Span × Span) := do
  match ← ahead with
  | .group e content opening closing :: rest =>
    guard (d == e)
    match p ⟨content, opening⟩ with
    | some (a, ⟨[], _⟩) =>
      set (⟨rest, closing⟩ : Cursor)
      return (a, opening, closing)
    | _ => fail
  | _ => fail

def inside {α : Type} (d : Delimiter) (p : Parse α) : Parse α := return (← within d p).1

/-- Passes a bracket of any kind; gives its kind and content. -/
def delimited : Parse (Delimiter × List Token) := do
  match ← ahead with
  | .group d content _ _ :: _ => skip; return (d, content)
  | _ => fail

/-- A node over what `p` reads, from its first to its last token; `p` also tells its kind. -/
def phraseOf (p : Parse (Kind × List Node)) : Parse Node := do
  let start := ((← ahead).head?.map Token.start).getD (← get).last
  let (kind, children) ← p
  let stop := (← get).last
  return .node kind none "" ⟨start.start, stop.stop, start.line, stop.endLine⟩ children

/-- A node of the given kind over what `p` reads. -/
def phrase (kind : Kind) (p : Parse (List Node)) : Parse Node := phraseOf (do return (kind, ← p))

/-- Repeats `p` while `more` holds. -/
def whileTrue {α : Type} (more : List Token → Bool) (p : Parse α) : Parse (List α) := fun cur =>
  let rec go : Nat → Cursor → List α → Option (List α × Cursor)
    | 0, _, _ => none
    | fuel + 1, cur, acc =>
      if more cur.rest then
        match p cur with
        | some (a, next) => go fuel next (a :: acc)
        | none => none
      else some (acc.reverse, cur)
  go (cur.rest.length + 1) cur []

/-- Repeats `p` up to the end of the bracket. -/
def untilEnd {α : Type} (p : Parse α) : Parse (List α) := whileTrue (fun ts => !ts.isEmpty) p

/-- Items separated by commas up to the end of the bracket; a comma may come last. -/
def commaList {α : Type} (p : Parse α) : Parse (List α) := untilEnd do
  let a ← p
  if !(← isEmpty) then mark ","
  return a

/-- Items joined by `sep`, as long as a separator follows and the end is not reached. -/
def joined {α : Type} (sep : String) (atEnd : List Token → Bool) (p : Parse α) : Parse (List α) :=
  fun cur =>
    let rec go : Nat → Cursor → List α → Option (List α × Cursor)
      | 0, _, _ => none
      | fuel + 1, cur, acc =>
        if atEnd cur.rest then some (acc.reverse, cur)
        else match p cur with
          | none => none
          | some (a, next) =>
            if atMark sep next.rest then
              match mark sep next with
              | some (_, next) => go fuel next (a :: acc)
              | none => none
            else some ((a :: acc).reverse, next)
    go (cur.rest.length + 1) cur []

end Parse
end SymbolGraph.Crate
