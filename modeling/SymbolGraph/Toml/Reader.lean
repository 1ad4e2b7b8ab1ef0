import SymbolGraph.Toml.Draft
import SymbolGraph.Toml.Scalar

/-!
# Reading TOML

A document is a sequence of lines: headers of tables, and keys with their values. Lists may run over
several lines and hold comments, tables within braces stay on one line.
-/
namespace SymbolGraph.Toml

/-- Lists, tables within braces and dotted keys are nested less deep than this. -/
def maxNesting : Nat := 80

def skipGap (cs : List Char) : List Char := cs.dropWhile isGap

/-- What follows a comment, if there is one. -/
def skipComment : List Char → List Char
  | '#' :: rest => rest.dropWhile isPlain
  | cs => cs

/-- What follows the end of a line, a comment in front of it included. -/
def endOfLine? (cs : List Char) : Option (List Char) :=
  match skipComment (skipGap cs) with
  | [] => some []
  | rest => newline? rest

/-- What follows blanks, comments and line breaks. -/
def skipLines : Nat → List Char → List Char
  | 0, cs => cs
  | fuel + 1, cs =>
    let cs := skipGap cs
    match newline? (skipComment cs) with
    | some rest => skipLines fuel rest
    | none => cs

/-! ## Keys -/

def isBare (c : Char) : Bool := c.isAlphanum || c == '_' || c == '-'

def simpleKey (cs : List Char) : Option (String × List Char) :=
  match cs with
  | '"' :: rest => quotedBody [] (rest.length + 1) rest
  | '\'' :: rest => literalBody rest
  | _ =>
    let name := cs.takeWhile isBare
    if name.isEmpty then none else some (String.ofList name, cs.dropWhile isBare)

/-- A key of one or more parts, with the blanks around it. -/
def dottedKey : Nat → List Char → Option (String × List String × List Char)
  | 0, _ => none
  | fuel + 1, cs =>
    match simpleKey (skipGap cs) with
    | none => none
    | some (key, rest) =>
      match skipGap rest with
      | '.' :: rest => match dottedKey fuel rest with
        | some (next, further, rest) => some (key, next :: further, rest)
        | none => none
      | rest => some (key, [], rest)

def keyAt (cs : List Char) : Option (String × List String × List Char) := dottedKey maxNesting cs

/-! ## Values -/

abbrev ValueReader := List Char → Option (Toml × List Char)

/-- The items of a list behind its opening bracket or a comma. -/
def itemsAt (value : ValueReader) : Nat → List Char → Option (List Toml × List Char)
  | 0, _ => none
  | fuel + 1, cs =>
    match skipLines cs.length cs with
    | ']' :: rest => some ([], rest)
    | cs => match value cs with
      | none => none
      | some (item, rest) =>
        match skipLines rest.length rest with
        | ',' :: rest => match itemsAt value fuel rest with
          | some (items, rest) => some (item :: items, rest)
          | none => none
        | ']' :: rest => some ([item], rest)
        | _ => none

/-- The entries of a table within braces behind its opening brace or a comma. -/
def entriesAt (value : ValueReader) (entries : Draft.Entries) :
    Nat → List Char → Option (Draft.Entries × List Char)
  | 0, _ => none
  | fuel + 1, cs =>
    match keyAt cs with
    | some (key, further, '=' :: rest) =>
      match value (skipGap rest) with
      | none => none
      | some (v, rest) =>
        match Draft.addValue v key further entries with
        | none => none
        | some entries =>
          match skipGap rest with
          | ',' :: rest => entriesAt value entries fuel rest
          | '\x7d' :: rest => some (entries, rest)
          | _ => none
    | _ => none

/-- A value that is nested less than `depth` deep. -/
def valueAt : Nat → ValueReader
  | 0, _ => none
  | depth + 1, cs =>
    match cs with
    | '[' :: rest =>
      (itemsAt (valueAt depth) (rest.length + 1) rest).map fun (items, rest) => (.list items, rest)
    | '\x7b' :: rest =>
      match skipGap rest with
      | '\x7d' :: rest => some (.table [], rest)
      | rest =>
        (entriesAt (valueAt depth) [] (rest.length + 1) rest).map fun (entries, rest) =>
          (.table (Draft.entriesToToml entries), rest)
    | _ => scalarAt cs

/-! ## Documents -/

/-- The document read so far and the path of the table that lines add to. -/
structure Document where
  entries : Draft.Entries := []
  place : List String := []

/-- One line, with what follows it. -/
def lineAt (doc : Document) (cs : List Char) : Option (Document × List Char) :=
  match skipGap cs with
  | '[' :: '[' :: rest =>
    match keyAt rest with
    | some (key, further, ']' :: ']' :: rest) => do
      let path := key :: further
      let entries ← Draft.within (Draft.openListed (path.getLast?.getD key)) path.dropLast doc.entries
      return (⟨entries, path⟩, ← endOfLine? rest)
    | _ => none
  | '[' :: rest =>
    match keyAt rest with
    | some (key, further, ']' :: rest) => do
      let path := key :: further
      let entries ← Draft.within (Draft.openTable (path.getLast?.getD key)) path.dropLast doc.entries
      return (⟨entries, path⟩, ← endOfLine? rest)
    | _ => none
  | cs => match endOfLine? cs with
    | some rest => some (doc, rest)
    | none => match keyAt cs with
      | some (key, further, '=' :: rest) => do
        let (value, rest) ← valueAt maxNesting (skipGap rest)
        let entries ← Draft.within (Draft.addValue value key further) doc.place doc.entries
        return ({ doc with entries }, ← endOfLine? rest)
      | _ => none

def linesAt : Nat → Document → List Char → Option Document
  | 0, _, _ => none
  | fuel + 1, doc, cs =>
    if cs.isEmpty then some doc
    else match lineAt doc cs with
      | some (doc, rest) => linesAt fuel doc rest
      | none => none

/-- The table of a document; none if the text is no TOML. A byte order mark in front does not count. -/
def read? (text : String) : Option Toml :=
  let cs := text.toList
  let cs := if cs.head? = some '\ufeff' then cs.tail else cs
  (linesAt (cs.length + 1) {} cs).map fun doc => .table (Draft.entriesToToml doc.entries)

end SymbolGraph.Toml
