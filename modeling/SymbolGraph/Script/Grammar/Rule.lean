import SymbolGraph.Script.Cursor

/-!
# Rules of the script grammar

The grammar is written as plain functions that take the meaning of the recursive rules as an
argument. `Grammar` ties the knot with a bound on the depth of recursion.
-/
namespace SymbolGraph.Script

/-- The rules that other rules use recursively. `noIn` forbids the operator `in`. -/
inductive Rule
  | statement
  | block
  /-- Expressions separated by commas. -/
  | expressions (noIn : Bool)
  | expression (noIn : Bool)
  /-- An expression with prefix operators and no binary ones. -/
  | unary
  /-- A primary expression with calls, accesses and the like. -/
  | leftHand
  | pattern
  | type
  /-- A markup element. -/
  | element
  /-- The arguments of a call, in parentheses. -/
  | arguments
  /-- The class behind `new`. -/
  | constructor
  | decorator
  deriving DecidableEq, Repr

/-- How to read each rule. -/
abbrev Self := Rule → Parse Node

namespace Parse

/-- Names that no variable can have. -/
def reserved : List String :=
  ["break", "case", "catch", "class", "const", "continue", "debugger", "default", "delete", "do",
   "else", "enum", "export", "extends", "false", "finally", "for", "function", "if", "import", "in",
   "instanceof", "new", "null", "return", "super", "switch", "this", "throw", "true", "try",
   "typeof", "var", "void", "while", "with"]

/-- The name of a variable, function or the like. -/
def identifier : Parse Node := do
  let w ← peekWord
  guard (w != "" && !reserved.contains w)
  anyName .identifier

/-- Items separated by commas; items may be missing and a comma may come last. -/
def commaList (item : Parse Node) : Parse (List Node) := do
  let first ← attempt item
  let rest ← many (do
    let comma ← mark ","
    let next ← attempt item
    return comma :: next.toList)
  return first.toList ++ rest.flatten

/-- `opening` items `closing`. -/
def bracketed (kind : Kind) (opening closing : String) (item : Parse Node) : Parse Node := do
  let l ← mark opening
  let items ← commaList item
  let r ← mark closing
  phrase kind (l :: items ++ [r])

/-- The offset behind a quoted text whose opening quote stands at `i`. -/
def quotedEnd (src : Source) (quote : Char) : Nat → Nat → Option Nat
  | 0, _ => none
  | fuel + 1, i => match src.get? i with
    | none => none
    | some c =>
      if c == quote then some (i + 1)
      else if c == '\\' then quotedEnd src quote fuel (i + 2)
      else quotedEnd src quote fuel (i + 1)

def stringLiteral : Parse Node := do
  let c ← nextChar
  guard (c == some '"' || c == some '\'')
  let src ← source
  let i ← position
  match c.bind fun q => quotedEnd src q (src.size - i) (i + 1) with
  | some stop => leaf .string i stop
  | none => fail

/-- The offset behind a number at `i`. -/
def numberEnd (src : Source) (i : Nat) : Nat :=
  let isPart (c : Char) : Bool := c.isAlphanum || c == '_'
  let prefixed := src.get? i == some '0' && (src.get? (i + 1)).any fun c => "xXoObB".toList.contains c
  if prefixed then src.skipWhile isPart i
  else
    let isDigitPart (c : Char) : Bool := c.isDigit || c == '_'
    let j := src.skipWhile isDigitPart i
    let j := if src.get? j == some '.' then src.skipWhile isDigitPart (j + 1) else j
    let j :=
      if (src.get? j).any fun c => c == 'e' || c == 'E' then
        let k := if (src.get? (j + 1)).any fun c => c == '+' || c == '-' then j + 2 else j + 1
        if (src.get? k).any Char.isDigit then src.skipWhile isDigitPart k else j
      else j
    if src.get? j == some 'n' then j + 1 else j

def numberLiteral : Parse Node := do
  let c ← nextChar
  let src ← source
  let i ← position
  let startsNumber := c.any Char.isDigit || (c == some '.' && (src.get? (i + 1)).any Char.isDigit)
  guard startsNumber
  leaf .number i (numberEnd src i)

/-- Whether a regular expression rather than a division starts behind the character `c`. -/
def regexAfter (c : Char) : Bool := "(,=:[!&|?\x7b\x7d;+-*%<>~^".toList.contains c

/-- The offset behind a regular expression whose opening slash stands before `i`. -/
def regexEnd (src : Source) : Nat → Bool → Nat → Option Nat
  | 0, _, _ => none
  | fuel + 1, inClass, i => match src.get? i with
    | none => none
    | some c =>
      if c == '\n' then none
      else if c == '\\' then regexEnd src fuel inClass (i + 2)
      else if c == '[' then regexEnd src fuel true (i + 1)
      else if c == ']' then regexEnd src fuel false (i + 1)
      else if c == '/' && !inClass then some (src.skipWhile Char.isAlpha (i + 1))
      else regexEnd src fuel inClass (i + 1)

/-- The offset of the bracket that closes the one before `i`, found by skipping over texts,
comments and nested brackets. `last` is the last character that is not blank. -/
def closingBracket (src : Source) : Nat → List Char → Char → Nat → Option Nat
  | 0, _, _, _ => none
  | fuel + 1, pending, last, i => match src.get? i with
    | none => none
    | some c =>
      if c == '"' || c == '\'' || c == '\x60' then
        match quotedEnd src c (src.size - i) (i + 1) with
        | some j => closingBracket src fuel pending c j
        | none => none
      else if c == '/' && src.get? (i + 1) == some '/' then
        closingBracket src fuel pending last (src.skipWhile (fun c => !isLineEnd c) i)
      else if c == '/' && src.get? (i + 1) == some '*' then
        closingBracket src fuel pending last (blockCommentEnd src (src.size - i) (i + 2))
      else if c == '/' && regexAfter last then
        match regexEnd src (src.size - i) false (i + 1) with
        | some j => closingBracket src fuel pending 'r' j
        | none => closingBracket src fuel pending c (i + 1)
      else if c == '(' then closingBracket src fuel (')' :: pending) c (i + 1)
      else if c == '[' then closingBracket src fuel (']' :: pending) c (i + 1)
      else if c == '\x7b' then closingBracket src fuel ('\x7d' :: pending) c (i + 1)
      else if c == ')' || c == ']' || c == '\x7d' then
        match pending with
        | [] => some i
        | expected :: rest =>
          if expected == c then closingBracket src fuel rest c (i + 1) else none
      else closingBracket src fuel pending (if isSpace c then last else c) (i + 1)

/-- The mark behind the parenthesis that closes the one that comes next. -/
def markBehindParens : Parse (Option String) := peek do
  let _ ← mark "("
  let src ← source
  let i ← position
  match closingBracket src (src.size - i + 1) [] '(' i with
  | some j =>
    seek (j + 1)
    nextMark
  | none => return none

/-- `=` and a value. -/
def initializer (self : Self) (noIn : Bool) : Parse (List Node) := do
  let eq ← mark "="
  let value ← self (.expression noIn)
  return [eq, value.withRole .value]

/-- The name of a member: a name, a text, a number or a computed value. -/
def propertyName (self : Self) : Parse Node := do
  match ← peekChar with
  | some '#' => do
    trivia
    let src ← source
    let i ← position
    let stop := nameEnd src (i + 1)
    guard (i + 1 < stop)
    leaf .privatePropertyIdentifier i stop
  | some '[' => do
    let l ← mark "["
    let value ← self (.expression false)
    let r ← mark "]"
    phrase .computedPropertyName [l, value, r]
  | some c =>
    if c == '"' || c == '\'' then stringLiteral
    else if c.isDigit || c == '.' then numberLiteral
    else anyName .propertyIdentifier
  | none => fail

/-- Whether a member name comes next, so that the word before it is a modifier. -/
def memberNameAhead : Parse Bool := do
  let src ← source
  peek do
    trivia
    let i ← position
    match src.get? i with
    | none => return false
    | some c =>
      return isNameStart c || c == '[' || c == '"' || c == '\'' || c == '#' || c.isDigit ||
        c == '*' || c == '\x7b'

/-- A word that modifies the member behind it. -/
def modifier (kind : Kind) (spellings : List String) : Parse Node := do
  let w ← peekWord
  guard (spellings.contains w)
  let t ← wordAs kind w
  guard (← memberNameAhead)
  return t

/-- The names `a.b.c` as nested phrases, from the first name and the accesses behind it. -/
def nestedNames (outer inner : Kind) : Node → List (Node × Node) → Parse Node
  | object, [] => return object
  | object, [(dot, property)] => phrase outer [object.withRole .object, dot, property.withRole .property]
  | object, (dot, property) :: rest => do
    let step ← phrase inner [object.withRole .object, dot, property.withRole .property]
    nestedNames outer inner step rest

/-- `a.b.c` as the name of a module. -/
def dottedName : Parse Node := do
  let first ← identifier
  let rest ← many (do
    let dot ← mark "."
    let property ← anyName .propertyIdentifier
    return (dot, property))
  nestedNames .nestedIdentifier .memberExpression first rest

end Parse
end SymbolGraph.Script
