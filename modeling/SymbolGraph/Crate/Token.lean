import SymbolGraph.Text.Word
import SymbolGraph.Tree.Basic
import SymbolGraph.Tree.Source

/-!
# Tokens of Rust

Tokens form trees, because brackets always match. Punctuation is read one character at a time; a
character is joint if another punctuation character follows it directly. Documentation comments
stand for the attributes they mean.
-/
namespace SymbolGraph.Crate
open Text

inductive Delimiter
  | parenthesis
  | brace
  | bracket
  deriving DecidableEq, Repr, Inhabited

inductive LiteralKind
  | string
  | integer
  | float
  /-- Characters, bytes and the other kinds of texts. -/
  | other
  deriving DecidableEq, Repr, Inhabited

/-- Characters of names and keywords; raw names keep their mark. -/
def isNameChar (c : Char) : Bool := c == '#' || c == '_' || startsName c || continuesName c

/-- A name or keyword. -/
structure Word where
  text : String
  ne_empty : text ≠ ""
  isNameChar_of_mem : ∀ c ∈ text.toList, isNameChar c = true

instance : Inhabited Word := ⟨⟨"_", by decide, List.all_eq_true.1 (by decide)⟩⟩

inductive Token
  | word (word : Word) (span : Span)
  | mark (char : Char) (joint : Bool) (span : Span)
  | lifetime (text : String) (span : Span)
  | literal (kind : LiteralKind) (text : String) (span : Span)
  | group (delimiter : Delimiter) (content : List Token) (opening closing : Span)
  deriving Inhabited

/-- The place where a token starts. -/
def Token.start : Token → Span
  | .word _ s | .mark _ _ s | .lifetime _ s | .literal _ _ s | .group _ _ s _ => s

/-- The place where a token ends. -/
def Token.stop : Token → Span
  | .word _ s | .mark _ _ s | .lifetime _ s | .literal _ _ s | .group _ _ _ s => s

/-! ## Blanks and comments -/

/-- Blanks between tokens; the direction marks count as blanks. -/
def isGap (c : Char) : Bool :=
  let n := c.toNat
  (9 ≤ n && n ≤ 13) || n == 0x20 || n == 0x85 || n == 0xA0 || n == 0x1680 ||
  (0x2000 ≤ n && n ≤ 0x200A) || n == 0x200E || n == 0x200F || n == 0x2028 || n == 0x2029 ||
  n == 0x202F || n == 0x205F || n == 0x3000

/-- The end of the line that `i` stands in, before its line break. -/
def lineStop (src : Source) (i : Nat) : Nat :=
  let stop := src.skipWhile (· != '\n') i
  if stop < src.size && i < stop && src.get? (stop - 1) == some '\r' then stop - 1 else stop

/-- The offset behind a block comment that starts at `i`; block comments nest. -/
def blockCommentStop? (src : Source) : Nat → Nat → Nat → Option Nat
  | 0, _, _ => none
  | fuel + 1, depth, i =>
    if src.standsAt i ['/', '*'] then blockCommentStop? src fuel (depth + 1) (i + 2)
    else if src.standsAt i ['*', '/'] then
      if depth ≤ 1 then some (i + 2) else blockCommentStop? src fuel (depth - 1) (i + 2)
    else if i < src.size then blockCommentStop? src fuel depth (i + 1) else none

def isPlainLineComment (src : Source) (i : Nat) : Bool :=
  src.standsAt i ['/', '/'] &&
  (!src.standsAt i ['/', '/', '/'] || src.standsAt i ['/', '/', '/', '/']) &&
  !src.standsAt i ['/', '/', '!']

def isPlainBlockComment (src : Source) (i : Nat) : Bool :=
  src.standsAt i ['/', '*', '*', '/'] ||
  (src.standsAt i ['/', '*'] &&
    (!src.standsAt i ['/', '*', '*'] || src.standsAt i ['/', '*', '*', '*']) &&
    !src.standsAt i ['/', '*', '!'])

/-- Passes blanks and comments that are no documentation. -/
def skipGaps (src : Source) : Nat → Nat → Nat
  | 0, i => i
  | fuel + 1, i =>
    if isPlainLineComment src i then skipGaps src fuel (lineStop src i)
    else if isPlainBlockComment src i then
      match blockCommentStop? src (src.size + 1 - i) 0 i with
      | some j => skipGaps src fuel j
      | none => i
    else match src.get? i with
      | some c => if isGap c then skipGaps src fuel (i + 1) else i
      | none => i

/-! ## Literals -/

def isHexDigit (c : Char) : Bool := c.isDigit || ('a' ≤ c && c ≤ 'f') || ('A' ≤ c && c ≤ 'F')

def hexDigitValue (c : Char) : Nat :=
  if c.isDigit then c.toNat - 48 else if c.toNat < 97 then c.toNat - 55 else c.toNat - 87

/-- How the texts of a kind of literal may be escaped. -/
structure Escapes where
  /-- `\x` goes up to 7F only. -/
  asciiHex : Bool
  unicode : Bool
  /-- The zero character may stand in the text. -/
  zero : Bool
  /-- All characters are ASCII. -/
  asciiOnly : Bool

def Escapes.string : Escapes := ⟨true, true, true, false⟩
def Escapes.byteString : Escapes := ⟨false, false, true, true⟩
def Escapes.cString : Escapes := ⟨false, true, false, false⟩

/-- The value of a braced code point and the offset behind it; `i` is the offset of the brace. -/
def bracedCode? (src : Source) (i : Nat) : Option (Nat × Nat) :=
  if src.get? i != some '\x7b' then none
  else
    let rec go : Nat → Nat → Nat → Nat → Option (Nat × Nat)
      | 0, _, _, _ => none
      | fuel + 1, value, digits, j => match src.get? j with
        | some '\x7d' => if 0 < digits then some (value, j + 1) else none
        | some '_' => if 0 < digits then go fuel value digits (j + 1) else none
        | some c =>
          if isHexDigit c && digits < 6 then
            go fuel (16 * value + hexDigitValue c) (digits + 1) (j + 1)
          else none
        | none => none
    (go (src.size + 1 - i) 0 0 (i + 1)).bind fun (value, j) =>
      if value < 0xD800 || (0xDFFF < value && value ≤ 0x10FFFF) then some (value, j) else none

/-- The offset behind an escape whose backslash stands before `i`, line breaks apart. -/
def escapeStop? (src : Source) (e : Escapes) (i : Nat) : Option Nat :=
  match src.get? i with
  | some 'x' =>
    match src.get? (i + 1), src.get? (i + 2) with
    | some a, some b =>
      let ok := isHexDigit a && isHexDigit b && (!e.asciiHex || hexDigitValue a < 8) &&
        (e.zero || a != '0' || b != '0')
      if ok then some (i + 3) else none
    | _, _ => none
  | some 'u' =>
    if e.unicode then
      (bracedCode? src (i + 1)).bind fun (value, j) => if e.zero || value != 0 then some j else none
    else none
  | some '0' => if e.zero then some (i + 1) else none
  | some c => if c == 'n' || c == 'r' || c == 't' || c == '\\' || c == '\'' || c == '"' then some (i + 1) else none
  | none => none

/-- The offset behind the closing quote of a text with escapes whose content starts at `i`. -/
def quotedStop? (src : Source) (e : Escapes) : Nat → Nat → Option Nat
  | 0, _ => none
  | fuel + 1, i => match src.get? i with
    | none => none
    | some '"' => some (i + 1)
    | some '\r' => if src.get? (i + 1) == some '\n' then quotedStop? src e fuel (i + 2) else none
    | some '\\' =>
      if src.get? (i + 1) == some '\n' then quotedStop? src e fuel (i + 2)
      else if src.get? (i + 1) == some '\r' then quotedStop? src e fuel (i + 1)
      else match escapeStop? src e (i + 1) with
        | some j => quotedStop? src e fuel j
        | none => none
    | some c =>
      if (e.asciiOnly && 128 ≤ c.toNat) || (!e.zero && c.toNat == 0) then none
      else quotedStop? src e fuel (i + 1)

/-- The offset behind a text without escapes whose marks and quote start at `i`. -/
def rawTextStop? (src : Source) (i : Nat) : Option Nat :=
  let j := src.skipWhile (· == '#') i
  let hashes := List.replicate (j - i) '#'
  if src.get? j != some '"' then none
  else
    let rec go : Nat → Nat → Option Nat
      | 0, _ => none
      | fuel + 1, k => match src.get? k with
        | none => none
        | some c =>
          if c == '"' && src.standsAt (k + 1) hashes then some (k + 1 + hashes.length)
          else if c == '\r' && src.get? (k + 1) != some '\n' then none
          else go fuel (k + 1)
    go (src.size + 1 - j) (j + 1)

/-- The offset behind a name at `i` that is not raw. -/
def plainNameStop? (src : Source) (i : Nat) : Option Nat :=
  match src.get? i with
  | some c => if c == '_' || startsName c then some (src.skipWhile continuesName (i + 1)) else none
  | none => none

/-- Passes a suffix such as `u8` behind a literal. -/
def suffixStop (src : Source) (i : Nat) : Nat := (plainNameStop? src i).getD i

/-- The offset behind a character in single quotes; `i` is behind the opening quote. -/
def characterStop? (src : Source) (e : Escapes) (i : Nat) : Option Nat := do
  let j ← match src.get? i with
    | some '\\' => escapeStop? src e (i + 1)
    | some _ => some (i + 1)
    | none => none
  if src.get? j == some '\'' then some (suffixStop src (j + 1)) else none

/-- Where the digits of an integer end; the base follows from what it starts with. -/
def digitsStop? (src : Source) (i : Nat) : Option Nat :=
  let (base, start) :=
    if src.standsAt i ['0', 'x'] then (16, i + 2)
    else if src.standsAt i ['0', 'o'] then (8, i + 2)
    else if src.standsAt i ['0', 'b'] then (2, i + 2)
    else (10, i)
  let rec go : Nat → Bool → Nat → Option Nat
    | 0, _, _ => none
    | fuel + 1, empty, j => match src.get? j with
      | some c =>
        if c == '_' then (if empty && base == 10 then none else go fuel empty (j + 1))
        else if c.isDigit then (if hexDigitValue c < base then go fuel false (j + 1) else none)
        else if isHexDigit c && hexDigitValue c < base then go fuel false (j + 1)
        else if empty then none else some j
      | none => if empty then none else some j
  go (src.size + 2 - start) true start

/-- Behind a number stands its suffix, if any, and then no further part of a name. -/
def numberStop? (src : Source) (i : Nat) : Option Nat :=
  let j := suffixStop src i
  if (src.get? j).any continuesName then none else some j

def integerStop? (src : Source) (i : Nat) : Option Nat := (digitsStop? src i).bind (numberStop? src)

/-- Where the exponent of a number ends: `none` if it has no digits. -/
def exponentStop? (src : Source) (i : Nat) : Option Nat :=
  let rec go : Nat → Bool → Bool → Nat → Option Nat
    | 0, _, _, _ => none
    | fuel + 1, sign, value, j => match src.get? j with
      | some c =>
        if c == '+' || c == '-' then
          if value then some j else if sign then none else go fuel true value (j + 1)
        else if c.isDigit then go fuel sign true (j + 1)
        else if c == '_' then go fuel sign value (j + 1)
        else if value then some j else none
      | none => if value then some j else none
  go (src.size + 2 - i) false false i

/-- Where the digits of a number with a point or an exponent end. -/
def floatDigitsStop? (src : Source) (i : Nat) : Option Nat :=
  let isDigitPart (c : Char) : Bool := c.isDigit || c == '_'
  if !(src.get? i).any Char.isDigit then none
  else
    let exponent (before : Option Nat) (j : Nat) : Option Nat :=
      match exponentStop? src (j + 1) with
      | some k => some k
      | none => before
    let isExponent (j : Nat) : Bool := src.get? j == some 'e' || src.get? j == some 'E'
    let j := src.skipWhile isDigitPart i
    if src.get? j == some '.' then
      if (src.get? (j + 1)).any fun c => c == '.' || c == '_' || startsName c then none
      else
        let k := src.skipWhile isDigitPart (j + 1)
        if isExponent k then exponent (some k) k else some k
    else if isExponent j then exponent none j
    else none

def floatStop? (src : Source) (i : Nat) : Option Nat :=
  (floatDigitsStop? src i).bind (numberStop? src)

/-- The literal that starts at `i`, with the offset behind it. -/
def literalAt? (src : Source) (i : Nat) : Option (LiteralKind × Nat) :=
  let fuel := src.size + 2 - i
  let quoted (kind : LiteralKind) (e : Escapes) (width : Nat) : Option (LiteralKind × Nat) :=
    (quotedStop? src e fuel (i + width)).map fun j => (kind, suffixStop src j)
  let raw (kind : LiteralKind) (width : Nat) : Option (LiteralKind × Nat) :=
    (rawTextStop? src (i + width)).map fun j => (kind, suffixStop src j)
  (if src.standsAt i ['"'] then quoted .string .string 1
    else if src.standsAt i ['r'] then raw .string 1
    else if src.standsAt i ['b', '"'] then quoted .other .byteString 2
    else if src.standsAt i ['b', 'r'] then raw .other 2
    else if src.standsAt i ['c', '"'] then quoted .other .cString 2
    else if src.standsAt i ['c', 'r'] then raw .other 2
    else if src.standsAt i ['b', '\''] then
      (characterStop? src .byteString (i + 2)).map fun j => (.other, j)
    else if src.standsAt i ['\''] then
      (characterStop? src .string (i + 1)).map fun j => (.other, j)
    else none)
  <|> (floatStop? src i).map (fun j => (.float, j))
  <|> (integerStop? src i).map (fun j => (.integer, j))

/-! ## Other tokens -/

def markChars : String := "~!@#$%^&*-=+|;:,<.>/?'"

/-- Starts of literals, which are no names. -/
def literalStarts : List String :=
  ["r\"", "r#\"", "r##", "b\"", "b'", "br\"", "br#", "c\"", "cr\"", "cr#"]

/-- The offset behind a name, raw or not. -/
def nameStop? (src : Source) (i : Nat) : Option Nat :=
  if src.standsAt i ['r', '#'] then do
    let j ← plainNameStop? src (i + 2)
    let name := src.slice (i + 2) j
    if ["_", "super", "self", "Self", "crate"].contains name then none else some j
  else plainNameStop? src i

/-- The text from `i` up to `j` is made of name characters and not empty. -/
structure NameAt (src : Source) (i j : Nat) : Prop where
  starts : ∃ c, src.get? i = some c
  lt : i < j
  isNameChar : ∀ k c, i ≤ k → k < j → src.get? k = some c → isNameChar c = true

theorem nameAt_of_plainNameStop? {src : Source} {i j : Nat} (h : plainNameStop? src i = some j) :
    NameAt src i j := by
  unfold plainNameStop? at h
  split at h
  · rename_i first hfirst
    split at h
    · rename_i starts
      obtain rfl := Option.some_inj.1 h
      refine ⟨⟨first, hfirst⟩, src.le_skipWhile continuesName (i + 1), ?_⟩
      intro k c hi hk hget
      rcases Nat.eq_or_lt_of_le hi with rfl | hlt
      · obtain rfl := Option.some_inj.1 (hfirst.symm.trans hget)
        rcases Bool.or_eq_true_iff.1 starts with h | h <;> simp [isNameChar, h]
      · have continues := Source.get?_of_lt_skipWhile hlt hk hget
        simp [isNameChar, continues]
    · exact nomatch h
  · exact nomatch h

theorem nameAt_of_nameStop? {src : Source} {i j : Nat} (h : nameStop? src i = some j) :
    NameAt src i j := by
  unfold nameStop? at h
  split at h
  · rename_i raw
    simp only [Source.standsAt, Bool.and_true, Bool.and_eq_true, beq_iff_eq] at raw
    obtain ⟨stop, hstop, hj⟩ := Option.bind_eq_some_iff.1 h
    obtain rfl : stop = j := by
      dsimp only at hj
      split at hj
      · exact nomatch hj
      · exact Option.some_inj.1 hj
    have rest := nameAt_of_plainNameStop? hstop
    have hlt := rest.lt
    refine ⟨⟨'r', raw.1⟩, by omega, ?_⟩
    intro k c hi hk hget
    by_cases hr : k = i
    · subst hr
      obtain rfl := Option.some_inj.1 (raw.1.symm.trans hget)
      decide
    by_cases hmark : k = i + 1
    · subst hmark
      obtain rfl := Option.some_inj.1 (raw.2.symm.trans hget)
      decide
    exact rest.isNameChar k c (by omega) hk hget
  · exact nameAt_of_plainNameStop? h

/-- The name from `i` up to `j`. -/
def wordOf (src : Source) {i j : Nat} (h : NameAt src i j) : Word where
  text := src.slice i j
  ne_empty := by
    obtain ⟨c, hc⟩ := h.starts
    intro hempty
    have hmem : c ∈ (src.slice i j).toList := Source.mem_slice.2 ⟨i, Nat.le_refl i, h.lt, hc⟩
    rw [hempty] at hmem
    exact List.not_mem_nil hmem
  isNameChar_of_mem := by
    intro c hc
    obtain ⟨k, hi, hj, hget⟩ := Source.mem_slice.1 hc
    exact h.isNameChar k c hi hj hget

def tokenSpan (src : Source) (start stop : Nat) : Span :=
  ⟨start, stop, src.lineAt start, src.lineAt (stop - 1)⟩

/-- Whether a punctuation character stands at `i`. -/
def isMarkAt (src : Source) (i : Nat) : Bool :=
  !src.standsAt i ['/', '/'] && !src.standsAt i ['/', '*'] &&
  (src.get? i).any fun c => markChars.toList.contains c

/-- A lifetime at `i`, with the offset behind it. -/
def lifetimeStop? (src : Source) (i : Nat) : Option Nat := do
  if src.get? i != some '\'' then none
  let j ← nameStop? src (i + 1)
  let next := src.get? j
  if next == some '\'' || (next == some '#' && !src.standsAt (i + 1) ['r', '#']) then none
  else some j

/-- The token without brackets that starts at `i`, with the offset behind it. -/
def leafAt? (src : Source) (i : Nat) : Option (Token × Nat) :=
  match literalAt? src i with
  | some (kind, j) => some (.literal kind (src.slice i j) (tokenSpan src i j), j)
  | none =>
    match src.get? i with
    | some '\'' => (lifetimeStop? src i).map fun j =>
        (.lifetime (src.slice i j) (tokenSpan src i j), j)
    | some c =>
      if isMarkAt src i then
        some (.mark c (isMarkAt src (i + 1)) (tokenSpan src i (i + 1)), i + 1)
      else if literalStarts.any fun s => src.standsAt i s.toList then none
      else match h : nameStop? src i with
        | some j => some (.word (wordOf src (nameAt_of_nameStop? h)) (tokenSpan src i j), j)
        | none => none
    | none => none

/-- The documentation comment that starts at `i`: whether it is about what surrounds it, its text,
and the offset behind it. -/
def docCommentAt? (src : Source) (i : Nat) : Option (Bool × String × Nat) :=
  let line (inner : Bool) : Option (Bool × String × Nat) :=
    let stop := lineStop src i
    some (inner, src.slice (i + 3) stop, stop)
  let block (inner : Bool) : Option (Bool × String × Nat) :=
    (blockCommentStop? src (src.size + 1 - i) 0 i).map fun j => (inner, src.slice (i + 3) (j - 2), j)
  if src.standsAt i ['/', '/', '!'] then line true
  else if src.standsAt i ['/', '*', '!'] then block true
  else if src.standsAt i ['/', '/', '/'] && !src.standsAt i ['/', '/', '/', '/'] then line false
  else if src.standsAt i ['/', '*', '*'] && !src.standsAt i ['/', '*', '*', '*'] then block false
  else none

/-- A carriage return that no line feed follows. -/
def hasBareReturn : List Char → Bool
  | [] => false
  | '\r' :: '\n' :: rest => hasBareReturn rest
  | c :: rest => c == '\r' || hasBareReturn rest

/-- The attribute that a documentation comment stands for. -/
def docTokens (src : Source) (i j : Nat) (inner : Bool) (text : String) : List Token :=
  let span := tokenSpan src i j
  let doc : Word := ⟨"doc", by decide, List.all_eq_true.1 (by decide)⟩
  let content := [.word doc span, .mark '=' false span, .literal .string text span]
  [.mark '#' false span] ++ (if inner then [.mark '!' false span] else []) ++
    [.group .bracket content span span]

def opening? : Char → Option Delimiter
  | '(' => some .parenthesis
  | '\x7b' => some .brace
  | '[' => some .bracket
  | _ => none

def closing? : Char → Option Delimiter
  | ')' => some .parenthesis
  | '\x7d' => some .brace
  | ']' => some .bracket
  | _ => none

/-- A bracket that is still open: what it is, where it stands, and the tokens before it, the last
first. -/
structure OpenGroup where
  delimiter : Delimiter
  span : Span
  before : List Token

/-- Reads tokens from `i` on; `acc` holds those of the innermost open bracket, the last first. -/
def tokensFrom (src : Source) : Nat → List OpenGroup → List Token → Nat → Option (List Token)
  | 0, _, _, _ => none
  | fuel + 1, pending, acc, i =>
    let i := skipGaps src (src.size + 1 - i) i
    match docCommentAt? src i with
    | some (inner, text, j) =>
      if hasBareReturn text.toList then none
      else tokensFrom src fuel pending ((docTokens src i j inner text).reverse ++ acc) j
    | none => match src.get? i with
      | none => if pending.isEmpty then some acc.reverse else none
      | some c =>
        let span := tokenSpan src i (i + 1)
        match opening? c with
        | some d => tokensFrom src fuel (⟨d, span, acc⟩ :: pending) [] (i + 1)
        | none => match closing? c, pending with
          | some d, g :: rest =>
            if g.delimiter == d then
              tokensFrom src fuel rest (.group d acc.reverse g.span span :: g.before) (i + 1)
            else none
          | some _, [] => none
          | none, _ => match leafAt? src i with
            | some (t, j) => tokensFrom src fuel pending (t :: acc) j
            | none => none

/-- The tokens of a text, if it has balanced brackets and well-formed tokens. -/
def tokens? (src : Source) : Option (List Token) := tokensFrom src (src.size + 2) [] [] 0

end SymbolGraph.Crate
