import SymbolGraph.Script.Grammar.Expressions

/-!
# Markup elements in scripts
-/
namespace SymbolGraph.Script.Parse

/-- A name in markup may hold hyphens. -/
def markupName (kind : Kind) : Parse Node := do
  trivia
  let src ← source
  let i ← position
  guard ((src.get? i).any isNameStart)
  leaf kind i (src.skipWhile (fun c => isNamePart c || c == '-') i)

/-- `a:b` -/
def namespacedName : Parse Node := do
  let left ← markupName .identifier
  let colon ← mark ":"
  let right ← markupName .identifier
  phrase .jsxNamespaceName [left, colon, right]

def elementName : Parse Node :=
  namespacedName
  <|> (do
    let first ← markupName .identifier
    let rest ← many (do
      let dot ← mark "."
      let property ← anyName .propertyIdentifier
      return (dot, property))
    nestedNames .memberExpression .memberExpression first rest)

/-- A text in quotes, which may span lines and knows no escapes. -/
def attributeText : Parse Node := do
  let c ← nextChar
  guard (c == some '"' || c == some '\'')
  let src ← source
  let i ← position
  let stop := src.skipWhile (fun d => some d != c) (i + 1)
  guard (stop < src.size)
  leaf .string i (stop + 1)

/-- A value in braces. -/
def embedded (self : Self) : Parse Node := do
  let l ← mark "\x7b"
  let value ← optional (do return [← spreadElement self <|> self (.expressions false)])
  let r ← mark "\x7d"
  phrase .jsxExpression (l :: value ++ [r])

def tagAttribute (self : Self) : Parse Node :=
  embedded self
  <|> (do
    let name ← namespacedName <|> markupName .propertyIdentifier
    let value ← optional (do
      let eq ← mark "="
      let value ← attributeText <|> embedded self <|> self .element
      return [eq, value])
    phrase .jsxAttribute (name :: value))

/-- The name, type arguments and attributes of an opening tag; a fragment has none. -/
def tagContent (self : Self) : Parse (List Node) := optional do
  let name ← elementName
  let generics ← optional (do return [(← typeArguments self).withRole .typeArguments])
  let attributes ← many (tagAttribute self)
  return name.withRole .name :: generics ++ attributes.map (Tree.withRole .property)

def markupText : Parse Node := do
  let src ← source
  let i ← position
  let stop := src.skipWhile (fun c => !"\x7b\x7d<>".toList.contains c) i
  guard (i < stop)
  leaf .jsxText i stop

def closingTag : Parse Node := do
  let l ← char '<'
  let slash ← char '/'
  let name ← optional (do return [(← elementName).withRole .name])
  let r ← char '>'
  phrase .jsxClosingElement ([l, slash] ++ name ++ [r])

/-- An element with its children, or one that closes itself. -/
def element (self : Self) : Parse Node := do
  let l ← char '<'
  let content ← tagContent self
  match ← attempt (do guard !content.isEmpty; char '/') with
  | some slash =>
    let r ← char '>'
    phrase .jsxSelfClosingElement (l :: content ++ [slash, r])
  | none =>
    let r ← char '>'
    let opening ← phrase .jsxOpeningElement (l :: content ++ [r])
    let children ← many (markupText <|> embedded self <|> self .element)
    let closing ← closingTag
    phrase .jsxElement
      (opening.withRole .openTag :: children ++ [closing.withRole .closeTag])

end SymbolGraph.Script.Parse
