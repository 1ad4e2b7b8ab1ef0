import SymbolGraph.Script.Grammar.Declarations

/-!
# Import and export statements
-/
namespace SymbolGraph.Script.Parse

/-- `from` and the module it names. -/
def fromClause : Parse (List Node) := do
  let kw ← word "from"
  let source ← stringLiteral
  return [kw, source.withRole .source]

/-- A name, or a text, under which a module offers something. -/
def moduleExportName : Parse Node := stringLiteral <|> anyName .identifier

/-- A name with the name it gets, if that is another one. `lone` reads a name that stays and `given`
the new name of one that does not. -/
def renamed (kind : Kind) (lone given : Parse Node) : Parse Node := do
  let front ← optional (do
    let w ← peekWord
    guard (w == "type" || w == "typeof")
    let t ← word w
    let next ← peekWord
    let isName ← test stringLiteral
    guard (isName || (next != "" && next != "as") ||
      (← test (do let _ ← word "as"; let _ ← word "as"; anyName .identifier)) ||
      (next == "as" && (← test (do
        let _ ← word "as"
        let m ← nextMark
        guard (m == some "," || m == some "\x7d")))))
    return [t])
  let names ← (do
      let name ← moduleExportName
      let kw ← word "as"
      return [name.withRole .name, kw, (← given).withRole .givenName])
    <|> (do return [(← lone).withRole .name])
  phrase kind (front ++ names)

/-- What an import binds is a name; a text has to be renamed. -/
def importSpecifier : Parse Node :=
  renamed .importSpecifier (anyName .identifier) (anyName .identifier)

def exportSpecifier : Parse Node := renamed .exportSpecifier moduleExportName moduleExportName

def namespaceImport : Parse Node := do
  let star ← mark "*"
  let kw ← word "as"
  let name ← identifier
  phrase .namespaceImport [star, kw, name]

def namedImports : Parse Node := bracketed .namedImports "\x7b" "\x7d" importSpecifier

def importClause : Parse Node := do
  match ← attempt (namespaceImport <|> namedImports) with
  | some only => phrase .importClause [only]
  | none =>
    let name ← identifier
    let more ← optional (do
      let comma ← mark ","
      let part ← namespaceImport <|> namedImports
      return [comma, part])
    phrase .importClause (name :: more)

/-- `with` or `assert` and their object. -/
def importAttribute (self : Self) : Parse (List Node) := optional do
  let w ← peekWord
  guard (w == "with" || w == "assert")
  let kw ← word w
  let value ← object self
  return [← phrase .importAttribute [kw, value]]

/-- `x = require('y')` -/
def importRequire : Parse Node := do
  let name ← identifier
  let eq ← mark "="
  let kw ← word "require"
  let l ← mark "("
  let source ← stringLiteral
  let r ← mark ")"
  phrase .importRequireClause [name, eq, kw, l, source.withRole .source, r]

/-- What an import statement holds between its keyword and its end. -/
def importContent : Parse (List Node) :=
  (do return [(← stringLiteral).withRole .source])
  <|> (do return [← importRequire])
  <|> (do
    let clause ← importClause
    return clause :: (← fromClause))

def importStatement (self : Self) : Parse Node := do
  let kw ← word "import"
  let content ← importContent
    <|> (do
      let w ← peekWord
      guard (w == "type" || w == "typeof")
      let t ← word w
      return t :: (← importContent))
  let attributes ← importAttribute self
  let stop ← semicolon true
  phrase .importStatement (kw :: content ++ attributes ++ stop)

def exportClause : Parse Node := bracketed .exportClause "\x7b" "\x7d" exportSpecifier

def namespaceExport : Parse Node := do
  let star ← mark "*"
  let kw ← word "as"
  let name ← moduleExportName
  phrase .namespaceExport [star, kw, name]

/-- What follows `export` when it names things that are declared elsewhere. -/
def exportList (self : Self) : Parse (List Node) := do
  let front ← optional (do
    let t ← word "type"
    let c ← peekChar
    guard (c == some '\x7b' || c == some '*')
    return [t])
  let content ← (do return [← namespaceExport] ++ (← fromClause))
    <|> (do return [← mark "*"] ++ (← fromClause))
    <|> (do return [← exportClause] ++ (← optional fromClause))
  let attributes ← importAttribute self
  return front ++ content ++ attributes ++ (← semicolon true)

/-- `export = value` and `export as namespace N` -/
def exportWhole (self : Self) : Parse (List Node) :=
  (do
    let eq ← mark "="
    let value ← self (.expression false)
    return [eq, value] ++ (← semicolon true))
  <|> (do
    let as_ ← word "as"
    let kw ← word "namespace"
    let name ← identifier
    return [as_, kw, name] ++ (← semicolon true))

/-- What follows `export default`. -/
def exportDefault (self : Self) : Parse (List Node) := do
  let kw ← word "default"
  (do
    let d ← declaration self
    return [kw, d.withRole .declaration])
  <|> (do
    let value ← self (.expression false)
    return [kw, value.withRole .value] ++ (← semicolon true))

def exportStatement (self : Self) : Parse Node := do
  let decorators ← many (do return (← decorator self).withRole .decorator)
  let kw ← word "export"
  let content ← exportDefault self
    <|> exportWhole self
    <|> exportList self
    <|> (do return [(← declaration self).withRole .declaration])
  phrase .exportStatement (decorators ++ [kw] ++ content)

end SymbolGraph.Script.Parse
