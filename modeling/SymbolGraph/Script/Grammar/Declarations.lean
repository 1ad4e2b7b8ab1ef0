import SymbolGraph.Script.Grammar.Markup

/-!
# Declarations of scripts
-/
namespace SymbolGraph.Script.Parse

def variableDeclarator (self : Self) (noIn : Bool) : Parse Node := do
  let name ← self .pattern
  let sign ← optional (do return [← mark "!"])
  let type ← optional (do return [(← typeAscription self).withRole .type])
  let value ← optional (initializer self noIn)
  phrase .variableDeclarator (name.withRole .name :: sign ++ type ++ value)

/-- `const`, `let` or `var` with what they declare, the end of the statement apart. -/
def declarators (self : Self) (noIn : Bool) : Parse (Kind × List Node) := do
  let w ← peekWord
  guard (["const", "let", "var"].contains w)
  let kw ← word w
  let items ← separated1 (mark ",") (variableDeclarator self noIn)
  return (if w == "var" then .variableDeclaration else .lexicalDeclaration, kw.withRole .kind :: items)

def variableDeclaration (self : Self) : Parse Node := do
  let (kind, items) ← declarators self false
  let stop ← semicolon true
  phrase kind (items ++ stop)

def interfaceDeclaration (self : Self) : Parse Node := do
  let kw ← word "interface"
  let name ← typeName
  let generics ← optional (do return [(← typeParameters self).withRole .typeParameters])
  let parents ← optional (do
    let kw ← word "extends"
    let types ← separated1 (mark ",") (genericType self)
    return [← phrase .extendsTypeClause (kw :: types.map (Tree.withRole .type))])
  let body ← objectType .interfaceBody self
  phrase .interfaceDeclaration
    ([kw, name.withRole .name] ++ generics ++ parents ++ [body.withRole .body])

def typeAliasDeclaration (self : Self) : Parse Node := do
  let kw ← word "type"
  let name ← typeName
  let generics ← optional (do return [(← typeParameters self).withRole .typeParameters])
  let eq ← mark "="
  let value ← self .type
  let stop ← semicolon false
  phrase .typeAliasDeclaration
    ([kw, name.withRole .name] ++ generics ++ [eq, value.withRole .value] ++ stop)

def enumMember (self : Self) : Parse Node := do
  let name ← propertyName self
  match ← attempt (initializer self false) with
  | some value => phrase .enumAssignment (name.withRole .name :: value)
  | none => return name.withRole .name

def enumDeclaration (self : Self) : Parse Node := do
  let const_ ← optional (do return [← word "const"])
  let kw ← word "enum"
  let name ← identifier
  let body ← bracketed .enumBody "\x7b" "\x7d" (enumMember self)
  phrase .enumDeclaration (const_ ++ [kw, name.withRole .name, body.withRole .body])

/-- The name and body of a namespace or module. -/
def moduleRest (self : Self) : Parse (List Node) := do
  let name ← stringLiteral <|> dottedName
  let body ← optional (do return [(← self .block).withRole .body])
  return name.withRole .name :: body

def namespaceDeclaration (self : Self) : Parse Node := do
  let kw ← word "namespace"
  guard !(← lineBreakAhead)
  let rest ← moduleRest self
  phrase .internalModule (kw :: rest)

def moduleDeclaration (self : Self) : Parse Node := do
  let kw ← word "module"
  guard !(← lineBreakAhead)
  let rest ← moduleRest self
  phrase .module (kw :: rest)

/-- `import A = N.B` -/
def importAlias : Parse Node := do
  let kw ← word "import"
  let name ← identifier
  let eq ← mark "="
  let target ← dottedName
  let stop ← semicolon false
  phrase .importAlias ([kw, name, eq, target] ++ stop)

/-- A declaration that starts with the word `w`. -/
def declarationOf (self : Self) (w : String) : Parse Node :=
  if w == "function" || w == "async" then functionDeclaration self
  else if w == "class" || w == "abstract" then classDeclaration self
  else if w == "const" then enumDeclaration self <|> variableDeclaration self
  else if w == "let" || w == "var" then variableDeclaration self
  else if w == "interface" then interfaceDeclaration self
  else if w == "type" then typeAliasDeclaration self
  else if w == "enum" then enumDeclaration self
  else if w == "namespace" then namespaceDeclaration self
  else if w == "module" then moduleDeclaration self
  else if w == "import" then importAlias
  else fail

def ambientDeclaration (self : Self) : Parse Node := do
  let kw ← word "declare"
  guard !(← lineBreakAhead)
  match ← peekWord with
  | "global" =>
    let name ← word "global"
    let body ← self .block
    phrase .ambientDeclaration [kw, name, body]
  | w =>
    let d ← declarationOf self w
    phrase .ambientDeclaration [kw, d]

/-- Any declaration. -/
def declaration (self : Self) : Parse Node := do
  if (← peekChar) == some '@' then classDeclaration self
  else
    let w ← peekWord
    if w == "declare" then ambientDeclaration self else declarationOf self w

end SymbolGraph.Script.Parse
