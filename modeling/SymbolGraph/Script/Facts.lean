import SymbolGraph.Script.Names
import SymbolGraph.Symbol.Basic

/-!
# Exports and imports of scripts

Imports are read before exports, so that exporting an imported name is known to be a re-export.
-/
namespace SymbolGraph.Script
open Text

/-- What a declaration at the top of a file says about a name. -/
structure Declaration where
  kind : ExportKind
  signature : Option String := none
  deriving DecidableEq, Repr, Inhabited

/-- The parameters and the result type of a function, on one line. -/
def signatureText (function : Node) : String :=
  let parameters := (textIn? function .parameters).getD
    ("(" ++ (textIn? function .parameter).getD "" ++ ")")
  singleBlank (parameters ++ (textIn? function .returnType).getD "")

/-- What a declarator says about the names it binds. -/
def declaratorEntry (isConst : Bool) (declarator : Node) : Declaration :=
  match declarator.child? .value with
  | some value =>
    if value.kind.isFunctionValue then ⟨.function, some (signatureText value)⟩
    else ⟨if isConst then .const else .variable, none⟩
  | none => ⟨if isConst then .const else .variable, none⟩

/-- The names that a declaration introduces, with what it says about each. -/
def declarationEntries (t : Node) : List (String × Declaration) :=
  let named (d : Declaration) : List (String × Declaration) :=
    (textIn? t .name).toList.map fun name => (name, d)
  match t.kind with
  | .functionDeclaration | .generatorFunctionDeclaration | .functionSignature =>
    named ⟨.function, some (signatureText t)⟩
  | .classDeclaration | .abstractClassDeclaration => named ⟨.classType, none⟩
  | .interfaceDeclaration => named ⟨.interface, none⟩
  | .typeAliasDeclaration => named ⟨.type, none⟩
  | .enumDeclaration => named ⟨.enum, none⟩
  | .lexicalDeclaration | .variableDeclaration =>
    let isConst := t.children.head?.any (isToken · "const")
    ((namedChildren t).filter (·.kind == .variableDeclarator)).flatMap fun declarator =>
      (namesIn declarator .name).map fun name => (name, declaratorEntry isConst declarator)
  | _ => []

/-- The declarations at the top of a file, the first of each name. -/
def topDeclarations (root : Node) : KeyMap Declaration :=
  .ofListFirst <| root.children.flatMap fun t =>
    if t.kind == .exportStatement then ((t.child? .declaration).map declarationEntries).getD []
    else declarationEntries t

/-- The imports that one part of an import clause makes. -/
def importPart (file specifier : String) (line : Nat) (part : Node) : List Import :=
  match part.kind with
  | .identifier =>
    [{ name := defaultName, boundAs := some part.text, specifier, file, line, isDefault := true }]
  | .namespaceImport =>
    match (namedChildren part).find? (·.kind == .identifier) with
    | some name =>
      [{ name := starName, boundAs := some name.text, specifier, file, line, isNamespace := true }]
    | none => []
  | .namedImports =>
    ((namedChildren part).filter (·.kind == .importSpecifier)).filterMap fun spec => do
      let name := literalText (← spec.child? .name)
      return { name, boundAs := textIn? spec .givenName, specifier, file, line,
               isDefault := name == defaultName }
  | _ => []

/-- Adds the imports of a statement; a statement without names is an import for effect. -/
def addImportStatement (file : String) (facts : Facts) (t : Node) : Facts :=
  match t.child? .source with
  | none => facts
  | some source =>
    let specifier := literalText source
    let imports := ((t.children.filter (·.kind == .importClause)).flatMap (·.children)).flatMap
      (importPart file specifier t.line)
    if imports.isEmpty then facts.addImport { name := starName, specifier, file, line := t.line }
    else imports.foldl Facts.bindImport facts

/-- The name of an export specifier and the name it is exported as. -/
def specifierNames (spec : Node) : Option (String × String) := do
  if spec.kind != .exportSpecifier then none
  let name := literalText (← spec.child? .name)
  return (name, ((spec.child? .givenName).map literalText).getD name)

/-- Adds a name of another module that is exported again. -/
def addReExport (file specifier : String) (line : Nat) (facts : Facts) (names : String × String) :
    Facts :=
  let (name, exported) := names
  let facts := facts.addExport
    { name := exported, kind := .unknown, file, line, isDefault := exported == defaultName,
      isReExport := true, origin := some specifier, originName := some name }
  facts.addImport
    { name, boundAs := if exported != name then some exported else none, specifier, file, line,
      isDefault := name == defaultName, isReExport := true }

/-- Adds a whole module that is exported under a name. -/
def addNamespaceExport (file specifier : String) (line : Nat) (facts : Facts) (t : Node) : Facts :=
  match (namedChildren t).head? with
  | none => facts
  | some name =>
    let space := literalText name
    let facts := facts.addExport
      { name := space, kind := .variable, file, line, isReExport := true, origin := some specifier,
        originName := some starName }
    facts.addImport
      { name := starName, boundAs := some space, specifier, file, line, isNamespace := true,
        isReExport := true }

/-- Adds an export statement that names another module. -/
def addForwardingExport (file specifier : String) (facts : Facts) (t : Node) : Facts :=
  let handled := t.children.any fun c => c.kind == .exportClause || c.kind == .namespaceExport
  if handled then
    t.children.foldl (fun facts c => match c.kind with
      | .exportClause =>
        ((namedChildren c).filterMap specifierNames).foldl (addReExport file specifier t.line) facts
      | .namespaceExport => addNamespaceExport file specifier t.line facts c
      | _ => facts) facts
  else
    let facts := facts.addExport
      { name := starName, kind := .unknown, file, line := t.line, isReExport := true,
        origin := some specifier }
    facts.addImport
      { name := starName, specifier, file, line := t.line, isReExport := true }

/-- The exports that an exported declaration makes. -/
def declaredExports (file : String) (line : Nat) (isDefault : Bool) (declaration : Node) :
    List Export :=
  (declarationEntries declaration).map fun (name, d) =>
    if isDefault then
      { name := defaultName, kind := d.kind, file, line, isDefault := true, originName := some name,
        signature := d.signature }
    else { name, kind := d.kind, file, line, signature := d.signature }

/-- Marks an export as passing on what an import binds. -/
def Export.throughBinding (e : Export) (b : Binding) : Export :=
  { e with
    kind := .unknown, isReExport := true, origin := some b.specifier, originName := some b.name }

/-- The export that a default export of a value makes. -/
def valueExport (file : String) (line : Nat) (declarations : KeyMap Declaration)
    (bindings : Bindings) (value : Node) : Export :=
  let e : Export := { name := defaultName, kind := .variable, file, line, isDefault := true }
  match value.kind with
  | .identifier =>
    match bindings.get? value.text with
    | some b => Export.throughBinding e b
    | none =>
      let d := (declarations.get? value.text).getD ⟨.unknown, none⟩
      { e with kind := d.kind, signature := d.signature, originName := some value.text }
  | .classExpression => { e with kind := .classType, originName := textIn? value .name }
  | kind =>
    if kind.isFunctionValue then
      { e with
        kind := .function, signature := some (signatureText value)
        originName := textIn? value .name }
    else e

/-- The export that a name in an export list makes. -/
def listedExport (file : String) (line : Nat) (declarations : KeyMap Declaration)
    (bindings : Bindings) (names : String × String) : Export :=
  let (name, exported) := names
  let e : Export :=
    { name := exported, kind := .unknown, file, line, isDefault := exported == defaultName }
  match bindings.get? name with
  | some b => Export.throughBinding e b
  | none =>
    let d := (declarations.get? name).getD ⟨.unknown, none⟩
    { e with
      kind := d.kind, signature := d.signature
      originName := if name != exported then some name else none }

/-- Adds an export statement. -/
def addExportStatement (file : String) (declarations : KeyMap Declaration) (facts : Facts)
    (t : Node) : Facts :=
  match t.child? .source with
  | some source => addForwardingExport file (literalText source) facts t
  | none =>
    match t.child? .declaration with
    | some d =>
      (declaredExports file t.line (t.children.any (isToken · "default")) d).foldl Facts.addExport facts
    | none =>
      match t.child? .value with
      | some value => facts.addExport (valueExport file t.line declarations facts.bindings value)
      | none =>
        let clauses := t.children.filter (·.kind == .exportClause)
        let names := (clauses.flatMap namedChildren).filterMap specifierNames
        (names.map (listedExport file t.line declarations facts.bindings)).foldl Facts.addExport facts

/-- What a script says about symbols. -/
def factsOf (file : String) (root : Node) : Facts :=
  let imports := (root.children.filter (·.kind == .importStatement)).foldl (addImportStatement file) {}
  (root.children.filter (·.kind == .exportStatement)).foldl
    (addExportStatement file (topDeclarations root)) imports

end SymbolGraph.Script
