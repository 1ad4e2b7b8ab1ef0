import SymbolGraph.Crate.Grammar
import SymbolGraph.Symbol.Basic
import SymbolGraph.Text.Place

/-!
# Exports and imports of Rust files

Only the items at the top of a file count. An item is exported if it has any visibility, since every
visibility reaches at least one other module.
-/
namespace SymbolGraph.Crate
open Text

def nameOf? (t : Node) : Option Node := t.child? .name
def isVisible (t : Node) : Bool := (t.child? .visibility).isSome

/-- What the use declaration around a tree says about its names. -/
structure UseSite where
  file : String
  line : Nat
  isVisible : Bool

/-- A name of a use declaration with the modules around it. The name `self` means the module in front
of it. -/
def useTarget? (modules : List String) (name : String) : Option (List String × String) :=
  if name == "self" then modules.getLast?.map fun m => (modules.dropLast, m)
  else some (modules, name)

/-- Adds one name of a use declaration. -/
def addUse (site : UseSite) (modules : List String) (name : String) (given : Option String)
    (facts : Facts) : Facts :=
  match useTarget? modules name with
  | none => facts
  | some (modules, name) =>
    let specifier := joinWith "::" modules
    let exported := given.getD name
    let facts :=
      -- an underscore brings no name into scope
      if exported == "_" then facts
      else
        let facts := { facts with bindings := facts.bindings.insert exported { specifier, name } }
        if site.isVisible then
          facts.addExport
            { name := exported, kind := .unknown, file := site.file, line := site.line,
              isReExport := true, origin := some specifier, originName := some name }
        else facts
    facts.addImport
      { name, boundAs := given.filter (· != name), specifier, file := site.file, line := site.line }

/-- Adds all names of a module. -/
def addGlob (site : UseSite) (modules : List String) (facts : Facts) : Facts :=
  let specifier := joinWith "::" modules
  let facts :=
    if site.isVisible then
      facts.addExport
        { name := starName, kind := .unknown, file := site.file, line := site.line,
          isReExport := true, origin := some specifier }
    else facts
  facts.addImport
    { name := starName, specifier, file := site.file, line := site.line, isReExport := site.isVisible }

mutual

/-- Adds what a use tree below the given modules names. -/
def addUseTree (site : UseSite) (modules : List String) : Node → Facts → Facts
  | .node kind role text span children, facts =>
    let self : Node := .node kind role text span children
    let name := ((nameOf? self).map Tree.text).getD ""
    match kind with
    | .usePath => addUseTrees site (modules ++ [name]) children facts
    | .useName => addUse site modules name none facts
    | .useRename => addUse site modules name ((self.child? .givenName).map Tree.text) facts
    | .useGroup => addUseTrees site modules children facts
    | .useGlob => addGlob site modules facts
    | _ => facts

def addUseTrees (site : UseSite) (modules : List String) : List Node → Facts → Facts
  | [], facts => facts
  | t :: rest, facts => addUseTrees site modules rest (addUseTree site modules t facts)

end

/-- Adds the imports that an item makes. A module in another file counts as all of its names. -/
def addImports (file : String) (facts : Facts) (item : Node) : Facts :=
  match item.kind with
  | .useItem =>
    let site : UseSite :=
      ⟨file, ((item.child? .useWord).map Tree.line).getD item.line, isVisible item⟩
    match item.child? .tree with
    | some tree => addUseTree site [] tree facts
    | none => facts
  | .moduleItem => match nameOf? item, item.child? .content with
    | some name, none =>
      facts.addImport
        { name := starName, specifier := "self::" ++ name.text, file, line := name.line }
    | _, _ => facts
  | _ => facts

/-- The node that holds the name of an item. -/
def declaredName? (item : Node) : Option Node :=
  nameOf? item <|> (item.child? .signature).bind nameOf?

/-- The kind of export that an item of a kind makes. -/
def Kind.exportKind? : Kind → Option ExportKind
  | .functionItem => some .function
  | .structItem => some .classType
  | .unionItem => some .classType
  | .enumItem => some .enum
  | .traitItem => some .interface
  | .typeItem => some .type
  | .constItem => some .const
  | .staticItem => some .variable
  | .moduleItem => some .unknown
  | _ => none

/-- The text between the starts of two nodes. The places are those of the program text, read in the
whole text of the file. -/
def Parsed.textUpTo? (p : Parsed) (start stop : Node) : Option String :=
  textBetween? p.content (p.program.placeAt start.span.start) (p.program.placeAt stop.span.start)

/-- The text of a function from `fn` up to its body. -/
def Parsed.signature? (p : Parsed) (function : Node) : Option String := do
  let word ← (← function.child? .signature).child? .functionWord
  p.textUpTo? word (← function.child? .body)

/-- The signature of an exported item: that of a function, or the type behind another name for it. -/
def Parsed.itemSignature? (p : Parsed) (item : Node) : Option String :=
  match item.kind with
  | .functionItem => p.signature? item
  | .typeItem => do p.textUpTo? (← item.child? .type) (← item.child? .stop)
  | _ => none

def Parsed.exportOf? (p : Parsed) (file : String) (item : Node) : Option Export := do
  let kind ← item.kind.exportKind?
  let name ← declaredName? item
  if !isVisible item then none
  return { name := name.text, kind, file, line := name.line, signature := p.itemSignature? item }

/-- What a Rust file says about symbols. -/
def Parsed.facts (p : Parsed) (file : String) : Facts :=
  let imports := p.root.children.foldl (addImports file) {}
  (p.root.children.filterMap (p.exportOf? file)).foldl Facts.addExport imports

end SymbolGraph.Crate
