import SymbolGraph.Ordered.KeySet
import SymbolGraph.Symbol.Basic

/-!
# Re-exports

A re-export is an export that another file declares. It is filled with what its declaration says, and
a star re-export is expanded to the names it stands for. The links from a symbol to those that
re-export it show later through which names the symbol is used.
-/
namespace SymbolGraph

/-- The exports of each file, the origins of re-exports being project files. -/
abbrev ExportTable := KeyMap (List Export)

namespace ExportTable

/-- The longest chain of re-exports that is followed. -/
def maxDepth : Nat := 16

/-- The resolved origins of the star re-exports. -/
def starOrigins (exports : List Export) : List String :=
  (exports.filter Export.isStar).filterMap (·.origin)

/-- The export that declares `name` as `file` exports it, found in fewer than `fuel` steps. A name that
the file gives itself comes before the names of star re-exports, which never pass on a default. -/
def originWithin (table : ExportTable) : Nat → String → String → Option Export
  | 0, _, _ => none
  | fuel + 1, file, name =>
    match table.get? file with
    | none => none
    | some exports =>
      match exports.find? fun e => e.name == name && !e.isStar with
      | some e =>
        if !e.isReExport || e.sourceName == starName then some e
        else e.origin.bind fun source => table.originWithin fuel source e.sourceName
      | none =>
        if name == defaultName then none
        else (starOrigins exports).findSome? fun source => table.originWithin fuel source name

/-- The declaring export after `depth` steps of a chain. -/
def origin? (table : ExportTable) (file name : String) (depth : Nat) : Option Export :=
  table.originWithin (maxDepth + 1 - depth) file name

/-- The files seen and the names found by a walk along star re-exports. -/
structure StarWalk where
  visited : List String := []
  names : KeySet := .empty

def walkStars (table : ExportTable) : Nat → String → StarWalk → StarWalk
  | 0, _, w => w
  | fuel + 1, file, w =>
    if w.visited.contains file then w
    else
      let w := { w with visited := file :: w.visited }
      ((table.get? file).getD []).foldl (fun w e =>
        if e.isStar then match e.origin with
          | some source => walkStars table fuel source w
          | none => w
        else if e.name == defaultName then w
        else { w with names := w.names.insert e.name }) w

/-- The names other than the default that a file exports, also through its star re-exports. -/
def starNames (table : ExportTable) (file : String) : List String :=
  (table.walkStars (maxDepth + 1) file {}).names.toList

/-- A link from a symbol to one that re-exports it. -/
structure Link where
  source : String
  target : String
  deriving DecidableEq, Repr, Inhabited

/-- A named re-export with the kind, signature and place of its declaration. -/
def fill (table : ExportTable) (e : Export) : Export :=
  if e.isReExport && !e.isStar && e.sourceName != starName then
    match e.origin.bind fun source => table.origin? source e.sourceName 1 with
    | some o =>
      { e with
        kind := o.kind, signature := e.signature <|> o.signature
        origin := some o.file, originName := some o.name }
    | none => e
  else e

/-- The re-export of one name for which a star re-export of `file` stands. -/
def starExport (table : ExportTable) (file source : String) (line : Nat) (name : String) : Export :=
  let e : Export := { name, kind := .unknown, file, line, isReExport := true }
  match table.origin? source name 1 with
  | some o =>
    { e with
      kind := o.kind, signature := o.signature, origin := some o.file, originName := some o.name }
  | none => { e with origin := some source, originName := some name }

/-- The exports for which the star re-exports of a file stand, each with the file that the star names.
A name that the file exports itself, or by an earlier star, is not taken again. -/
def starExports (table : ExportTable) (file : String) (exports : List Export) :
    List (String × Export) :=
  let own := (exports.filter (!·.isStar)).map (·.name)
  (exports.filter fun e => e.isReExport && e.isStar).foldl (fun found e =>
    match e.origin with
    | none => found
    | some source =>
      let taken := own ++ found.map (·.2.name)
      found ++ ((table.starNames source).filter (!taken.contains ·)).map fun name =>
        (source, table.starExport file source e.line name)) []

/-- The links of one re-export that is no star. A namespace passes on every name of its source. -/
def namedLinks (table : ExportTable) (e : Export) : List Link :=
  if e.isReExport && !e.isStar then
    match e.origin with
    | none => []
    | some source =>
      if e.sourceName == starName then
        (table.starNames source).map fun name => ⟨symbolKey source name, e.key⟩
      else [⟨symbolKey source e.sourceName, e.key⟩]
  else []

/-- What star re-exports add to each file. -/
def expansions (table : ExportTable) : KeyMap (List (String × Export)) :=
  table.map table.starExports

/-- All links of a project. -/
def links (table : ExportTable) : KeyMap KeySet :=
  let named := table.values.flatMap fun exports => exports.flatMap table.namedLinks
  let stars := table.expansions.values.flatMap fun added =>
    added.map fun (source, e) => Link.mk (symbolKey source e.name) e.key
  (named ++ stars).foldl (fun m l => m.upsert l.source .empty (·.insert l.target)) .empty

end ExportTable
end SymbolGraph
