import SymbolGraph.Ordered.KeyMap

/-!
# TOML values
-/
namespace SymbolGraph

/-- A value of a TOML document. -/
inductive Toml
  | text (value : String)
  | integer (value : Int)
  | decimal (value : Float)
  | flag (value : Bool)
  | date (written : String)
  | list (items : List Toml)
  | table (entries : List (String × Toml))
  deriving Inhabited

namespace Toml

/-! ## Reading values of a known shape -/

def text? : Toml → Option String
  | .text s => some s
  | _ => none

def flag? : Toml → Option Bool
  | .flag b => some b
  | _ => none

def nat? : Toml → Option Nat
  | .integer i => if 0 ≤ i then some i.toNat else none
  | _ => none

/-- A decimal, which may be written as an integer. -/
def float? : Toml → Option Float
  | .decimal x => some x
  | .integer i => some (Float.ofInt i)
  | _ => none

def listOf? (read : Toml → Option α) : Toml → Option (List α)
  | .list items => items.mapM read
  | _ => none

def mapOf? (read : Toml → Option α) : Toml → Option (KeyMap α)
  | .table entries => (entries.mapM fun e => (read e.2).map fun v => (e.1, v)).map KeyMap.ofList
  | _ => none

/-- The fields of a record with the given names, none for a field that is absent. A record is a table,
or a list of its fields in their order. -/
def fields? (names : List String) : Toml → Option (List (Option Toml))
  | .table entries => some (names.map fun n => entries.lookup n)
  | .list items => some (names.zipIdx.map fun (_, i) => items[i]?)
  | .date _ => some (names.map fun _ => none)
  | _ => none

/-- A field that may be absent. -/
def field? (absent : α) (read : Toml → Option α) : Option Toml → Option α
  | some v => read v
  | none => some absent

end Toml
end SymbolGraph
