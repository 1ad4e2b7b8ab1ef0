import SymbolGraph.Json.Basic
import SymbolGraph.Ordered.KeyMap

/-!
# Records in JSON

A record is an object with known member names, or an array of its fields in their order. Unknown
members of the object do not count, a repeated known one is refused. A field that may be absent has
a value to stand for it, in the array form only at the end.
-/
namespace SymbolGraph.Json

/-- The field values of a record with the given field names, none for a field that is absent. -/
def fields? (names : List String) : Json → Option (List (Option Json))
  | .object members =>
    let known := (members.map (·.1)).filter names.contains
    if known.eraseDups.length = known.length then
      some (names.map fun n => (members.find? fun m => m.1 == n).map (·.2))
    else none
  | .array items =>
    if items.length ≤ names.length then
      some (items.map some ++ List.replicate (names.length - items.length) none)
    else none
  | _ => none

/-- A field that must be present. -/
def required (read : Json → Option α) (field : Option Json) : Option α := field.bind read

/-- A field that may be absent. -/
def optional (absent : α) (read : Json → Option α) : Option Json → Option α
  | some j => read j
  | none => some absent

/-- A value or null. -/
def nullable (read : Json → Option α) : Json → Option (Option α)
  | .null => some none
  | j => (read j).map some

def listOf (read : Json → Option α) : Json → Option (List α)
  | .array items => items.mapM read
  | _ => none

/-- A map from texts; of repeated names the last counts. -/
def mapOf (read : Json → Option α) : Json → Option (KeyMap α)
  | .object members => (members.mapM fun m => (read m.2).map fun v => (m.1, v)).map KeyMap.ofList
  | _ => none

/-- One of a list of named choices, written as its name or as an object that maps it to null. -/
def choice? (choices : List (String × α)) : Json → Option α
  | .string s => (choices.find? fun c => c.1 == s).map (·.2)
  | .object [(s, .null)] => (choices.find? fun c => c.1 == s).map (·.2)
  | _ => none

/-- Machine words are 64 bits wide. -/
def word? : Json → Option Nat := natBelow? (Nat.pow 2 64)

/-- Members without those whose value is left out. -/
def members (l : List (String × Option Json)) : Json :=
  .object (l.filterMap fun (name, value) => value.map fun v => (name, v))

end SymbolGraph.Json
