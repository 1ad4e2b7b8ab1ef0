import SymbolGraph.Json.Basic
import SymbolGraph.Ordered.KeyMap

/-!
# Objects in order

The form of a JSON value in which the members of every object are in ascending order of their names. Of
members with one name the last counts.
-/
namespace SymbolGraph.Json

mutual

def sorted : Json → Json
  | .array items => .array (sortedItems items)
  | .object members => .object (KeyMap.ofList (sortedMembers members)).toList
  | j => j

def sortedItems : List Json → List Json
  | [] => []
  | j :: rest => j.sorted :: sortedItems rest

def sortedMembers : List (String × Json) → List (String × Json)
  | [] => []
  | (name, j) :: rest => (name, j.sorted) :: sortedMembers rest

end

end SymbolGraph.Json
