/-!
# Lists without repetition
-/
namespace SymbolGraph

/-- The first element with each key, other than the keys that have been seen, in the order of the list. -/
def firstOfEach {α : Type u} {β : Type v} [BEq β] (key : α → β) : List β → List α → List α
  | _, [] => []
  | seen, a :: rest =>
    if seen.contains (key a) then firstOfEach key seen rest
    else a :: firstOfEach key (key a :: seen) rest

end SymbolGraph
