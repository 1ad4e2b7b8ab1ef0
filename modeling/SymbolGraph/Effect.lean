import SymbolGraph.Text.Pattern

/-!
# Signs of side effects

A function whose text shows one of these patterns has an effect that can be seen from outside.
-/
namespace SymbolGraph

/-- A pattern with the reason for impurity that it stands for. -/
structure Effect where
  pattern : Text.Pattern
  reason : String

namespace Effect

/-- The reasons of the patterns that occur in a text, in the order of the patterns. -/
def reasonsIn (effects : List Effect) (text : String) : List String :=
  (effects.filter (·.pattern.occursIn text)).map (·.reason)

end Effect
end SymbolGraph
