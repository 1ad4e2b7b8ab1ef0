import SymbolGraph.Decimal.Shortest

/-!
# JSON values

Objects keep their members in the order written, repeated names included, because a reader of a
record has to see a repetition in order to refuse it.
-/
namespace SymbolGraph

/-- A number as written: an integer has neither fraction nor exponent. Minus zero is a decimal. -/
inductive JsonNumber
  | integer (value : Int)
  | decimal (value : Decimal.Digits)
  deriving DecidableEq, Repr

inductive Json
  | null
  | bool (value : Bool)
  | number (value : JsonNumber)
  | string (value : String)
  /-- A text, or an object with a name, that holds half of a surrogate pair: legal JSON that stands
  for no Unicode text. -/
  | unpaired
  | array (items : List Json)
  | object (members : List (String × Json))
  deriving Repr, Inhabited

namespace Json

def nat (n : Nat) : Json := .number (.integer n)
def strings (l : List String) : Json := .array (l.map .string)

def ofOption (f : α → Json) : Option α → Json
  | some a => f a
  | none => .null

/-- The first member of that name. -/
def get? (j : Json) (name : String) : Option Json :=
  match j with
  | .object members => (members.find? fun m => m.1 == name).map (·.2)
  | _ => none

/-- The last member of that name, the one that counts where repetition is allowed. -/
def getLast? (j : Json) (name : String) : Option Json :=
  match j with
  | .object members => (members.reverse.find? fun m => m.1 == name).map (·.2)
  | _ => none

def string? : Json → Option String
  | .string s => some s
  | _ => none

def bool? : Json → Option Bool
  | .bool b => some b
  | _ => none

/-- A natural number written as an integer and below `bound`. -/
def natBelow? (bound : Nat) : Json → Option Nat
  | .number (.integer i) => if 0 ≤ i ∧ i.toNat < bound then some i.toNat else none
  | _ => none

def array? : Json → Option (List Json)
  | .array items => some items
  | _ => none

def float? : Json → Option Float
  | .number (.integer i) => some ((Decimal.Digits.mk (i < 0) i.natAbs 0).toFloat)
  | .number (.decimal d) => some d.toFloat
  | _ => none

/-- A double is written as its shortest decimal; infinities and NaN have no JSON form. -/
def ofFloat (x : Float) : Json :=
  match Decimal.shortest? x with
  | some d => .number (.decimal d)
  | none => .null

end Json
end SymbolGraph
