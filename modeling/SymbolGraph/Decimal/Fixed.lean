import SymbolGraph.Decimal.Binary

/-!
# Fixed-place decimals

A double is written with a given number of places after the point. The exact binary value is
rounded to the nearest such decimal and a half goes to the even neighbour.
-/
namespace SymbolGraph.Decimal

/-- `num / den` rounded to the nearest natural, a half to the even one. -/
def roundHalfEven (num den : Nat) : Nat :=
  let q := num / den
  let r := num % den
  if 2 * r < den then q
  else if den < 2 * r then q + 1
  else if q % 2 == 0 then q else q + 1

/-- `n` in decimal digits, filled with zeros on the left up to `width` digits. -/
def padDigits (width n : Nat) : List Char :=
  let ds := Nat.toDigits 10 n
  List.replicate (width - ds.length) '0' ++ ds

/-- The text of `units / 10 ^ places`. -/
def placeText (places units : Nat) : List Char :=
  if places = 0 then Nat.toDigits 10 units
  else Nat.toDigits 10 (units / Nat.pow 10 places) ++ '.' :: padDigits places (units % Nat.pow 10 places)

def fixed (places : Nat) (x : Float) : String :=
  match Binary.ofFloat x with
  | .undefined => "NaN"
  | .infinite negative => if negative then "-inf" else "inf"
  | .finite negative mantissa exponent =>
    let (num, den) := Binary.quotient mantissa exponent
    let units := roundHalfEven (num * Nat.pow 10 places) den
    String.ofList ((if negative then ['-'] else []) ++ placeText places units)

end SymbolGraph.Decimal
