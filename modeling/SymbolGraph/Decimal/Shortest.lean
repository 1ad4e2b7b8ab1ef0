import SymbolGraph.Decimal.Binary

/-!
# Shortest decimals

Of the decimals that read back as a given double, the shortest one is written, and of several such
the nearest to the double.
-/
namespace SymbolGraph.Decimal

/-- The decimal `± digits · 10 ^ exponent`. -/
structure Digits where
  negative : Bool
  digits : Nat
  exponent : Int
  deriving DecidableEq, Repr, Inhabited

/-- Does `a · 10 ^ e` read back as the double `m · 2 ^ q`? The reals that do are those between the
midpoints to the neighbours, the midpoints included when `m` is even. Below a power of two the
lower neighbour is half as far away. -/
def readsBack (m : Nat) (q : Int) (a : Nat) (e : Int) : Bool :=
  let narrow := m == Nat.pow 2 52 && q > -1074
  -- all terms over 2 ^ (q - 2)
  let low := if narrow then 4 * m - 1 else 4 * m - 2
  let high := 4 * m + 2
  let q' := q - 2
  let lhs := a * (Nat.pow 10 e.toNat) * (Nat.pow 2 (-q').toNat)
  let scale := (Nat.pow 10 (-e).toNat) * (Nat.pow 2 q'.toNat)
  if m % 2 == 0 then low * scale ≤ lhs && lhs ≤ high * scale
  else low * scale < lhs && lhs < high * scale

/-- The neighbours of `m · 2 ^ q` on the grid of multiples of `10 ^ e`, the nearer first. -/
def gridNeighbours (m : Nat) (q : Int) (e : Int) : List Nat :=
  let num := m * Nat.pow 2 q.toNat * Nat.pow 10 (-e).toNat
  let den := Nat.pow 2 (-q).toNat * Nat.pow 10 e.toNat
  let below := num / den
  if 2 * (num % den) ≤ den then [below, below + 1] else [below + 1, below]

/-- The first hit on ever finer grids. -/
def searchGrid (m : Nat) (q : Int) : Nat → Int → Option (Nat × Int)
  | 0, _ => none
  | fuel + 1, e =>
    match (gridNeighbours m q e).find? fun a => readsBack m q a e with
    | some a => some (a, e)
    | none => searchGrid m q fuel (e - 1)

/-- Moves trailing zeros of the digits into the exponent. -/
def dropZeros : Nat → Nat → Int → Nat × Int
  | 0, a, e => (a, e)
  | fuel + 1, a, e => if a != 0 && a % 10 == 0 then dropZeros fuel (a / 10) (e + 1) else (a, e)

/-- The shortest decimal of a finite double; none for infinities and NaN. -/
def shortest? (x : Float) : Option Digits :=
  match Binary.ofFloat x with
  | .finite negative 0 _ => some ⟨negative, 0, 0⟩
  | .finite negative m q =>
    (searchGrid m q 700 310).map fun (a, e) =>
      let (a, e) := dropZeros 20 a e
      ⟨negative, a, e⟩
  | _ => none

/-- The double nearest to a decimal. -/
def Digits.toFloat (d : Digits) : Float :=
  let magnitude :=
    if 0 ≤ d.exponent then Float.ofScientific (d.digits * Nat.pow 10 d.exponent.toNat) false 0
    else Float.ofScientific d.digits true (-d.exponent).toNat
  if d.negative then -magnitude else magnitude

end SymbolGraph.Decimal
