import RenderGate.Decimal.Binary

/-!
# Shortest decimals

The shortest decimal of a double is the one with the fewest digits among those that round to it.
The reals that round to a double form an interval, and the decimals with exponent `k` form a grid;
the coarsest grid with a point in the interval gives the digits.  Of two points the nearer counts,
and of two equally near the upper one.
-/

namespace RenderGate.Decimal

/-- The magnitude `digits * 10 ^ exponent`. -/
structure Scaled where
  digits : Nat
  exponent : Int
deriving DecidableEq

/-- Whether a decimal lies among the reals that round to the double: from halfway to the neighbour
below to halfway to the neighbour above, ends included exactly if the mantissa is even. -/
def Binary.roundsFrom (x : Binary) (d : Scaled) : Bool :=
  let lower := if x.narrow then 4 * x.mantissa - 1 else 4 * x.mantissa - 2
  let upper := 4 * x.mantissa + 2
  let closed := x.mantissa % 2 == 0
  let atLower := compareScaled d.digits d.exponent lower (x.exponent - 2)
  let atUpper := compareScaled d.digits d.exponent upper (x.exponent - 2)
  (atLower == .gt || (closed && atLower == .eq)) && (atUpper == .lt || (closed && atUpper == .eq))

/-- The last point of the grid of `10 ^ k` that is at most the double. -/
def Binary.floorAt (x : Binary) (k : Int) : Nat :=
  x.mantissa * Nat.pow 2 x.exponent.toNat * Nat.pow 10 (-k).toNat /
    (Nat.pow 2 (-x.exponent).toNat * Nat.pow 10 k.toNat)

/-- The point of the grid of `10 ^ k` that stands for the double, if one rounds to it. -/
def Binary.pointAt (x : Binary) (k : Int) : Option Scaled :=
  let below : Scaled := ⟨x.floorAt k, k⟩
  let above : Scaled := ⟨x.floorAt k + 1, k⟩
  match x.roundsFrom below, x.roundsFrom above with
  | true, true =>
      if compareScaled (2 * below.digits + 1) k (2 * x.mantissa) x.exponent = .gt then some below
      else some above
  | true, false => some below
  | false, true => some above
  | false, false => none

/-- The exponents of the grids, the coarsest first.  The largest double is below `10 ^ 309`, and
every double is a multiple of `10 ^ (-1074)`. -/
def grids : List Int := (List.range 1384).map fun (i : Nat) => (309 : Int) - i

def Binary.shortest (x : Binary) : Scaled := (grids.findSome? x.pointAt).getD ⟨0, 0⟩

/-- A decimal without an exponent part: zeros stand in for missing places, and a whole number has
no point. -/
def Scaled.positional (d : Scaled) : List Char :=
  let ds := Decimal.digits d.digits
  let places := (-d.exponent).toNat
  if d.digits = 0 then ['0']
  else if places = 0 then ds ++ List.replicate d.exponent.toNat '0'
  else if places < ds.length then
    ds.take (ds.length - places) ++ '.' :: ds.drop (ds.length - places)
  else '0' :: '.' :: List.replicate (places - ds.length) '0' ++ ds

/-- The text of a double in messages: the fewest digits that identify it, never with an exponent;
negative zero keeps its sign. -/
def shortestText (x : Float) : String :=
  if x.isNaN then "NaN"
  else
    let b := Binary.ofBits x.toBits
    let sign := if b.negative then ['-'] else []
    if x.isInf then String.ofList (sign ++ ['i', 'n', 'f'])
    else String.ofList (sign ++ b.shortest.positional)

end RenderGate.Decimal
