/-!
# Decimals to doubles

The double nearest to a decimal, of two equally near the one with an even mantissa.  Values beyond
the largest double become infinite and values below half of the least one become zero; the number
of digits tells both early, so that no power of ten with a huge exponent is ever computed.
-/

namespace RenderGate.Decimal

/-- The double nearest to `digits * 10 ^ exponent`. -/
def magnitude (digits : Nat) (exponent : Int) : Float :=
  let leading := (Nat.toDigits 10 digits).length + exponent
  if digits = 0 || leading < -330 then 0.0
  else if 310 < leading then 1.0 / 0.0
  else Float.ofScientific digits (decide (exponent < 0)) exponent.natAbs

/-- The double nearest to a decimal with a sign; zero keeps the sign. -/
def nearest (negative : Bool) (digits : Nat) (exponent : Int) : Float :=
  if negative then -(magnitude digits exponent) else magnitude digits exponent

def isDigit (c : Char) : Bool := '0' ≤ c && c ≤ '9'

def value (cs : List Char) : Nat := cs.foldl (fun n c => 10 * n + (c.toNat - '0'.toNat)) 0

end RenderGate.Decimal
