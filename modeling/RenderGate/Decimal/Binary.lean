/-!
# Doubles as exact binary numbers

A finite double is a sign and a magnitude `mantissa * 2 ^ exponent`.  All decimal text of doubles is
computed from this form with natural numbers, and comparisons with decimals multiply crosswise.
-/

namespace RenderGate.Decimal

/-- The magnitude `mantissa * 2 ^ exponent` of a double, with its sign. -/
structure Binary where
  negative : Bool
  mantissa : Nat
  exponent : Int
  /-- The next double towards zero is half as far away as the one on the other side. -/
  narrow : Bool

/-- The fields of the bits of a finite double: sign, eleven bits of exponent, 52 of fraction. -/
def Binary.ofBits (bits : UInt64) : Binary :=
  let scale := ((bits >>> 52) &&& 0x7FF).toNat
  let fraction := (bits &&& 0xFFFFFFFFFFFFF).toNat
  { negative := bits >>> 63 != 0
    mantissa := if scale = 0 then fraction else Nat.pow 2 52 + fraction
    exponent := if scale = 0 then -1074 else (scale : Int) - 1075
    narrow := fraction == 0 && decide (1 < scale) }

/-- Compares `a * 10 ^ i` with `n * 2 ^ j`. -/
def compareScaled (a : Nat) (i : Int) (n : Nat) (j : Int) : Ordering :=
  compare (a * Nat.pow 10 i.toNat * Nat.pow 2 (-j).toNat)
    (n * Nat.pow 2 j.toNat * Nat.pow 10 (-i).toNat)

def digits (n : Nat) : List Char := Nat.toDigits 10 n

end RenderGate.Decimal
