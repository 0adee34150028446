import RenderGate.Decimal.Binary

/-!
# Decimals with a fixed number of places

The exact value of a double, rounded to a number of places; a value halfway between two decimals
goes to the one whose last digit is even.
-/

namespace RenderGate.Decimal

/-- The whole number nearest to a quotient, the even one of two equally near. -/
def roundQuotient (num den : Nat) : Nat :=
  let q := num / den
  match compare (2 * (num % den)) den with
  | .lt => q
  | .gt => q + 1
  | .eq => if q % 2 = 0 then q else q + 1

/-- The magnitude of a double in units of `10 ^ (-places)`, rounded. -/
def Binary.unitsAt (x : Binary) (places : Nat) : Nat :=
  roundQuotient (x.mantissa * Nat.pow 2 x.exponent.toNat * Nat.pow 10 places)
    (Nat.pow 2 (-x.exponent).toNat)

def fixedText (places : Nat) (x : Float) : String :=
  if x.isNaN then "NaN"
  else
    let b := Binary.ofBits x.toBits
    let sign := if b.negative then ['-'] else []
    if x.isInf then String.ofList (sign ++ ['i', 'n', 'f'])
    else
      let ds := Decimal.digits (b.unitsAt places)
      let padded := List.replicate (places + 1 - ds.length) '0' ++ ds
      let whole := padded.take (padded.length - places)
      if places = 0 then String.ofList (sign ++ whole)
      else String.ofList (sign ++ whole ++ '.' :: padded.drop (padded.length - places))

end RenderGate.Decimal
