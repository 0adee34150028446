/-!
# Blank characters

The characters of the Unicode property White_Space, which has been the same 25 since version 6.3,
and the text that is left when they are cut off at both ends.
-/

namespace RenderGate.Text

/-- The code points of the property, as closed ranges in increasing order. -/
def blankRanges : List (Nat × Nat) :=
  [(0x09, 0x0D), (0x20, 0x20), (0x85, 0x85), (0xA0, 0xA0), (0x1680, 0x1680), (0x2000, 0x200A),
    (0x2028, 0x2029), (0x202F, 0x202F), (0x205F, 0x205F), (0x3000, 0x3000)]

def isBlank (c : Char) : Bool := blankRanges.any fun r => r.1 ≤ c.toNat && c.toNat ≤ r.2

/-- The characters from the first to the last that is not blank. -/
def trim (cs : List Char) : List Char :=
  ((cs.dropWhile isBlank).reverse.dropWhile isBlank).reverse

def firstLine (cs : List Char) : List Char := cs.takeWhile (· ≠ '\n')

end RenderGate.Text
