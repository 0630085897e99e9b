-- Blank characters, the ones with the White_Space property of Unicode, and
-- the removal of them at both ends of a text. A zero-width space is not one.

namespace NominalBrand

namespace Blank

/-- The characters with the property White_Space, as ranges of code points. -/
def ranges : List (Nat × Nat) :=
  [(0x09, 0x0D), (0x20, 0x20), (0x85, 0x85), (0xA0, 0xA0), (0x1680, 0x1680), (0x2000, 0x200A),
    (0x2028, 0x2029), (0x202F, 0x202F), (0x205F, 0x205F), (0x3000, 0x3000)]

def isBlank (c : Char) : Bool := ranges.any fun r => r.1 ≤ c.toNat && c.toNat ≤ r.2

def trim (cs : List Char) : List Char :=
  ((cs.dropWhile isBlank).reverse.dropWhile isBlank).reverse

end Blank

end NominalBrand
