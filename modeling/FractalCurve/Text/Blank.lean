/-!
# Blank characters

The characters with the Unicode property White_Space.
-/

namespace FractalCurve.Text

/-- Code points, first and last of each range. -/
def blankRanges : List (Nat × Nat) :=
  [ (0x9, 0xd), (0x20, 0x20), (0x85, 0x85), (0xa0, 0xa0), (0x1680, 0x1680),
    (0x2000, 0x200a), (0x2028, 0x2029), (0x202f, 0x202f), (0x205f, 0x205f),
    (0x3000, 0x3000) ]

def inRanges (ranges : List (Nat × Nat)) (c : Char) : Bool :=
  ranges.any fun r => r.1 ≤ c.toNat ∧ c.toNat ≤ r.2

def isBlank (c : Char) : Bool := inRanges blankRanges c

end FractalCurve.Text
