import FractalCurve.Number.Numeral

/-!
# JSON values

The members of an object are kept in the order in which they are written.
-/

namespace FractalCurve

inductive Json where
  | null
  | bool (value : Bool)
  | number (numeral : Number.Numeral)
  | string (text : List Char)
  | array (items : List Json)
  | object (members : List (List Char × Json))

namespace Json

open Number

/-- Floats are written with the fewest digits that read back, always with a
point in positional notation. -/
def floatStyle : FloatStyle := ⟨.toEven, fun e => -6 ≤ e ∧ e ≤ 12, ['0']⟩

/-- There is no numeral for an infinity or NaN: null stands in its place. -/
def ofFloat (x : Float32) : Json :=
  match finite32 x with
  | some v => .number (floatStyle.numeral v)
  | none => .null

def ofNat (n : Nat) : Json := .number (Numeral.ofNat n)

def ofString (s : String) : Json := .string s.toList

end Json

end FractalCurve
