import FractalCurve.Number.Binary

/-!
# Shortest decimals

A finite value is the image under rounding of a whole interval of real numbers.
`shortest` gives the point of that interval on the coarsest decimal grid that
has one, nearest to the value itself: the fewest digits that read back, and the
closest of those.
-/

namespace FractalCurve.Number

def tenPow (n : Nat) : Nat := Nat.pow 10 n

/-- The number `coefficient * 10 ^ exponent`. -/
structure Decimal where
  coefficient : Nat
  exponent : Int
deriving DecidableEq

/-- Which of two equally near grid points is taken. -/
inductive Tie where
  | toEven
  | up
deriving DecidableEq

/-- Three magnitudes in units of `2 ^ exponent`: all numbers between `low` and
`high` round to `value`, the ends too when the interval is `closed`. -/
structure RoundingInterval where
  low : Nat
  value : Nat
  high : Nat
  closed : Bool
  exponent : Int

/-- The ends lie half way to the neighbours. The lower neighbour of a power of
two is only half as far away as the upper one, unless it is subnormal. Ties
round to even, so the ends belong to an even significand. -/
def BinaryValue.interval32 (v : BinaryValue) : RoundingInterval :=
  let f := BinaryFormat.binary32
  let narrowBelow := v.significand = twoPow f.fractionBits ∧ f.leastExponent < v.exponent
  { low := 4 * v.significand - if narrowBelow then 1 else 2
    value := 4 * v.significand
    high := 4 * v.significand + 2
    closed := v.significand % 2 = 0
    exponent := v.exponent - 2 }

/-- The multiple of `10 ^ grid` in the interval that is nearest to the value.
Only the two multiples next to the value can be. -/
def RoundingInterval.nearestMultiple (i : RoundingInterval) (tie : Tie) (grid : Int) :
    Option Nat :=
  let unit := twoPow i.exponent.toNat * tenPow (-grid).toNat
  let step := twoPow (-i.exponent).toNat * tenPow grid.toNat
  let inside (c : Nat) : Bool :=
    if i.closed then i.low * unit ≤ c * step ∧ c * step ≤ i.high * unit
    else i.low * unit < c * step ∧ c * step < i.high * unit
  let below := i.value * unit / step
  let above := below + 1
  match inside below, inside above with
  | false, false => none
  | true, false => some below
  | false, true => some above
  | true, true =>
    match compare (i.value * unit - below * step) (above * step - i.value * unit) with
    | .lt => some below
    | .gt => some above
    | .eq => some (match tie with
      | .up => above
      | .toEven => if below % 2 = 0 then below else above)

/-- Decimal grids from the coarsest that can meet a single-precision value to
one finer than every such value's interval. -/
def grids32 : List Int := (List.range 86).map fun (i : Nat) => 39 - (i : Int)

/-- The fewest digits that read back as a single-precision value. -/
def BinaryValue.shortest32 (v : BinaryValue) (tie : Tie) : Decimal :=
  if v.significand = 0 then ⟨0, 0⟩
  else
    (grids32.findSome? fun grid =>
      (v.interval32.nearestMultiple tie grid).map fun c => ⟨c, grid⟩).getD ⟨0, 0⟩

end FractalCurve.Number
