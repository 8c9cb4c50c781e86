import FractalCurve.Json.Token
import FractalCurve.Number.Binary

/-!
# Values of JSON numbers

A numeral without fraction and exponent is a whole number as long as it fits 64
bits. Any other is a double-precision number, made from the leading digits that
fit 64 bits and one power of ten. It need not be the nearest one: the product
with the power, or the quotient by it, is rounded once more.
-/

namespace FractalCurve.Json

open Number

inductive NumberValue where
  | natural (size : UInt64)
  | negative (size : UInt64)
  | real (value : Float)

def digitValue (c : Char) : Nat := c.toNat - '0'.toNat

/-- Appends digits to a number while it fits 64 bits. The digits from the first
that does not fit are given back. -/
def appendDigits (size : Nat) : List Char → Nat × List Char
  | [] => (size, [])
  | c :: digits =>
    let next := 10 * size + digitValue c
    if next < twoPow 64 then appendDigits next digits else (size, c :: digits)

def powerOfTen (n : Nat) : Float := Float.ofScientific 1 false n

/-- The number `size * 10 ^ exponent` for a size that fits 64 bits. The largest
power of ten at hand is `10 ^ 308`; two divisions by it leave nothing of such a
size. -/
def scaleByTen (size : Nat) (exponent : Int) : Except Fault Float :=
  let real := size.toUInt64.toFloat
  if size = 0 then .ok 0.0
  else if 308 < exponent then .error .malformed
  else if 0 ≤ exponent then
    let product := real * powerOfTen exponent.toNat
    if product.isFinite then .ok product else .error .malformed
  else if -308 ≤ exponent then .ok (real / powerOfTen (-exponent).toNat)
  else if -616 ≤ exponent then
    .ok (real / powerOfTen 308 / powerOfTen (-exponent - 308).toNat)
  else .ok 0.0

/-- Whole digits that do not fit count as zeros. Digits after the point that do
not fit are dropped. -/
def realValue (n : Numeral) : Except Fault Float := do
  let (whole, zeros) := appendDigits 0 n.whole
  let (size, dropped) := appendDigits whole n.fraction
  let places : Int := zeros.length - (n.fraction.length - dropped.length : Nat)
  let value ← scaleByTen size (places + n.exponent.getD 0)
  return if n.negative then -value else value

/-- Minus zero is no whole number. -/
def numberValue (n : Numeral) : Except Fault NumberValue :=
  let (size, left) := appendDigits 0 n.whole
  if n.fraction.isEmpty ∧ n.exponent.isNone ∧ left.isEmpty ∧
      (n.negative → 0 < size ∧ size ≤ twoPow 63) then
    .ok (if n.negative then .negative size.toUInt64 else .natural size.toUInt64)
  else .real <$> realValue n

/-- Whole numbers are rounded once, all others from double precision. -/
def NumberValue.toFloat32 : NumberValue → Float32
  | .natural size => size.toFloat32
  | .negative size => -size.toFloat32
  | .real value => narrow value

def NumberValue.toUInt32? : NumberValue → Option UInt32
  | .natural size => if size.toNat < twoPow 32 then some size.toUInt32 else none
  | _ => none

end FractalCurve.Json
