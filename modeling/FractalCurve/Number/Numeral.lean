import FractalCurve.Number.Decimal

/-!
# Decimal numerals

A numeral is the written form of a number: a sign, digits before and after the
point, and an exponent. A `FloatStyle` says how a float is spelled as one.
-/

namespace FractalCurve.Number

structure Numeral where
  negative : Bool
  whole : List Char
  fraction : List Char
  exponent : Option Int
deriving DecidableEq

/-- The sign of an exponent is always written. -/
def exponentText : Option Int → List Char
  | none => []
  | some e => 'e' :: (if e < 0 then '-' else '+') :: Nat.toDigits 10 e.natAbs

def fractionText : List Char → List Char
  | [] => []
  | digits => '.' :: digits

def Numeral.text (n : Numeral) : List Char :=
  (if n.negative then ['-'] else []) ++ n.whole ++ fractionText n.fraction ++
    exponentText n.exponent

def Numeral.ofNat (n : Nat) : Numeral := ⟨false, Nat.toDigits 10 n, [], none⟩

structure FloatStyle where
  /-- Taken of two shortest decimals that are equally near. -/
  tie : Tie
  /-- Whether a number whose first digit counts `10 ^ e` is written without
  exponent. -/
  isPositional : Int → Bool
  /-- The digits after the point of a whole number. -/
  wholeFraction : List Char

/-- The digits with the point in its place, filled up with zeros on either
side. -/
def Decimal.positional (d : Decimal) (negative : Bool) (wholeFraction : List Char) : Numeral :=
  let digits := Nat.toDigits 10 d.coefficient
  let point := digits.length + d.exponent
  if 0 ≤ d.exponent then
    ⟨negative, digits ++ List.replicate d.exponent.toNat '0', wholeFraction, none⟩
  else if 0 < point then
    ⟨negative, digits.take point.toNat, digits.drop point.toNat, none⟩
  else ⟨negative, ['0'], List.replicate (-point).toNat '0' ++ digits, none⟩

/-- One digit before the point and an exponent. -/
def Decimal.scientific (d : Decimal) (negative : Bool) : Numeral :=
  let digits := Nat.toDigits 10 d.coefficient
  ⟨negative, digits.take 1, digits.drop 1, some (digits.length - 1 + d.exponent)⟩

def FloatStyle.numeral (style : FloatStyle) (v : BinaryValue) : Numeral :=
  let d := v.shortest32 style.tie
  let leading := (Nat.toDigits 10 d.coefficient).length - 1 + d.exponent
  if style.isPositional leading then d.positional v.negative style.wholeFraction
  else d.scientific v.negative

end FractalCurve.Number
