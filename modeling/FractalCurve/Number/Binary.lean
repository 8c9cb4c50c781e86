/-!
# Finite binary numbers as integers

A finite binary floating-point value is a sign, a whole significand and a
power of two. `BinaryFormat.decode` reads that form off a bit pattern and
`BinaryFormat.encode` rounds it back to a pattern, to nearest with ties to
even. Conversion between the two widths is decoding in one format and encoding
in the other.
-/

namespace FractalCurve.Number

def twoPow (n : Nat) : Nat := Nat.pow 2 n

/-- The number `(-1) ^ negative * significand * 2 ^ exponent`. -/
structure BinaryValue where
  negative : Bool
  significand : Nat
  exponent : Int
deriving DecidableEq

/-- An interchange format: `precision` significant bits, the leading one
implicit, and `exponentBits` bits of biased exponent. -/
structure BinaryFormat where
  precision : Nat
  exponentBits : Nat

namespace BinaryFormat

def binary32 : BinaryFormat := ⟨24, 8⟩
def binary64 : BinaryFormat := ⟨53, 11⟩

def fractionBits (f : BinaryFormat) : Nat := f.precision - 1

def bias (f : BinaryFormat) : Nat := twoPow (f.exponentBits - 1) - 1

/-- Exponent of the last place of the smallest values, the subnormal ones. -/
def leastExponent (f : BinaryFormat) : Int := 1 - (f.bias : Int) - f.fractionBits

/-- The pattern of positive infinity; every finite magnitude lies below it. -/
def infinityBits (f : BinaryFormat) : Nat :=
  (twoPow f.exponentBits - 1) * twoPow f.fractionBits

def signBit (f : BinaryFormat) : Nat := twoPow (f.exponentBits + f.fractionBits)

/-- The value of a pattern, or none for an infinity or NaN. -/
def decode (f : BinaryFormat) (bits : Nat) : Option BinaryValue :=
  let negative := f.signBit ≤ bits
  let magnitude := bits % f.signBit
  let biased := magnitude / twoPow f.fractionBits
  let fraction := magnitude % twoPow f.fractionBits
  if f.infinityBits ≤ magnitude then none
  else if biased = 0 then some ⟨negative, fraction, f.leastExponent⟩
  else some ⟨negative, fraction + twoPow f.fractionBits, f.leastExponent + (biased - 1 : Nat)⟩

/-- The whole number nearest to `num / den`, the even one of two. -/
def divEven (num den : Nat) : Nat :=
  let quotient := num / den
  match compare (2 * (num % den)) den with
  | .lt => quotient
  | .eq => quotient + quotient % 2
  | .gt => quotient + 1

/-- Neighbouring magnitudes have neighbouring patterns, so a significand that
rounds up to the next power of two carries into the exponent by itself. A
magnitude past the largest finite one becomes infinite. -/
def encodeMagnitude (f : BinaryFormat) (significand : Nat) (exponent : Int) : Nat :=
  if significand = 0 then 0
  else
    let last := max (exponent + (significand.log2 + 1 : Nat) - f.precision) f.leastExponent
    let scaled :=
      if last ≤ exponent then significand * twoPow (exponent - last).toNat
      else divEven significand (twoPow (last - exponent).toNat)
    min ((last - f.leastExponent).toNat * twoPow f.fractionBits + scaled) f.infinityBits

def encode (f : BinaryFormat) (d : BinaryValue) : Nat :=
  f.encodeMagnitude d.significand d.exponent + if d.negative then f.signBit else 0

end BinaryFormat

open BinaryFormat

def finite32 (x : Float32) : Option BinaryValue := binary32.decode x.toBits.toNat
def finite64 (x : Float) : Option BinaryValue := binary64.decode x.toBits.toNat

def nan32 : Float32 := 0.0 / 0.0
def infinity32 : Float32 := 1.0 / 0.0

def narrow (x : Float) : Float32 :=
  match finite64 x with
  | some d => Float32.ofBits (binary32.encode d).toUInt32
  | none => if x.isNaN then nan32 else if x < 0.0 then -infinity32 else infinity32

/-- Every single-precision value has its equal in double precision. -/
def widen (x : Float32) : Float :=
  match finite32 x with
  | some d => Float.ofBits (binary64.encode d).toUInt64
  | none => if x.isNaN then 0.0 / 0.0 else if x < 0.0 then -(1.0 / 0.0) else 1.0 / 0.0

/-- Drops the fraction; an infinity or NaN gives zero. -/
def truncate (x : Float) : Int :=
  match finite64 x with
  | none => 0
  | some d =>
    let whole :=
      if 0 ≤ d.exponent then d.significand * twoPow d.exponent.toNat
      else d.significand / twoPow (-d.exponent).toNat
    if d.negative then -whole else whole

/-- The nearest whole number, a half going away from zero. The sign stays, also
on a zero. -/
def roundAway (x : Float32) : Float32 :=
  match finite32 x with
  | none => x
  | some d =>
    if 0 ≤ d.exponent then x
    else
      let unit := twoPow (-d.exponent).toNat
      let whole := (2 * d.significand + unit) / (2 * unit)
      Float32.ofBits (binary32.encode ⟨d.negative, whole, 0⟩).toUInt32

end FractalCurve.Number
