import FractalCurve.Number.Binary

/-!
# Sine and cosine in single precision

Both functions are evaluated in double precision and rounded once. The argument
is first reduced to a remainder within an eighth of a turn and a number of
quarter turns; a polynomial of fixed coefficients then gives the value. Every
operation below is one correctly rounded operation, so these definitions fix the
bit pattern of the result. It is not always the correctly rounded value.

The precision of sine and cosine is not specified outside of these definitions.
An evaluation that fuses products with sums gives a neighbouring number at 34
arguments, and another method may differ at more.
-/

namespace FractalCurve.Number

def sinPolynomial (x square : Float) : Float :=
  let cube := x * square
  let high := Float.ofBits 0x3f81107605230bc4 + square * Float.ofBits 0xbf2994eb3774cf24
  let low := x + cube * Float.ofBits 0xbfc555545995a603
  low + (cube * square) * high

def cosPolynomial (square : Float) : Float :=
  let fourth := square * square
  let high := Float.ofBits 0xbf56c087e89a359d + square * Float.ofBits 0x3ef99343027bf8c3
  let low := 1.0 + square * Float.ofBits 0xbfdffffffd0c621c
  (low + fourth * Float.ofBits 0x3fa55553e1068f19) + (fourth * square) * high

/-- A number of quarter turns and the remainder in radians. -/
structure Reduced where
  quarters : Int
  remainder : Float

/-- The quotient by a quarter turn is formed in units of `2 ^ -24` and rounded
to the nearest whole number. -/
def reduceSmall (x : Float) : Reduced :=
  let scaled := truncate (x * Float.ofBits 0x41645f306dc9c883)
  let quarters := (scaled + 0x800000) / 0x1000000
  ⟨quarters, x - Float.ofInt quarters * Float.ofBits 0x3ff921fb54442d18⟩

/-- The first 192 binary places of `2 / π`. -/
def twoOverPi : Nat := 0xa2f9836e4e441529fc2757d1f534ddc0db6295993c439041

/-- The 32 places of `2 / π` that end with byte `i`. -/
def twoOverPiWindow (i : Nat) : Nat := (twoOverPi >>> (8 * (23 - i))) % 0x100000000

/-- The magnitude of a finite argument of at least 120, given by its bits. The
product with `2 / π` keeps 64 places from the two quarter-turn places down: the
places above them are whole turns. -/
def reduceLarge (bits : Nat) : Reduced :=
  let biased := (bits >>> 23) % 256
  let i := biased / 8 % 16
  let significand := ((bits % 0x800000 + 0x800000) <<< (biased % 8)) % 0x100000000
  let high := significand * twoOverPiWindow i % 0x100000000
  let middle := significand * twoOverPiWindow (i + 4)
  let low := (significand * twoOverPiWindow (i + 8)) >>> 32
  let product := ((high <<< 32) + middle + low) % twoPow 64
  let quarters : Nat := ((product + twoPow 61) % twoPow 64) >>> 62
  let rest := ((product : Int) - (quarters <<< 62 : Nat)).bmod (twoPow 64)
  ⟨quarters, Float.ofInt rest * Float.ofBits 0x3c1921fb54442d18⟩

/-- The value at a remainder: `onCosine` chooses the polynomial and `phase`, a
number of quarter turns, the sign. -/
def atRemainder (onCosine : Bool) (phase : Int) (remainder : Float) : Float :=
  let square := remainder * remainder
  let quadrant := phase % 4
  if onCosine then
    if 2 ≤ quadrant then -cosPolynomial square else cosPolynomial square
  else
    sinPolynomial (if quadrant = 1 ∨ quadrant = 2 then -remainder else remainder) square

def isNegative (x : Float32) : Bool := x.toBits ≥ 0x80000000

/-- An argument below `2 ^ -12` is its own sine. -/
def sine (x : Float32) : Float32 :=
  let size := x.abs
  let wide := widen x
  if size < Float32.ofBits 0x39800000 then x
  else if size < Float32.ofBits 0x3f490fdb then narrow (sinPolynomial wide (wide * wide))
  else if size < 120.0 then
    let r := reduceSmall wide
    narrow (atRemainder (r.quarters % 2 = 1) r.quarters r.remainder)
  else if x.isFinite then
    let r := reduceLarge x.toBits.toNat
    let phase := r.quarters + if isNegative x then 1 else 0
    narrow (atRemainder (r.quarters % 2 = 1) phase r.remainder)
  else nan32

/-- An argument below `2 ^ -12` has the cosine one. -/
def cosine (x : Float32) : Float32 :=
  let size := x.abs
  let wide := widen x
  if size < Float32.ofBits 0x39800000 then 1.0
  else if size < Float32.ofBits 0x3f490fdb then narrow (cosPolynomial (wide * wide))
  else if size < 120.0 then
    let r := reduceSmall wide
    narrow (atRemainder (r.quarters % 2 = 0) r.quarters r.remainder)
  else if x.isFinite then
    let r := reduceLarge x.toBits.toNat
    narrow (atRemainder (r.quarters % 2 = 0) r.quarters r.remainder)
  else nan32

end FractalCurve.Number
