import FractalCurve.Number.Trig
import FractalCurve.Proofs.Conversions

/-!
# The size of sine and cosine

The argument is reduced to a remainder of a few bits, and the polynomials are
evaluated there. Powers of two are bounds enough to see that no step overflows:
`within_sine` and `within_cosine` hold for every finite argument.

`CircularFunctions` gathers what proofs on rotations may use of a sine and a
cosine. It is the same for every way of evaluating the two.
-/

namespace FractalCurve.Number

open Float.Model Float.Model.UnpackedFloat

-- ---------------------------------------------------------------------------
-- Polynomials
-- ---------------------------------------------------------------------------

theorem doubleWithin_sinPolynomial {x square : Float} (hx : DoubleWithin 9 x)
    (hsquare : DoubleWithin 18 square) : DoubleWithin 53 (sinPolynomial x square) := by
  have hcube : DoubleWithin 27 (x * square) := hx.mul hsquare (by decide)
  have hlast : DoubleWithin 6 (square * Float.ofBits 0xbf2994eb3774cf24) :=
    hsquare.mul_constant (by decide +kernel) (by decide)
  have hhigh : DoubleWithin 7 (Float.ofBits 0x3f81107605230bc4 + _) :=
    .add (.of_doubleUpTo (by decide +kernel)) hlast (by decide)
  have hthird : DoubleWithin 25 (x * square * Float.ofBits 0xbfc555545995a603) :=
    hcube.mul_constant (by decide +kernel) (by decide)
  have hlow : DoubleWithin 26 (x + _) := (hx.mono (by decide)).add hthird (by decide)
  have hfifth : DoubleWithin 45 (x * square * square) :=
    hcube.mul hsquare (by decide)
  have hrest : DoubleWithin 52 (x * square * square * _) := hfifth.mul hhigh (by decide)
  exact (hlow.mono (by decide)).add hrest (by decide)

theorem doubleWithin_cosPolynomial {square : Float} (hsquare : DoubleWithin 18 square) :
    DoubleWithin 59 (cosPolynomial square) := by
  have hfourth : DoubleWithin 36 (square * square) := hsquare.mul hsquare (by decide)
  have hlast : DoubleWithin 3 (square * Float.ofBits 0x3ef99343027bf8c3) :=
    hsquare.mul_constant (by decide +kernel) (by decide)
  have hhigh : DoubleWithin 4 (Float.ofBits 0xbf56c087e89a359d + _) :=
    .add (.of_doubleUpTo (by decide +kernel)) hlast (by decide)
  have hsecond : DoubleWithin 17 (square * Float.ofBits 0xbfdffffffd0c621c) :=
    hsquare.mul_constant (by decide +kernel) (by decide)
  have hlow : DoubleWithin 18 (1.0 + _) :=
    (doubleWithin_one.mono (by decide)).add hsecond (by decide)
  have hmiddle : DoubleWithin 32 (square * square * Float.ofBits 0x3fa55553e1068f19) :=
    hfourth.mul_constant (by decide +kernel) (by decide)
  have hsixth : DoubleWithin 54 (square * square * square) :=
    hfourth.mul hsquare (by decide)
  have hrest : DoubleWithin 58 (square * square * square * _) :=
    hsixth.mul hhigh (by decide)
  have hfirst : DoubleWithin 33 _ := (hlow.mono (by decide)).add hmiddle (by decide)
  exact (hfirst.mono (by decide)).add hrest (by decide)

theorem doubleWithin_atRemainder (onCosine : Bool) (phase : ℤ) {remainder : Float}
    (h : DoubleWithin 9 remainder) : DoubleWithin 59 (atRemainder onCosine phase remainder) := by
  have hsquare : DoubleWithin 18 (remainder * remainder) := h.mul h (by decide)
  have hcosine := doubleWithin_cosPolynomial hsquare
  unfold atRemainder
  dsimp only
  split
  · split
    · exact hcosine.neg (by decide)
    · exact hcosine
  · refine (doubleWithin_sinPolynomial ?_ hsquare).mono (by decide)
    split
    · exact h.neg (by decide)
    · exact h

-- ---------------------------------------------------------------------------
-- Reduction
-- ---------------------------------------------------------------------------

theorem doubleWithin_reduceSmall {x : Float} (h : DoubleWithin 7 x) :
    DoubleWithin 9 (reduceSmall x).remainder := by
  have hscaled : DoubleWithin (31 : ℕ) (x * Float.ofBits 0x41645f306dc9c883) :=
    h.mul_constant (by decide +kernel) (by decide)
  have hwhole := abs_le.1 (abs_truncate_le hscaled)
  have hquarters : |(truncate (x * Float.ofBits 0x41645f306dc9c883) + 0x800000) / 0x1000000| ≤
      2 ^ 7 := by
    refine abs_le.2 ?_
    omega
  have hturned : DoubleWithin 8 (Float.ofInt _ * Float.ofBits 0x3ff921fb54442d18) :=
    (doubleWithin_ofInt hquarters (by decide)).mul_constant (by decide +kernel) (by decide)
  exact (h.mono (by decide)).sub hturned (by decide)

theorem doubleWithin_reduceLarge (bits : ℕ) : DoubleWithin 9 (reduceLarge bits).remainder := by
  have hrest (n : ℤ) : |n.bmod (twoPow 64)| ≤ 2 ^ 63 := by
    have hpos : 0 < twoPow 64 := by decide
    have hlow := Int.le_bmod (x := n) hpos
    have hhigh := Int.bmod_lt (x := n) hpos
    have hhalf : (twoPow 64 : ℤ) = 2 ^ 64 := by decide
    rw [hhalf] at hlow hhigh
    refine abs_le.2 ?_
    omega
  have hturned (n : ℤ) :
      DoubleWithin 9 (Float.ofInt (n.bmod (twoPow 64)) * Float.ofBits 0x3c1921fb54442d18) :=
    (doubleWithin_ofInt (hrest _) (by decide)).mul_constant (by decide +kernel) (by decide)
  exact hturned _

-- ---------------------------------------------------------------------------
-- Results
-- ---------------------------------------------------------------------------

theorem Within.of_finiteUpTo {k : ℕ} {x : Float32} (h : FiniteUpTo (k - 24) x.toModel.unpack) :
    Within k x := by
  have hsize := @FiniteUpTo.sizeUpTo .binary32 k x.toBits.toBitVec h
  refine ⟨hsize.isFinite, ?_⟩
  rw [← zpow_natCast]
  exact hsize.abs_le

theorem within_narrow_atRemainder (onCosine : Bool) (phase : ℤ) {remainder : Float}
    (h : DoubleWithin 9 remainder) : Within 59 (narrow (atRemainder onCosine phase remainder)) :=
  within_narrow (k := 59) (doubleWithin_atRemainder onCosine phase h) (by decide)

section

variable {x : Float32} (h : x.isFinite = true)

include h

theorem doubleWithin_widen_of_abs_lt {bound : Float32} (hx : x.abs < bound)
    (hbound : FiniteUpTo (-17) bound.toModel.unpack) : DoubleWithin 7 (widen x) :=
  doubleWithin_widen (.of_abs_lt h (.of_finiteUpTo hbound) hx) (by decide)

theorem within_sine : Within 59 (sine x) := by
  unfold sine
  dsimp only
  by_cases htiny : x.abs < Float32.ofBits 0x39800000
  · rw [if_pos htiny]
    have hbound : Within 7 (Float32.ofBits 0x39800000) := .of_finiteUpTo (by decide +kernel)
    exact (Within.of_abs_lt h hbound htiny).mono (by decide)
  rw [if_neg htiny]
  by_cases heighth : x.abs < Float32.ofBits 0x3f490fdb
  · have hwide : DoubleWithin 9 (widen x) :=
      (doubleWithin_widen_of_abs_lt h heighth (by decide +kernel)).mono (by decide)
    have hsquare : DoubleWithin 18 (widen x * widen x) := hwide.mul hwide (by decide)
    rw [if_pos heighth]
    exact (within_narrow (k := 53) (doubleWithin_sinPolynomial hwide hsquare) (by decide)).mono
      (by decide)
  rw [if_neg heighth]
  by_cases hsmall : x.abs < 120.0
  · rw [if_pos hsmall]
    exact within_narrow_atRemainder _ _
      (doubleWithin_reduceSmall (doubleWithin_widen_of_abs_lt h hsmall (by decide +kernel)))
  · rw [if_neg hsmall, if_pos h]
    exact within_narrow_atRemainder _ _ (doubleWithin_reduceLarge _)

theorem within_cosine : Within 59 (cosine x) := by
  unfold cosine
  dsimp only
  by_cases htiny : x.abs < Float32.ofBits 0x39800000
  · rw [if_pos htiny]
    exact .of_finiteUpTo (by decide +kernel)
  rw [if_neg htiny]
  by_cases heighth : x.abs < Float32.ofBits 0x3f490fdb
  · have hwide : DoubleWithin 9 (widen x) :=
      (doubleWithin_widen_of_abs_lt h heighth (by decide +kernel)).mono (by decide)
    rw [if_pos heighth]
    exact within_narrow (k := 59)
      (doubleWithin_cosPolynomial (hwide.mul hwide (by decide))) (by decide)
  rw [if_neg heighth]
  by_cases hsmall : x.abs < 120.0
  · rw [if_pos hsmall]
    exact within_narrow_atRemainder _ _
      (doubleWithin_reduceSmall (doubleWithin_widen_of_abs_lt h hsmall (by decide +kernel)))
  · rw [if_neg hsmall, if_pos h]
    exact within_narrow_atRemainder _ _ (doubleWithin_reduceLarge _)

end

/-- A sine and a cosine as rotations need them: exact at zero, and at every finite
argument of a size that can be squared. -/
structure CircularFunctions (s c : Float32 → Float32) : Prop where
  sine_zero : s 0.0 = 0.0
  cosine_zero : c 0.0 = 1.0
  within_sine {x : Float32} : x.isFinite = true → Within 59 (s x)
  within_cosine {x : Float32} : x.isFinite = true → Within 59 (c x)

theorem circularFunctions : CircularFunctions sine cosine where
  sine_zero := by decide +kernel
  cosine_zero := by decide +kernel
  within_sine := within_sine
  within_cosine := within_cosine

end FractalCurve.Number
