import FractalCurve.Proofs.RoundedSize

/-!
# The size of doubles

Double precision has so many exponents that sizes can be accounted for
generously: a sum takes one bit more than its operands, a product as many as
both.

`isFinite_toFloat_mul_powerOfTen`: a whole number of 64 bits times a power of
ten up to `10 ^ 40` is finite.
-/

namespace FractalCurve.Number

open Float.Model Float.Model.UnpackedFloat

/-- Finite, and at most `2 ^ k` in size. -/
def DoubleWithin (k : ℤ) (x : Float) : Prop := SizeUpTo .binary64 k x.toModel.unpack

theorem inRange_binary64 {k : ℤ} (hk : k.natAbs ≤ 1001) : InRange .binary64 k := by
  have hbias : (Format.exponentBias .binary64 : ℤ) = 1023 := by decide
  have hbits : ((2 ^ Format.exponentBits .binary64 : ℕ) : ℤ) = 2048 := by decide
  rw [InRange, hbias, hbits]
  omega

namespace DoubleWithin

variable {j k : ℤ} {x y : Float}

theorem mono (h : DoubleWithin j x) (hle : j ≤ k) : DoubleWithin k x := SizeUpTo.mono h hle

theorem of_pack {u : UnpackedFloat} (h : SizeUpTo .binary64 k u) (hk : k.natAbs ≤ 1001) :
    DoubleWithin k ⟨Float.Model.pack u⟩ :=
  sizeUpTo_unpack_pack (inRange_binary64 hk) h

theorem neg (h : DoubleWithin k x) (hk : k.natAbs ≤ 1000) : DoubleWithin k (-x) :=
  of_pack (SizeUpTo.neg h) (by omega)

theorem add (hx : DoubleWithin k x) (hy : DoubleWithin k y) (hk : k.natAbs ≤ 1000) :
    DoubleWithin (k + 1) (x + y) :=
  of_pack (SizeUpTo.add (inRange_binary64 (by omega)).least_le hx hy) (by omega)

theorem sub (hx : DoubleWithin k x) (hy : DoubleWithin k y) (hk : k.natAbs ≤ 1000) :
    DoubleWithin (k + 1) (x - y) :=
  of_pack (SizeUpTo.sub (inRange_binary64 (by omega)).least_le hx hy) (by omega)

theorem mul (hx : DoubleWithin j x) (hy : DoubleWithin k y) (hk : (j + k).natAbs ≤ 1000) :
    DoubleWithin (j + k) (x * y) :=
  of_pack (SizeUpTo.mul (inRange_binary64 (by omega)).least_le hx hy) (by omega)

theorem of_doubleUpTo (h : DoubleUpTo (k - 53) x) : DoubleWithin k x :=
  @FiniteUpTo.sizeUpTo .binary64 k x.toBits.toBitVec h

theorem mul_constant (hx : DoubleWithin j x) (hy : DoubleUpTo (k - j - 53) y)
    (hk : k.natAbs ≤ 1000) : DoubleWithin k (x * y) := by
  have hproduct := hx.mul (of_doubleUpTo hy) (by omega)
  rw [add_sub_cancel] at hproduct
  exact hproduct

end DoubleWithin

-- ---------------------------------------------------------------------------
-- Whole numbers
-- ---------------------------------------------------------------------------

theorem doubleWithin_one : DoubleWithin 0 1.0 := by
  have hsize : ((2 ^ 52 : ℕ) : ℚ) * 2 ^ (-52 : ℤ) ≤ 2 ^ (0 : ℤ) := by norm_num
  show SizeUpTo .binary64 0 (.finite .positive (2 ^ 52) (-52) (by decide))
  exact ⟨by decide, by decide, hsize⟩

theorem doubleWithin_toFloat {n : UInt64} {k : ℕ} (h : n.toNat ≤ 2 ^ k) (hk : k ≤ 1000) :
    DoubleWithin k n.toFloat := by
  have hsize : |((n.toNat : ℤ) : ℚ) * 2 ^ (0 : ℤ)| ≤ 2 ^ (k : ℤ) := by
    rw [zpow_zero, mul_one, zpow_natCast, Int.cast_natCast, Nat.abs_cast]
    exact_mod_cast h
  have hrange : InRange .binary64 k := inRange_binary64 (by omega)
  exact .of_pack (sizeUpTo_normalize hrange.least_le hsize .positive) (by omega)

theorem doubleWithin_ofNat {n k : ℕ} (h : n ≤ 2 ^ k) (hk : k ≤ 1000) :
    DoubleWithin k (Float.ofNat n) := by
  show DoubleWithin k (Float.ofScientific n false 0)
  unfold Float.ofScientific
  by_cases hfast : n < 2 ^ 53 ∧ 0 ≤ 22
  · rw [dif_pos hfast, if_neg Bool.false_ne_true]
    have hn : n.toUInt64.toNat = n := by
      rw [Nat.toUInt64_eq, UInt64.toNat_ofNat_of_lt' (hfast.1.trans (by decide))]
    have hproduct := (doubleWithin_toFloat (hn.le.trans h) hk).mul doubleWithin_one (by omega)
    rw [add_zero] at hproduct
    exact hproduct
  · rw [dif_neg hfast]
    have hrange : InRange .binary64 k := inRange_binary64 (by omega)
    have hsize : (n : ℚ) ≤ 2 ^ (k : ℤ) := by exact_mod_cast h
    refine .of_pack ?_ (by omega)
    exact sizeUpTo_ofScientific hrange.least_le (Int.natCast_nonneg k) (by omega) hsize

theorem doubleWithin_ofInt {n : ℤ} {k : ℕ} (h : |n| ≤ 2 ^ k) (hk : k ≤ 1000) :
    DoubleWithin k (Float.ofInt n) := by
  cases n with
  | ofNat m =>
    have hm : m ≤ 2 ^ k := by
      have hle : (m : ℤ) ≤ 2 ^ k := (abs_le.1 h).2
      exact_mod_cast hle
    exact doubleWithin_ofNat hm hk
  | negSucc m =>
    have hm : m + 1 ≤ 2 ^ k := by
      have hle := (abs_le.1 h).1
      rw [Int.negSucc_eq] at hle
      exact_mod_cast neg_le_neg_iff.1 hle
    exact (doubleWithin_ofNat hm hk).neg (by omega)

-- ---------------------------------------------------------------------------
-- Powers of ten
-- ---------------------------------------------------------------------------

theorem doubleUpTo_powerOfTen {n : Nat} (h : n < 41) : DoubleUpTo 128 (Json.powerOfTen n) := by
  revert n
  decide +kernel

/-- Whole numbers of 64 bits, times powers of ten up to `10 ^ 40`. -/
theorem isFinite_toFloat_mul_powerOfTen (size : UInt64) {n : Nat} (h : n < 41) :
    (size.toFloat * Json.powerOfTen n).isFinite = true := by
  have hsize : DoubleWithin 64 size.toFloat :=
    doubleWithin_toFloat (k := 64) size.toNat_lt.le (by decide)
  have hproduct : DoubleWithin 245 (size.toFloat * Json.powerOfTen n) :=
    hsize.mul_constant (doubleUpTo_powerOfTen h) (by decide)
  exact SizeUpTo.isFinite hproduct

end FractalCurve.Number
