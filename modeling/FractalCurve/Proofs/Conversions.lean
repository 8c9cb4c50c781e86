import FractalCurve.Proofs.DoubleSize
import FractalCurve.Proofs.Narrowing
import Mathlib.Data.Nat.Cast.Order.Field

/-!
# The size of converted numbers

A number keeps its size, up to the next power of two, when it is decoded and
encoded again: from single precision to double, back again, and to a whole
number.
-/

namespace FractalCurve.Number

open BinaryFormat Float.Model Float.Model.UnpackedFloat

-- ---------------------------------------------------------------------------
-- Encoding
-- ---------------------------------------------------------------------------

namespace BinaryFormat

/-- The pattern of a power of two has a mantissa of zeros, and no smaller number has
a pattern above it. -/
theorem encodeMagnitude_le_of_size {f : BinaryFormat} (hprecision : 0 < f.precision) {s n : ℕ}
    {e : ℤ} (h : (s : ℚ) * 2 ^ e ≤ 2 ^ ((n + 1 + f.fractionBits : ℕ) + f.leastExponent)) :
    f.encodeMagnitude s e ≤ (n + 2) * 2 ^ f.fractionBits := by
  rcases Nat.eq_zero_or_pos s with rfl | hs
  · rw [encodeMagnitude, if_pos rfl]
    exact Nat.zero_le _
  obtain ⟨k, hencode, hhigh, hlow⟩ := exists_encodeMagnitude hprecision hs e
  have hbits : f.precision = f.fractionBits + 1 := (Nat.sub_add_cancel hprecision).symm
  rw [hencode]
  refine (Nat.min_le_left _ _).trans ?_
  have hk : k ≤ n + 1 := by
    rcases hlow with rfl | hlow
    · exact Nat.zero_le _
    · have hle := hlow.trans h
      rw [← zpow_natCast, ← zpow_add₀ two_ne_zero,
        zpow_le_zpow_iff_right₀ (one_lt_two (α := ℚ))] at hle
      omega
  rcases hk.lt_or_eq with hlt | rfl
  · have hplace : toPlace s e (k + f.leastExponent) ≤ 2 * 2 ^ f.fractionBits := by
      refine toPlace_le (hhigh.le.trans_eq ?_)
      rw [hbits, pow_succ']
      push_cast
      rfl
    have hproduct := Nat.mul_le_mul_right (2 ^ f.fractionBits) (Nat.lt_succ_iff.1 hlt)
    rw [Nat.add_mul]
    omega
  · have hplace : toPlace s e ((n + 1 : ℕ) + f.leastExponent) ≤ 2 ^ f.fractionBits := by
      refine toPlace_le (h.trans_eq ?_)
      rw [Nat.cast_pow, Nat.cast_ofNat, ← zpow_natCast, ← zpow_add₀ two_ne_zero]
      congr 1
      push_cast
      ring
    have hproduct : (n + 2) * 2 ^ f.fractionBits =
        (n + 1) * 2 ^ f.fractionBits + 2 ^ f.fractionBits := by ring
    omega

end BinaryFormat

section

variable {f : BinaryFormat} {spec : Float.Model.Format}
  (hexponent : f.exponentBits = spec.exponentBits)
  (hfraction : f.fractionBits = spec.mantissaBitsWithoutImplicit)
  {b : BitVec spec.numBits} {v : BinaryValue}

include hexponent hfraction

theorem leastExponent_eq : f.leastExponent = spec.minExponent := by
  have hbias : f.bias = spec.exponentBias := by
    rw [BinaryFormat.bias, hexponent]
    rfl
  rw [minExponent_eq, BinaryFormat.leastExponent, hbias, hfraction]

theorem signBit_eq :
    f.signBit = 2 ^ spec.mantissaBitsWithoutImplicit * 2 ^ spec.exponentBits := by
  rw [← hexponent, ← hfraction, ← pow_add, Nat.add_comm]
  rfl

theorem abs_unpackedValue_of_decode (h : f.decode b.toNat = some v) :
    |unpackedValue (UnpackedFloat.unpack spec b)| = v.significand * 2 ^ v.exponent := by
  have hfinite : (UnpackedFloat.unpack spec b).isFinite = true := by
    rw [← isSome_decode hexponent hfraction, h]
    rfl
  have hbiased : b.toNat % f.signBit / twoPow f.fractionBits = (unpackExponent b).toNat := by
    rw [signBit_eq hexponent hfraction, toNat_unpackExponent, hfraction]
    exact Nat.mod_mul_right_div_self _ _ _
  have hrest : b.toNat % f.signBit % twoPow f.fractionBits = (unpackMantissa b).toNat := by
    rw [signBit_eq hexponent hfraction, toNat_unpackMantissa, hfraction]
    exact Nat.mod_mul_right_mod _ _ _
  simp only [BinaryFormat.decode, hbiased, hrest, leastExponent_eq hexponent hfraction] at h
  by_cases hlarge : f.infinityBits ≤ b.toNat % f.signBit
  · rw [if_pos hlarge] at h
    cases h
  rw [if_neg hlarge] at h
  obtain ⟨-, hinfinite⟩ | ⟨-, ⟨hzero, hnone, _, hunpack⟩ | ⟨_, m, e, hm, hunpack, hfull, he⟩⟩ :=
    unpack_cases b
  · rw [hinfinite] at hfinite
    cases hfinite
  · rw [if_pos hzero, hnone] at h
    cases h
    rw [hunpack, Nat.cast_zero, zero_mul]
    exact abs_zero
  · have he' : e = spec.minExponent + ((unpackExponent b).toNat - 1 : ℕ) := by
      rw [minExponent_eq]
      omega
    rw [hunpack, unpackedValue_finite, abs_signed, abs_of_pos (magnitude_pos hm e)]
    by_cases hzero : (unpackExponent b).toNat = 0
    · rw [if_pos hzero] at h
      cases h
      rw [he', hfull, hzero]
      simp
    · rw [if_neg hzero, hfraction] at h
      cases h
      rw [he', hfull, Nat.min_eq_left (Nat.pos_of_ne_zero hzero), Nat.one_mul, Nat.add_comm]
      rfl

theorem sizeUpTo_unpack_encode {k : ℤ} (hk : InRange spec k) (hprecision : 0 < f.precision)
    (hb : b.toNat = f.encode v) (h : (v.significand : ℚ) * 2 ^ v.exponent ≤ 2 ^ k) :
    SizeUpTo spec k (UnpackedFloat.unpack spec b) := by
  have hlow := hk.1
  have hhigh := hk.2
  obtain ⟨n, hn⟩ : ∃ n : ℕ, k + spec.exponentBias = (n + 2 : ℕ) :=
    ⟨(k + spec.exponentBias - 2).toNat, by omega⟩
  have hsize : f.encodeMagnitude v.significand v.exponent ≤ (n + 2) * 2 ^ f.fractionBits := by
    refine BinaryFormat.encodeMagnitude_le_of_size hprecision (h.trans_eq ?_)
    rw [leastExponent_eq hexponent hfraction, minExponent_eq, ← hfraction]
    congr 1
    omega
  have hlt : f.encodeMagnitude v.significand v.exponent < f.signBit := by
    rw [signBit_eq hexponent hfraction, ← hfraction, Nat.mul_comm]
    exact hsize.trans_lt (Nat.mul_lt_mul_of_pos_right (by omega) (Nat.two_pow_pos _))
  have hmod : b.toNat % f.signBit = f.encodeMagnitude v.significand v.exponent := by
    rw [hb, BinaryFormat.encode]
    split
    · rw [Nat.add_mod_right, Nat.mod_eq_of_lt hlt]
    · exact Nat.mod_eq_of_lt hlt
  refine sizeUpTo_unpack hk ?_
  rw [hn, Int.toNat_natCast, toNat_unpackExponent, toNat_unpackMantissa, Nat.mul_comm,
    Nat.add_comm, ← Nat.mod_mul, ← signBit_eq hexponent hfraction, hmod, ← hfraction]
  exact hsize

end

-- ---------------------------------------------------------------------------
-- Conversions
-- ---------------------------------------------------------------------------

theorem exists_finite64 {k : ℤ} {x : Float} (h : DoubleWithin k x) :
    ∃ v, finite64 x = some v ∧ (v.significand : ℚ) * 2 ^ v.exponent ≤ 2 ^ k := by
  have hfinite : x.isFinite = true := SizeUpTo.isFinite h
  obtain ⟨v, hv⟩ := Option.isSome_iff_exists.1 ((isSome_finite64 x).trans hfinite)
  have hsize := @abs_unpackedValue_of_decode .binary64 .binary64 rfl rfl x.toBits.toBitVec v hv
  exact ⟨v, hv, hsize ▸ SizeUpTo.abs_le h⟩

theorem encode_mod {f : BinaryFormat} (v : BinaryValue) {n : ℕ}
    (h : f.infinityBits + f.signBit < n) : f.encode v % n = f.encode v := by
  have hle := encodeMagnitude_le f v.significand v.exponent
  refine Nat.mod_eq_of_lt ?_
  rw [encode]
  split <;> omega

theorem inRange_binary32 {k : ℕ} (hk : k ≤ 127) : InRange .binary32 k := by
  have hbias : (Format.exponentBias .binary32 : ℤ) = 127 := by decide
  have hbits : ((2 ^ Format.exponentBits .binary32 : ℕ) : ℤ) = 256 := by decide
  rw [InRange, hbias, hbits]
  omega

theorem within_narrow {k : ℕ} {x : Float} (h : DoubleWithin k x) (hk : k ≤ 127) :
    Within k (narrow x) := by
  obtain ⟨v, hv, hsize⟩ := exists_finite64 h
  have hrange : InRange .binary32 k := inRange_binary32 hk
  have hbits : ((binary32.encode v).toUInt32.toBitVec).toNat = binary32.encode v :=
    encode_mod v (by decide)
  have hnarrow : narrow x = Float32.ofBits (binary32.encode v).toUInt32 := by
    rw [narrow, hv]
  have hunpack : SizeUpTo .binary32 k (narrow x).toModel.unpack := by
    rw [hnarrow]
    exact sizeUpTo_unpack_pack hrange
      (sizeUpTo_unpack_encode rfl rfl hrange (by decide) hbits hsize)
  refine ⟨SizeUpTo.isFinite hunpack, ?_⟩
  rw [← zpow_natCast]
  exact SizeUpTo.abs_le hunpack

theorem doubleWithin_widen {k : ℕ} {x : Float32} (h : Within k x) (hk : k ≤ 1000) :
    DoubleWithin k (widen x) := by
  obtain ⟨v, hv, hvalue, -⟩ := exists_finite32 h.isFinite
  have hsize : (v.significand : ℚ) * 2 ^ v.exponent ≤ 2 ^ (k : ℤ) := by
    have hle := h.abs_le
    rw [hvalue, BinaryValue.rational, abs_signed, abs_of_nonneg (by positivity)] at hle
    rwa [zpow_natCast]
  have hrange : InRange .binary64 k := inRange_binary64 (by omega)
  have hbits : ((binary64.encode v).toUInt64.toBitVec).toNat = binary64.encode v :=
    encode_mod v (by decide)
  have hwiden : widen x = Float.ofBits (binary64.encode v).toUInt64 := by
    rw [widen, hv]
  rw [hwiden]
  exact sizeUpTo_unpack_pack hrange
    (sizeUpTo_unpack_encode rfl rfl hrange (by decide) hbits hsize)

theorem abs_truncate_le {k : ℕ} {x : Float} (h : DoubleWithin k x) : |truncate x| ≤ 2 ^ k := by
  obtain ⟨⟨negative, m, e⟩, hv, hsize⟩ := exists_finite64 h
  rw [zpow_natCast] at hsize
  have hwhole {whole : ℕ} (hle : (whole : ℚ) ≤ m * 2 ^ e) :
      |(if negative then -whole else whole : ℤ)| ≤ 2 ^ k := by
    have hcast : (whole : ℤ) ≤ 2 ^ k := by exact_mod_cast hle.trans hsize
    split
    · rwa [abs_neg, Nat.abs_cast]
    · rwa [Nat.abs_cast]
  rw [truncate, hv]
  dsimp only
  by_cases he : 0 ≤ e
  · obtain ⟨n, rfl⟩ := Int.eq_ofNat_of_zero_le he
    rw [if_pos he]
    refine hwhole ?_
    rw [zpow_natCast]
    exact_mod_cast le_rfl
  · obtain ⟨n, rfl⟩ : ∃ n : ℕ, e = -n := ⟨(-e).toNat, by omega⟩
    rw [if_neg he, neg_neg]
    refine hwhole ?_
    rw [zpow_neg, zpow_natCast, ← div_eq_mul_inv]
    exact_mod_cast Nat.cast_div_le

end FractalCurve.Number
