import FractalCurve.Proofs.FiniteArithmetic
import FractalCurve.Proofs.WholeFloats

/-!
# Narrowing

A double is narrowed to the nearest float, the even one of two. Past the largest
float there is none, and the result is an infinity.

`isFinite_narrow_iff`: a double stays finite exactly below the middle between the
largest float and the first power of two that is out of range.
-/

namespace FractalCurve.Number

open BinaryFormat Float.Model Float.Model.UnpackedFloat

-- ---------------------------------------------------------------------------
-- Ties
-- ---------------------------------------------------------------------------

/-- Half-way between an odd number and the even one that follows, the even one is
taken. -/
theorem divEven_lt_iff {num den n : ℕ} (hden : 0 < den) (heven : n % 2 = 0) :
    divEven num den < n ↔ 2 * num + den < 2 * (n * den) := by
  have hrest := Nat.mod_lt num hden
  have hnum := Nat.div_add_mod num den
  unfold divEven
  dsimp only
  generalize num / den = quotient at *
  generalize num % den = rest at *
  rw [Nat.mul_comm] at hnum
  obtain hle | rfl | hge : n ≤ quotient ∨ n = quotient + 1 ∨ quotient + 2 ≤ n := by omega
  · have hproduct := Nat.mul_le_mul_right den hle
    split <;> omega
  · rw [Nat.add_mul, Nat.one_mul]
    split
    next hlt =>
      have := Nat.compare_eq_lt.1 hlt
      omega
    next heq =>
      have := Nat.compare_eq_eq.1 heq
      omega
    next hgt =>
      have := Nat.compare_eq_gt.1 hgt
      omega
  · have hproduct := Nat.mul_le_mul_right den hge
    rw [Nat.add_mul] at hproduct
    split <;> omega

theorem divEven_le {num den n : ℕ} (hden : 0 < den) (h : num ≤ n * den) :
    divEven num den ≤ n := by
  have hquotient : num / den ≤ n := Nat.div_le_of_le_mul (Nat.mul_comm n den ▸ h)
  have hnum := Nat.div_add_mod num den
  unfold divEven
  dsimp only
  rcases hquotient.lt_or_eq with hlt | heq
  · split <;> omega
  · -- nothing is left over
    have hrest : num % den = 0 := by
      rw [heq, Nat.mul_comm] at hnum
      omega
    rw [hrest, Nat.mul_zero, Nat.compare_eq_lt.2 hden]
    exact hquotient

/-- A significand is rounded to a place. -/
def toPlace (significand : ℕ) (exponent last : ℤ) : ℕ :=
  if last ≤ exponent then significand * twoPow (exponent - last).toNat
  else divEven significand (twoPow (last - exponent).toNat)

theorem toPlace_cases (s : ℕ) (e last : ℤ) :
    (∃ k : ℕ, e = k + last ∧ toPlace s e last = s * 2 ^ k) ∨
      ∃ k : ℕ, last = k + e ∧ toPlace s e last = divEven s (2 ^ k) := by
  unfold toPlace
  by_cases hle : last ≤ e
  · exact .inl ⟨(e - last).toNat, by omega, if_pos hle⟩
  · exact .inr ⟨(last - e).toNat, by omega, if_neg hle⟩

theorem toPlace_lt_iff {s n : ℕ} {e last : ℤ} (heven : n % 2 = 0) :
    toPlace s e last < n ↔ (s : ℚ) * 2 ^ e < (n - 1 / 2) * 2 ^ last := by
  obtain ⟨k, rfl, hplace⟩ | ⟨k, rfl, hplace⟩ := toPlace_cases s e last
  · have hwhole : (s : ℚ) * 2 ^ ((k : ℤ) + last) = (s * 2 ^ k : ℕ) * 2 ^ last := by
      rw [zpow_add₀ two_ne_zero, zpow_natCast]
      push_cast
      ring
    rw [hplace, hwhole, mul_lt_mul_iff_left₀ (two_zpow_pos last)]
    generalize s * 2 ^ k = whole
    constructor
    · intro h
      have : (whole : ℚ) + 1 ≤ n := by exact_mod_cast h
      linarith
    · intro h
      have : (whole : ℚ) < n := by linarith
      exact_mod_cast this
  · have hunit : ((n : ℚ) - 1 / 2) * 2 ^ ((k : ℤ) + e) = (n - 1 / 2) * 2 ^ k * 2 ^ e := by
      rw [zpow_add₀ two_ne_zero, zpow_natCast, mul_assoc]
    rw [hplace, hunit, mul_lt_mul_iff_left₀ (two_zpow_pos e),
      divEven_lt_iff (Nat.two_pow_pos k) heven, ← Nat.cast_lt (α := ℚ)]
    push_cast
    constructor <;> intro h <;> linarith

theorem toPlace_le {s n : ℕ} {e last : ℤ} (h : (s : ℚ) * 2 ^ e ≤ n * 2 ^ last) :
    toPlace s e last ≤ n := by
  obtain ⟨k, rfl, hplace⟩ | ⟨k, rfl, hplace⟩ := toPlace_cases s e last
  · rw [zpow_add₀ two_ne_zero, zpow_natCast, ← mul_assoc] at h
    rw [hplace]
    exact_mod_cast le_of_mul_le_mul_right h (two_zpow_pos last)
  · rw [zpow_add₀ two_ne_zero, zpow_natCast, ← mul_assoc] at h
    rw [hplace]
    refine divEven_le (Nat.two_pow_pos k) ?_
    exact_mod_cast le_of_mul_le_mul_right h (two_zpow_pos e)

-- ---------------------------------------------------------------------------
-- Overflow
-- ---------------------------------------------------------------------------

/-- A significand is rounded to the last of `precision` places, or to the last place
of all. -/
theorem exists_encodeMagnitude {f : BinaryFormat} (hprecision : 0 < f.precision) {s : ℕ}
    (hs : 0 < s) (e : ℤ) :
    ∃ k : ℕ, f.encodeMagnitude s e =
        min (k * 2 ^ f.fractionBits + toPlace s e (k + f.leastExponent)) f.infinityBits ∧
      (s : ℚ) * 2 ^ e < 2 ^ f.precision * 2 ^ (k + f.leastExponent) ∧
      (k = 0 ∨ 2 ^ f.fractionBits * 2 ^ (k + f.leastExponent) ≤ (s : ℚ) * 2 ^ e) := by
  have hlow : (2 : ℚ) ^ s.log2 ≤ s := by exact_mod_cast Nat.log2_self_le hs.ne'
  have hhigh : (s : ℚ) < 2 ^ (s.log2 + 1) := by exact_mod_cast Nat.lt_log2_self
  have hfraction : f.fractionBits + 1 = f.precision := Nat.sub_add_cancel hprecision
  generalize hleast : f.leastExponent = least
  obtain ⟨k, hk⟩ : ∃ k : ℕ, max (e + (s.log2 + 1 : ℕ) - f.precision) least = k + least :=
    ⟨(max (e + (s.log2 + 1 : ℕ) - f.precision) least - least).toNat, by omega⟩
  refine ⟨k, ?_, ?_, ?_⟩
  · have hplace : ((k : ℤ) + least - least).toNat = k := by omega
    rw [encodeMagnitude, if_neg hs.ne', hleast, hk]
    show min (((k : ℤ) + least - least).toNat * 2 ^ f.fractionBits + toPlace s e (k + least)) _ = _
    rw [hplace]
  · calc (s : ℚ) * 2 ^ e < 2 ^ (s.log2 + 1) * 2 ^ e := by gcongr
      _ = 2 ^ ((s.log2 + 1 : ℕ) + e) := by rw [zpow_add₀ two_ne_zero, zpow_natCast]
      _ ≤ 2 ^ (f.precision + (k + least)) := zpow_le_zpow_right₀ one_le_two (by omega)
      _ = 2 ^ f.precision * 2 ^ (k + least) := by rw [zpow_add₀ two_ne_zero, zpow_natCast]
  · rcases Nat.eq_zero_or_pos k with rfl | hpos
    · exact .inl rfl
    refine .inr ?_
    calc (2 : ℚ) ^ f.fractionBits * 2 ^ (k + least) = 2 ^ (f.fractionBits + (k + least)) := by
          rw [zpow_add₀ two_ne_zero (f.fractionBits : ℤ), zpow_natCast]
      _ = 2 ^ (s.log2 + e) := by congr 1; omega
      _ = 2 ^ s.log2 * 2 ^ e := by rw [zpow_add₀ two_ne_zero, zpow_natCast]
      _ ≤ s * 2 ^ e := by gcongr

theorem encodeMagnitude_le (f : BinaryFormat) (s : ℕ) (e : ℤ) :
    f.encodeMagnitude s e ≤ f.infinityBits := by
  unfold encodeMagnitude
  split
  · exact Nat.zero_le _
  · exact Nat.min_le_right _ _

theorem encodeMagnitude_lt_iff (s : ℕ) (e : ℤ) :
    binary32.encodeMagnitude s e < 255 * 2 ^ 23 ↔
      (s : ℚ) * 2 ^ e < 2 ^ 128 - 2 ^ 103 := by
  rcases Nat.eq_zero_or_pos s with rfl | hs
  · rw [encodeMagnitude, if_pos rfl, Nat.cast_zero, zero_mul]
    exact iff_of_true (by norm_num) (by norm_num)
  obtain ⟨k, hencode, hhigh, hlow⟩ :=
    exists_encodeMagnitude (show 0 < binary32.precision by decide) hs e
  have hfraction : binary32.fractionBits = 23 := rfl
  rw [precision_binary32, leastExponent_binary32, ← sub_eq_add_neg] at hhigh
  rw [hfraction, leastExponent_binary32, ← sub_eq_add_neg] at hlow
  rw [hfraction, leastExponent_binary32, infinityBits_binary32, ← sub_eq_add_neg] at hencode
  have hmin : min (k * 2 ^ 23 + toPlace s e (k - 149)) (255 * 2 ^ 23) < 255 * 2 ^ 23 ↔
      toPlace s e (k - 149) < (255 - k) * 2 ^ 23 := by
    omega
  rw [hencode, hmin, toPlace_lt_iff (by omega)]
  generalize hcarry : (255 - k) * 2 ^ 23 = carry
  -- below the last binade nothing is carried as far as infinity, above it
  -- everything is, and within it the significand must round up to `2 ^ 24`
  obtain hsmall | rfl | hlarge : k ≤ 252 ∨ k = 253 ∨ 254 ≤ k := by omega
  · have hwide : (2 : ℚ) ^ 24 ≤ carry - 1 / 2 := by
      have : (2 ^ 24 + 1 : ℚ) ≤ carry := by exact_mod_cast (by omega : 2 ^ 24 + 1 ≤ carry)
      linarith
    have hplace : (2 : ℚ) ^ ((k : ℤ) - 149) ≤ 2 ^ (103 : ℤ) :=
      zpow_le_zpow_right₀ one_le_two (by omega)
    refine iff_of_true (hhigh.trans_le (by gcongr)) ?_
    calc (s : ℚ) * 2 ^ e < 2 ^ 24 * 2 ^ ((k : ℤ) - 149) := hhigh
      _ ≤ 2 ^ 24 * 2 ^ (103 : ℤ) := by gcongr
      _ < 2 ^ 128 - 2 ^ 103 := by norm_num
  · rw [← hcarry]
    norm_num
  · have hlow := hlow.resolve_left (by omega)
    have hnarrow : (carry : ℚ) - 1 / 2 ≤ 2 ^ 23 := by
      have : (carry : ℚ) ≤ 2 ^ 23 := by exact_mod_cast (by omega : carry ≤ 2 ^ 23)
      linarith
    have hplace : (2 : ℚ) ^ (105 : ℤ) ≤ 2 ^ ((k : ℤ) - 149) :=
      zpow_le_zpow_right₀ one_le_two (by omega)
    refine iff_of_false (not_lt.2 (le_trans ?_ hlow)) (not_lt.2 (le_trans ?_ hlow))
    · gcongr
    · calc (2 : ℚ) ^ 128 - 2 ^ 103 ≤ 2 ^ 23 * 2 ^ (105 : ℤ) := by norm_num
        _ ≤ 2 ^ 23 * 2 ^ ((k : ℤ) - 149) := by gcongr

-- ---------------------------------------------------------------------------
-- Finite results
-- ---------------------------------------------------------------------------

theorem isFinite_ofBits_iff (b : UInt32) :
    (Float32.ofBits b).isFinite = true ↔ b.toNat / 2 ^ 23 % 2 ^ 8 ≠ 255 := by
  have hunpack : UnpackedFloat.unpack .binary32 b.toBitVec = ofPattern b.toNat :=
    unpack_eq_ofPattern _
  constructor
  · intro h hones
    have hfinite : (ofPattern b.toNat).isFinite = true := hunpack ▸ isFinite_of_pack h
    rw [ofPattern, ofFields, if_pos hones] at hfinite
    split at hfinite <;> cases hfinite
  · intro h
    obtain ⟨hones, -⟩ | ⟨hones, -⟩ | ⟨-, -, hx⟩ | ⟨hm, -, hx⟩ | ⟨hm, hzero, -, hx⟩ :=
      ofFields_cases (if b.toNat < 2 ^ 31 then .positive else .negative)
        (b.toNat / 2 ^ 23 % 2 ^ 8) (b.toNat % 2 ^ 23)
    · exact absurd hones h
    · exact absurd hones h
    · have hrange : |(0 : ℚ)| < 2 ^ 128 := by norm_num
      exact (hasValue_ofBits hx trivial onGrid_zero hrange).isFinite
    · exact (hasValue_ofBits_finite hx ⟨by omega, le_rfl, .inr rfl⟩ (by norm_num)).isFinite
    · exact (hasValue_ofBits_finite hx ⟨by omega, by omega, .inl (by omega)⟩ (by omega)).isFinite

/-- The number that a double stands for, zero for an infinity or NaN. -/
def doubleValue (x : Float) : ℚ := ((finite64 x).map BinaryValue.rational).getD 0

/-- The largest floats lie `2 ^ 104` apart. -/
theorem isFinite_narrow_iff {x : Float} (h : x.isFinite = true) :
    (narrow x).isFinite = true ↔ |doubleValue x| < 2 ^ 128 - 2 ^ 103 := by
  obtain ⟨v, hv⟩ := Option.isSome_iff_exists.1 ((isSome_finite64 x).trans h)
  have hsize : |doubleValue x| = v.significand * 2 ^ v.exponent := by
    rw [doubleValue, hv, Option.map_some, Option.getD_some, BinaryValue.rational, abs_signed,
      abs_of_nonneg (by positivity)]
  have hmost : binary32.encodeMagnitude v.significand v.exponent ≤ 255 * 2 ^ 23 :=
    infinityBits_binary32 ▸ encodeMagnitude_le _ _ _
  rw [hsize, ← encodeMagnitude_lt_iff, narrow, hv]
  show (Float32.ofBits (binary32.encode v).toUInt32).isFinite = true ↔ _
  rw [isFinite_ofBits_iff, encode, signBit_binary32]
  generalize binary32.encodeMagnitude v.significand v.exponent = size at *
  have hrange : size + (if v.negative then 2 ^ 31 else 0) < 2 ^ 32 := by
    split <;> omega
  rw [Nat.toUInt32_eq, UInt32.toNat_ofNat_of_lt' hrange]
  split <;> omega

/-- Two neighbouring doubles, the second of them in the middle. -/
example : (narrow 3.4028235677973362e38).isFinite = true ∧
    (narrow 3.4028235677973366e38).isFinite = false := by
  decide +kernel

end FractalCurve.Number
