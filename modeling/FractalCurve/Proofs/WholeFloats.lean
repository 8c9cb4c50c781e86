import FractalCurve.Proofs.FloatArithmetic
import FractalCurve.Proofs.WrittenFloats

/-!
# Whole numbers among the floats

A float is decoded to the rational number it stands for, and a whole number of
up to 23 bits is encoded to the float of that value. So `roundAway` gives the
nearest whole number, a half going away from zero.
-/

namespace FractalCurve.Number

open BinaryFormat Float.Model Float.Model.UnpackedFloat

def signOf (negative : Bool) : Sign := if negative then .negative else .positive

def BinaryValue.rational (v : BinaryValue) : ℚ :=
  signed (signOf v.negative) (v.significand * 2 ^ v.exponent)

-- ---------------------------------------------------------------------------
-- Decoding
-- ---------------------------------------------------------------------------

theorem rational_of_decode {n : ℕ} {v : BinaryValue} (hn : n < 2 ^ 32)
    (h : BinaryFormat.binary32.decode n = some v) : v.rational = unpackedValue (ofPattern n) := by
  have hbiased : n % 2 ^ 31 / 2 ^ 23 = n / 2 ^ 23 % 2 ^ 8 := by omega
  have hrest : n % 2 ^ 31 % 2 ^ 23 = n % 2 ^ 23 := by omega
  have hnegative : signOf (decide (2 ^ 31 ≤ n)) = if n < 2 ^ 31 then .positive else .negative := by
    simp only [signOf, decide_eq_true_eq]
    split <;> split <;> first | rfl | omega
  simp only [BinaryFormat.decode, signBit_binary32, fraction_binary32, leastExponent_binary32,
    infinityBits_binary32, hbiased, hrest] at h
  have hfinite : 255 * 2 ^ 23 ≤ n % 2 ^ 31 ↔ n / 2 ^ 23 % 2 ^ 8 = 255 := by omega
  unfold ofPattern ofFields
  rw [← hnegative]
  simp only [hfinite] at h
  generalize n / 2 ^ 23 % 2 ^ 8 = biased at *
  generalize n % 2 ^ 23 = fraction at *
  by_cases hones : biased = 255
  · rw [if_pos hones] at h
    cases h
  rw [if_neg hones] at h ⊢
  by_cases hzero : biased = 0
  · rw [if_pos hzero] at h ⊢
    cases h
    rcases Nat.eq_zero_or_pos fraction with rfl | hpos
    · rw [dif_neg (lt_irrefl 0), BinaryValue.rational, Nat.cast_zero, zero_mul, signed_zero]
      rfl
    · rw [dif_pos hpos]
      rfl
  · rw [if_neg hzero] at h ⊢
    cases h
    have hexponent : -149 + ((biased - 1 : ℕ) : ℤ) = biased - 150 := by omega
    rw [BinaryValue.rational, hexponent, Nat.add_comm fraction]
    rfl

theorem exists_finite32 {x : Float32} (h : x.isFinite = true) :
    ∃ v, finite32 x = some v ∧ value x = v.rational ∧ v.significand < 2 ^ 24 := by
  obtain ⟨v, hv⟩ := Option.isSome_iff_exists.1 ((isSome_finite32 x).trans h)
  refine ⟨v, hv, ?_, (BinaryFormat.single_of_decode hv).significand_lt⟩
  rw [rational_of_decode x.toBits.toNat_lt hv]
  exact congrArg unpackedValue (unpack_eq_ofPattern _)

-- ---------------------------------------------------------------------------
-- Encoding
-- ---------------------------------------------------------------------------

theorem hasValue_ofBits {b : UInt32} {u : UnpackedFloat} (hu : ofPattern b.toNat = u)
    (hnormalized : IsNormalized u) (hgrid : OnGrid (unpackedValue u))
    (hrange : |unpackedValue u| < 2 ^ 128) : HasValue (unpackedValue u) (Float32.ofBits b) := by
  have hunpack : UnpackedFloat.unpack .binary32 b.toBitVec = u :=
    (unpack_eq_ofPattern _).trans hu
  have hrounded : IsRounded (unpackedValue u) (Float32.ofBits b) := by
    show IsRounded _ ⟨Float32.Model.pack (UnpackedFloat.unpack .binary32 b.toBitVec)⟩
    rw [hunpack]
    exact isRounded_pack ⟨hnormalized, nearest_self hgrid⟩
  exact .of_isRounded hrounded hgrid hrange

theorem hasValue_ofBits_finite {b : UInt32} {sign : Sign} {m : ℕ} {e : ℤ} {hm : 0 < m}
    (h : ofPattern b.toNat = .finite sign m e hm) (hnormalized : Normalized m e) (he : e ≤ 104) :
    HasValue (signed sign (m * 2 ^ e)) (Float32.ofBits b) := by
  refine hasValue_ofBits h hnormalized (hnormalized.onGrid sign) ?_
  rw [unpackedValue_finite, abs_signed, abs_of_pos (magnitude_pos hm e)]
  exact hnormalized.magnitude_lt_overflow he

theorem log2_whole {n : ℕ} (hpos : 0 < n) (h : n ≤ 2 ^ 23) :
    n.log2 ≤ 23 ∧ 2 ^ 23 ≤ n * 2 ^ (23 - n.log2) ∧ n * 2 ^ (23 - n.log2) < 2 ^ 24 := by
  have hlog : n.log2 ≤ 23 :=
    Nat.lt_succ_iff.1 ((Nat.log2_lt hpos.ne').2 (h.trans_lt (by norm_num)))
  have hlow := Nat.mul_le_mul_right (2 ^ (23 - n.log2)) (Nat.log2_self_le hpos.ne')
  have hhigh := Nat.mul_lt_mul_of_pos_right (Nat.lt_log2_self (n := n))
    (Nat.two_pow_pos (23 - n.log2))
  rw [← pow_add, Nat.add_sub_cancel' hlog] at hlow
  rw [← pow_add, Nat.add_right_comm, Nat.add_sub_cancel' hlog] at hhigh
  exact ⟨hlog, hlow, hhigh⟩

/-- The mantissa is shifted up until it is full. -/
theorem encodeMagnitude_whole {n : ℕ} (hpos : 0 < n) (h : n ≤ 2 ^ 23) :
    BinaryFormat.binary32.encodeMagnitude n 0 =
      (n.log2 + 126) * 2 ^ 23 + n * 2 ^ (23 - n.log2) := by
  obtain ⟨hlog, hlow, hhigh⟩ := log2_whole hpos h
  have hlast : max (0 + ((n.log2 + 1 : ℕ) : ℤ) - (24 : ℕ)) (-149) = n.log2 - 23 := by omega
  have hshift : (0 - ((n.log2 : ℤ) - 23)).toNat = 23 - n.log2 := by omega
  have hplace : ((n.log2 : ℤ) - 23 - -149).toNat = n.log2 + 126 := by omega
  have htwo : twoPow (23 - n.log2) = 2 ^ (23 - n.log2) := rfl
  rw [BinaryFormat.encodeMagnitude, if_neg hpos.ne', precision_binary32, fraction_binary32,
    leastExponent_binary32, infinityBits_binary32]
  simp only [hlast]
  rw [if_pos (by omega), hshift, hplace, htwo]
  exact min_eq_left (by omega)

theorem ofPattern_normal (negative : Bool) {k m : ℕ} (hk : k < 254) (hlow : 2 ^ 23 ≤ m)
    (hhigh : m < 2 ^ 24) (hm : 0 < m) :
    ofPattern (k * 2 ^ 23 + m + if negative then 2 ^ 31 else 0) =
      .finite (signOf negative) m (k - 149) hm := by
  generalize hplace : k * 2 ^ 23 + m + (if negative then 2 ^ 31 else 0) = place
  have hsign : (if place < 2 ^ 31 then .positive else .negative : Sign) = signOf negative := by
    cases negative
    · rw [if_pos (by simp at hplace; omega)]
      rfl
    · rw [if_neg (by simp at hplace; omega)]
      rfl
  have hbiased : place / 2 ^ 23 % 2 ^ 8 = k + 1 := by
    cases negative <;> simp at hplace <;> omega
  have hfull : 2 ^ 23 + place % 2 ^ 23 = m := by
    cases negative <;> simp at hplace <;> omega
  have hexponent : ((k + 1 : ℕ) : ℤ) - 150 = k - 149 := by omega
  rw [ofPattern, hsign, hbiased, ofFields, if_neg (by omega), if_neg (by omega)]
  exact finite_congr rfl hfull hexponent

theorem hasValue_normal (negative : Bool) {k m : ℕ} (hk : k < 254) (hlow : 2 ^ 23 ≤ m)
    (hhigh : m < 2 ^ 24) :
    HasValue (signed (signOf negative) (m * 2 ^ (k - 149 : ℤ)))
      (Float32.ofBits (k * 2 ^ 23 + m + if negative then 2 ^ 31 else 0).toUInt32) := by
  have hm : 0 < m := by omega
  have hrange : k * 2 ^ 23 + m + (if negative then 2 ^ 31 else 0) < 2 ^ 32 := by
    split <;> omega
  have hpattern :
      ofPattern (k * 2 ^ 23 + m + if negative then 2 ^ 31 else 0).toUInt32.toNat =
        .finite (signOf negative) m (k - 149) hm := by
    rw [Nat.toUInt32_eq, UInt32.toNat_ofNat_of_lt' hrange]
    exact ofPattern_normal negative hk hlow hhigh hm
  exact hasValue_ofBits_finite hpattern ⟨hhigh, by omega, .inl hlow⟩ (by omega)

theorem hasValue_whole (negative : Bool) {n : ℕ} (h : n ≤ 2 ^ 23) :
    HasValue (signed (signOf negative) n)
      (Float32.ofBits (BinaryFormat.binary32.encode ⟨negative, n, 0⟩).toUInt32) := by
  rcases Nat.eq_zero_or_pos n with rfl | hpos
  · rw [Nat.cast_zero, signed_zero]
    cases negative
    · exact ⟨by decide, rfl⟩
    · exact ⟨by decide, rfl⟩
  obtain ⟨hlog, hlow, hhigh⟩ := log2_whole hpos h
  have hvalue : (n : ℚ) = (n * 2 ^ (23 - n.log2) : ℕ) * 2 ^ ((n.log2 + 126 : ℕ) - 149 : ℤ) := by
    have hexponent : ((n.log2 + 126 : ℕ) : ℤ) - 149 = -(23 - n.log2 : ℕ) := by omega
    rw [hexponent, zpow_neg, zpow_natCast, Nat.cast_mul, Nat.cast_pow, Nat.cast_ofNat,
      mul_inv_cancel_right₀ (by positivity)]
  rw [BinaryFormat.encode, encodeMagnitude_whole hpos h, signBit_binary32, hvalue]
  exact hasValue_normal negative (by omega) hlow hhigh

-- ---------------------------------------------------------------------------
-- Rounding
-- ---------------------------------------------------------------------------

theorem half_up (m : ℕ) {unit : ℕ} (hunit : 0 < unit) :
    ((2 * m + unit) / (2 * unit) : ℕ) ≤ (m : ℚ) / unit + 1 / 2 ∧
      (m : ℚ) / unit + 1 / 2 < ((2 * m + unit) / (2 * unit) : ℕ) + 1 := by
  have hpos : (0 : ℚ) < unit := by exact_mod_cast hunit
  have hsum : (m : ℚ) / unit + 1 / 2 = (2 * m + unit : ℕ) / (2 * unit : ℕ) := by
    push_cast
    rw [div_add_div _ _ hpos.ne' two_ne_zero]
    ring
  have hdouble : (0 : ℚ) < (2 * unit : ℕ) := by exact_mod_cast Nat.mul_pos two_pos hunit
  rw [hsum, le_div_iff₀ hdouble, div_lt_iff₀ hdouble]
  constructor
  · exact_mod_cast Nat.div_mul_le_self _ _
  · have hlt := Nat.lt_mul_div_succ (2 * m + unit) (Nat.mul_pos two_pos hunit)
    rw [Nat.mul_comm (2 * unit) (_ + 1)] at hlt
    exact_mod_cast hlt

/-- The size is rounded to the nearest whole number, a half going up, and the sign
stays. -/
theorem exists_value_roundAway {x : Float32} (h : x.isFinite = true) :
    ∃ (sign : Sign) (size : ℚ) (whole : ℕ), 0 ≤ size ∧ value x = signed sign size ∧
      HasValue (signed sign whole) (roundAway x) ∧
      whole ≤ size + 1 / 2 ∧ size + 1 / 2 < whole + 1 := by
  obtain ⟨⟨negative, m, e⟩, hv, hvalue, hlt⟩ := exists_finite32 h
  simp only [BinaryValue.rational] at hvalue hlt
  rw [roundAway, hv]
  by_cases he : 0 ≤ e
  · obtain ⟨k, rfl⟩ := Int.eq_ofNat_of_zero_le he
    have hwhole : (m : ℚ) * 2 ^ (k : ℤ) = (m * 2 ^ k : ℕ) := by
      rw [zpow_natCast, Nat.cast_mul, Nat.cast_pow, Nat.cast_ofNat]
    rw [hwhole] at hvalue
    simp only [if_pos he]
    exact ⟨signOf negative, (m * 2 ^ k : ℕ), m * 2 ^ k, Nat.cast_nonneg _, hvalue, ⟨h, hvalue⟩,
      by linarith, by linarith⟩
  · obtain ⟨k, rfl⟩ : ∃ k : ℕ, e = -(k + 1 : ℕ) := ⟨(-e - 1).toNat, by omega⟩
    have hunit : twoPow (- -((k + 1 : ℕ) : ℤ)).toNat = 2 ^ (k + 1) := by
      rw [neg_neg, Int.toNat_natCast]
      rfl
    have hlarge : 2 ≤ 2 ^ (k + 1) := Nat.le_self_pow (Nat.succ_ne_zero k) 2
    have hsize : (m : ℚ) * 2 ^ (-((k + 1 : ℕ) : ℤ)) = m / (2 ^ (k + 1) : ℕ) := by
      rw [zpow_neg, zpow_natCast, Nat.cast_pow, Nat.cast_ofNat, div_eq_mul_inv]
    rw [hsize] at hvalue
    simp only [if_neg he, hunit]
    generalize 2 ^ (k + 1) = unit at *
    obtain ⟨hlow, hhigh⟩ := half_up m (Nat.zero_lt_of_lt hlarge)
    have hwhole : (2 * m + unit) / (2 * unit) ≤ 2 ^ 23 :=
      Nat.lt_succ_iff.1 (Nat.div_lt_of_lt_mul (by omega))
    exact ⟨signOf negative, (m : ℚ) / unit, _, by positivity, hvalue,
      hasValue_whole negative hwhole, hlow, hhigh⟩

theorem whole_cases {size : ℚ} {whole : ℕ} (hlow : whole ≤ size + 1 / 2)
    (hhigh : size + 1 / 2 < whole + 1) (n : ℕ) :
    ((whole : ℚ) ≤ n ∧ size < n + 1 / 2) ∨ ((n : ℚ) + 1 ≤ whole ∧ n + 1 / 2 ≤ size) := by
  rcases Nat.lt_or_ge n whole with hlt | hle
  · have hnext : (n : ℚ) + 1 ≤ whole := by exact_mod_cast hlt
    exact .inr ⟨hnext, by linarith⟩
  · have hcast : (whole : ℚ) ≤ n := by exact_mod_cast hle
    exact .inl ⟨hcast, by linarith⟩

section

variable {x : Float32} (h : x.isFinite = true)

include h

theorem isFinite_roundAway : (roundAway x).isFinite = true := by
  obtain ⟨_, _, _, -, -, hround, -, -⟩ := exists_value_roundAway h
  exact hround.isFinite

/-- Below a half above a whole number, `roundAway` gives that number at most, and
from there on the next one at least. -/
theorem value_roundAway_cases (n : ℕ) :
    (value (roundAway x) ≤ n ∧ value x < n + 1 / 2) ∨
      ((n : ℚ) + 1 ≤ value (roundAway x) ∧ n + 1 / 2 ≤ value x) := by
  obtain ⟨sign, size, whole, hsize, hvalue, hround, hlow, hhigh⟩ := exists_value_roundAway h
  rw [hround.value_eq, hvalue]
  have hn : (0 : ℚ) ≤ n := Nat.cast_nonneg n
  have hwhole : (0 : ℚ) ≤ whole := Nat.cast_nonneg whole
  cases sign with
  | positive => exact whole_cases hlow hhigh n
  | negative =>
    left
    constructor
    · show -(whole : ℚ) ≤ n
      linarith
    · show -size < n + 1 / 2
      linarith

theorem neg_value_roundAway_cases (n : ℕ) :
    (-n ≤ value (roundAway x) ∧ -(n + 1 / 2) < value x) ∨
      (value (roundAway x) ≤ -(n + 1) ∧ value x ≤ -(n + 1 / 2)) := by
  obtain ⟨sign, size, whole, hsize, hvalue, hround, hlow, hhigh⟩ := exists_value_roundAway h
  rw [hround.value_eq, hvalue]
  have hn : (0 : ℚ) ≤ n := Nat.cast_nonneg n
  have hwhole : (0 : ℚ) ≤ whole := Nat.cast_nonneg whole
  cases sign with
  | negative =>
    refine (whole_cases hlow hhigh n).imp ?_ ?_
    · exact fun hcase => ⟨neg_le_neg hcase.1, neg_lt_neg hcase.2⟩
    · exact fun hcase => ⟨neg_le_neg hcase.1, neg_le_neg hcase.2⟩
  | positive =>
    left
    constructor
    · show -(n : ℚ) ≤ whole
      linarith
    · show -(n + 1 / 2) < size
      linarith

end

end FractalCurve.Number
