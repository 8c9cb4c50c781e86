import FractalCurve.Proofs.FloatRange
import Mathlib.Algebra.Order.Field.Power
import Mathlib.Tactic.Linarith
import Mathlib.Tactic.NormNum
import Mathlib.Tactic.Positivity
import Mathlib.Tactic.Ring

/-!
# The number a float stands for

Every pattern of single precision but NaN has a rational value, an infinity the
first power of two that is out of range. Comparison of floats is comparison of
their values, and a float is known from its value, except for the sign of a
zero.
-/

namespace FractalCurve.Number

open Float.Model Float.Model.UnpackedFloat

-- ---------------------------------------------------------------------------
-- Patterns
-- ---------------------------------------------------------------------------

/-- What the fields of a single-precision pattern say together. -/
def ofFields (sign : Sign) (biased fraction : Nat) : UnpackedFloat :=
  if biased = 255 then if fraction = 0 then .infinity sign else .notANumber
  else if biased = 0 then
    if h : 0 < fraction then .finite sign fraction (-149) h else .zero sign
  else .finite sign (2 ^ 23 + fraction) (biased - 150) (by omega)

def ofPattern (n : Nat) : UnpackedFloat :=
  ofFields (if n < 2 ^ 31 then .positive else .negative) (n / 2 ^ 23 % 2 ^ 8) (n % 2 ^ 23)

theorem finite_congr {s t : Sign} {m k : Nat} {e f : Int} {hm : 0 < m} {hk : 0 < k} (hs : s = t)
    (hmantissa : m = k) (hexponent : e = f) :
    UnpackedFloat.finite s m e hm = .finite t k f hk := by
  subst hs hmantissa hexponent
  rfl

theorem toNat_unpackSign (b : BitVec 32) :
    (@unpackSign .binary32 b).toNat = b.toNat / 2 ^ 31 := by
  have hlt := b.isLt
  show (b.extractLsb 31 31).toNat = _
  rw [BitVec.extractLsb_toNat, Nat.shiftRight_eq_div_pow]
  omega

theorem unpack_eq_ofPattern (b : BitVec 32) :
    UnpackedFloat.unpack .binary32 b = ofPattern b.toNat := by
  have hexponent : (@unpackExponent .binary32 b).toNat = b.toNat / 2 ^ 23 % 2 ^ 8 :=
    @toNat_unpackExponent .binary32 b
  have hmantissa : (@unpackMantissa .binary32 b).toNat = b.toNat % 2 ^ 23 := by
    simp [unpackMantissa]
  have hsign : Sign.ofBitVec (@unpackSign .binary32 b) =
      if b.toNat < 2 ^ 31 then .positive else .negative := by
    have hbit : @unpackSign .binary32 b = 0#1 ↔ b.toNat < 2 ^ 31 := by
      have hzero : (0#1).toNat = 0 := rfl
      rw [← BitVec.toNat_inj, toNat_unpackSign, hzero]
      omega
    simp only [Sign.ofBitVec, hbit]
  have hbias : (Format.exponentBias .binary32 : Int) = 127 := by decide
  have hones : @unpackExponent .binary32 b = -1#8 ↔ b.toNat / 2 ^ 23 % 2 ^ 8 = 255 := by
    rw [← BitVec.toNat_inj, hexponent]
    rfl
  have hzeros : @unpackExponent .binary32 b = 0#8 ↔ b.toNat / 2 ^ 23 % 2 ^ 8 = 0 := by
    rw [← BitVec.toNat_inj, hexponent]
    rfl
  have hwhole : @unpackMantissa .binary32 b = 0#23 ↔ b.toNat % 2 ^ 23 = 0 := by
    rw [← BitVec.toNat_inj, hmantissa]
    rfl
  have hfull : (1#1 ++ @unpackMantissa .binary32 b).toNat = 2 ^ 23 + b.toNat % 2 ^ 23 := by
    rw [BitVec.toNat_append, ← Nat.shiftLeft_add_eq_or_of_lt (BitVec.isLt _), hmantissa]
    rfl
  unfold UnpackedFloat.unpack ofPattern ofFields
  dsimp only
  rw [← hsign]
  by_cases h : b.toNat / 2 ^ 23 % 2 ^ 8 = 255
  · rw [if_pos (hones.2 h), if_pos h]
    simp only [hwhole]
  rw [if_neg (mt hones.1 h), if_neg h]
  by_cases h : b.toNat / 2 ^ 23 % 2 ^ 8 = 0
  · rw [if_pos (hzeros.2 h), if_pos h]
    by_cases hz : b.toNat % 2 ^ 23 = 0
    · rw [dif_pos (hwhole.2 hz), dif_neg (by omega)]
    · rw [dif_neg (mt hwhole.1 hz), dif_pos (by omega)]
      refine finite_congr rfl hmantissa ?_
      rw [hexponent, hbias, h]
      rfl
  · rw [if_neg (mt hzeros.1 h), if_neg h]
    refine finite_congr rfl hfull ?_
    rw [hexponent, hbias]
    rfl

theorem toNat_packComponents (sign : Sign) (biased : BitVec 8) (fraction : BitVec 23) :
    (packComponents .binary32 sign biased fraction).toNat =
      (sign.toBitVec.toNat * 2 ^ 8 + biased.toNat) * 2 ^ 23 + fraction.toNat := by
  show (sign.toBitVec ++ biased ++ fraction).toNat = _
  rw [BitVec.toNat_append, ← Nat.shiftLeft_add_eq_or_of_lt fraction.isLt, BitVec.toNat_append,
    ← Nat.shiftLeft_add_eq_or_of_lt biased.isLt, Nat.shiftLeft_eq, Nat.shiftLeft_eq]

theorem unpack_packComponents (sign : Sign) (biased : BitVec 8) (fraction : BitVec 23) :
    UnpackedFloat.unpack .binary32 (packComponents .binary32 sign biased fraction) =
      ofFields sign biased.toNat fraction.toNat := by
  have hbiased := biased.isLt
  have hfraction := fraction.isLt
  rw [unpack_eq_ofPattern, toNat_packComponents, ofPattern]
  cases sign with
  | negative =>
    have hsign : Sign.negative.toBitVec.toNat = 1 := rfl
    rw [hsign, if_neg (by omega)]
    congr 1 <;> omega
  | positive =>
    have hsign : Sign.positive.toBitVec.toNat = 0 := rfl
    rw [hsign, if_pos (by omega)]
    congr 1 <;> omega

theorem ofFields_cases (sign : Sign) (biased fraction : Nat) :
    (biased = 255 ∧ fraction = 0 ∧ ofFields sign biased fraction = .infinity sign) ∨
      (biased = 255 ∧ ofFields sign biased fraction = .notANumber) ∨
      (biased = 0 ∧ fraction = 0 ∧ ofFields sign biased fraction = .zero sign) ∨
      (∃ hm, biased = 0 ∧ ofFields sign biased fraction = .finite sign fraction (-149) hm) ∨
      ∃ hm, biased ≠ 0 ∧ biased ≠ 255 ∧
        ofFields sign biased fraction = .finite sign (2 ^ 23 + fraction) (biased - 150) hm := by
  unfold ofFields
  by_cases hones : biased = 255
  · rw [if_pos hones]
    by_cases hfraction : fraction = 0
    · exact .inl ⟨hones, hfraction, if_pos hfraction⟩
    · exact .inr (.inl ⟨hones, if_neg hfraction⟩)
  rw [if_neg hones]
  by_cases hzero : biased = 0
  · rw [if_pos hzero]
    by_cases hfraction : 0 < fraction
    · exact .inr (.inr (.inr (.inl ⟨hfraction, hzero, dif_pos hfraction⟩)))
    · exact .inr (.inr (.inl ⟨hzero, by omega, dif_neg hfraction⟩))
  · rw [if_neg hzero]
    exact .inr (.inr (.inr (.inr ⟨_, hzero, hones, rfl⟩)))

/-- The fields of the pattern that stands for a number. -/
def fieldsOf : UnpackedFloat → Option (Sign × Nat × Nat)
  | .infinity sign => some (sign, 255, 0)
  | .zero sign => some (sign, 0, 0)
  | .finite sign m e _ =>
    if m < 2 ^ 23 then some (sign, 0, m) else some (sign, (e + 150).toNat, m - 2 ^ 23)
  | .notANumber => none

theorem fieldsOf_ofFields {sign : Sign} {biased fraction : Nat} (hfraction : fraction < 2 ^ 23)
    (hnumber : ofFields sign biased fraction ≠ .notANumber) :
    fieldsOf (ofFields sign biased fraction) = some (sign, biased, fraction) := by
  obtain ⟨rfl, rfl, hx⟩ | ⟨-, hx⟩ | ⟨rfl, rfl, hx⟩ | ⟨_, rfl, hx⟩ | ⟨_, -, -, hx⟩ :=
    ofFields_cases sign biased fraction
  · rw [hx]
    rfl
  · exact absurd hx hnumber
  · rw [hx]
    rfl
  · rw [hx]
    exact if_pos hfraction
  · have hbiased : ((biased : Int) - 150 + 150).toNat = biased := by omega
    have hwhole : fieldsOf (.finite sign (2 ^ 23 + fraction) (biased - 150) (by omega)) =
        some (sign, ((biased : Int) - 150 + 150).toNat, 2 ^ 23 + fraction - 2 ^ 23) :=
      if_neg (by omega)
    rw [hx, hwhole, hbiased, Nat.add_sub_cancel_left]

theorem ofPattern_inj {n k : Nat} (hn : n < 2 ^ 32) (hk : k < 2 ^ 32)
    (h : ofPattern n = ofPattern k) (hnumber : ofPattern n ≠ .notANumber) : n = k := by
  have hlt (n : Nat) : n % 2 ^ 23 < 2 ^ 23 := Nat.mod_lt _ (Nat.two_pow_pos 23)
  have hleft := fieldsOf_ofFields (hlt n) hnumber
  have hright := fieldsOf_ofFields (hlt k) (show ofPattern k ≠ .notANumber from h ▸ hnumber)
  have hfields := hleft.symm.trans ((congrArg fieldsOf h).trans hright)
  rw [Option.some_inj, Prod.mk.injEq, Prod.mk.injEq] at hfields
  obtain ⟨hsign, hbiased, hfraction⟩ := hfields
  have hhalf : n < 2 ^ 31 ↔ k < 2 ^ 31 := by grind
  omega

-- ---------------------------------------------------------------------------
-- Values
-- ---------------------------------------------------------------------------

def signed : Sign → ℚ → ℚ
  | .negative, q => -q
  | .positive, q => q

@[simp] theorem signed_negative (q : ℚ) : signed .negative q = -q := rfl

@[simp] theorem signed_positive (q : ℚ) : signed .positive q = q := rfl

@[simp] theorem signed_zero (sign : Sign) : signed sign 0 = 0 := by
  cases sign <;> simp

@[simp] theorem abs_signed (sign : Sign) (q : ℚ) : |signed sign q| = |q| := by
  cases sign <;> simp

theorem signed_neg (sign : Sign) (q : ℚ) : signed (-sign) q = -signed sign q := by
  cases sign
  · exact (neg_neg q).symm
  · rfl

theorem signed_mul (s t : Sign) (p q : ℚ) : signed (s * t) (p * q) = signed s p * signed t q := by
  cases s <;> cases t
  · exact (neg_mul_neg p q).symm
  · exact (neg_mul p q).symm
  · exact (mul_neg p q).symm
  · rfl

theorem signed_div (s t : Sign) (p q : ℚ) : signed (s / t) (p / q) = signed s p / signed t q := by
  cases s <;> cases t
  · exact (neg_div_neg_eq p q).symm
  · exact (neg_div q p).symm
  · exact (div_neg p).symm
  · rfl

theorem apply_cast (sign : Sign) (n : ℤ) : ((sign.apply n : ℤ) : ℚ) = signed sign n := by
  cases sign
  · exact Int.cast_neg n
  · rfl

/-- An infinity counts as the first power of two out of range, NaN as zero. -/
def unpackedValue : UnpackedFloat → ℚ
  | .finite sign m e _ => signed sign (m * 2 ^ e)
  | .zero _ => 0
  | .infinity sign => signed sign (2 ^ 128)
  | .notANumber => 0

theorem unpackedValue_finite (sign : Sign) (m : Nat) (e : Int) (hm : 0 < m) :
    unpackedValue (.finite sign m e hm) = signed sign (m * 2 ^ e) := rfl

def value (x : Float32) : ℚ := unpackedValue x.toModel.unpack

/-- The one way of writing a number of single precision as a mantissa and an
exponent: all 24 bits are used, except next to zero. -/
structure Normalized (m : Nat) (e : Int) : Prop where
  lt : m < 2 ^ 24
  least : -149 ≤ e
  full : 2 ^ 23 ≤ m ∨ e = -149

theorem two_zpow_pos (e : ℤ) : (0 : ℚ) < 2 ^ e := zpow_pos two_pos e

theorem shiftLeft_mul_two_zpow (m n : ℕ) (e : ℤ) :
    ((m <<< n : ℕ) : ℚ) * 2 ^ (e - n) = m * 2 ^ e := by
  rw [Nat.shiftLeft_eq, zpow_sub₀ two_ne_zero, zpow_natCast]
  push_cast
  rw [mul_assoc, mul_div_cancel₀ _ (by positivity)]

theorem Normalized.magnitude_lt {m k : Nat} {e f : Int} (h : Normalized m e)
    (hk : Normalized k f) (hlt : e < f) : (m : ℚ) * 2 ^ e < k * 2 ^ f := by
  have hfull : 2 ^ 23 ≤ k := hk.full.resolve_right (by have := h.least; omega)
  calc (m : ℚ) * 2 ^ e < 2 ^ 24 * 2 ^ e :=
        mul_lt_mul_of_pos_right (by exact_mod_cast h.lt) (two_zpow_pos e)
    _ = 2 ^ 23 * 2 ^ (e + 1) := by rw [zpow_add_one₀ two_ne_zero]; ring
    _ ≤ 2 ^ 23 * 2 ^ f := by gcongr; norm_num; omega
    _ ≤ k * 2 ^ f := by gcongr; exact_mod_cast hfull

theorem Normalized.compare_magnitude {m k : Nat} {e f : Int} (h : Normalized m e)
    (hk : Normalized k f) :
    (compare e f).then (compare m k) = compare ((m : ℚ) * 2 ^ e) (k * 2 ^ f) := by
  rcases lt_trichotomy e f with hlt | rfl | hgt
  · rw [compare_lt_iff_lt.2 hlt, compare_lt_iff_lt.2 (h.magnitude_lt hk hlt)]
    rfl
  · rw [compare_eq_iff_eq.2 rfl, Ordering.eq_then]
    have hscale := two_zpow_pos e
    rcases lt_trichotomy m k with hlt | rfl | hgt
    · rw [compare_lt_iff_lt.2 hlt, compare_lt_iff_lt.2]
      exact mul_lt_mul_of_pos_right (by exact_mod_cast hlt) hscale
    · rw [compare_eq_iff_eq.2 rfl, compare_eq_iff_eq.2 rfl]
    · rw [compare_gt_iff_gt.2 hgt, compare_gt_iff_gt.2]
      exact mul_lt_mul_of_pos_right (by exact_mod_cast hgt) hscale
  · rw [compare_gt_iff_gt.2 hgt, compare_gt_iff_gt.2 (hk.magnitude_lt h hgt)]
    rfl

theorem normalized_of_unpack {x : Float32} {sign : Sign} {m : Nat} {e : Int} {hm : 0 < m}
    (h : x.toModel.unpack = .finite sign m e hm) : Normalized m e ∧ e ≤ 104 := by
  have hpattern : ofPattern x.toBits.toNat = .finite sign m e hm :=
    (unpack_eq_ofPattern _).symm.trans h
  have hlt := x.toBits.toNat_lt
  rw [ofPattern] at hpattern
  obtain ⟨-, -, hx⟩ | ⟨-, hx⟩ | ⟨-, -, hx⟩ | ⟨_, -, hx⟩ | ⟨_, hzero, hones, hx⟩ :=
    ofFields_cases _ _ _ <;> rw [hx] at hpattern <;> cases hpattern
  · exact ⟨⟨by omega, by omega, .inr rfl⟩, by omega⟩
  · exact ⟨⟨by omega, by omega, .inl (by omega)⟩, by omega⟩

theorem Normalized.magnitude_lt_overflow {m : Nat} {e : Int} (h : Normalized m e)
    (he : e ≤ 104) : (m : ℚ) * 2 ^ e < 2 ^ 128 :=
  calc (m : ℚ) * 2 ^ e < 2 ^ 24 * 2 ^ e :=
        mul_lt_mul_of_pos_right (by exact_mod_cast h.lt) (two_zpow_pos e)
    _ ≤ 2 ^ 24 * 2 ^ (104 : ℤ) := by gcongr; norm_num
    _ = 2 ^ 128 := by norm_num

theorem magnitude_pos {m : Nat} (hm : 0 < m) (e : Int) : (0 : ℚ) < m * 2 ^ e :=
  mul_pos (by exact_mod_cast hm) (two_zpow_pos e)

theorem compare_neg (p q : ℚ) : compare (-p) (-q) = (compare p q).swap := by
  rcases lt_trichotomy p q with hlt | rfl | hgt
  · rw [compare_lt_iff_lt.2 hlt, compare_gt_iff_gt.2 (neg_lt_neg hlt)]
    rfl
  · rw [compare_eq_iff_eq.2 rfl, compare_eq_iff_eq.2 rfl]
    rfl
  · rw [compare_gt_iff_gt.2 hgt, compare_lt_iff_lt.2 (neg_lt_neg hgt)]
    rfl

theorem abs_signed_lt_overflow {x : Float32} {sign : Sign} {m : Nat} {e : Int} {hm : 0 < m}
    (h : x.toModel.unpack = .finite sign m e hm) (t : Sign) :
    |signed t ((m : ℚ) * 2 ^ e)| < 2 ^ 128 := by
  obtain ⟨hnorm, he⟩ := normalized_of_unpack h
  rw [abs_signed, abs_of_pos (magnitude_pos hm e)]
  exact hnorm.magnitude_lt_overflow he

theorem isNaN_of_isFinite {x : Float32} (h : x.isFinite = true) : x.isNaN = false := by
  have hu : x.toModel.unpack.isFinite = true := h
  show x.toModel.unpack.isNaN = false
  cases hx : x.toModel.unpack with
  | notANumber => rw [hx] at hu; cases hu
  | _ => rfl

theorem exists_unpack_eq_infinity {x : Float32} (hnumber : x.isNaN = false)
    (h : x.isFinite = false) : ∃ sign, x.toModel.unpack = .infinity sign := by
  have hnumber' : x.toModel.unpack.isNaN = false := hnumber
  have h' : x.toModel.unpack.isFinite = false := h
  cases hx : x.toModel.unpack with
  | notANumber => rw [hx] at hnumber'; cases hnumber'
  | infinity sign => exact ⟨sign, rfl⟩
  | zero => rw [hx] at h'; cases h'
  | finite => rw [hx] at h'; cases h'

theorem abs_value_lt {x : Float32} (h : x.isFinite = true) : |value x| < 2 ^ 128 := by
  have h' : x.toModel.unpack.isFinite = true := h
  show |unpackedValue x.toModel.unpack| < 2 ^ 128
  cases hx : x.toModel.unpack with
  | notANumber => rw [hx] at h'; cases h'
  | infinity => rw [hx] at h'; cases h'
  | zero =>
    show |(0 : ℚ)| < 2 ^ 128
    norm_num
  | finite sign => exact abs_signed_lt_overflow hx sign

/-- The finite numbers are those whose value is in range. -/
theorem isFinite_iff {x : Float32} (h : x.isNaN = false) :
    x.isFinite = true ↔ |value x| < 2 ^ 128 := by
  constructor
  · exact abs_value_lt
  · intro hlt
    by_contra hinfinite
    obtain ⟨sign, hx⟩ := exists_unpack_eq_infinity h (Bool.eq_false_of_not_eq_true hinfinite)
    have hvalue : value x = signed sign (2 ^ 128) := congrArg unpackedValue hx
    rw [hvalue, abs_signed, abs_of_pos (by norm_num)] at hlt
    exact lt_irrefl _ hlt

-- ---------------------------------------------------------------------------
-- Order
-- ---------------------------------------------------------------------------

/-- How a number of this sign compares with all of smaller magnitude. -/
def outward : Sign → Ordering
  | .negative => .lt
  | .positive => .gt

theorem compare_signed {p q : ℚ} (h : |p| < q) (sign : Sign) :
    compare (signed sign q) p = outward sign := by
  obtain ⟨hlow, hhigh⟩ := abs_lt.1 h
  cases sign
  · exact compare_lt_iff_lt.2 hlow
  · exact compare_gt_iff_gt.2 hhigh

theorem compare_signed_right {p q : ℚ} (h : |p| < q) (sign : Sign) :
    compare p (signed sign q) = (outward sign).swap := by
  obtain ⟨hlow, hhigh⟩ := abs_lt.1 h
  cases sign
  · exact compare_gt_iff_gt.2 hlow
  · exact compare_lt_iff_lt.2 hhigh

theorem compare_opposite {p q : ℚ} (hp : 0 < p) (hq : 0 < q) (sign : Sign) :
    compare (signed sign p) (signed (-sign) q) = outward sign := by
  cases sign
  · exact compare_lt_iff_lt.2 ((neg_lt_zero.2 hp).trans hq)
  · exact compare_gt_iff_gt.2 ((neg_lt_zero.2 hq).trans hp)

theorem compare_infinities (s t : Sign) :
    (UnpackedFloat.infinity s).compare (.infinity t) =
      some (compare (signed s (2 ^ 128)) (signed t (2 ^ 128))) := by
  have hover : (0 : ℚ) < 2 ^ 128 := by norm_num
  cases s <;> cases t
  · exact congrArg some (compare_eq_iff_eq.2 rfl).symm
  · exact congrArg some (compare_opposite hover hover .negative).symm
  · exact congrArg some (compare_opposite hover hover .positive).symm
  · exact congrArg some (compare_eq_iff_eq.2 rfl).symm

theorem compare_infinity_left (sign : Sign) {v : UnpackedFloat} (hv : v.isFinite = true)
    (hlt : |unpackedValue v| < 2 ^ 128) :
    (UnpackedFloat.infinity sign).compare v =
      some (compare (signed sign (2 ^ 128)) (unpackedValue v)) := by
  rw [compare_signed hlt]
  cases v with
  | notANumber => cases hv
  | infinity => cases hv
  | _ => cases sign <;> rfl

theorem compare_infinity_right {u : UnpackedFloat} (hu : u.isFinite = true)
    (hlt : |unpackedValue u| < 2 ^ 128) (sign : Sign) :
    u.compare (.infinity sign) = some (compare (unpackedValue u) (signed sign (2 ^ 128))) := by
  rw [compare_signed_right hlt]
  cases u with
  | notANumber => cases hu
  | infinity => cases hu
  | _ => cases sign <;> rfl

theorem compare_finite_zero (s t : Sign) {m : Nat} (e : Int) (hm : 0 < m) :
    (UnpackedFloat.finite s m e hm).compare (.zero t) =
      some (compare (signed s (m * 2 ^ e)) 0) := by
  rw [compare_signed (abs_zero.trans_lt (magnitude_pos hm e))]
  cases s <;> rfl

theorem compare_zero_finite (s t : Sign) {m : Nat} (e : Int) (hm : 0 < m) :
    (UnpackedFloat.zero s).compare (.finite t m e hm) =
      some (compare 0 (signed t (m * 2 ^ e))) := by
  rw [compare_signed_right (abs_zero.trans_lt (magnitude_pos hm e))]
  cases t <;> rfl

/-- Of two numbers of one sign the magnitudes decide, otherwise the signs. -/
theorem compare_finite (s t : Sign) {m k : Nat} {e f : Int} (hm : 0 < m) (hk : 0 < k)
    (h : Normalized m e) (h' : Normalized k f) :
    (UnpackedFloat.finite s m e hm).compare (.finite t k f hk) =
      some (compare (signed s (m * 2 ^ e)) (signed t (k * 2 ^ f))) := by
  have hmagnitude := h.compare_magnitude h'
  have hpos := magnitude_pos hm e
  have hpos' := magnitude_pos hk f
  cases s <;> cases t
  · show some ((compare e f).then (compare m k)).swap = some (compare (-_) (-_))
    rw [hmagnitude, compare_neg]
  · exact congrArg some (compare_opposite hpos hpos' .negative).symm
  · exact congrArg some (compare_opposite hpos hpos' .positive).symm
  · exact congrArg some hmagnitude

theorem compare_of_isFinite {x y : Float32} (hx : x.isFinite = true) (hy : y.isFinite = true) :
    x.toModel.unpack.compare y.toModel.unpack = some (compare (value x) (value y)) := by
  have hx' : x.toModel.unpack.isFinite = true := hx
  have hy' : y.toModel.unpack.isFinite = true := hy
  unfold value
  cases hu : x.toModel.unpack with
  | notANumber => rw [hu] at hx'; cases hx'
  | infinity => rw [hu] at hx'; cases hx'
  | zero s =>
    cases hv : y.toModel.unpack with
    | notANumber => rw [hv] at hy'; cases hy'
    | infinity => rw [hv] at hy'; cases hy'
    | zero t => exact congrArg some (compare_eq_iff_eq.2 rfl).symm
    | finite t k f hk => exact compare_zero_finite s t f hk
  | finite s m e hm =>
    cases hv : y.toModel.unpack with
    | notANumber => rw [hv] at hy'; cases hy'
    | infinity => rw [hv] at hy'; cases hy'
    | zero t => exact compare_finite_zero s t e hm
    | finite t k f hk =>
      exact compare_finite s t hm hk (normalized_of_unpack hu).1 (normalized_of_unpack hv).1

theorem compare_unpack {x y : Float32} (hx : x.isNaN = false) (hy : y.isNaN = false) :
    x.toModel.unpack.compare y.toModel.unpack = some (compare (value x) (value y)) := by
  cases hfx : x.isFinite with
  | true =>
    cases hfy : y.isFinite with
    | true => exact compare_of_isFinite hfx hfy
    | false =>
      obtain ⟨t, hv⟩ := exists_unpack_eq_infinity hy hfy
      rw [value, value, hv]
      exact compare_infinity_right hfx (abs_value_lt hfx) t
  | false =>
    obtain ⟨s, hu⟩ := exists_unpack_eq_infinity hx hfx
    cases hfy : y.isFinite with
    | true =>
      rw [value, value, hu]
      exact compare_infinity_left s hfy (abs_value_lt hfy)
    | false =>
      obtain ⟨t, hv⟩ := exists_unpack_eq_infinity hy hfy
      rw [value, value, hu, hv]
      exact compare_infinities s t

theorem lt_iff_value_lt {x y : Float32} (hx : x.isNaN = false) (hy : y.isNaN = false) :
    x < y ↔ value x < value y := by
  have hlt : x < y ↔ (x.toModel.unpack.compare y.toModel.unpack == some .lt) = true :=
    decide_eq_true_iff
  rw [hlt, compare_unpack hx hy, beq_iff_eq, Option.some_inj, compare_lt_iff_lt]

theorem le_iff_value_le {x y : Float32} (hx : x.isNaN = false) (hy : y.isNaN = false) :
    x ≤ y ↔ value x ≤ value y := by
  have hle : x ≤ y ↔ (x.toModel.unpack.compare y.toModel.unpack).any (·.isLE) = true :=
    decide_eq_true_iff
  rw [hle, compare_unpack hx hy, Option.any_some, Ordering.isLE_iff_ne_gt]
  exact compare_le_iff_le

theorem finite_eq_of_compare_eq {s t : Sign} {m k : Nat} {e f : Int} {hm : 0 < m} {hk : 0 < k}
    (h : (UnpackedFloat.finite s m e hm).compare (.finite t k f hk) = some .eq) :
    UnpackedFloat.finite s m e hm = .finite t k f hk := by
  have hparts : s = t ∧ (compare e f).then (compare m k) = .eq := by
    cases s <;> cases t
    · exact ⟨rfl, Ordering.swap_eq_eq.1 (Option.some_inj.1 h)⟩
    · cases h
    · cases h
    · exact ⟨rfl, Option.some_inj.1 h⟩
  obtain ⟨hsign, hcompare⟩ := hparts
  obtain ⟨hexponent, hmantissa⟩ := Ordering.then_eq_eq.1 hcompare
  exact finite_congr hsign (compare_eq_iff_eq.1 hmantissa) (compare_eq_iff_eq.1 hexponent)

/-- Two floats compare as equal only if they are the same, or both a zero. -/
theorem unpacked_of_compare_eq {u v : UnpackedFloat} (h : u.compare v = some .eq) :
    u = v ∨ (∃ sign, u = .zero sign) ∧ ∃ sign, v = .zero sign := by
  cases u with
  | notANumber => cases v <;> cases h
  | infinity s =>
    cases v with
    | infinity t =>
      cases s <;> cases t
      · exact .inl rfl
      · cases h
      · cases h
      · exact .inl rfl
    | _ => cases s <;> cases h
  | zero s =>
    cases v with
    | zero t => exact .inr ⟨⟨s, rfl⟩, t, rfl⟩
    | notANumber => cases h
    | infinity t => cases t <;> cases h
    | finite t => cases t <;> cases h
  | finite s m e hm =>
    cases v with
    | finite => exact .inl (finite_eq_of_compare_eq h)
    | notANumber => cases s <;> cases h
    | infinity t => cases s <;> cases t <;> cases h
    | zero => cases s <;> cases h

theorem eq_of_unpack_eq {x y : Float32} (h : x.toModel.unpack = y.toModel.unpack)
    (hx : x.isNaN = false) : x = y := by
  have hpattern : ofPattern x.toBits.toNat = ofPattern y.toBits.toNat :=
    (unpack_eq_ofPattern _).symm.trans (h.trans (unpack_eq_ofPattern _))
  have hnumber : ofPattern x.toBits.toNat ≠ .notANumber := by
    intro hnan
    have : x.toModel.unpack = .notANumber := (unpack_eq_ofPattern _).trans hnan
    have hx' : x.toModel.unpack.isNaN = false := hx
    rw [this] at hx'
    cases hx'
  have hbits : x.toBits = y.toBits :=
    UInt32.toNat_inj.1 (ofPattern_inj x.toBits.toNat_lt y.toBits.toNat_lt hpattern hnumber)
  obtain ⟨⟨bx, hbx⟩⟩ := x
  obtain ⟨⟨by', hby⟩⟩ := y
  cases hbits
  rfl

theorem eq_of_value_eq {x y : Float32} (hx : x.isNaN = false) (hy : y.isNaN = false)
    (h : value x = value y) (hne : value x ≠ 0) : x = y := by
  have hcompare : x.toModel.unpack.compare y.toModel.unpack = some .eq := by
    rw [compare_unpack hx hy, compare_eq_iff_eq.2 h]
  obtain hunpack | ⟨⟨sign, hzero⟩, -⟩ := unpacked_of_compare_eq hcompare
  · exact eq_of_unpack_eq hunpack hx
  · exact absurd (congrArg unpackedValue hzero) hne

theorem eq_infinity_of_not_isFinite {x : Float32} (hnumber : x.isNaN = false)
    (h : x.isFinite = false) : x = infinity32 ∨ x = -infinity32 := by
  obtain ⟨sign, hx⟩ := exists_unpack_eq_infinity hnumber h
  cases sign with
  | positive => exact .inl (eq_of_unpack_eq hx hnumber)
  | negative => exact .inr (eq_of_unpack_eq hx hnumber)

theorem value_zero : value 0.0 = 0 := rfl

theorem value_one : value 1.0 = 1 := by
  show signed .positive ((2 ^ 23 : ℕ) * 2 ^ (-23 : ℤ)) = 1
  norm_num

end FractalCurve.Number
