import FractalCurve.Proofs.FloatValue

/-!
# Rounding to the nearest

The numbers of 24 bits form a grid without an upper end. What rounding makes of
a mantissa and an exponent, before the range is looked at, is the number of the
grid that is nearest to the exact one: the mantissa is shifted, rounded and
shifted once more, and what has been shifted out is known well enough.
-/

namespace FractalCurve.Number

open Float.Model Float.Model.UnpackedFloat

-- ---------------------------------------------------------------------------
-- The grid
-- ---------------------------------------------------------------------------

/-- The numbers of 24 bits with no place below the last one of single
precision. Single precision has those of them that are in range. -/
def OnGrid (q : ℚ) : Prop :=
  ∃ m e : ℤ, |m| ≤ 2 ^ 24 ∧ -149 ≤ e ∧ q = m * 2 ^ e

theorem OnGrid.neg {q : ℚ} (h : OnGrid q) : OnGrid (-q) := by
  obtain ⟨m, e, hm, he, rfl⟩ := h
  exact ⟨-m, e, (abs_neg m).trans_le hm, he, by push_cast; ring⟩

theorem onGrid_natCast {n : ℕ} (h : n ≤ 2 ^ 24) : OnGrid n :=
  ⟨n, 0, by rw [Nat.abs_cast]; exact_mod_cast h, by norm_num, by norm_num⟩

theorem onGrid_zero : OnGrid 0 := by exact_mod_cast onGrid_natCast (n := 0) (by norm_num)

theorem onGrid_two_zpow {e : ℤ} (h : -149 ≤ e) : OnGrid (2 ^ e) :=
  ⟨1, e, by norm_num, h, by norm_num⟩

/-- No number of the grid lies closer to `q` than `v`. -/
structure Nearest (q v : ℚ) : Prop where
  onGrid : OnGrid v
  least : ∀ w, OnGrid w → |v - q| ≤ |w - q|

namespace Nearest

variable {p q v w : ℚ}

theorem neg (h : Nearest q v) : Nearest (-q) (-v) := by
  refine ⟨h.onGrid.neg, fun w hw => ?_⟩
  have := h.least (-w) hw.neg
  rwa [neg_sub_neg, ← abs_neg (w - -q), abs_sub_comm q v, show -(w - -q) = -w - q by ring]

theorem signed (h : Nearest q v) (sign : Sign) :
    Nearest (Number.signed sign q) (Number.signed sign v) := by
  cases sign
  · exact h.neg
  · exact h

theorem le_of_le (h : Nearest q v) (hw : OnGrid w) (hle : q ≤ w) : v ≤ w := by
  by_contra! hlt
  have := h.least w hw
  rw [abs_of_nonneg (by linarith), abs_of_nonneg (by linarith)] at this
  linarith

theorem le_of_ge (h : Nearest q v) (hw : OnGrid w) (hle : w ≤ q) : w ≤ v := by
  have := h.neg.le_of_le hw.neg (neg_le_neg hle)
  exact neg_le_neg_iff.1 this

theorem mono (hv : Nearest p v) (hw : Nearest q w) (h : p < q) : v ≤ w := by
  by_contra! hlt
  -- Both lie on the wrong side of the middle between `w` and `v`.
  have hp : v + w ≤ 2 * p := by
    by_contra! hmiddle
    have hnear := hv.least w hw.onGrid
    rw [abs_of_pos (by linarith : 0 < v - p)] at hnear
    exact absurd hnear (not_le.2 (abs_lt.2 ⟨by linarith, by linarith⟩))
  have hq : 2 * q ≤ v + w := by
    by_contra! hmiddle
    have hnear := hw.least v hv.onGrid
    rw [abs_of_neg (by linarith : w - q < 0)] at hnear
    exact absurd hnear (not_le.2 (abs_lt.2 ⟨by linarith, by linarith⟩))
  linarith

end Nearest

/-- The nearest multiple of a power of two is nearest on the whole grid, if
finer numbers of the grid all lie below `q`. -/
theorem nearest_of_multiple {q : ℚ} {r : ℕ} {t : ℤ} (hr : r ≤ 2 ^ 24) (ht : -149 ≤ t)
    (hfull : t = -149 ∨ 2 ^ 23 * 2 ^ t ≤ q) (hclose : |(r : ℚ) - q / 2 ^ t| ≤ 1 / 2) :
    Nearest q (r * 2 ^ t) := by
  have hpos := two_zpow_pos t
  -- Distances in units of the last place.
  have hscale (k : ℚ) : |k * 2 ^ t - q| = |k - q / 2 ^ t| * 2 ^ t := by
    rw [← abs_of_pos hpos, ← abs_mul, abs_of_pos hpos, sub_mul, div_mul_cancel₀ q hpos.ne']
  have hmultiple (k : ℤ) : |(r : ℚ) * 2 ^ t - q| ≤ |k * 2 ^ t - q| := by
    rw [hscale, hscale]
    refine mul_le_mul_of_nonneg_right ?_ hpos.le
    by_cases heq : k = r
    · rw [heq]
      exact le_of_eq (by push_cast; rfl)
    · have hapart : (1 : ℚ) ≤ |(k : ℚ) - r| := by
        exact_mod_cast Int.one_le_abs (sub_ne_zero.2 heq)
      have htriangle := abs_sub_le (k : ℚ) (q / 2 ^ t) r
      rw [abs_sub_comm (q / 2 ^ t) (r : ℚ)] at htriangle
      linarith
  refine ⟨⟨r, t, by rw [Nat.abs_cast]; exact_mod_cast hr, ht, by norm_num⟩, ?_⟩
  rintro w ⟨m, e, hm, he, rfl⟩
  by_cases hfine : t ≤ e
  · have hw : (m : ℚ) * 2 ^ e = (m * 2 ^ (e - t).toNat : ℤ) * 2 ^ t := by
      have : e = (e - t).toNat + t := by omega
      conv_lhs => rw [this, zpow_add₀ two_ne_zero, zpow_natCast]
      push_cast
      ring
    rw [hw]
    exact hmultiple _
  · have hq := hfull.resolve_left (by omega)
    have hw : (m : ℚ) * 2 ^ e ≤ 2 ^ 23 * 2 ^ t := by
      have hle : (m : ℚ) ≤ 2 ^ 24 := by exact_mod_cast (le_abs_self m).trans hm
      calc (m : ℚ) * 2 ^ e ≤ 2 ^ 24 * 2 ^ e := by gcongr
        _ = 2 ^ 23 * 2 ^ (e + 1) := by rw [zpow_add_one₀ two_ne_zero]; ring
        _ ≤ 2 ^ 23 * 2 ^ t := by gcongr; norm_num; omega
    have hnear := hmultiple 8388608
    rw [show ((8388608 : ℤ) : ℚ) = 2 ^ 23 by norm_num] at hnear
    rw [abs_of_nonpos (by linarith : (2 : ℚ) ^ 23 * 2 ^ t - q ≤ 0)] at hnear
    rw [abs_of_nonpos (by linarith : (m : ℚ) * 2 ^ e - q ≤ 0)]
    linarith

-- ---------------------------------------------------------------------------
-- Shifted mantissas
-- ---------------------------------------------------------------------------

/-- The number `q` that a mantissa and what has been shifted out of it stand
for, in units of the last place. -/
def Represents : ExtendedMantissa → ℚ → Prop
  | ⟨m, false, false⟩, q => q = m
  | ⟨m, false, true⟩, q => m < q ∧ q < m + 1 / 2
  | ⟨m, true, false⟩, q => q = m + 1 / 2
  | ⟨m, true, true⟩, q => m + 1 / 2 < q ∧ q < m + 1

namespace Represents

variable {em : ExtendedMantissa} {q : ℚ}

theorem mantissa_le (h : Represents em q) : em.mantissa ≤ q := by
  obtain ⟨m, roundBit, stickyBit⟩ := em
  cases roundBit <;> cases stickyBit <;> simp only [Represents] at h ⊢ <;> linarith

theorem close (h : Represents em q) : |(em.roundedMantissa : ℚ) - q| ≤ 1 / 2 := by
  obtain ⟨m, roundBit, stickyBit⟩ := em
  have hparity : m + m % 2 = m ∨ m + m % 2 = m + 1 := by omega
  rw [abs_le]
  cases roundBit <;> cases stickyBit <;>
    simp only [Represents, ExtendedMantissa.roundedMantissa, ExtendedMantissa.accuracy,
      Accuracy.roundToNearestEven] at h ⊢
  · constructor <;> linarith
  · constructor <;> linarith
  · rcases hparity with heven | hodd
    · rw [heven]
      constructor <;> linarith
    · rw [hodd]
      push_cast
      constructor <;> linarith
  · push_cast
    constructor <;> linarith

theorem shiftRightOne (h : Represents em q) : Represents em.shiftRightOne (q / 2) := by
  obtain ⟨m, roundBit, stickyBit⟩ := em
  have hdiv : (m : ℚ) = 2 * (m / 2 : ℕ) + (m % 2 : ℕ) := by
    exact_mod_cast (Nat.div_add_mod m 2).symm
  -- The bit that drops out becomes the round bit, the one before it joins the sticky bit.
  rcases Nat.mod_two_eq_zero_or_one m with hbit | hbit <;>
    cases roundBit <;> cases stickyBit <;>
    simp [Represents, ExtendedMantissa.shiftRightOne, hbit] at h hdiv ⊢
  case inl.false.false | inr.false.false => linarith
  all_goals constructor <;> linarith

theorem shiftRight (h : Represents em q) (n : ℕ) : Represents (em >>> n) (q / 2 ^ n) := by
  show Represents (n.repeat ExtendedMantissa.shiftRightOne em) (q / 2 ^ n)
  induction n with
  | zero => simpa [Nat.repeat] using h
  | succ n ih =>
    rw [pow_succ, ← div_div]
    exact ih.shiftRightOne

end Represents

theorem represents_exact (m : ℕ) :
    Represents (ExtendedMantissa.ofMantissaAndAccuracy m .exact) m := rfl

-- ---------------------------------------------------------------------------
-- Rounding
-- ---------------------------------------------------------------------------

theorem targetExponent_binary32 (t : ℤ) :
    Format.targetExponent .binary32 t = max (t - 24) (-149) := by
  have hbits : (Format.mantissaBits .binary32 : ℤ) = 24 := by decide
  have hleast : Format.minExponent .binary32 = -149 := by decide
  rw [Format.targetExponent, hbits, hleast]

/-- A finite number with its parts normalized, though it may be out of range. -/
def IsNormalized : UnpackedFloat → Prop
  | .finite _ m e _ => Normalized m e
  | .zero _ => True
  | .infinity _ | .notANumber => False

/-- Mantissas of up to 24 bits stay as they are; the power of two that rounding
up may give is halved. -/
theorem shiftToTargetExponent_exact {r : ℕ} {t : ℤ} (hr : r ≤ 2 ^ 24) (ht : -149 ≤ t) :
    (r < 2 ^ 24 ∧ shiftToTargetExponent .binary32 r t .exact = (⟨r, false, false⟩, t)) ∨
      (r = 2 ^ 24 ∧
        shiftToTargetExponent .binary32 r t .exact = (⟨2 ^ 23, false, false⟩, t + 1)) := by
  rcases hr.lt_or_eq with hlt | rfl
  · have hlog : r.log2 ≤ 23 := by
      rcases Nat.eq_zero_or_pos r with rfl | hpos
      · simp
      · exact Nat.lt_succ_iff.1 ((Nat.log2_lt hpos.ne').2 hlt)
    have hshift : (Format.targetExponent .binary32 (totalExponent r t) - t).toNat = 0 := by
      rw [targetExponent_binary32, totalExponent]
      omega
    refine .inl ⟨hlt, ?_⟩
    rw [shiftToTargetExponent, shiftToExponent, hshift]
    simp [ExtendedMantissa.ofMantissaAndAccuracy, HShiftRight.hShiftRight, Nat.repeat]
  · have hshift : (Format.targetExponent .binary32 (totalExponent (2 ^ 24) t) - t).toNat = 1 := by
      rw [targetExponent_binary32, totalExponent, Nat.log2_two_pow]
      omega
    refine .inr ⟨rfl, ?_⟩
    rw [shiftToTargetExponent, shiftToExponent, hshift]
    rfl

theorem mantissa_shiftRight (em : ExtendedMantissa) (n : Nat) :
    (em >>> n).mantissa = em.mantissa / 2 ^ n := by
  show (n.repeat ExtendedMantissa.shiftRightOne em).mantissa = em.mantissa / 2 ^ n
  induction n with
  | zero => exact (Nat.div_one _).symm
  | succ n ih =>
    rw [pow_succ, ← Nat.div_div_eq_div_mul, ← ih]
    rfl

theorem roundedMantissa_bounds (em : ExtendedMantissa) :
    em.mantissa ≤ em.roundedMantissa ∧ em.roundedMantissa ≤ em.mantissa + 1 := by
  obtain ⟨m, roundBit, stickyBit⟩ := em
  cases roundBit <;> cases stickyBit <;>
    simp only [ExtendedMantissa.roundedMantissa, ExtendedMantissa.accuracy,
      Accuracy.roundToNearestEven]
  all_goals omega

theorem ofMantissaAndAccuracy_mantissa (m : Nat) (accuracy : Accuracy) :
    (ExtendedMantissa.ofMantissaAndAccuracy m accuracy).mantissa = m := by
  unfold ExtendedMantissa.ofMantissaAndAccuracy
  split <;> rfl

/-- A number counted in units of a place further up. -/
theorem div_two_zpow_add (q : ℚ) (e : ℤ) (n : ℕ) : q * 2 ^ e / 2 ^ (e + n : ℤ) = q / 2 ^ n := by
  rw [zpow_add₀ two_ne_zero, zpow_natCast, mul_comm q, mul_div_mul_left _ _ (two_zpow_pos e).ne']

section

variable {m : ℕ} {e : ℤ} {accuracy : Accuracy} {q : ℚ}

/-- What is left after the bits below the last place have been shifted out. -/
theorem exists_shiftToTargetExponent
    (hq : Represents (ExtendedMantissa.ofMantissaAndAccuracy m accuracy) q)
    (he : e ≤ Format.targetExponent .binary32 (totalExponent m e)) :
    ∃ em t, shiftToTargetExponent .binary32 m e accuracy = (em, t) ∧ -149 ≤ t ∧
      em.roundedMantissa ≤ 2 ^ 24 ∧ |(em.roundedMantissa : ℚ) - q * 2 ^ e / 2 ^ t| ≤ 1 / 2 ∧
      (t = -149 ∨ 2 ^ 23 ≤ em.roundedMantissa ∧ 2 ^ 23 * 2 ^ t ≤ q * 2 ^ e) := by
  have hmantissa := ofMantissaAndAccuracy_mantissa m accuracy
  generalize hem : ExtendedMantissa.ofMantissaAndAccuracy m accuracy = em at hq hmantissa
  generalize ht : Format.targetExponent .binary32 (totalExponent m e) = t at he
  obtain ⟨n, rfl⟩ : ∃ n : ℕ, t = e + n := ⟨(t - e).toNat, by omega⟩
  rw [targetExponent_binary32, totalExponent] at ht
  have hshifted := hq.shiftRight n
  have hpos : (0 : ℚ) < 2 ^ n := by positivity
  refine ⟨em >>> n, e + n, ?_, by omega, ?_, ?_, ?_⟩
  · rw [shiftToTargetExponent, shiftToExponent, hem, targetExponent_binary32, totalExponent, ht]
    simp
  · have hlt : m < 2 ^ 24 * 2 ^ n := by
      rw [← pow_add]
      exact Nat.lt_log2_self.trans_le (Nat.pow_le_pow_right (by decide) (by omega))
    have hquotient : (em >>> n).mantissa < 2 ^ 24 := by
      rw [mantissa_shiftRight, hmantissa]
      exact Nat.div_lt_of_lt_mul (mul_comm (2 ^ 24) (2 ^ n) ▸ hlt)
    exact (roundedMantissa_bounds _).2.trans hquotient
  · rw [div_two_zpow_add]
    exact hshifted.close
  · rw [or_iff_not_imp_left]
    intro hleast
    have hlog : m.log2 = 23 + n := by omega
    have hle : 2 ^ 23 * 2 ^ n ≤ m := by
      rw [← pow_add, ← hlog]
      exact Nat.log2_self_le (by rintro rfl; simp at hlog; omega)
    have hquotient : 2 ^ 23 ≤ (em >>> n).mantissa := by
      rw [mantissa_shiftRight, hmantissa]
      exact (Nat.le_div_iff_mul_le (by positivity)).2 hle
    refine ⟨hquotient.trans (roundedMantissa_bounds _).1, ?_⟩
    have hwhole : (2 : ℚ) ^ 23 ≤ q * 2 ^ e / 2 ^ (e + n : ℤ) := by
      rw [div_two_zpow_add]
      exact le_trans (by exact_mod_cast hquotient) hshifted.mantissa_le
    exact (le_div_iff₀ (two_zpow_pos _)).1 hwhole

theorem roundWithAccuracy_nearest
    (hq : Represents (ExtendedMantissa.ofMantissaAndAccuracy m accuracy) q)
    (he : e ≤ Format.targetExponent .binary32 (totalExponent m e)) (sign : Sign) :
    IsNormalized (roundWithAccuracy .binary32 sign m e accuracy) ∧
      Nearest (signed sign (q * 2 ^ e))
        (unpackedValue (roundWithAccuracy .binary32 sign m e accuracy)) := by
  obtain ⟨em, t, hfirst, ht, hle, hclose, hfull⟩ := exists_shiftToTargetExponent hq he
  have hnearest := (nearest_of_multiple hle ht (hfull.imp_right And.right) hclose).signed sign
  unfold roundWithAccuracy
  rw [hfirst]
  dsimp only
  obtain ⟨hlt, hsecond⟩ | ⟨hcarry, hsecond⟩ := shiftToTargetExponent_exact hle ht
  · rw [hsecond]
    by_cases hzero : em.roundedMantissa = 0
    · rw [dif_pos hzero]
      rw [hzero, Nat.cast_zero, zero_mul, signed_zero] at hnearest
      exact ⟨trivial, hnearest⟩
    · rw [dif_neg hzero]
      exact ⟨⟨hlt, ht, hfull.symm.imp_left And.left⟩, hnearest⟩
  · rw [hsecond, dif_neg (by norm_num)]
    rw [hcarry] at hnearest
    refine ⟨⟨by norm_num, by omega, .inl le_rfl⟩, ?_⟩
    have hhalf : ((2 ^ 24 : ℕ) : ℚ) * 2 ^ t = (2 ^ 23 : ℕ) * 2 ^ (t + 1) := by
      rw [zpow_add_one₀ two_ne_zero]
      push_cast
      ring
    rw [hhalf] at hnearest
    exact hnearest

end

theorem nearest_self {q : ℚ} (h : OnGrid q) : Nearest q q :=
  ⟨h, fun w _ => by rw [sub_self, abs_zero]; exact abs_nonneg _⟩

theorem Normalized.onGrid {m : ℕ} {e : ℤ} (h : Normalized m e) (sign : Sign) :
    OnGrid (signed sign (m * 2 ^ e)) := by
  have hpositive : OnGrid (m * 2 ^ e) :=
    ⟨m, e, by rw [Nat.abs_cast]; exact_mod_cast h.lt.le, h.least, by norm_num⟩
  cases sign
  · exact hpositive.neg
  · exact hpositive

theorem log2_mul_two_pow {m : ℕ} (hm : 0 < m) (k : ℕ) : (m * 2 ^ k).log2 = m.log2 + k := by
  rw [Nat.log2_eq_iff (by positivity), pow_add, Nat.add_right_comm, pow_add]
  exact ⟨Nat.mul_le_mul_right _ (Nat.log2_self_le hm.ne'),
    Nat.mul_lt_mul_of_pos_right Nat.lt_log2_self (by positivity)⟩

/-- `u` is a normalized number, and none lies closer to `q`. -/
def RoundsTo (q : ℚ) (u : UnpackedFloat) : Prop := IsNormalized u ∧ Nearest q (unpackedValue u)

theorem round_roundsTo {m : ℕ} (hm : 0 < m) (e : ℤ) (sign : Sign) :
    RoundsTo (signed sign (m * 2 ^ e)) (UnpackedFloat.round .binary32 sign m e) := by
  generalize ht : Format.targetExponent .binary32 (totalExponent m e) = t
  generalize hk : (e - t).toNat = k
  have hlog : (m <<< k).log2 = m.log2 + k := by
    rw [Nat.shiftLeft_eq, log2_mul_two_pow hm]
  have htarget : Format.targetExponent .binary32 (totalExponent (m <<< k) (e - k)) = t := by
    rw [← ht, totalExponent, totalExponent, hlog]
    congr 1
    push_cast
    ring
  unfold UnpackedFloat.round decreaseExponent
  dsimp only
  rw [ht, hk, ← shiftLeft_mul_two_zpow m k e]
  exact roundWithAccuracy_nearest (represents_exact _) (by rw [htarget]; omega) sign

theorem normalize_roundsTo (m e : ℤ) (zeroSign : Sign) :
    RoundsTo (m * 2 ^ e) (UnpackedFloat.normalize .binary32 m e zeroSign) := by
  unfold UnpackedFloat.normalize
  rcases lt_trichotomy m 0 with hlt | rfl | hgt
  · rw [compare_lt_iff_lt.2 hlt]
    have h := round_roundsTo (m := (-m).toNat) (by omega) e .negative
    have hm : (((-m).toNat : ℕ) : ℚ) = -m := by exact_mod_cast Int.toNat_of_nonneg (by omega)
    rw [hm, signed_negative, neg_mul, neg_neg] at h
    exact h
  · rw [compare_eq_iff_eq.2 rfl, Int.cast_zero, zero_mul]
    exact ⟨trivial, nearest_self onGrid_zero⟩
  · rw [compare_gt_iff_gt.2 hgt]
    have h := round_roundsTo (m := m.toNat) (by omega) e .positive
    have hm : ((m.toNat : ℕ) : ℚ) = m := by exact_mod_cast Int.toNat_of_nonneg hgt.le
    rw [hm] at h
    exact h

end FractalCurve.Number
