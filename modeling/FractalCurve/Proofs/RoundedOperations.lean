import FractalCurve.Proofs.Nearest

/-!
# Rounded sums, products and quotients

Each operation on finite numbers makes one mantissa out of two, exactly or with
what is left over on record, and rounds that. So the result is the number of the
grid that is nearest to the exact one; the range is not looked at yet.
-/

namespace FractalCurve.Number

open Float.Model Float.Model.UnpackedFloat

-- ---------------------------------------------------------------------------
-- Sums
-- ---------------------------------------------------------------------------

theorem decreaseExponent_value {e t : ℤ} (h : t ≤ e) (sign : Sign) (m : ℕ) :
    signed sign (m * 2 ^ e) = (sign.apply (decreaseExponent m e t).1 : ℤ) * 2 ^ t := by
  obtain ⟨k, rfl⟩ : ∃ k : ℕ, e = t + k := ⟨(e - t).toNat, by omega⟩
  have hm := shiftLeft_mul_two_zpow m k (t + k)
  have hk : (t + k - t).toNat = k := by omega
  rw [add_sub_cancel_right] at hm
  rw [← hm, decreaseExponent, apply_cast, hk]
  cases sign
  · exact (neg_mul _ _).symm
  · rfl

theorem add_roundsTo {u v : UnpackedFloat} (hu : IsNormalized u) (hv : IsNormalized v) :
    RoundsTo (unpackedValue u + unpackedValue v) (UnpackedFloat.add .binary32 u v) := by
  cases u with
  | infinity => exact hu.elim
  | notANumber => exact hu.elim
  | zero s =>
    cases v with
    | infinity => exact hv.elim
    | notANumber => exact hv.elim
    | zero t =>
      have hsum : (0 : ℚ) + 0 = 0 := add_zero 0
      cases s <;> cases t <;> exact ⟨trivial, hsum ▸ nearest_self onGrid_zero⟩
    | finite t k f hk =>
      refine ⟨hv, ?_⟩
      show Nearest (0 + _) _
      rw [zero_add]
      exact nearest_self (hv.onGrid t)
  | finite s m e hm =>
    cases v with
    | infinity => exact hv.elim
    | notANumber => exact hv.elim
    | zero t =>
      refine ⟨hu, ?_⟩
      show Nearest (_ + 0) _
      rw [add_zero]
      exact nearest_self (hu.onGrid s)
    | finite t k f hk =>
      have h := normalize_roundsTo
        (s.apply (decreaseExponent m e (min e f)).1 + t.apply (decreaseExponent k f (min e f)).1)
        (min e f) .positive
      rw [Int.cast_add, add_mul, ← decreaseExponent_value (min_le_left e f),
        ← decreaseExponent_value (min_le_right e f)] at h
      exact h

theorem unpackedValue_neg (u : UnpackedFloat) : unpackedValue u.neg = -unpackedValue u := by
  cases u with
  | finite s m e hm => exact signed_neg s _
  | zero s => exact neg_zero.symm
  | infinity s => exact signed_neg s _
  | notANumber => exact neg_zero.symm

theorem IsNormalized.neg {u : UnpackedFloat} (h : IsNormalized u) : IsNormalized u.neg := by
  cases u <;> exact h

theorem unpacked_sub (spec : Float.Model.Format) (u v : UnpackedFloat) :
    UnpackedFloat.sub spec u v = UnpackedFloat.add spec u v.neg := by
  cases u with
  | notANumber => cases v <;> rfl
  | infinity s => cases v <;> rfl
  | zero s => cases v <;> rfl
  | finite s m e hm =>
    cases v with
    | finite t k f hk =>
      have happly (n : ℤ) : s.apply (decreaseExponent m e (min e f)).1 - t.apply n =
          s.apply (decreaseExponent m e (min e f)).1 + (-t).apply n := by
        cases t
        · exact sub_neg_eq_add _ _
        · exact Int.sub_eq_add_neg
      exact congrArg (UnpackedFloat.normalize spec · (min e f) .positive) (happly _)
    | _ => rfl

-- ---------------------------------------------------------------------------
-- Products
-- ---------------------------------------------------------------------------

theorem mul_exponent_le {m k : ℕ} {e f : ℤ} (hm : 0 < m) (hk : 0 < k) (h : Normalized m e)
    (h' : Normalized k f) :
    e + f ≤ Format.targetExponent .binary32 (totalExponent (m * k) (e + f)) := by
  rw [targetExponent_binary32, totalExponent]
  have hlog {n : ℕ} (hn : 2 ^ 23 ≤ n) (hle : n ≤ m * k) : 23 ≤ (m * k).log2 :=
    (Nat.le_log2 (Nat.mul_pos hm hk).ne').2 (hn.trans hle)
  rcases h.full with hfull | rfl
  · have := hlog hfull (Nat.le_mul_of_pos_right m hk)
    omega
  · rcases h'.full with hfull | rfl
    · have := hlog hfull (Nat.le_mul_of_pos_left k hm)
      omega
    · omega

theorem mul_roundsTo {u v : UnpackedFloat} (hu : IsNormalized u) (hv : IsNormalized v) :
    RoundsTo (unpackedValue u * unpackedValue v) (UnpackedFloat.mul .binary32 u v) := by
  cases u with
  | infinity => exact hu.elim
  | notANumber => exact hu.elim
  | zero s =>
    cases v with
    | infinity => exact hv.elim
    | notANumber => exact hv.elim
    | _ =>
      refine ⟨trivial, ?_⟩
      show Nearest (0 * _) 0
      rw [zero_mul]
      exact nearest_self onGrid_zero
  | finite s m e hm =>
    cases v with
    | infinity => exact hv.elim
    | notANumber => exact hv.elim
    | zero t =>
      refine ⟨trivial, ?_⟩
      show Nearest (_ * 0) 0
      rw [mul_zero]
      exact nearest_self onGrid_zero
    | finite t k f hk =>
      have hproduct : ((m * k : ℕ) : ℚ) * 2 ^ (e + f) = m * 2 ^ e * (k * 2 ^ f) := by
        rw [zpow_add₀ two_ne_zero]
        push_cast
        ring
      have h := roundWithAccuracy_nearest (represents_exact (m * k)) (mul_exponent_le hm hk hu hv)
        (s * t)
      rw [hproduct, signed_mul] at h
      exact h

-- ---------------------------------------------------------------------------
-- Quotients
-- ---------------------------------------------------------------------------

theorem represents_div (a : ℕ) {b : ℕ} (hb : 0 < b) :
    Represents (ExtendedMantissa.ofMantissaAndAccuracy (a / b) (accuracyOfFraction (a % b) b))
      (a / b : ℚ) := by
  have hpos : (0 : ℚ) < b := by exact_mod_cast hb
  have hsum : (a : ℚ) / b = (a / b : ℕ) + (a % b : ℕ) / b := by
    rw [div_eq_iff hpos.ne', add_mul, div_mul_cancel₀ _ hpos.ne', mul_comm]
    exact_mod_cast (Nat.div_add_mod a b).symm
  have hlt : ((a % b : ℕ) : ℚ) / b < 1 := by
    rw [div_lt_one hpos]
    exact_mod_cast Nat.mod_lt a hb
  rw [hsum, accuracyOfFraction]
  generalize a % b = r at hlt
  by_cases hzero : r = 0
  · rw [if_pos hzero, hzero, Nat.cast_zero, zero_div, add_zero]
    exact represents_exact _
  · have hr : (0 : ℚ) < r / b := div_pos (by exact_mod_cast Nat.pos_of_ne_zero hzero) hpos
    rw [if_neg hzero]
    rcases lt_trichotomy (2 * r) b with hhalf | hhalf | hhalf
    · have : (r : ℚ) / b < 1 / 2 := by
        rw [div_lt_div_iff₀ hpos two_pos]
        exact_mod_cast (by omega : r * 2 < 1 * b)
      rw [compare_lt_iff_lt.2 hhalf]
      exact ⟨by linarith, by linarith⟩
    · have : (r : ℚ) / b = 1 / 2 := by
        rw [div_eq_div_iff hpos.ne' two_ne_zero]
        exact_mod_cast (by omega : r * 2 = 1 * b)
      rw [compare_eq_iff_eq.2 hhalf, this]
      rfl
    · have : 1 / 2 < (r : ℚ) / b := by
        rw [div_lt_div_iff₀ two_pos hpos]
        exact_mod_cast (by omega : 1 * b < r * 2)
      rw [compare_gt_iff_gt.2 hhalf]
      exact ⟨by linarith, by linarith⟩

theorem exists_divCore {m k : ℕ} (hm : 0 < m) (e : ℤ) (hk : 0 < k) (f : ℤ) :
    ∃ (exponent : ℤ) (shift : ℕ),
      divCore .binary32 m e k f =
        ((m <<< shift) / k, exponent, accuracyOfFraction ((m <<< shift) % k) k) ∧
      exponent + shift + f = e ∧
      exponent ≤ Format.targetExponent .binary32 (totalExponent ((m <<< shift) / k) exponent) := by
  refine ⟨_, _, rfl, by omega, ?_⟩
  generalize hexponent : min (e - f) _ = exponent
  generalize hshift : (e - f - exponent).toNat = shift
  rw [targetExponent_binary32, totalExponent, totalExponent] at hexponent
  rw [targetExponent_binary32, totalExponent, Nat.shiftLeft_eq]
  by_cases hleast : exponent ≤ -149
  · exact hleast.trans (le_max_right _ _)
  have hfull : 23 ≤ (m * 2 ^ shift / k).log2 := by
    have hlarge : 2 ^ 23 * k ≤ m * 2 ^ shift :=
      calc 2 ^ 23 * k ≤ 2 ^ 23 * 2 ^ (k.log2 + 1) := Nat.mul_le_mul_left _ Nat.lt_log2_self.le
        _ = 2 ^ (23 + (k.log2 + 1)) := (pow_add 2 _ _).symm
        _ ≤ 2 ^ (m.log2 + shift) := Nat.pow_le_pow_right (by decide) (by omega)
        _ = 2 ^ m.log2 * 2 ^ shift := pow_add 2 _ _
        _ ≤ m * 2 ^ shift := Nat.mul_le_mul_right _ (Nat.log2_self_le hm.ne')
    have hquotient : 2 ^ 23 ≤ m * 2 ^ shift / k := (Nat.le_div_iff_mul_le hk).2 hlarge
    exact (Nat.le_log2 (by omega)).2 hquotient
  omega

theorem div_roundsTo {u v : UnpackedFloat} (hu : IsNormalized u) (hv : IsNormalized v)
    (hne : unpackedValue v ≠ 0) :
    RoundsTo (unpackedValue u / unpackedValue v) (UnpackedFloat.div .binary32 u v) := by
  cases v with
  | infinity => exact hv.elim
  | notANumber => exact hv.elim
  | zero => exact absurd rfl hne
  | finite t k f hk =>
    cases u with
    | infinity => exact hu.elim
    | notANumber => exact hu.elim
    | zero s =>
      refine ⟨trivial, ?_⟩
      show Nearest (0 / _) 0
      rw [zero_div]
      exact nearest_self onGrid_zero
    | finite s m e hm =>
      obtain ⟨exponent, shift, hcore, hshift, hle⟩ := exists_divCore hm e hk f
      have hscale := (two_zpow_pos exponent).ne'
      have hquotient : ((m <<< shift : ℕ) : ℚ) / k * 2 ^ exponent = m * 2 ^ e / (k * 2 ^ f) := by
        rw [Nat.shiftLeft_eq, ← hshift, zpow_add₀ two_ne_zero, zpow_add₀ two_ne_zero, zpow_natCast]
        push_cast
        rw [← mul_assoc, ← mul_assoc, mul_div_mul_right _ _ (two_zpow_pos f).ne']
        ring
      have h := roundWithAccuracy_nearest (represents_div (m <<< shift) hk) hle (s / t)
      rw [hquotient, signed_div] at h
      have hdiv : UnpackedFloat.div .binary32 (.finite s m e hm) (.finite t k f hk) =
          roundWithAccuracy .binary32 (s / t) (m <<< shift / k) exponent
            (accuracyOfFraction (m <<< shift % k) k) := by
        show (match divCore .binary32 m e k f with
          | (q, x, accuracy) => roundWithAccuracy .binary32 (s / t) q x accuracy) = _
        rw [hcore]
      rw [hdiv]
      exact h

end FractalCurve.Number
