import FractalCurve.Proofs.RoundedOperations

/-!
# The size of rounded numbers

A number that is at most a power of two stays so when it is rounded, whatever
the format: the power itself is one of the numbers of the format. So the size of
a result follows from the sizes of the operands, in double precision as in
single precision.
-/

namespace FractalCurve.Number

open Float.Model Float.Model.UnpackedFloat

/-- Finite and at most `2 ^ k` in size. The last place is one that the format has,
and no higher than a number of that size needs at full precision. -/
def SizeUpTo (spec : Float.Model.Format) (k : ℤ) : UnpackedFloat → Prop
  | .zero _ => True
  | .finite _ m e _ =>
    spec.minExponent ≤ e ∧ e + spec.mantissaBitsWithoutImplicit ≤ k ∧ (m : ℚ) * 2 ^ e ≤ 2 ^ k
  | .infinity _ | .notANumber => False

section

variable {spec : Float.Model.Format} {m : ℕ} {e k : ℤ}

theorem minExponent_eq (spec : Float.Model.Format) :
    spec.minExponent = 1 - spec.exponentBias - spec.mantissaBitsWithoutImplicit := by
  have hpow : 1 ≤ 2 ^ (spec.exponentBits - 1) := Nat.one_le_two_pow
  have hbits : spec.mantissaBits = 1 + spec.mantissaBitsWithoutImplicit := rfl
  rw [Format.minExponent, Format.exponentBias, hbits, Nat.cast_sub hpow]
  push_cast
  ring

/-- Powers of two that are normal numbers and not next to an end of the range. -/
def InRange (spec : Float.Model.Format) (k : ℤ) : Prop :=
  2 ≤ k + spec.exponentBias ∧ k + spec.exponentBias + 1 < (2 ^ spec.exponentBits : ℕ)

theorem InRange.least_le (h : InRange spec k) :
    spec.minExponent + spec.mantissaBitsWithoutImplicit ≤ k := by
  have hlow := h.1
  rw [minExponent_eq]
  omega

theorem exponent_le_of_size {m : ℕ} (hpos : 0 < m) {e k : ℤ} (h : (m : ℚ) * 2 ^ e ≤ 2 ^ k) :
    m.log2 + e ≤ k := by
  have hlow : (2 : ℚ) ^ m.log2 ≤ m := by exact_mod_cast Nat.log2_self_le hpos.ne'
  refine (zpow_le_zpow_iff_right₀ one_lt_two).1 (le_trans ?_ h)
  rw [zpow_add₀ two_ne_zero, zpow_natCast]
  gcongr

theorem targetExponent_le_of_size (hk : spec.minExponent + spec.mantissaBitsWithoutImplicit ≤ k)
    (he : e ≤ k) (h : (m : ℚ) * 2 ^ e ≤ 2 ^ k) :
    spec.targetExponent (totalExponent m e) + spec.mantissaBitsWithoutImplicit ≤ k := by
  have hbits : spec.mantissaBits = 1 + spec.mantissaBitsWithoutImplicit := rfl
  have hlog : m.log2 + e ≤ k := by
    rcases Nat.eq_zero_or_pos m with rfl | hpos
    · simpa using he
    · exact exponent_le_of_size hpos h
  rw [Format.targetExponent, totalExponent, hbits]
  omega

theorem exists_shift_of_size (hk : spec.minExponent + spec.mantissaBitsWithoutImplicit ≤ k)
    (he : e + spec.mantissaBitsWithoutImplicit ≤ k) (h : (m : ℚ) * 2 ^ e ≤ 2 ^ k) :
    ∃ em t, shiftToTargetExponent spec m e .exact = (em, t) ∧ spec.minExponent ≤ t ∧
      t + spec.mantissaBitsWithoutImplicit ≤ k ∧ Represents em (m * 2 ^ e / 2 ^ t) := by
  have htarget := targetExponent_le_of_size hk (by omega) h
  have hleast : spec.minExponent ≤ spec.targetExponent (totalExponent m e) := le_max_right _ _
  generalize hn : (spec.targetExponent (totalExponent m e) - e).toNat = n
  refine ⟨_, e + n, by rw [shiftToTargetExponent, shiftToExponent, hn], by omega, by omega, ?_⟩
  rw [div_two_zpow_add]
  exact (represents_exact m).shiftRight n

/-- A power of two stays an upper bound when a number is rounded. -/
theorem sizeUpTo_roundWithAccuracy
    (hk : spec.minExponent + spec.mantissaBitsWithoutImplicit ≤ k)
    (he : e + spec.mantissaBitsWithoutImplicit ≤ k) (h : (m : ℚ) * 2 ^ e ≤ 2 ^ k) (sign : Sign) :
    SizeUpTo spec k (roundWithAccuracy spec sign m e .exact) := by
  obtain ⟨em, t, hfirst, -, hlast, hem⟩ := exists_shift_of_size hk he h
  have hrounded : (em.roundedMantissa : ℚ) * 2 ^ t ≤ 2 ^ k := by
    obtain ⟨j, hj⟩ : ∃ j : ℕ, k = j + t := ⟨(k - t).toNat, by omega⟩
    have hquotient : (m : ℚ) * 2 ^ e / 2 ^ t ≤ 2 ^ j := by
      rw [div_le_iff₀ (two_zpow_pos t), ← zpow_natCast, ← zpow_add₀ two_ne_zero, ← hj]
      exact h
    have hclose := (abs_le.1 hem.close).2
    have hwhole : em.roundedMantissa ≤ 2 ^ j := by
      have hlt : (em.roundedMantissa : ℚ) < (2 ^ j + 1 : ℕ) := by
        push_cast
        linarith
      exact Nat.lt_succ_iff.1 (by exact_mod_cast hlt)
    rw [hj, zpow_add₀ two_ne_zero, zpow_natCast]
    gcongr
    exact_mod_cast hwhole
  obtain ⟨em', t', hsecond, hleast', hlast', hem'⟩ := exists_shift_of_size hk hlast hrounded
  unfold roundWithAccuracy
  rw [hfirst]
  dsimp only
  rw [hsecond]
  by_cases hzero : em'.mantissa = 0
  · rw [dif_pos hzero]
    trivial
  · rw [dif_neg hzero]
    refine ⟨hleast', hlast', ?_⟩
    calc (em'.mantissa : ℚ) * 2 ^ t' ≤ em.roundedMantissa * 2 ^ t / 2 ^ t' * 2 ^ t' := by
          gcongr
          exact hem'.mantissa_le
      _ = em.roundedMantissa * 2 ^ t := div_mul_cancel₀ _ (two_zpow_pos t').ne'
      _ ≤ 2 ^ k := hrounded

theorem sizeUpTo_round (hk : spec.minExponent + spec.mantissaBitsWithoutImplicit ≤ k)
    (hm : 0 < m) (h : (m : ℚ) * 2 ^ e ≤ 2 ^ k) (sign : Sign) :
    SizeUpTo spec k (UnpackedFloat.round spec sign m e) := by
  have hlog := exponent_le_of_size hm h
  have htarget := targetExponent_le_of_size hk (by omega) h
  unfold UnpackedFloat.round decreaseExponent
  dsimp only
  generalize spec.targetExponent (totalExponent m e) = t at *
  refine sizeUpTo_roundWithAccuracy hk (by omega) ?_ sign
  rw [shiftLeft_mul_two_zpow]
  exact h

theorem sizeUpTo_normalize (hk : spec.minExponent + spec.mantissaBitsWithoutImplicit ≤ k)
    {n : ℤ} (h : |(n : ℚ) * 2 ^ e| ≤ 2 ^ k) (zeroSign : Sign) :
    SizeUpTo spec k (UnpackedFloat.normalize spec n e zeroSign) := by
  obtain ⟨hlow, hhigh⟩ := abs_le.1 h
  unfold UnpackedFloat.normalize
  rcases lt_trichotomy n 0 with hlt | rfl | hgt
  · rw [compare_lt_iff_lt.2 hlt]
    have hm : (((-n).toNat : ℕ) : ℚ) = -n := by exact_mod_cast Int.toNat_of_nonneg (by omega)
    refine sizeUpTo_round hk (by omega) ?_ .negative
    rw [hm]
    linarith
  · rw [compare_eq_iff_eq.2 rfl]
    trivial
  · rw [compare_gt_iff_gt.2 hgt]
    have hm : ((n.toNat : ℕ) : ℚ) = n := by exact_mod_cast Int.toNat_of_nonneg hgt.le
    refine sizeUpTo_round hk (by omega) ?_ .positive
    rw [hm]
    exact hhigh

-- ---------------------------------------------------------------------------
-- Operations
-- ---------------------------------------------------------------------------

namespace SizeUpTo

variable {j : ℤ} {u v : UnpackedFloat}

theorem mono (h : SizeUpTo spec j u) (hle : j ≤ k) : SizeUpTo spec k u := by
  cases u with
  | zero => trivial
  | infinity => exact h.elim
  | notANumber => exact h.elim
  | finite s m e hm =>
    obtain ⟨hleast, hlast, hsize⟩ := h
    exact ⟨hleast, hlast.trans hle, hsize.trans (zpow_le_zpow_right₀ one_le_two hle)⟩

theorem isFinite (h : SizeUpTo spec k u) : u.isFinite = true := by
  cases u with
  | zero => rfl
  | finite => rfl
  | infinity => exact h.elim
  | notANumber => exact h.elim

theorem abs_le (h : SizeUpTo spec k u) : |unpackedValue u| ≤ 2 ^ k := by
  cases u with
  | infinity => exact h.elim
  | notANumber => exact h.elim
  | zero =>
    show |(0 : ℚ)| ≤ 2 ^ k
    rw [abs_zero]
    exact (two_zpow_pos k).le
  | finite s m e hm =>
    rw [unpackedValue_finite, abs_signed, abs_of_pos (magnitude_pos hm e)]
    exact h.2.2

theorem neg (h : SizeUpTo spec k u) : SizeUpTo spec k u.neg := by
  cases u <;> exact h

theorem add (hk : spec.minExponent + spec.mantissaBitsWithoutImplicit ≤ k)
    (hu : SizeUpTo spec k u) (hv : SizeUpTo spec k v) :
    SizeUpTo spec (k + 1) (UnpackedFloat.add spec u v) := by
  have hnext : k ≤ k + 1 := by omega
  cases u with
  | infinity => exact hu.elim
  | notANumber => exact hu.elim
  | zero s =>
    cases v with
    | infinity => exact hv.elim
    | notANumber => exact hv.elim
    | zero t => cases s <;> cases t <;> trivial
    | finite => exact hv.mono hnext
  | finite s m e hm =>
    cases v with
    | infinity => exact hv.elim
    | notANumber => exact hv.elim
    | zero => exact hu.mono hnext
    | finite t n f hn =>
      have hsum : |signed s (m * 2 ^ e) + signed t (n * 2 ^ f)| ≤ 2 ^ (k + 1) :=
        calc |signed s (m * 2 ^ e) + signed t (n * 2 ^ f)|
            ≤ |signed s (m * 2 ^ e)| + |signed t (n * 2 ^ f)| := abs_add_le _ _
          _ ≤ 2 ^ k + 2 ^ k := add_le_add hu.abs_le hv.abs_le
          _ = 2 ^ (k + 1) := by rw [zpow_add_one₀ two_ne_zero, mul_two]
      rw [decreaseExponent_value (min_le_left e f), decreaseExponent_value (min_le_right e f),
        ← add_mul, ← Int.cast_add] at hsum
      exact sizeUpTo_normalize (hk.trans hnext) hsum .positive

theorem sub (hk : spec.minExponent + spec.mantissaBitsWithoutImplicit ≤ k)
    (hu : SizeUpTo spec k u) (hv : SizeUpTo spec k v) :
    SizeUpTo spec (k + 1) (UnpackedFloat.sub spec u v) := by
  rw [unpacked_sub]
  exact hu.add hk hv.neg

theorem mul (hk : spec.minExponent + spec.mantissaBitsWithoutImplicit ≤ j + k)
    (hu : SizeUpTo spec j u) (hv : SizeUpTo spec k v) :
    SizeUpTo spec (j + k) (UnpackedFloat.mul spec u v) := by
  cases u with
  | infinity => exact hu.elim
  | notANumber => exact hu.elim
  | zero =>
    cases v with
    | infinity => exact hv.elim
    | notANumber => exact hv.elim
    | _ => trivial
  | finite s m e hm =>
    cases v with
    | infinity => exact hv.elim
    | notANumber => exact hv.elim
    | zero => trivial
    | finite t n f hn =>
      obtain ⟨-, hlast, hsize⟩ := hu
      obtain ⟨-, hlast', hsize'⟩ := hv
      refine sizeUpTo_roundWithAccuracy hk (by omega) ?_ (s * t)
      calc ((m * n : ℕ) : ℚ) * 2 ^ (e + f) = m * 2 ^ e * (n * 2 ^ f) := by
            rw [zpow_add₀ two_ne_zero]
            push_cast
            ring
        _ ≤ 2 ^ j * 2 ^ k := mul_le_mul hsize hsize' (magnitude_pos hn f).le (two_zpow_pos j).le
        _ = 2 ^ (j + k) := (zpow_add₀ two_ne_zero j k).symm

end SizeUpTo

/-- The way of numbers with more digits than a mantissa. -/
theorem sizeUpTo_ofScientific {n : ℕ}
    (hk : spec.minExponent + spec.mantissaBitsWithoutImplicit ≤ k) (hnonneg : 0 ≤ k) (hn : n ≠ 0)
    (h : (n : ℚ) ≤ 2 ^ k) : SizeUpTo spec k (UnpackedFloat.ofScientific spec n 0) := by
  have hrange : (0 : ℤ) ≤ 2 ^ spec.exponentBits := by positivity
  have hsize : ((n <<< spec.mantissaBits * 10 ^ (0 : ℤ).toNat : ℕ) : ℚ) *
      2 ^ (-(spec.mantissaBits : ℤ) + 0) ≤ 2 ^ k := by
    have hshift := shiftLeft_mul_two_zpow n spec.mantissaBits 0
    rw [zpow_zero, mul_one, zero_sub] at hshift
    rw [Int.toNat_zero, pow_zero, mul_one, add_zero, hshift]
    exact h
  have hbits : spec.mantissaBits = 1 + spec.mantissaBitsWithoutImplicit := rfl
  unfold UnpackedFloat.ofScientific
  rw [dif_neg hn, if_neg (by omega), if_neg (by omega), if_pos le_rfl]
  exact sizeUpTo_roundWithAccuracy hk (by omega) hsize _

-- ---------------------------------------------------------------------------
-- Patterns
-- ---------------------------------------------------------------------------

/-- Up to the sign, numbers are ordered as their patterns are. -/
theorem sizeUpTo_unpack {b : BitVec spec.numBits} (hk : InRange spec k)
    (h : (unpackExponent b).toNat * 2 ^ spec.mantissaBitsWithoutImplicit +
      (unpackMantissa b).toNat ≤
        (k + spec.exponentBias).toNat * 2 ^ spec.mantissaBitsWithoutImplicit) :
    SizeUpTo spec k (UnpackedFloat.unpack spec b) := by
  obtain ⟨hlow, hhigh⟩ := hk
  obtain ⟨n, hn⟩ : ∃ n : ℕ, k + spec.exponentBias = (n + 2 : ℕ) :=
    ⟨(k + spec.exponentBias - 2).toNat, by omega⟩
  rw [hn, Int.toNat_natCast] at h
  have hmantissa := (unpackMantissa b).isLt
  have hbiased : (unpackExponent b).toNat ≤ n + 2 :=
    Nat.le_of_mul_le_mul_right (by omega : _ * 2 ^ spec.mantissaBitsWithoutImplicit ≤ _)
      (Nat.two_pow_pos _)
  obtain ⟨hinfinite, -⟩ | ⟨-, ⟨-, -, sign, hzero⟩ | ⟨sign, m, e, hm, hunpack, hfull, he⟩⟩ :=
    unpack_cases b
  · rw [hinfinite, BitVec.neg_one_eq_allOnes, BitVec.toNat_allOnes] at hbiased
    omega
  · rw [hzero]
    trivial
  · rw [hunpack]
    generalize (unpackExponent b).toNat = biased at *
    generalize (unpackMantissa b).toNat = fraction at *
    refine ⟨by rw [minExponent_eq]; omega, by omega, ?_⟩
    rcases hbiased.lt_or_eq with hlt | rfl
    · have hwidth : m ≤ 2 ^ (spec.mantissaBitsWithoutImplicit + 1) := by
        rw [hfull, pow_succ, Nat.mul_two]
        exact Nat.add_le_add ((Nat.mul_le_mul_right _ (min_le_left 1 _)).trans_eq (Nat.one_mul _))
          hmantissa.le
      calc (m : ℚ) * 2 ^ e ≤ 2 ^ (spec.mantissaBitsWithoutImplicit + 1) * 2 ^ e := by
            gcongr
            exact_mod_cast hwidth
        _ = 2 ^ ((spec.mantissaBitsWithoutImplicit + 1 : ℕ) + e) := by
            rw [zpow_add₀ two_ne_zero, zpow_natCast]
        _ ≤ 2 ^ k := zpow_le_zpow_right₀ one_le_two (by omega)
    · -- the power of two itself
      have hpower : m = 2 ^ spec.mantissaBitsWithoutImplicit := by
        rw [hfull, Nat.min_eq_left (by omega)]
        omega
      rw [hpower, Nat.cast_pow, Nat.cast_ofNat, ← zpow_natCast, ← zpow_add₀ two_ne_zero]
      exact zpow_le_zpow_right₀ one_le_two (by omega)

/-- The last place and the number of places bound the size. -/
theorem FiniteUpTo.sizeUpTo {b : BitVec spec.numBits}
    (h : FiniteUpTo (k - spec.mantissaBits) (UnpackedFloat.unpack spec b)) :
    SizeUpTo spec k (UnpackedFloat.unpack spec b) := by
  have hbits : spec.mantissaBits = 1 + spec.mantissaBitsWithoutImplicit := rfl
  obtain ⟨-, hinfinite⟩ | ⟨-, ⟨-, -, sign, hzero⟩ | ⟨sign, m, e, hm, hunpack, -, he⟩⟩ :=
    unpack_cases b
  · rw [h.isFinite] at hinfinite
    cases hinfinite
  · rw [hzero]
    trivial
  · have hlt := mantissa_lt_of_unpack hunpack
    rw [hunpack] at h ⊢
    have hlast : e ≤ k - spec.mantissaBits := h
    refine ⟨by rw [minExponent_eq]; omega, by omega, ?_⟩
    calc (m : ℚ) * 2 ^ e ≤ 2 ^ spec.mantissaBits * 2 ^ e := by
          gcongr
          exact_mod_cast hlt.le
      _ = 2 ^ (spec.mantissaBits + e) := by rw [zpow_add₀ two_ne_zero, zpow_natCast]
      _ ≤ 2 ^ k := zpow_le_zpow_right₀ one_le_two (by omega)

theorem sizeUpTo_unpack_pack (hk : InRange spec k) {u : UnpackedFloat} (h : SizeUpTo spec k u) :
    SizeUpTo spec k (UnpackedFloat.unpack spec (UnpackedFloat.pack spec u)) := by
  have hlow := hk.1
  have hhigh := hk.2
  have hsmall (sign : Sign) (fraction : BitVec spec.mantissaBitsWithoutImplicit) :
      SizeUpTo spec k (UnpackedFloat.unpack spec (packComponents spec sign 0#_ fraction)) := by
    refine sizeUpTo_unpack hk ?_
    rw [unpackExponent_packComponents, unpackMantissa_packComponents, BitVec.toNat_zero,
      Nat.zero_mul, Nat.zero_add]
    exact fraction.isLt.le.trans (Nat.le_mul_of_pos_left _ (by omega))
  cases u with
  | infinity => exact h.elim
  | notANumber => exact h.elim
  | zero sign => exact hsmall sign 0#_
  | finite sign m e hm =>
    obtain ⟨hleast, hlast, hsize⟩ := h
    have hbits : spec.mantissaBits = spec.mantissaBitsWithoutImplicit + 1 := Nat.add_comm _ _
    rw [minExponent_eq] at hleast
    unfold UnpackedFloat.pack
    dsimp only
    rw [if_neg (by omega)]
    by_cases hfull : m.log2 + 1 = spec.mantissaBits
    · rw [if_pos hfull]
      obtain ⟨hlow, hhigh⟩ := (Nat.log2_eq_iff hm.ne').1 (Nat.succ_injective (hfull.trans hbits))
      refine sizeUpTo_unpack hk ?_
      rw [unpackExponent_packComponents, unpackMantissa_packComponents, BitVec.toNat_ofNat,
        BitVec.toNat_ofNat, Nat.mod_eq_of_lt (by omega), Nat.mod_eq_sub_mod hlow,
        Nat.mod_eq_of_lt (by omega)]
      generalize hplace : (e + spec.exponentBias + spec.mantissaBitsWithoutImplicit).toNat = place
      generalize hlimit : (k + spec.exponentBias).toNat = limit
      obtain hlt | rfl : place + 1 ≤ limit ∨ place = limit := by omega
      · have hproduct := Nat.mul_le_mul_right (2 ^ spec.mantissaBitsWithoutImplicit) hlt
        rw [Nat.add_mul] at hproduct
        omega
      · have hpower : m ≤ 2 ^ spec.mantissaBitsWithoutImplicit := by
          have hk : k = spec.mantissaBitsWithoutImplicit + e := by omega
          rw [hk, zpow_add₀ two_ne_zero, zpow_natCast] at hsize
          exact_mod_cast le_of_mul_le_mul_right hsize (two_zpow_pos e)
        omega
    · rw [if_neg hfull]
      exact hsmall sign _

end

end FractalCurve.Number
