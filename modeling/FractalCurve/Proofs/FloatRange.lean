import FractalCurve.Json.Number
import Mathlib.Algebra.Order.Ring.Nat

/-!
# The range of floats

A pattern is opened down to sign, mantissa and exponent, in single and in double
precision alike. Its fields tell whether it is finite and how large it can be.

`unpack_cases`: all that a pattern can stand for. `isSome_decode`: decoding a
pattern to whole numbers gives a value just when the pattern is finite.
-/

namespace FractalCurve.Number

open Float.Model Float.Model.UnpackedFloat

-- ---------------------------------------------------------------------------
-- Patterns
-- ---------------------------------------------------------------------------

/-- Finite, and its last place counts at most `2 ^ bound`. -/
def FiniteUpTo (bound : Int) : UnpackedFloat → Prop
  | .zero _ => True
  | .finite _ _ e _ => e ≤ bound
  | .infinity _ | .notANumber => False

instance (bound : Int) : DecidablePred (FiniteUpTo bound)
  | .zero _ => isTrue trivial
  | .finite _ _ e _ => inferInstanceAs (Decidable (e ≤ bound))
  | .infinity _ | .notANumber => isFalse id

theorem FiniteUpTo.isFinite {bound : Int} {u : UnpackedFloat} (h : FiniteUpTo bound u) :
    u.isFinite = true := by
  cases u with
  | finite => rfl
  | zero => rfl
  | infinity => exact h.elim
  | notANumber => exact h.elim

theorem toNat_unpackExponent {spec : Float.Model.Format} (b : BitVec spec.numBits) :
    (unpackExponent b).toNat =
      b.toNat / 2 ^ spec.mantissaBitsWithoutImplicit % 2 ^ spec.exponentBits := by
  have hwidth : spec.mantissaBitsWithoutImplicit + spec.exponentBits - 1 -
      spec.mantissaBitsWithoutImplicit + 1 = spec.exponentBits := by
    have := spec.he
    omega
  rw [unpackExponent, BitVec.toNat_cast, BitVec.extractLsb_toNat, Nat.shiftRight_eq_div_pow, hwidth]

theorem toNat_unpackMantissa {spec : Float.Model.Format} (b : BitVec spec.numBits) :
    (unpackMantissa b).toNat = b.toNat % 2 ^ spec.mantissaBitsWithoutImplicit := by
  have hwidth :
      spec.mantissaBitsWithoutImplicit - 1 - 0 + 1 = spec.mantissaBitsWithoutImplicit := by
    have := spec.hm
    omega
  rw [unpackMantissa, BitVec.toNat_cast, BitVec.extractLsb_toNat, Nat.shiftRight_zero, hwidth]

/-- What a pattern can stand for. A subnormal number lacks the implicit bit of
the mantissa, and has the exponent of the smallest normal ones. -/
theorem unpack_cases {spec : Float.Model.Format} (b : BitVec spec.numBits) :
    (unpackExponent b = -1#_ ∧ (UnpackedFloat.unpack spec b).isFinite = false) ∨
      (unpackExponent b ≠ -1#_ ∧
        (((unpackExponent b).toNat = 0 ∧ (unpackMantissa b).toNat = 0 ∧
            ∃ sign, UnpackedFloat.unpack spec b = .zero sign) ∨
          ∃ sign m e hm, UnpackedFloat.unpack spec b = .finite sign m e hm ∧
            m = min 1 (unpackExponent b).toNat * 2 ^ spec.mantissaBitsWithoutImplicit +
              (unpackMantissa b).toNat ∧
            e + spec.exponentBias + spec.mantissaBitsWithoutImplicit =
              (max 1 (unpackExponent b).toNat : Nat))) := by
  unfold UnpackedFloat.unpack
  dsimp only
  by_cases hones : unpackExponent b = -1#_
  · refine .inl ⟨hones, ?_⟩
    rw [if_pos hones]
    by_cases hzero : unpackMantissa b = 0#_
    · rw [if_pos hzero]
      rfl
    · rw [if_neg hzero]
      rfl
  · refine .inr ⟨hones, ?_⟩
    rw [if_neg hones]
    by_cases hleast : unpackExponent b = 0#_
    · have hnat : (unpackExponent b).toNat = 0 := by simp [hleast]
      rw [if_pos hleast]
      by_cases hzero : unpackMantissa b = 0#_
      · rw [dif_pos hzero]
        exact .inl ⟨hnat, by simp [hzero], _, rfl⟩
      · have hpos : (unpackMantissa b).toNat ≠ 0 := fun h => hzero (BitVec.eq_of_toNat_eq h)
        rw [dif_neg hzero]
        exact .inr ⟨_, _, _, Nat.pos_of_ne_zero hpos, rfl, by simp [hnat], by omega⟩
    · have hpos : (unpackExponent b).toNat ≠ 0 := fun h => hleast (BitVec.eq_of_toNat_eq h)
      have hmantissa : 0 < (1#1 ++ unpackMantissa b).toNat := by simp
      have hfull : (1#1 ++ unpackMantissa b).toNat =
          min 1 (unpackExponent b).toNat * 2 ^ spec.mantissaBitsWithoutImplicit +
            (unpackMantissa b).toNat := by
        rw [BitVec.toNat_append, ← Nat.shiftLeft_add_eq_or_of_lt (BitVec.isLt _),
          Nat.shiftLeft_eq, Nat.min_eq_left (Nat.pos_of_ne_zero hpos)]
        rfl
      rw [if_neg hleast]
      exact .inr ⟨_, _, _, hmantissa, rfl, hfull, by omega⟩

theorem mantissa_lt_of_unpack {spec : Float.Model.Format} {b : BitVec spec.numBits} {sign : Sign}
    {m : Nat} {e : Int} {hm : 0 < m} (h : UnpackedFloat.unpack spec b = .finite sign m e hm) :
    m < 2 ^ spec.mantissaBits := by
  obtain ⟨-, hinfinite⟩ | ⟨-, ⟨-, -, _, hzero⟩ | ⟨_, _, _, _, hfinite, hmantissa, -⟩⟩ :=
    unpack_cases b
  · rw [h] at hinfinite
    cases hinfinite
  · cases h.symm.trans hzero
  · cases h.symm.trans hfinite
    have himplicit := Nat.mul_le_mul_right (2 ^ spec.mantissaBitsWithoutImplicit)
      (Nat.min_le_left 1 (unpackExponent b).toNat)
    have hlt := (unpackMantissa b).isLt
    have hbits : spec.mantissaBits = 1 + spec.mantissaBitsWithoutImplicit := rfl
    rw [hbits, Nat.pow_add]
    omega

theorem isFinite_unpack {spec : Float.Model.Format} (b : BitVec spec.numBits) :
    (UnpackedFloat.unpack spec b).isFinite = decide (unpackExponent b ≠ -1#_) := by
  obtain ⟨hones, hinfinite⟩ | ⟨hones, ⟨-, -, _, hzero⟩ | ⟨_, _, _, _, hfinite, -⟩⟩ :=
    unpack_cases b
  · rw [hinfinite, decide_eq_false (not_not.2 hones)]
  · rw [hzero, decide_eq_true hones]
    rfl
  · rw [hfinite, decide_eq_true hones]
    rfl

/-- Finite, and its last place counts at most `2 ^ bound`. -/
def DoubleUpTo (bound : Int) (x : Float) : Prop := FiniteUpTo bound x.toModel.unpack

instance (bound : Int) (x : Float) : Decidable (DoubleUpTo bound x) :=
  inferInstanceAs (Decidable (FiniteUpTo bound x.toModel.unpack))

-- ---------------------------------------------------------------------------
-- Decoding
-- ---------------------------------------------------------------------------

/-- The two readings of a pattern agree on which of them are finite. -/
theorem isSome_decode {f : BinaryFormat} {spec : Float.Model.Format}
    (hexponent : f.exponentBits = spec.exponentBits)
    (hfraction : f.fractionBits = spec.mantissaBitsWithoutImplicit) (b : BitVec spec.numBits) :
    (f.decode b.toNat).isSome = (UnpackedFloat.unpack spec b).isFinite := by
  have hsome : (f.decode b.toNat).isSome = true ↔ ¬ f.infinityBits ≤ b.toNat % f.signBit := by
    unfold BinaryFormat.decode
    dsimp only
    split
    next hle => simp [hle]
    next hlt => split <;> simpa using hlt
  have hones : unpackExponent b = -1#_ ↔
      2 ^ spec.exponentBits - 1 ≤ b.toNat / 2 ^ spec.mantissaBitsWithoutImplicit %
        2 ^ spec.exponentBits := by
    have hlt := Nat.mod_lt (b.toNat / 2 ^ spec.mantissaBitsWithoutImplicit)
      (Nat.two_pow_pos spec.exponentBits)
    rw [← BitVec.toNat_inj, toNat_unpackExponent, BitVec.neg_one_eq_allOnes, BitVec.toNat_allOnes]
    omega
  have hinfinity : f.infinityBits ≤ b.toNat % f.signBit ↔
      2 ^ spec.exponentBits - 1 ≤ b.toNat / 2 ^ spec.mantissaBitsWithoutImplicit %
        2 ^ spec.exponentBits := by
    have hsign : f.signBit = 2 ^ spec.exponentBits * 2 ^ spec.mantissaBitsWithoutImplicit := by
      rw [← Nat.pow_add, ← hexponent, ← hfraction]
      rfl
    have hlargest : f.infinityBits =
        (2 ^ spec.exponentBits - 1) * 2 ^ spec.mantissaBitsWithoutImplicit := by
      rw [← hexponent, ← hfraction]
      rfl
    rw [hlargest, hsign, ← Nat.le_div_iff_mul_le (Nat.two_pow_pos _), Nat.mod_mul_left_div_self]
  rw [isFinite_unpack, Bool.eq_iff_iff, decide_eq_true_iff, hsome, hinfinity, ← hones]

namespace BinaryFormat

theorem precision_binary32 : binary32.precision = 24 := rfl

theorem fraction_binary32 : twoPow binary32.fractionBits = 2 ^ 23 := by decide

theorem leastExponent_binary32 : binary32.leastExponent = -149 := by decide

theorem infinityBits_binary32 : binary32.infinityBits = 255 * 2 ^ 23 := by decide

theorem signBit_binary32 : binary32.signBit = 2 ^ 31 := by decide

end BinaryFormat

theorem isSome_finite32 (x : Float32) : (finite32 x).isSome = x.isFinite :=
  @isSome_decode .binary32 .binary32 rfl rfl x.toBits.toBitVec

theorem isSome_finite64 (x : Float) : (finite64 x).isSome = x.isFinite :=
  @isSome_decode .binary64 .binary64 rfl rfl x.toBits.toBitVec

end FractalCurve.Number
