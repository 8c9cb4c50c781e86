import FractalCurve.Proofs.RoundedOperations
import Mathlib.Algebra.Order.Group.MinMax

/-!
# The arithmetic of floats

A sum, difference, product or quotient of finite floats is the exact one,
rounded: the nearest number of the grid, or an infinity where that is out of
range. So each operation keeps the order of its operands.
-/

namespace FractalCurve.Number

open Float.Model Float.Model.UnpackedFloat

-- ---------------------------------------------------------------------------
-- Packing
-- ---------------------------------------------------------------------------

theorem pack_finite (s : Sign) {m : ℕ} (e : ℤ) (hm : 0 < m) :
    UnpackedFloat.pack .binary32 (.finite s m e hm) =
      if 2 ^ 8 ≤ (e + 127 + 23).toNat + 1 then packComponents .binary32 s (-1#8) 0
      else if m.log2 + 1 = 24 then
        packComponents .binary32 s (BitVec.ofNat 8 (e + 127 + 23).toNat) (BitVec.ofNat 23 m)
      else packComponents .binary32 s 0#8 (BitVec.ofNat 23 m) := rfl

theorem unpack_pack {s : Sign} {m : ℕ} {e : ℤ} (hm : 0 < m) (h : Normalized m e) :
    UnpackedFloat.unpack .binary32 (UnpackedFloat.pack .binary32 (.finite s m e hm)) =
      if e ≤ 104 then .finite s m e hm else .infinity s := by
  have hleast := h.least
  have hlt := h.lt
  rw [pack_finite]
  by_cases he : e ≤ 104
  · rw [if_pos he, if_neg (by omega)]
    by_cases hfull : 2 ^ 23 ≤ m
    · have hlog : m.log2 + 1 = 24 := by
        rw [(Nat.log2_eq_iff hm.ne').2 ⟨hfull, h.lt⟩]
      have hbiased : (BitVec.ofNat 8 (e + 127 + 23).toNat).toNat = (e + 150).toNat := by
        rw [BitVec.toNat_ofNat]
        omega
      have hfraction : (BitVec.ofNat 23 m).toNat = m - 2 ^ 23 := by
        rw [BitVec.toNat_ofNat]
        omega
      rw [if_pos hlog, unpack_packComponents, hbiased, hfraction, ofFields, if_neg (by omega),
        if_neg (by omega)]
      exact finite_congr rfl (by omega) (by omega)
    · have hlog : m.log2 + 1 ≠ 24 := by
        have := (Nat.log2_lt hm.ne').2 (not_le.1 hfull)
        omega
      have hfraction : (BitVec.ofNat 23 m).toNat = m := by
        rw [BitVec.toNat_ofNat]
        omega
      rw [if_neg hlog, unpack_packComponents, hfraction, ofFields, if_neg (by decide),
        if_pos (by decide), dif_pos hm]
      exact finite_congr rfl rfl (h.full.resolve_left hfull).symm
  · rw [if_neg he, if_pos (by omega)]
    exact unpack_packComponents _ _ _

/-- What is out of range becomes the value that an infinity counts as. -/
def clamp (v : ℚ) : ℚ := max (-2 ^ 128) (min v (2 ^ 128))

theorem clamp_mono {v w : ℚ} (h : v ≤ w) : clamp v ≤ clamp w :=
  max_le_max le_rfl (min_le_min h le_rfl)

theorem clamp_of_abs_le {v : ℚ} (h : |v| ≤ 2 ^ 128) : clamp v = v := by
  rw [clamp, min_eq_left (le_of_abs_le h), max_eq_right (neg_le_of_abs_le h)]

theorem clamp_signed (sign : Sign) {v : ℚ} (h : 0 ≤ v) :
    clamp (signed sign v) = signed sign (min v (2 ^ 128)) := by
  cases sign with
  | negative =>
    show max (-2 ^ 128) (min (-v) (2 ^ 128)) = -min v (2 ^ 128)
    rw [min_eq_left (by linarith), max_neg_neg, min_comm]
  | positive =>
    show max (-2 ^ 128) (min v (2 ^ 128)) = min v (2 ^ 128)
    exact max_eq_right (le_trans (by norm_num) (le_min h (by norm_num)))

/-- The float `x` is what the number `q` is rounded to: the nearest number of the
grid, or an infinity if that is out of range. -/
def IsRounded (q : ℚ) (x : Float32) : Prop :=
  x.isNaN = false ∧ ∃ v, Nearest q v ∧ value x = clamp v

theorem isRounded_pack {q : ℚ} {u : UnpackedFloat} (h : RoundsTo q u) :
    IsRounded q ⟨Float32.Model.pack u⟩ := by
  obtain ⟨hnormalized, hnearest⟩ := h
  suffices h : (Float32.Model.pack u).unpack.isNaN = false ∧
      unpackedValue (Float32.Model.pack u).unpack = clamp (unpackedValue u) from
    ⟨h.1, _, hnearest, h.2⟩
  cases u with
  | infinity => exact hnormalized.elim
  | notANumber => exact hnormalized.elim
  | zero s =>
    have hunpack : (Float32.Model.pack (.zero s)).unpack = .zero s := unpack_packComponents _ _ _
    have hclamp : clamp 0 = 0 := clamp_of_abs_le (by norm_num)
    rw [hunpack]
    exact ⟨rfl, hclamp.symm⟩
  | finite s m e hm =>
    have hunpack : (Float32.Model.pack (.finite s m e hm)).unpack =
        if e ≤ 104 then .finite s m e hm else .infinity s := unpack_pack hm hnormalized
    have hclamp := clamp_signed s (magnitude_pos hm e).le
    rw [hunpack]
    by_cases he : e ≤ 104
    · rw [if_pos he]
      refine ⟨rfl, ?_⟩
      rw [unpackedValue_finite, hclamp, min_eq_left (hnormalized.magnitude_lt_overflow he).le]
    · rw [if_neg he]
      refine ⟨rfl, ?_⟩
      have hfull : 2 ^ 23 ≤ m := hnormalized.full.resolve_right (by omega)
      have hover : (2 : ℚ) ^ 128 ≤ m * 2 ^ e :=
        calc (2 : ℚ) ^ 128 = 2 ^ 23 * 2 ^ (105 : ℤ) := by norm_num
          _ ≤ (m : ℚ) * 2 ^ e := by
            gcongr
            · exact_mod_cast hfull
            · norm_num
            · omega
      rw [unpackedValue_finite, hclamp, min_eq_right hover]
      rfl

-- ---------------------------------------------------------------------------
-- Rounded numbers
-- ---------------------------------------------------------------------------

namespace IsRounded

variable {p q w : ℚ} {x y : Float32}

theorem le_of_le (h : IsRounded q x) (hw : OnGrid w) (hrange : |w| ≤ 2 ^ 128) (hle : q ≤ w) :
    value x ≤ w := by
  obtain ⟨-, v, hnearest, hvalue⟩ := h
  rw [hvalue, ← clamp_of_abs_le hrange]
  exact clamp_mono (hnearest.le_of_le hw hle)

theorem le_of_ge (h : IsRounded q x) (hw : OnGrid w) (hrange : |w| ≤ 2 ^ 128) (hle : w ≤ q) :
    w ≤ value x := by
  obtain ⟨-, v, hnearest, hvalue⟩ := h
  rw [hvalue, ← clamp_of_abs_le hrange]
  exact clamp_mono (hnearest.le_of_ge hw hle)

theorem eq_of_onGrid (h : IsRounded q x) (hq : OnGrid q) (hrange : |q| ≤ 2 ^ 128) :
    value x = q :=
  le_antisymm (h.le_of_le hq hrange le_rfl) (h.le_of_ge hq hrange le_rfl)

/-- Equal numbers may lie in the middle between two of the grid, which `IsRounded`
leaves open; hence the condition. -/
theorem mono (hx : IsRounded p x) (hy : IsRounded q y) (h : p ≤ q)
    (heq : p = q → x = y ∨ OnGrid q ∧ |q| ≤ 2 ^ 128) : value x ≤ value y := by
  rcases h.lt_or_eq with hlt | rfl
  · obtain ⟨-, v, hv, hxvalue⟩ := hx
    obtain ⟨-, w, hw, hyvalue⟩ := hy
    rw [hxvalue, hyvalue]
    exact clamp_mono (hv.mono hw hlt)
  · obtain rfl | ⟨hgrid, hrange⟩ := heq rfl
    · exact le_rfl
    · rw [hx.eq_of_onGrid hgrid hrange, hy.eq_of_onGrid hgrid hrange]

theorem abs_value_le (h : IsRounded q x) {k : ℤ} (hleast : -149 ≤ k) (hmost : k ≤ 128)
    (hq : |q| ≤ 2 ^ k) : |value x| ≤ 2 ^ k := by
  have hgrid := onGrid_two_zpow hleast
  have hrange : |(2 : ℚ) ^ k| ≤ 2 ^ 128 := by
    rw [abs_of_pos (two_zpow_pos k), ← zpow_natCast]
    exact zpow_le_zpow_right₀ one_le_two hmost
  exact abs_le.2 ⟨h.le_of_ge hgrid.neg ((abs_neg _).trans_le hrange) (neg_le_of_abs_le hq),
    h.le_of_le hgrid hrange (le_of_abs_le hq)⟩

theorem isFinite (h : IsRounded q x) {k : ℤ} (hleast : -149 ≤ k) (hmost : k < 128)
    (hq : |q| ≤ 2 ^ k) : x.isFinite = true := by
  refine (isFinite_iff h.1).2 ((h.abs_value_le hleast hmost.le hq).trans_lt ?_)
  rw [← zpow_natCast]
  exact zpow_lt_zpow_right₀ one_lt_two hmost

end IsRounded

-- ---------------------------------------------------------------------------
-- Arithmetic
-- ---------------------------------------------------------------------------

theorem isNormalized_unpack {x : Float32} (h : x.isFinite = true) :
    IsNormalized x.toModel.unpack := by
  have hfinite : x.toModel.unpack.isFinite = true := h
  cases hx : x.toModel.unpack with
  | infinity => rw [hx] at hfinite; cases hfinite
  | notANumber => rw [hx] at hfinite; cases hfinite
  | zero => trivial
  | finite s m e hm => exact (normalized_of_unpack hx).1

theorem onGrid_value {x : Float32} (h : x.isFinite = true) : OnGrid (value x) := by
  have hnormalized := isNormalized_unpack h
  unfold value
  cases hx : x.toModel.unpack with
  | infinity => rw [hx] at hnormalized; exact hnormalized.elim
  | notANumber => exact onGrid_zero
  | zero => exact onGrid_zero
  | finite s m e hm => exact (normalized_of_unpack hx).1.onGrid s

section

variable {x y : Float32} (hx : x.isFinite = true) (hy : y.isFinite = true)

include hx hy

theorem isRounded_add : IsRounded (value x + value y) (x + y) :=
  isRounded_pack (add_roundsTo (isNormalized_unpack hx) (isNormalized_unpack hy))

theorem isRounded_sub : IsRounded (value x - value y) (x - y) := by
  have h := add_roundsTo (isNormalized_unpack hx) (isNormalized_unpack hy).neg
  rw [unpackedValue_neg, ← unpacked_sub, ← sub_eq_add_neg] at h
  exact isRounded_pack h

theorem isRounded_mul : IsRounded (value x * value y) (x * y) :=
  isRounded_pack (mul_roundsTo (isNormalized_unpack hx) (isNormalized_unpack hy))

theorem isRounded_div (hne : value y ≠ 0) : IsRounded (value x / value y) (x / y) :=
  isRounded_pack (div_roundsTo (isNormalized_unpack hx) (isNormalized_unpack hy) hne)

end

theorem mul_eq_or_onGrid {x y z : Float32} (hx : x.isFinite = true) (hy : y.isFinite = true)
    (h : value x * value z = value y * value z) :
    x * z = y * z ∨ OnGrid (value y * value z) ∧ |value y * value z| ≤ 2 ^ 128 := by
  by_cases hzero : value y * value z = 0
  · rw [hzero]
    exact .inr ⟨onGrid_zero, by norm_num⟩
  · have hvalue : value x = value y := mul_right_cancel₀ (right_ne_zero_of_mul hzero) h
    rw [eq_of_value_eq (isNaN_of_isFinite hx) (isNaN_of_isFinite hy) hvalue
      (hvalue ▸ left_ne_zero_of_mul hzero)]
    exact .inl rfl

section

variable {x y z : Float32} (hx : x.isFinite = true) (hy : y.isFinite = true)
  (hz : z.isFinite = true) (h : value x ≤ value y)

include hx hy hz h

theorem value_add_le_add : value (x + z) ≤ value (y + z) := by
  refine (isRounded_add hx hz).mono (isRounded_add hy hz) (by linarith) fun heq => ?_
  have hvalue : value x = value y := add_right_cancel heq
  by_cases hzero : value x = 0
  · rw [← hvalue, hzero, zero_add]
    exact .inr ⟨onGrid_value hz, (abs_value_lt hz).le⟩
  · rw [eq_of_value_eq (isNaN_of_isFinite hx) (isNaN_of_isFinite hy) hvalue hzero]
    exact .inl rfl

theorem value_sub_le_sub : value (x - z) ≤ value (y - z) := by
  refine (isRounded_sub hx hz).mono (isRounded_sub hy hz) (by linarith) fun heq => ?_
  have hvalue : value x = value y := sub_left_injective heq
  by_cases hzero : value x = 0
  · rw [← hvalue, hzero, zero_sub]
    exact .inr ⟨(onGrid_value hz).neg, (abs_neg _).trans_le (abs_value_lt hz).le⟩
  · rw [eq_of_value_eq (isNaN_of_isFinite hx) (isNaN_of_isFinite hy) hvalue hzero]
    exact .inl rfl

theorem value_mul_le_mul (hnonneg : 0 ≤ value z) : value (x * z) ≤ value (y * z) :=
  (isRounded_mul hx hz).mono (isRounded_mul hy hz) (mul_le_mul_of_nonneg_right h hnonneg)
    (mul_eq_or_onGrid hx hy)

theorem value_mul_le_mul_of_nonpos (hnonpos : value z ≤ 0) : value (y * z) ≤ value (x * z) :=
  (isRounded_mul hy hz).mono (isRounded_mul hx hz) (mul_le_mul_of_nonpos_right h hnonpos)
    (mul_eq_or_onGrid hy hx)

end

-- ---------------------------------------------------------------------------
-- Exact results
-- ---------------------------------------------------------------------------

/-- Finite, with exactly this value. -/
structure HasValue (q : ℚ) (x : Float32) : Prop where
  isFinite : x.isFinite = true
  value_eq : value x = q

namespace HasValue

variable {q : ℚ} {x : Float32}

theorem of_isFinite (h : x.isFinite = true) : HasValue (value x) x := ⟨h, rfl⟩

theorem onGrid (h : HasValue q x) : OnGrid q := h.value_eq ▸ onGrid_value h.isFinite

theorem abs_lt (h : HasValue q x) : |q| < 2 ^ 128 := h.value_eq ▸ abs_value_lt h.isFinite

theorem of_isRounded (h : IsRounded q x) (hgrid : OnGrid q) (hrange : |q| < 2 ^ 128) :
    HasValue q x := by
  have hvalue := h.eq_of_onGrid hgrid hrange.le
  exact ⟨(isFinite_iff h.1).2 (hvalue.symm ▸ hrange), hvalue⟩

end HasValue

theorem hasValue_zero : HasValue 0 0.0 := ⟨by decide, value_zero⟩

theorem hasValue_one : HasValue 1 1.0 := ⟨by decide, value_one⟩

section

variable {q : ℚ} {x y : Float32} (hx : HasValue q x)

include hx

theorem hasValue_add_zero (hy : HasValue 0 y) : HasValue q (x + y) := by
  have h := isRounded_add hx.isFinite hy.isFinite
  rw [hx.value_eq, hy.value_eq, add_zero] at h
  exact .of_isRounded h hx.onGrid hx.abs_lt

theorem hasValue_sub_zero (hy : HasValue 0 y) : HasValue q (x - y) := by
  have h := isRounded_sub hx.isFinite hy.isFinite
  rw [hx.value_eq, hy.value_eq, sub_zero] at h
  exact .of_isRounded h hx.onGrid hx.abs_lt

theorem hasValue_mul_one (hy : HasValue 1 y) : HasValue q (x * y) := by
  have h := isRounded_mul hx.isFinite hy.isFinite
  rw [hx.value_eq, hy.value_eq, mul_one] at h
  exact .of_isRounded h hx.onGrid hx.abs_lt

theorem hasValue_one_mul (hy : HasValue 1 y) : HasValue q (y * x) := by
  have h := isRounded_mul hy.isFinite hx.isFinite
  rw [hx.value_eq, hy.value_eq, one_mul] at h
  exact .of_isRounded h hx.onGrid hx.abs_lt

theorem hasValue_mul_zero (hy : HasValue 0 y) : HasValue 0 (x * y) := by
  have h := isRounded_mul hx.isFinite hy.isFinite
  rw [hx.value_eq, hy.value_eq, mul_zero] at h
  exact .of_isRounded h onGrid_zero hy.abs_lt

theorem hasValue_zero_mul (hy : HasValue 0 y) : HasValue 0 (y * x) := by
  have h := isRounded_mul hy.isFinite hx.isFinite
  rw [hx.value_eq, hy.value_eq, zero_mul] at h
  exact .of_isRounded h onGrid_zero hy.abs_lt

end

theorem hasValue_abs {x : Float32} (h : x.isFinite = true) : HasValue |value x| x.abs := by
  have hnormalized := isNormalized_unpack h
  have habs : IsNormalized x.toModel.unpack.abs ∧
      unpackedValue x.toModel.unpack.abs = |value x| := by
    unfold value
    cases hx : x.toModel.unpack with
    | infinity => rw [hx] at hnormalized; exact hnormalized.elim
    | notANumber => rw [hx] at hnormalized; exact hnormalized.elim
    | zero => exact ⟨trivial, abs_zero.symm⟩
    | finite s m e hm =>
      rw [unpackedValue_finite, abs_signed, abs_of_pos (magnitude_pos hm e)]
      exact ⟨(normalized_of_unpack hx).1, rfl⟩
  have hgrid : OnGrid |value x| := by
    rcases abs_choice (value x) with heq | heq
    · rw [heq]
      exact onGrid_value h
    · rw [heq]
      exact (onGrid_value h).neg
  have hrange : |(|value x|)| < 2 ^ 128 := (abs_abs _).trans_lt (abs_value_lt h)
  have hnearest : Nearest |value x| (unpackedValue x.toModel.unpack.abs) := by
    rw [habs.2]
    exact nearest_self hgrid
  exact .of_isRounded (isRounded_pack ⟨habs.1, hnearest⟩) hgrid hrange

theorem HasValue.eq_zero {x : Float32} (h : HasValue 0 x) : x = 0.0 ∨ x = -0.0 := by
  have hnumber := isNaN_of_isFinite h.isFinite
  have hnormalized := isNormalized_unpack h.isFinite
  have hvalue : unpackedValue x.toModel.unpack = 0 := h.value_eq
  cases hx : x.toModel.unpack with
  | infinity => rw [hx] at hnormalized; exact hnormalized.elim
  | notANumber => rw [hx] at hnormalized; exact hnormalized.elim
  | zero s =>
    cases s with
    | positive => exact .inl (eq_of_unpack_eq hx hnumber)
    | negative => exact .inr (eq_of_unpack_eq hx hnumber)
  | finite s m e hm =>
    rw [hx, unpackedValue_finite, ← abs_eq_zero, abs_signed,
      abs_of_pos (magnitude_pos hm e)] at hvalue
    exact absurd hvalue (magnitude_pos hm e).ne'

theorem HasValue.neg_zero {x : Float32} (h : HasValue 0 x) : HasValue 0 (-x) := by
  obtain rfl | rfl := h.eq_zero
  · exact ⟨by decide, rfl⟩
  · exact ⟨by decide, rfl⟩

/-- Added to a zero, a positive zero takes the sign away. -/
theorem add_zero_eq_of_hasValue {q : ℚ} {x y : Float32} (hx : HasValue q x) (hy : HasValue q y) :
    x + 0.0 = y + 0.0 := by
  have hzero {z : Float32} (hz : HasValue 0 z) : z + 0.0 = 0.0 := by
    obtain rfl | rfl := hz.eq_zero
    · decide +kernel
    · decide +kernel
  by_cases hq : q = 0
  · rw [hq] at hx hy
    rw [hzero hx, hzero hy]
  · have heq := hx.value_eq.trans hy.value_eq.symm
    rw [eq_of_value_eq (isNaN_of_isFinite hx.isFinite) (isNaN_of_isFinite hy.isFinite) heq
      (hx.value_eq ▸ hq)]

end FractalCurve.Number
