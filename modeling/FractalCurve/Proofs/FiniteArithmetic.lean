import FractalCurve.Proofs.FloatArithmetic

/-!
# Arithmetic that stays finite

An infinity or NaN stays in a sum or a product, so finite results have finite
operands. The other way round, results are finite as long as their size is
accounted for: a sum takes one bit more than its operands, a product as many as
both.
-/

namespace FractalCurve.Number

open Float.Model Float.Model.UnpackedFloat

-- ---------------------------------------------------------------------------
-- Finite operands
-- ---------------------------------------------------------------------------

theorem isFinite_of_pack {u : UnpackedFloat}
    (h : (Float32.ofModel (Float32.Model.pack u)).isFinite = true) : u.isFinite = true := by
  cases u with
  | notANumber => revert h; decide
  | infinity s => revert h; cases s <;> decide
  | zero => rfl
  | finite => rfl

section

variable {x y : Float32}

theorem isFinite_of_add (h : (x + y).isFinite = true) :
    x.isFinite = true ∧ y.isFinite = true := by
  have hsum : (UnpackedFloat.add .binary32 x.toModel.unpack y.toModel.unpack).isFinite = true :=
    isFinite_of_pack h
  show x.toModel.unpack.isFinite = true ∧ y.toModel.unpack.isFinite = true
  generalize x.toModel.unpack = u at *
  generalize y.toModel.unpack = v at *
  cases u with
  | notANumber => cases v <;> cases hsum
  | infinity s =>
    cases v with
    | infinity t => cases s <;> cases t <;> cases hsum
    | _ => cases hsum
  | zero => cases v <;> trivial
  | finite => cases v <;> trivial

theorem isFinite_of_mul (h : (x * y).isFinite = true) :
    x.isFinite = true ∧ y.isFinite = true := by
  have hproduct :
      (UnpackedFloat.mul .binary32 x.toModel.unpack y.toModel.unpack).isFinite = true :=
    isFinite_of_pack h
  show x.toModel.unpack.isFinite = true ∧ y.toModel.unpack.isFinite = true
  generalize x.toModel.unpack = u at *
  generalize y.toModel.unpack = v at *
  cases u with
  | notANumber => cases v <;> cases hproduct
  | infinity => cases v <;> cases hproduct
  | zero => cases v <;> trivial
  | finite => cases v <;> trivial

end

-- ---------------------------------------------------------------------------
-- Sizes
-- ---------------------------------------------------------------------------

/-- Finite, and at most `2 ^ k` in size. -/
structure Within (k : ℕ) (x : Float32) : Prop where
  isFinite : x.isFinite = true
  abs_le : |value x| ≤ 2 ^ k

namespace Within

variable {j k : ℕ} {x y : Float32}

theorem mono (h : Within j x) (hle : j ≤ k) : Within k x :=
  ⟨h.isFinite, h.abs_le.trans (pow_le_pow_right₀ one_le_two hle)⟩

theorem of_hasValue {q : ℚ} (h : HasValue q x) (hq : |q| ≤ 2 ^ k) : Within k x :=
  ⟨h.isFinite, h.value_eq ▸ hq⟩

theorem of_isRounded {q : ℚ} (h : IsRounded q x) (hk : k ≤ 127) (hq : |q| ≤ 2 ^ k) :
    Within k x := by
  rw [← zpow_natCast] at hq
  refine ⟨h.isFinite (by omega) (by omega) hq, ?_⟩
  rw [← zpow_natCast]
  exact h.abs_value_le (by omega) (by omega) hq

theorem add (hx : Within k x) (hy : Within k y) (hk : k + 1 ≤ 127) : Within (k + 1) (x + y) := by
  refine .of_isRounded (isRounded_add hx.isFinite hy.isFinite) hk ?_
  calc |value x + value y| ≤ |value x| + |value y| := abs_add_le _ _
    _ ≤ 2 ^ k + 2 ^ k := add_le_add hx.abs_le hy.abs_le
    _ = 2 ^ (k + 1) := by rw [pow_succ, mul_two]

theorem sub (hx : Within k x) (hy : Within k y) (hk : k + 1 ≤ 127) : Within (k + 1) (x - y) := by
  refine .of_isRounded (isRounded_sub hx.isFinite hy.isFinite) hk ?_
  calc |value x - value y| ≤ |value x| + |value y| := abs_sub _ _
    _ ≤ 2 ^ k + 2 ^ k := add_le_add hx.abs_le hy.abs_le
    _ = 2 ^ (k + 1) := by rw [pow_succ, mul_two]

theorem mul (hx : Within j x) (hy : Within k y) (hk : j + k ≤ 127) : Within (j + k) (x * y) := by
  refine .of_isRounded (isRounded_mul hx.isFinite hy.isFinite) hk ?_
  rw [abs_mul, pow_add]
  exact mul_le_mul hx.abs_le hy.abs_le (abs_nonneg _) (by positivity)

/-- A divisor of `2 ^ -j` at least adds `j` bits at most. -/
theorem div (hx : Within k x) (hy : y.isFinite = true) (hlarge : 1 ≤ value y * 2 ^ j)
    (hk : k + j ≤ 127) : Within (k + j) (x / y) := by
  have hpos : 0 < value y := pos_of_mul_pos_left (zero_lt_one.trans_le hlarge) (by positivity)
  refine .of_isRounded (isRounded_div hx.isFinite hy hpos.ne') hk ?_
  rw [abs_div, abs_of_pos hpos, div_le_iff₀ hpos]
  calc |value x| ≤ 2 ^ k * 1 := by rw [mul_one]; exact hx.abs_le
    _ ≤ 2 ^ k * (value y * 2 ^ j) := by gcongr
    _ = 2 ^ (k + j) * value y := by rw [pow_add]; ring

theorem half (h : Within (k + 1) x) (hk : k ≤ 127) : Within k (x / 2.0) := by
  have htwo : value 2.0 = 2 := by
    show signed .positive ((2 ^ 23 : ℕ) * 2 ^ (-22 : ℤ)) = 2
    norm_num
  have hrounded := isRounded_div (y := 2.0) h.isFinite (by decide) (by rw [htwo]; norm_num)
  rw [htwo] at hrounded
  refine .of_isRounded hrounded hk ?_
  rw [abs_div, abs_two, div_le_iff₀ two_pos, ← pow_succ]
  exact h.abs_le

theorem of_abs_lt (hx : x.isFinite = true) (hy : Within k y) (h : x.abs < y) : Within k x := by
  have habs := hasValue_abs hx
  have hlt := (lt_iff_value_lt (isNaN_of_isFinite habs.isFinite)
    (isNaN_of_isFinite hy.isFinite)).1 h
  rw [habs.value_eq] at hlt
  exact ⟨hx, hlt.le.trans ((le_abs_self _).trans hy.abs_le)⟩

end Within

theorem isFinite_mul_half {x : Float32} (h : x.isFinite = true) : (x * 0.5).isFinite = true := by
  have hhalf : value 0.5 = 1 / 2 := by
    show signed .positive ((2 ^ 23 : ℕ) * 2 ^ (-24 : ℤ)) = 1 / 2
    norm_num
  have hrounded := isRounded_mul (y := 0.5) h (by decide)
  rw [hhalf] at hrounded
  refine hrounded.isFinite (k := 127) (by decide) (by decide) ?_
  have hlt := (abs_value_lt h).le
  rw [abs_mul, abs_of_pos (by norm_num : (0 : ℚ) < 1 / 2)]
  calc |value x| * (1 / 2) ≤ 2 ^ 128 * (1 / 2) := by gcongr
    _ = 2 ^ (127 : ℤ) := by norm_num

-- ---------------------------------------------------------------------------
-- Numbers in between
-- ---------------------------------------------------------------------------

section

variable {x y z w offset : Float32}

theorem isFinite_of_between (hy : y.isNaN = false) (hx : x.isFinite = true)
    (hz : z.isFinite = true) (hxy : value x ≤ value y) (hyz : value y ≤ value z) :
    y.isFinite = true := by
  have hlow := (abs_lt.1 (abs_value_lt hx)).1
  have hhigh := (abs_lt.1 (abs_value_lt hz)).2
  exact (isFinite_iff hy).2 (abs_lt.2 ⟨hlow.trans_le hxy, hyz.trans_lt hhigh⟩)

theorem isFinite_add_between (hy : y.isFinite = true) (hx : (x + w).isFinite = true)
    (hz : (z + w).isFinite = true) (hxy : value x ≤ value y) (hyz : value y ≤ value z) :
    (y + w).isFinite = true := by
  obtain ⟨hx', hw⟩ := isFinite_of_add hx
  obtain ⟨hz', -⟩ := isFinite_of_add hz
  exact isFinite_of_between (isRounded_add hy hw).1 hx hz (value_add_le_add hx' hy hw hxy)
    (value_add_le_add hy hz' hw hyz)

/-- What is finite at both ends of a range is finite within, whichever way the
factor turns the range. -/
theorem isFinite_mul_add_between (hy : y.isFinite = true)
    (hx : (x * w + offset).isFinite = true) (hz : (z * w + offset).isFinite = true)
    (hxy : value x ≤ value y) (hyz : value y ≤ value z) :
    (y * w + offset).isFinite = true := by
  obtain ⟨hxw, -⟩ := isFinite_of_add hx
  obtain ⟨hzw, -⟩ := isFinite_of_add hz
  obtain ⟨hx', hw⟩ := isFinite_of_mul hxw
  obtain ⟨hz', -⟩ := isFinite_of_mul hzw
  have hyw := (isRounded_mul hy hw).1
  rcases le_total 0 (value w) with hsign | hsign
  · have hlow := value_mul_le_mul hx' hy hw hxy hsign
    have hhigh := value_mul_le_mul hy hz' hw hyz hsign
    exact isFinite_add_between (isFinite_of_between hyw hxw hzw hlow hhigh) hx hz hlow hhigh
  · have hlow := value_mul_le_mul_of_nonpos hy hz' hw hyz hsign
    have hhigh := value_mul_le_mul_of_nonpos hx' hy hw hxy hsign
    exact isFinite_add_between (isFinite_of_between hyw hzw hxw hlow hhigh) hz hx hlow hhigh

end

end FractalCurve.Number
