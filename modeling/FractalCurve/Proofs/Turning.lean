import FractalCurve.Catalog.Selector
import FractalCurve.Catalog.Standard
import FractalCurve.Proofs.WholeFloats

/-!
# Changed angles

The angle of the selected curve is wrapped by one correction at most from either
side. That suffices up to one full turn beyond the range from zero to a full
turn, and no further.

`changeAngle_mem_iff`: the sums of angle and change that end up in the range.
-/

namespace FractalCurve.Selector

open Number

/-- One full turn is added below zero, and one is taken off above a full turn. -/
def wrapped (angle : Float32) : Float32 :=
  let raised := if angle < 0.0 then angle + fullTurn else angle
  if raised > fullTurn then raised - fullTurn else raised

theorem turnedAngle_eq (angle delta : Float32) :
    turnedAngle angle delta = wrapped (radians (roundAway (degrees (angle + delta)))) := rfl

theorem current_changeAngle (s : Selector) (delta : Float32) :
    (s.changeAngle delta).current.grammar.angle = turnedAngle s.current.grammar.angle delta := by
  rw [changeAngle, modifyGrammar, current_modifyCurrent]

-- ---------------------------------------------------------------------------
-- One correction
-- ---------------------------------------------------------------------------

theorem isFinite_fullTurn : fullTurn.isFinite = true := by decide

theorem value_fullTurn_nonneg : 0 ≤ value fullTurn := by decide +kernel

section

variable {x : Float32}

/-- From zero to a full turn. -/
def InTurn (x : Float32) : Prop := 0.0 ≤ x ∧ x ≤ fullTurn

instance (x : Float32) : Decidable (InTurn x) := inferInstanceAs (Decidable (_ ∧ _))

theorem inTurn_iff (hx : x.isNaN = false) : InTurn x ↔ 0 ≤ value x ∧ value x ≤ value fullTurn := by
  rw [InTurn, le_iff_value_le rfl hx, le_iff_value_le hx (isNaN_of_isFinite isFinite_fullTurn)]
  rfl

variable (hx : x.isFinite = true)

include hx

theorem value_add_fullTurn_le (h : value x ≤ 0) : value (x + fullTurn) ≤ value fullTurn :=
  calc value (x + fullTurn) ≤ value (0.0 + fullTurn) :=
        value_add_le_add hx hasValue_zero.isFinite isFinite_fullTurn h
    _ = value fullTurn := by decide +kernel

theorem value_add_fullTurn_nonneg (h : 0 ≤ value x) : 0 ≤ value (x + fullTurn) :=
  calc 0 ≤ value (0.0 + fullTurn) := by decide +kernel
    _ ≤ value (x + fullTurn) :=
        value_add_le_add hasValue_zero.isFinite hx isFinite_fullTurn h

theorem value_sub_fullTurn_nonpos (h : value x ≤ value fullTurn) : value (x - fullTurn) ≤ 0 :=
  calc value (x - fullTurn) ≤ value (fullTurn - fullTurn) :=
        value_sub_le_sub hx isFinite_fullTurn isFinite_fullTurn h
    _ = 0 := by decide +kernel

theorem value_sub_fullTurn_nonneg (h : value fullTurn ≤ value x) : 0 ≤ value (x - fullTurn) :=
  calc 0 = value (fullTurn - fullTurn) := by decide +kernel
    _ ≤ value (x - fullTurn) := value_sub_le_sub isFinite_fullTurn hx isFinite_fullTurn h

theorem wrapped_cases :
    (value x < 0 ∧ wrapped x = x + fullTurn) ∨
      (0 ≤ value x ∧ value x ≤ value fullTurn ∧ wrapped x = x) ∨
      (value fullTurn < value x ∧ wrapped x = x - fullTurn) := by
  have hnumber := isNaN_of_isFinite hx
  have hzero : x < 0.0 ↔ value x < 0 := lt_iff_value_lt hnumber rfl
  have hturn {y : Float32} (hy : y.isNaN = false) : y > fullTurn ↔ value fullTurn < value y :=
    lt_iff_value_lt (isNaN_of_isFinite isFinite_fullTurn) hy
  by_cases hneg : value x < 0
  · have hsum := (isRounded_add hx isFinite_fullTurn).1
    have hle := value_add_fullTurn_le hx hneg.le
    refine .inl ⟨hneg, ?_⟩
    simp only [wrapped, if_pos (hzero.2 hneg), if_neg (mt (hturn hsum).1 hle.not_gt)]
  by_cases hgt : value fullTurn < value x
  · refine .inr (.inr ⟨hgt, ?_⟩)
    simp only [wrapped, if_neg (mt hzero.1 hneg), if_pos ((hturn hnumber).2 hgt)]
  · refine .inr (.inl ⟨not_lt.1 hneg, not_lt.1 hgt, ?_⟩)
    simp only [wrapped, if_neg (mt hzero.1 hneg), if_neg (mt (hturn hnumber).1 hgt)]

/-- Each correction is judged by what it would do to `x`, needed or not. -/
theorem inTurn_wrapped_iff :
    InTurn (wrapped x) ↔
      0 ≤ value (x + fullTurn) ∧ value (x - fullTurn) ≤ value fullTurn := by
  have hturn := value_fullTurn_nonneg
  obtain ⟨hneg, heq⟩ | ⟨hzero, hle, heq⟩ | ⟨hgt, heq⟩ := wrapped_cases hx
  · have hsum := (isRounded_add hx isFinite_fullTurn).1
    rw [heq, inTurn_iff hsum]
    have hraised := value_add_fullTurn_le hx hneg.le
    have hlowered := (value_sub_fullTurn_nonpos hx (hneg.le.trans hturn)).trans hturn
    exact and_congr_right fun _ => iff_of_true hraised hlowered
  · rw [heq, inTurn_iff (isNaN_of_isFinite hx)]
    have hraised := value_add_fullTurn_nonneg hx hzero
    have hlowered := (value_sub_fullTurn_nonpos hx hle).trans hturn
    exact iff_of_true ⟨hzero, hle⟩ ⟨hraised, hlowered⟩
  · have hdifference := (isRounded_sub hx isFinite_fullTurn).1
    rw [heq, inTurn_iff hdifference]
    have hraised := value_add_fullTurn_nonneg hx (hturn.trans hgt.le)
    have hlowered := value_sub_fullTurn_nonneg hx hgt.le
    exact and_congr_left fun _ => iff_of_true hlowered hraised

end

-- ---------------------------------------------------------------------------
-- Whole degrees
-- ---------------------------------------------------------------------------

section

variable {x y : Float32} (hx : x.isFinite = true)

include hx

theorem isFinite_radians : (radians x).isFinite = true := by
  have hfactor : |value (Float32.ofBits 0x3c8efa35)| ≤ 2 ^ (-5 : ℤ) := by decide +kernel
  refine (isRounded_mul hx (by decide)).isFinite (k := 123) (by decide) (by decide) ?_
  rw [abs_mul]
  calc |value x| * |value (Float32.ofBits 0x3c8efa35)| ≤ 2 ^ 128 * 2 ^ (-5 : ℤ) :=
        mul_le_mul (abs_value_lt hx).le hfactor (abs_nonneg _) (by positivity)
    _ = 2 ^ (123 : ℤ) := by norm_num

theorem value_radians_le (hy : y.isFinite = true) (h : value x ≤ value y) :
    value (radians x) ≤ value (radians y) :=
  value_mul_le_mul hx hy (by decide) h (by decide +kernel)

theorem raised_nonneg_iff :
    0 ≤ value (radians (roundAway x) + fullTurn) ↔ -(360 + 1 / 2) < value x := by
  have hround := isFinite_roundAway hx
  have hradians := isFinite_radians hround
  obtain ⟨hwhole, hdegrees⟩ | ⟨hwhole, hdegrees⟩ := neg_value_roundAway_cases hx 360
  · refine iff_of_true ?_ hdegrees
    have hle : value (-360.0) ≤ value (roundAway x) :=
      le_of_eq_of_le (by decide +kernel) hwhole
    calc 0 = value (radians (-360.0) + fullTurn) := by decide +kernel
      _ ≤ value (radians (roundAway x) + fullTurn) :=
          value_add_le_add (by decide +kernel) hradians isFinite_fullTurn
            (value_radians_le (by decide) hround hle)
  · refine iff_of_false (not_le.2 ?_) hdegrees.not_gt
    have hle : value (roundAway x) ≤ value (-361.0) :=
      hwhole.trans_eq (by decide +kernel)
    calc value (radians (roundAway x) + fullTurn) ≤ value (radians (-361.0) + fullTurn) :=
          value_add_le_add hradians (by decide +kernel) isFinite_fullTurn
            (value_radians_le hround (by decide) hle)
      _ < 0 := by decide +kernel

theorem lowered_le_iff :
    value (radians (roundAway x) - fullTurn) ≤ value fullTurn ↔ value x < 720 + 1 / 2 := by
  have hround := isFinite_roundAway hx
  have hradians := isFinite_radians hround
  obtain ⟨hwhole, hdegrees⟩ | ⟨hwhole, hdegrees⟩ := value_roundAway_cases hx 720
  · refine iff_of_true ?_ hdegrees
    have hle : value (roundAway x) ≤ value 720.0 := hwhole.trans_eq (by decide +kernel)
    calc value (radians (roundAway x) - fullTurn) ≤ value (radians 720.0 - fullTurn) :=
          value_sub_le_sub hradians (by decide +kernel) isFinite_fullTurn
            (value_radians_le hround (by decide) hle)
      _ = value fullTurn := by decide +kernel
  · refine iff_of_false (not_le.2 ?_) hdegrees.not_gt
    have hle : value 721.0 ≤ value (roundAway x) := le_of_eq_of_le (by decide +kernel) hwhole
    calc value fullTurn < value (radians 721.0 - fullTurn) := by decide +kernel
      _ ≤ value (radians (roundAway x) - fullTurn) :=
          value_sub_le_sub (by decide +kernel) hradians isFinite_fullTurn
            (value_radians_le (by decide) hround hle)

end

theorem inTurn_wrapped_degrees_iff {x : Float32} (h : x.isNaN = false) :
    InTurn (wrapped (radians (roundAway x))) ↔ -360.5 < x ∧ x < 720.5 := by
  by_cases hx : x.isFinite = true
  · have hlow : value (-360.5) = -(360 + 1 / 2) := by decide +kernel
    have hhigh : value 720.5 = 720 + 1 / 2 := by decide +kernel
    rw [inTurn_wrapped_iff (isFinite_radians (isFinite_roundAway hx)), raised_nonneg_iff hx,
      lowered_le_iff hx, lt_iff_value_lt rfl h, lt_iff_value_lt h rfl, hlow, hhigh]
  · obtain rfl | rfl := eq_infinity_of_not_isFinite h (by simpa using hx)
    · decide +kernel
    · decide +kernel

-- ---------------------------------------------------------------------------
-- Changed angles
-- ---------------------------------------------------------------------------

/-- The new angle is in the range from zero to a full turn if and only if the sum
rounds to at least `-360` and at most `720` degrees. -/
theorem changeAngle_inTurn_iff (s : Selector) {delta : Float32}
    (h : (s.current.grammar.angle + delta).isFinite = true) :
    (0.0 ≤ (s.changeAngle delta).current.grammar.angle ∧
        (s.changeAngle delta).current.grammar.angle ≤ fullTurn) ↔
      -360.5 < degrees (s.current.grammar.angle + delta) ∧
        degrees (s.current.grammar.angle + delta) < 720.5 := by
  rw [current_changeAngle, turnedAngle_eq]
  exact inTurn_wrapped_degrees_iff (isRounded_mul h (by decide)).1

/-- Nearly a full turn below zero. -/
theorem changeAngle_inTurn_of_one_turn :
    ∃ start, ofCatalog? Catalog.standard = some start ∧
      (start.current.grammar.angle + -7.3).isFinite = true ∧
      0.0 ≤ (start.changeAngle (-7.3)).current.grammar.angle ∧
      (start.changeAngle (-7.3)).current.grammar.angle ≤ fullTurn := by
  refine ⟨_, dif_pos (by decide), by decide +kernel, ?_⟩
  exact (changeAngle_inTurn_iff _ (by decide +kernel)).2 (by decide +kernel)

/-- Two full turns more leave one too many. -/
theorem changeAngle_not_inTurn_of_two_turns :
    ∃ start, ofCatalog? Catalog.standard = some start ∧
      start.current.grammar.angle.isFinite = true ∧
      (12.566370614359172 : Float32).isFinite = true ∧
      (start.current.grammar.angle + 12.566370614359172).isFinite = true ∧
      ¬ (start.changeAngle 12.566370614359172).current.grammar.angle ≤ fullTurn := by
  exact ⟨_, dif_pos (by decide), by decide +kernel, by decide +kernel, by decide +kernel,
    by decide +kernel⟩

end FractalCurve.Selector
