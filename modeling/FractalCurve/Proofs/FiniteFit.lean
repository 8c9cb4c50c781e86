import FractalCurve.Proofs.Bounds
import FractalCurve.Proofs.FiniteArithmetic

/-!
# Finite fits

An extent that is out of range, or a ratio of extents that is, makes the whole
placement infinite or NaN, so a finite path need not stay finite. It stays
finite if and only if the corners of its bounds do, since on each axis every
point is moved to between the places of the corners.

`fit_isFinite_iff`: that condition, and sizes of path and box that are small
enough for it.
-/

namespace FractalCurve

open Number

def Box.IsFinite (b : Box) : Prop := b.lower.IsFinite ∧ b.upper.IsFinite

instance (b : Box) : Decidable b.IsFinite := inferInstanceAs (Decidable (_ ∧ _))

-- ---------------------------------------------------------------------------
-- Corners
-- ---------------------------------------------------------------------------

/-- A number of the same value as a coordinate is moved as finitely. -/
theorem Placement.isFinite_of_hasValue {m : Placement} {p : Vec3} {a : Axis} {x : Float32}
    (h : (m.apply p).IsFinite) (hx : HasValue (value (p.component a)) x) :
    (x * m.scale + m.offset.component a).isFinite = true := by
  have hplace := h a
  rw [component_apply] at hplace
  exact isFinite_mul_add_between hx.isFinite hplace hplace hx.value_eq.ge hx.value_eq.le

section

variable {first : Vec3} {rest : List Vec3} (hfinite : ∀ p ∈ first :: rest, p.IsFinite)

include hfinite

/-- Every coordinate lies between those of the corners, and a corner has no
coordinate that no point has. -/
theorem isFinite_apply_iff (m : Placement) :
    (∀ p ∈ first :: rest, (m.apply p).IsFinite) ↔
      (m.apply (bounds first rest).lower).IsFinite ∧
        (m.apply (bounds first rest).upper).IsFinite := by
  constructor
  · intro h
    constructor
    · intro a
      obtain ⟨p, hp, hvalue⟩ := exists_hasValue_lower hfinite a
      rw [Placement.component_apply]
      exact Placement.isFinite_of_hasValue (h p hp) hvalue
    · intro a
      obtain ⟨p, hp, hvalue⟩ := exists_hasValue_upper hfinite a
      rw [Placement.component_apply]
      exact Placement.isFinite_of_hasValue (h p hp) hvalue
  · rintro ⟨hlower, hupper⟩ p hp a
    have hlow := hlower a
    have hhigh := hupper a
    rw [Placement.component_apply] at hlow hhigh ⊢
    exact isFinite_mul_add_between (hfinite p hp a) hlow hhigh (value_lower_le hfinite a hp)
      (value_le_upper hfinite a hp)

end

-- ---------------------------------------------------------------------------
-- Sizes
-- ---------------------------------------------------------------------------

theorem smallerNumber_eq (x y : Float32) : smallerNumber x y = x ∨ smallerNumber x y = y := by
  unfold smallerNumber
  split
  · exact .inr rfl
  · exact (ite_eq_or_eq _ y x).symm

theorem commonScale_cases (target curve : Vec3) :
    commonScale target curve = 1.0 ∨
      ∃ a, curve.component a > 0.0 ∧ commonScale target curve = axisRatio target curve a := by
  rw [commonScale_eq]
  cases hratios : (extendedAxes curve).map (axisRatio target curve) with
  | nil => exact .inl rfl
  | cons ratio ratios =>
    have hmem := foldl_mem_of_pick smallerNumber_eq ratio ratios
    rw [← hratios] at hmem
    obtain ⟨a, ha, heq⟩ := List.mem_map.1 hmem
    exact .inr ⟨a, mem_extendedAxes.1 ha, heq.symm⟩

/-- The coordinates of the points are at most `2 ^ a` in size, those of the box
`2 ^ b`, and a curve that is not flat on an axis is `2 ^ -d` wide at least. -/
structure Sized (points : List Vec3) (target : Box) (a b d : ℕ) : Prop where
  points_le : ∀ p ∈ points, ∀ i, |value (p.component i)| ≤ 2 ^ a
  lower_le : ∀ i, |value (target.lower.component i)| ≤ 2 ^ b
  upper_le : ∀ i, |value (target.upper.component i)| ≤ 2 ^ b
  flat_or_wide : ∀ i,
    (∀ p ∈ points, ∀ q ∈ points, value (p.component i) = value (q.component i)) ∨
      ∃ p ∈ points, ∃ q ∈ points, 1 ≤ (value (q.component i) - value (p.component i)) * 2 ^ d

namespace Sized

variable {first : Vec3} {rest : List Vec3} {target : Box} {a b d : ℕ}
  (h : Sized (first :: rest) target a b d) (htarget : target.IsFinite)
  (hsmall : a + b + d ≤ 123)

include h

include htarget hsmall in
theorem within_target (i : Axis) : Within (b + 1) (target.extent.component i) := by
  rw [Box.component_extent]
  exact Within.sub ⟨htarget.2 i, h.upper_le i⟩ ⟨htarget.1 i, h.lower_le i⟩ (by omega)

variable (hfinite : ∀ p ∈ first :: rest, p.IsFinite)

include hfinite

theorem within_lower (i : Axis) : Within a ((bounds first rest).lower.component i) := by
  obtain ⟨p, hp, hvalue⟩ := exists_hasValue_lower hfinite i
  exact ⟨hvalue.isFinite, hvalue.value_eq ▸ h.points_le p hp i⟩

theorem within_upper (i : Axis) : Within a ((bounds first rest).upper.component i) := by
  obtain ⟨p, hp, hvalue⟩ := exists_hasValue_upper hfinite i
  exact ⟨hvalue.isFinite, hvalue.value_eq ▸ h.points_le p hp i⟩

include hsmall

theorem within_extent (i : Axis) : Within (a + 1) ((bounds first rest).extent.component i) := by
  rw [Box.component_extent]
  exact (h.within_upper hfinite i).sub (h.within_lower hfinite i) (by omega)

/-- What counts as an extent is as wide as the curve has to be. -/
theorem extent_ge {i : Axis} (hi : (bounds first rest).extent.component i > 0.0) :
    1 ≤ value ((bounds first rest).extent.component i) * 2 ^ d := by
  have hlower := h.within_lower hfinite i
  have hupper := h.within_upper hfinite i
  have hextent := h.within_extent hsmall hfinite i
  have hpositive := (lt_iff_value_lt rfl (isNaN_of_isFinite hextent.isFinite)).1 hi
  have hrounded := isRounded_sub hupper.isFinite hlower.isFinite
  rw [← Box.component_extent] at hrounded
  obtain hflat | ⟨p, hp, q, hq, hwide⟩ := h.flat_or_wide i
  · obtain ⟨p, hp, hlow⟩ := exists_hasValue_lower hfinite i
    obtain ⟨q, hq, hhigh⟩ := exists_hasValue_upper hfinite i
    rw [hlow.value_eq, hhigh.value_eq, hflat p hp q hq, sub_self] at hrounded
    rw [hrounded.eq_of_onGrid onGrid_zero (by norm_num)] at hpositive
    exact absurd hpositive (lt_irrefl _)
  · have hlow := value_lower_le hfinite i hp
    have hhigh := value_le_upper hfinite i hq
    have hpower : (0 : ℚ) < 2 ^ d := by positivity
    have hgrid : OnGrid (2 ^ (-d : ℤ)) := onGrid_two_zpow (by omega)
    rw [zpow_neg, zpow_natCast] at hgrid
    rw [← div_le_iff₀ hpower, one_div] at hwide ⊢
    refine hrounded.le_of_ge hgrid ?_ (by linarith)
    rw [abs_of_pos (by positivity)]
    exact (inv_le_one_of_one_le₀ (one_le_pow₀ one_le_two)).trans (by norm_num)

include htarget

theorem within_scale :
    Within (b + 1 + d) (target.placement (bounds first rest)).scale := by
  show Within (b + 1 + d) (commonScale target.extent (bounds first rest).extent)
  obtain hone | ⟨i, hi, hratio⟩ := commonScale_cases target.extent (bounds first rest).extent
  · rw [hone]
    have hunit : Within 0 1.0 := ⟨rfl, by rw [value_one]; norm_num⟩
    exact hunit.mono (Nat.zero_le _)
  · rw [hratio]
    exact (h.within_target htarget hsmall i).div
      (h.within_extent hsmall hfinite i).isFinite (h.extent_ge hsmall hfinite hi) (by omega)

theorem within_offset (i : Axis) :
    Within (a + b + d + 3) ((target.placement (bounds first rest)).offset.component i) := by
  have hscale := h.within_scale htarget hsmall hfinite
  have hcorner : Within (a + b + d + 1) (target.lower.component i) :=
    Within.mono ⟨htarget.1 i, h.lower_le i⟩ (by omega)
  have hplaced := ((h.within_lower hfinite i).mul hscale (by omega)).mono
    (show _ ≤ a + b + d + 1 by omega)
  have hextent := (h.within_target htarget hsmall i).mono
    (show _ ≤ a + b + d + 2 by omega)
  have hscaled := ((h.within_extent hsmall hfinite i).mul hscale (by omega)).mono
    (show _ ≤ a + b + d + 2 by omega)
  rw [Box.component_offset]
  exact (hcorner.sub hplaced (by omega)).add ((hextent.sub hscaled (by omega)).half (by omega))
    (by omega)

theorem isFinite_apply {p : Vec3} (hp : p ∈ first :: rest) :
    ((target.placement (bounds first rest)).apply p).IsFinite := by
  intro i
  have hpoint : Within a (p.component i) := ⟨hfinite p hp i, h.points_le p hp i⟩
  have hscaled := (hpoint.mul (h.within_scale htarget hsmall hfinite) (by omega)).mono
    (show _ ≤ a + b + d + 3 by omega)
  rw [Placement.component_apply]
  exact (hscaled.add (h.within_offset htarget hsmall hfinite i) (by omega)).isFinite

end Sized

-- ---------------------------------------------------------------------------
-- Fits
-- ---------------------------------------------------------------------------

theorem Path.isFinite_map_iff {move : Vec3 → Vec3} {path : Path} :
    Path.IsFinite (path.map (PathElement.map move)) ↔ ∀ p ∈ path.points, (move p).IsFinite := by
  rw [IsFinite, points_map, List.forall_mem_map]

/-- A finite path that is fitted into a finite box is finite as long as the two
corners of its bounds are. That is so for sizes that have `123` bits together. -/
theorem fit_isFinite_iff {path : Path} (hpath : path.IsFinite) {target : Box}
    (hvalid : target.isValid) (htarget : target.IsFinite) :
    ∃ fitted, target.fit path = .ok fitted ∧
      (fitted.IsFinite ↔ ∀ first rest, path.points = first :: rest →
        ((target.placement (bounds first rest)).apply (bounds first rest).lower).IsFinite ∧
          ((target.placement (bounds first rest)).apply (bounds first rest).upper).IsFinite) ∧
      ∀ a b d, Sized path.points target a b d → a + b + d ≤ 123 → fitted.IsFinite := by
  refine ⟨_, Box.fit_of_valid hvalid path, ?_⟩
  rw [Path.isFinite_map_iff]
  cases hpoints : path.points with
  | nil => exact ⟨by simp, by simp⟩
  | cons first rest =>
    have hfinite : ∀ p ∈ first :: rest, p.IsFinite := hpoints ▸ hpath
    refine ⟨?_, fun a b d h hsmall p hp => h.isFinite_apply htarget hsmall hfinite hp⟩
    refine (isFinite_apply_iff hfinite _).trans ⟨?_, fun h => h first rest rfl⟩
    rintro h _ _ ⟨⟩
    exact h

/-- A flat stroke of ordinary size. -/
theorem fit_isFinite_of_stroke :
    ∃ fitted, Box.standard.fit [.point Vec3.zero, .gap, .point ⟨0.0, 4.0, -3.0⟩] = .ok fitted ∧
      fitted.IsFinite := by
  have hpath : Path.IsFinite [.point Vec3.zero, .gap, .point ⟨0.0, 4.0, -3.0⟩] := by
    decide +kernel
  have hvalid : Box.standard.isValid := by decide
  obtain ⟨fitted, hfit, -, hsized⟩ := fit_isFinite_iff hpath hvalid (by decide +kernel)
  refine ⟨fitted, hfit, hsized 2 7 0 ⟨?_, ?_, ?_, ?_⟩ (by decide)⟩
  · intro p hp i
    revert p
    cases i <;> decide +kernel
  · intro i
    cases i <;> decide +kernel
  · intro i
    cases i <;> decide +kernel
  · intro i
    cases i <;> decide +kernel

/-- Two finite points whose distance is out of range: the ratio of the extents is
zero, and zero times the extent of the path is NaN. -/
theorem fit_not_isFinite_of_wide_path :
    Path.IsFinite [.point ⟨-3e38, 0.0, 0.0⟩, .point ⟨3e38, 0.0, 0.0⟩] ∧
      Box.standard.isValid ∧ Box.standard.IsFinite ∧
      ∃ fitted, Box.standard.fit [.point ⟨-3e38, 0.0, 0.0⟩, .point ⟨3e38, 0.0, 0.0⟩] =
        .ok fitted ∧ ¬ fitted.IsFinite := by
  refine ⟨by decide +kernel, by decide, by decide +kernel, _, Box.fit_of_valid (by decide) _, ?_⟩
  rw [Path.isFinite_map_iff]
  decide +kernel

end FractalCurve
