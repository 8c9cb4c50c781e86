import FractalCurve.Path.Fit

/-!
# Fitted paths

All points of a path are moved by one map, which is found from the points and
the box alone; a path without points is no exception, since any map leaves it
as it is. Gaps stay where they are, so the polylines of a fitted path are the
polylines of the path, moved.

`fit_outcome`: which boxes are refused and what a path looks like when it has
been fitted.
-/

namespace FractalCurve

-- ---------------------------------------------------------------------------
-- Moved paths
-- ---------------------------------------------------------------------------

namespace PathElement

theorem map_eq_gap_iff {f : Vec3 → Vec3} {e : PathElement} : e.map f = .gap ↔ e = .gap := by
  cases e <;> simp [map]

end PathElement

namespace Path

variable (f : Vec3 → Vec3)

theorem points_map (path : Path) :
    points (path.map (PathElement.map f)) = path.points.map f := by
  induction path with
  | nil => rfl
  | cons e path ih => cases e <;> simp [PathElement.map, ih]

theorem map_of_points_eq_nil {path : Path} (h : path.points = []) :
    path.map (PathElement.map f) = path := by
  induction path with
  | nil => rfl
  | cons e path ih =>
    cases e with
    | point p => contradiction
    | gap => exact congrArg (.gap :: ·) (ih h)

theorem extendRuns_map (e : PathElement) (runs : List (List Vec3)) :
    extendRuns (e.map f) (runs.map (List.map f)) = (extendRuns e runs).map (List.map f) := by
  cases e with
  | gap => rfl
  | point p => cases runs <;> rfl

theorem runs_map (path : Path) :
    runs (path.map (PathElement.map f)) = path.runs.map (List.map f) := by
  induction path with
  | nil => rfl
  | cons e path ih => rw [List.map_cons, runs_cons, ih, extendRuns_map, runs_cons]

theorem polylines_map (path : Path) :
    polylines (path.map (PathElement.map f)) = path.polylines.map (List.map f) := by
  rw [polylines, runs_map, List.filter_map]
  refine congrArg (List.map (List.map f)) (List.filter_congr fun run _ => ?_)
  cases run <;> rfl

theorem getElem?_map_eq_gap_iff (path : Path) (k : Nat) :
    (path.map (PathElement.map f))[k]? = some .gap ↔ path[k]? = some .gap := by
  simp [PathElement.map_eq_gap_iff]

end Path

-- ---------------------------------------------------------------------------
-- Fitting
-- ---------------------------------------------------------------------------

namespace Box

theorem isValid_iff {b : Box} :
    b.isValid ↔ b.lower.x < b.upper.x ∧ b.lower.y < b.upper.y ∧ b.lower.z < b.upper.z :=
  decide_eq_true_iff

/-- The placement of these points; where there are none, any would do. -/
def placementOf (target : Box) : List Vec3 → Placement
  | [] => ⟨1.0, Vec3.zero⟩
  | first :: rest => target.placement (bounds first rest)

theorem fit_of_valid {target : Box} (h : target.isValid) (path : Path) :
    target.fit path = .ok (path.map (PathElement.map (target.placementOf path.points).apply)) := by
  rw [fit, if_pos h]
  cases hpoints : path.points with
  | nil => exact congrArg Except.ok (Path.map_of_points_eq_nil _ hpoints).symm
  | cons first rest => rfl

theorem fit_eq_error_iff {target : Box} {path : Path} :
    target.fit path = .error (.invalidTargetBox target.lower target.upper) ↔
      ¬ target.isValid := by
  by_cases h : target.isValid
  · simp [fit_of_valid h, h]
  · simp [fit, h]

end Box

/-- A box is refused if its lower corner is not below the upper one, whatever
the path. Otherwise every point is scaled and moved by the same numbers, which
gaps have no part in, and nothing else changes. -/
theorem fit_outcome :
    ∃ place : Box → List Vec3 → Placement, ∀ (target : Box) (path : Path),
      let valid := target.lower.x < target.upper.x ∧ target.lower.y < target.upper.y ∧
        target.lower.z < target.upper.z
      let move (p : Vec3) := p.scale (place target path.points).scale +
        (place target path.points).offset
      (target.fit path = .error (.invalidTargetBox target.lower target.upper) ↔ ¬ valid) ∧
        (valid → ∃ fitted, target.fit path = .ok fitted ∧
          (path.points = [] → fitted = path) ∧
          fitted.length = path.length ∧
          (∀ k : Nat, fitted[k]? = some .gap ↔ path[k]? = some .gap) ∧
          (∀ (k : Nat) p, path[k]? = some (.point p) → fitted[k]? = some (.point (move p))) ∧
          fitted.polylines = path.polylines.map (List.map move) ∧
          ∀ other : Path, other.points = path.points →
            ∃ moved, target.fit other = .ok moved ∧ moved.points = fitted.points) := by
  refine ⟨Box.placementOf, ?_⟩
  intro target path valid move
  constructor
  · rw [Box.fit_eq_error_iff, Box.isValid_iff]
  · intro h
    have hvalid := Box.isValid_iff.2 h
    refine ⟨_, Box.fit_of_valid hvalid path, Path.map_of_points_eq_nil _, List.length_map _,
      Path.getElem?_map_eq_gap_iff _ path, ?_, Path.polylines_map _ path, ?_⟩
    · intro k p hp
      rw [List.getElem?_map, hp]
      rfl
    · intro other hpoints
      refine ⟨_, Box.fit_of_valid hvalid other, ?_⟩
      rw [Path.points_map, Path.points_map, hpoints]

/-- A point between gaps and the same point alone, which both come to lie in the
middle of the box; a box that is flat. -/
theorem fit_outcome_of_gaps_and_flat_box :
    (∃ fitted, Box.standard.fit [.gap, .point ⟨3.0, 4.0, 5.0⟩, .gap] = .ok fitted ∧
      fitted.length = 3 ∧ fitted[0]? = some .gap ∧ fitted[1]? = some (.point Vec3.zero) ∧
      fitted[2]? = some .gap ∧
      ∃ moved, Box.standard.fit [.point ⟨3.0, 4.0, 5.0⟩] = .ok moved ∧
        moved.points = fitted.points) ∧
      Box.fit ⟨Vec3.zero, ⟨1.0, 1.0, 0.0⟩⟩ [.gap] =
        .error (.invalidTargetBox Vec3.zero ⟨1.0, 1.0, 0.0⟩) := by
  obtain ⟨place, hplace⟩ := fit_outcome
  obtain ⟨-, hvalid⟩ := hplace Box.standard [.gap, .point ⟨3.0, 4.0, 5.0⟩, .gap]
  obtain ⟨fitted, hfit, -, hlength, hgaps, -, -, hother⟩ := hvalid (by decide)
  obtain ⟨hrefused, -⟩ := hplace ⟨Vec3.zero, ⟨1.0, 1.0, 0.0⟩⟩ [.gap]
  refine ⟨⟨fitted, hfit, hlength, (hgaps 0).2 rfl, ?_, (hgaps 2).2 rfl, ?_⟩, ?_⟩
  · obtain rfl := Except.ok.inj ((Box.fit_of_valid (by decide) _).symm.trans hfit)
    decide +kernel
  · exact hother [.point ⟨3.0, 4.0, 5.0⟩] rfl
  · exact hrefused.2 (by decide)

end FractalCurve
