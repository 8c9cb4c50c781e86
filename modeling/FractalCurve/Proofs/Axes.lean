import FractalCurve.Proofs.Fitting
import Mathlib.Data.List.Forall2

/-!
# Axes

The three axes play the same part in a placement: the offset on an axis depends
on the scale and on that axis of the two boxes, the scale on the axes on which
the curve has an extent.

`fit_of_agree`: where two boxes agree on the axes that set the scale, they place
a path alike on every axis on which they agree.
-/

namespace FractalCurve

inductive Axis where
  | x
  | y
  | z
deriving DecidableEq

namespace Axis

def all : List Axis := [x, y, z]

theorem mem_all (a : Axis) : a ∈ all := by
  cases a <;> decide

end Axis

-- ---------------------------------------------------------------------------
-- Components
-- ---------------------------------------------------------------------------

namespace Vec3

def component (v : Vec3) : Axis → Float32
  | .x => v.x
  | .y => v.y
  | .z => v.z

variable (v w : Vec3) (a : Axis)

@[simp] theorem component_add : (v + w).component a = v.component a + w.component a := by
  cases a <;> rfl

@[simp] theorem component_sub : (v - w).component a = v.component a - w.component a := by
  cases a <;> rfl

@[simp] theorem component_scale (s : Float32) :
    (v.scale s).component a = v.component a * s := by
  cases a <;> rfl

@[simp] theorem component_zero : zero.component a = 0.0 := by
  cases a <;> rfl

@[simp] theorem component_zipWith (f : Float32 → Float32 → Float32) :
    (v.zipWith f w).component a = f (v.component a) (w.component a) := by
  cases a <;> rfl

variable {v w}

theorem eq_of_component_eq (h : ∀ a, v.component a = w.component a) : v = w := by
  obtain ⟨x, y, z⟩ := v
  obtain ⟨x', y', z'⟩ := w
  obtain rfl : x = x' := h .x
  obtain rfl : y = y' := h .y
  obtain rfl : z = z' := h .z
  rfl

end Vec3

namespace Box

@[simp] theorem component_extent (b : Box) (a : Axis) :
    b.extent.component a = b.upper.component a - b.lower.component a :=
  Vec3.component_sub _ _ a

@[simp] theorem component_offset (target curve : Box) (a : Axis) :
    (target.placement curve).offset.component a =
      let scale := (target.placement curve).scale
      (target.lower.component a - curve.lower.component a * scale) +
        (target.extent.component a - curve.extent.component a * scale) / 2.0 := by
  cases a <;> rfl

end Box

@[simp] theorem Placement.component_apply (m : Placement) (p : Vec3) (a : Axis) :
    (m.apply p).component a = p.component a * m.scale + m.offset.component a := by
  rw [apply, Vec3.component_add, Vec3.component_scale]

-- ---------------------------------------------------------------------------
-- The common scale
-- ---------------------------------------------------------------------------

section

variable (target curve : Vec3)

/-- The axes on which the curve has an extent. -/
def extendedAxes : List Axis := Axis.all.filter fun a => curve.component a > 0.0

def axisRatio (a : Axis) : Float32 := target.component a / curve.component a

def leastNumber : List Float32 → Float32
  | [] => 1.0
  | first :: rest => rest.foldl smallerNumber first

theorem commonScale_eq :
    commonScale target curve = leastNumber ((extendedAxes curve).map (axisRatio target curve)) := by
  have haxes : [(target.x, curve.x), (target.y, curve.y), (target.z, curve.z)] =
      Axis.all.map fun a => (target.component a, curve.component a) := rfl
  have hratios : ((Axis.all.map fun a => (target.component a, curve.component a)).filter
      fun a => a.2 > 0.0).map (fun a => a.1 / a.2) =
      (extendedAxes curve).map (axisRatio target curve) := by
    rw [List.filter_map, List.map_map]
    rfl
  rw [commonScale, haxes, hratios]
  cases (extendedAxes curve).map (axisRatio target curve) <;> rfl

variable {target curve}

theorem mem_extendedAxes {a : Axis} : a ∈ extendedAxes curve ↔ curve.component a > 0.0 := by
  simp [extendedAxes, Axis.mem_all]

theorem commonScale_congr {other : Vec3}
    (h : ∀ a, curve.component a > 0.0 → target.component a = other.component a) :
    commonScale target curve = commonScale other curve := by
  rw [commonScale_eq, commonScale_eq]
  refine congrArg leastNumber (List.map_congr_left fun a ha => ?_)
  rw [axisRatio, axisRatio, h a (mem_extendedAxes.1 ha)]

end

-- ---------------------------------------------------------------------------
-- Agreeing boxes
-- ---------------------------------------------------------------------------

/-- Both corners are the same on this axis. -/
def Box.Agree (s t : Box) (a : Axis) : Prop :=
  s.lower.component a = t.lower.component a ∧ s.upper.component a = t.upper.component a

instance (s t : Box) (a : Axis) : Decidable (s.Agree t a) :=
  inferInstanceAs (Decidable (_ ∧ _))

namespace Box

variable {s t curve : Box} {a : Axis}

theorem Agree.extent_eq (h : Agree s t a) : s.extent.component a = t.extent.component a := by
  rw [component_extent, component_extent, h.1, h.2]

theorem scale_eq_of_agree (h : ∀ a, curve.extent.component a > 0.0 → Agree s t a) :
    (s.placement curve).scale = (t.placement curve).scale :=
  commonScale_congr fun a ha => (h a ha).extent_eq

theorem component_apply_of_agree (h : ∀ a, curve.extent.component a > 0.0 → Agree s t a)
    (ha : Agree s t a) (p : Vec3) :
    ((s.placement curve).apply p).component a = ((t.placement curve).apply p).component a := by
  rw [Placement.component_apply, Placement.component_apply, component_offset,
    component_offset, scale_eq_of_agree h, ha.1, ha.extent_eq]

end Box

/-- The elements are gaps, or points with the same coordinates on these axes. -/
inductive AlikeOn (axes : Axis → Prop) : PathElement → PathElement → Prop where
  | gap : AlikeOn axes .gap .gap
  | point {p q : Vec3} (h : ∀ a, axes a → p.component a = q.component a) :
      AlikeOn axes (.point p) (.point q)

theorem alikeOn_map {axes : Axis → Prop} {f g : Vec3 → Vec3}
    (h : ∀ a, axes a → ∀ p, (f p).component a = (g p).component a) (path : Path) :
    List.Forall₂ (AlikeOn axes) (path.map (PathElement.map f)) (path.map (PathElement.map g)) := by
  induction path with
  | nil => exact .nil
  | cons e path ih =>
    refine .cons ?_ ih
    cases e with
    | gap => exact .gap
    | point p => exact .point fun a ha => h a ha p

/-- An axis on which the points have no extent has no influence on the others:
the boxes may differ there, and the results differ on no other axis. -/
theorem fit_of_agree {path : Path} {first : Vec3} {rest : List Vec3}
    (hpoints : path.points = first :: rest) {s t : Box} (hs : s.isValid) (ht : t.isValid)
    (h : ∀ a, (bounds first rest).extent.component a > 0.0 → s.Agree t a) :
    ∃ fitted moved, s.fit path = .ok fitted ∧ t.fit path = .ok moved ∧
      List.Forall₂ (AlikeOn (s.Agree t)) fitted moved := by
  refine ⟨_, _, Box.fit_of_valid hs path, Box.fit_of_valid ht path, ?_⟩
  rw [hpoints]
  exact alikeOn_map (fun a ha p => Box.component_apply_of_agree h ha p) path

/-- A stroke in the plane, fitted into two boxes of different depth. -/
theorem fit_of_agree_of_planar :
    ∃ fitted moved,
      Box.standard.fit [.point Vec3.zero, .gap, .point ⟨0.0, 1.0, 0.0⟩] = .ok fitted ∧
      Box.fit ⟨⟨7.0, -100.0, 1.0⟩, ⟨9.0, 100.0, 2.0⟩⟩
        [.point Vec3.zero, .gap, .point ⟨0.0, 1.0, 0.0⟩] = .ok moved ∧
      List.Forall₂
        (AlikeOn (Box.standard.Agree ⟨⟨7.0, -100.0, 1.0⟩, ⟨9.0, 100.0, 2.0⟩⟩)) fitted moved := by
  refine fit_of_agree rfl (by decide) (by decide) fun a ha => ?_
  cases a with
  | x => exact absurd ha (by decide +kernel)
  | y => decide +kernel
  | z => exact absurd ha (by decide +kernel)

end FractalCurve
