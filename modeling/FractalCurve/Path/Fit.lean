import FractalCurve.Error
import FractalCurve.Geometry.Box
import FractalCurve.Geometry.Quaternion
import FractalCurve.Path.Element

/-!
# Fitting a path into a box

The points of a path are scaled by one factor and moved by one offset, so that
they lie in the middle of a target box and touch it on the axis that is
tightest. An axis on which the curve is flat does not constrain the factor, and
gaps have no part in it.
-/

namespace FractalCurve

/-- The bounds of the points `first :: rest`, as seen in the frame turned by the
identity. The turn makes a point with an infinite or NaN coordinate NaN
throughout; adding zero leaves no negative zero in the bounds. -/
def bounds (first : Vec3) (rest : List Vec3) : Box :=
  let turned := Quaternion.identity.rotate
  let hull : Box := rest.foldl (fun b p => b.extend (turned p)) ⟨turned first, turned first⟩
  ⟨hull.lower + Vec3.zero, hull.upper + Vec3.zero⟩

structure Placement where
  scale : Float32
  offset : Vec3

def Placement.apply (m : Placement) (p : Vec3) : Vec3 := p.scale m.scale + m.offset

/-- The smaller number; a NaN yields to a number. -/
def smallerNumber (a b : Float32) : Float32 :=
  if a.isNaN then b else if b < a then b else a

/-- The least ratio of target to curve over the axes on which the curve has an
extent, or one if there is none. -/
def commonScale (target curve : Vec3) : Float32 :=
  let axes := [(target.x, curve.x), (target.y, curve.y), (target.z, curve.z)]
  match (axes.filter fun a => a.2 > 0.0).map fun a => a.1 / a.2 with
  | [] => 1.0
  | ratio :: ratios => ratios.foldl smallerNumber ratio

/-- Places a curve with the given bounds in the middle of the target. -/
def Box.placement (target curve : Box) : Placement :=
  let scale := commonScale target.extent curve.extent
  let center (low lowCurve extent extentCurve : Float32) : Float32 :=
    (low - lowCurve * scale) + (extent - extentCurve * scale) / 2.0
  { scale
    offset :=
      { x := center target.lower.x curve.lower.x target.extent.x curve.extent.x
        y := center target.lower.y curve.lower.y target.extent.y curve.extent.y
        z := center target.lower.z curve.lower.z target.extent.z curve.extent.z } }

/-- A path without points stays as it is. -/
def Box.fit (target : Box) (path : Path) : Except CurveError Path :=
  if target.isValid then
    match path.points with
    | [] => .ok path
    | first :: rest =>
      .ok (path.map (PathElement.map (target.placement (bounds first rest)).apply))
  else .error (.invalidTargetBox target.lower target.upper)

end FractalCurve
