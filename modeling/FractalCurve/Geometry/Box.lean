import FractalCurve.Geometry.Vec3

/-!
# Boxes

Axis-aligned boxes, given by two corners. A box can be widened point by point
to bound a set of points.
-/

namespace FractalCurve

/-- The lower corner need not lie below the upper one; `isValid` says whether it
does. -/
structure Box where
  lower : Vec3
  upper : Vec3
deriving BEq, DecidableEq

def Box.standard : Box := ⟨Vec3.splat (-100.0), Vec3.splat 100.0⟩

def Box.extent (b : Box) : Vec3 := b.upper - b.lower

/-- Whether the lower corner is below the upper one on every axis. NaN is below
nothing. -/
def Box.isValid (b : Box) : Bool :=
  b.lower.x < b.upper.x ∧ b.lower.y < b.upper.y ∧ b.lower.z < b.upper.z

def lesser (a b : Float32) : Float32 := if b < a then b else a
def greater (a b : Float32) : Float32 := if b > a then b else a

def Vec3.zipWith (f : Float32 → Float32 → Float32) (a b : Vec3) : Vec3 :=
  ⟨f a.x b.x, f a.y b.y, f a.z b.z⟩

/-- Widens a box to hold one more point. A NaN coordinate changes nothing. -/
def Box.extend (b : Box) (p : Vec3) : Box :=
  ⟨b.lower.zipWith lesser p, b.upper.zipWith greater p⟩

end FractalCurve
