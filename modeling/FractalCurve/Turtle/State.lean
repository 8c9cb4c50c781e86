import FractalCurve.Geometry.Quaternion

/-!
# The turtle

A turtle is a pen position and an orientation. The orientation is kept as three
accumulated angles about the axes, not as a running rotation: turns about
different axes never disturb each other.
-/

namespace FractalCurve

structure Turtle where
  position : Vec3
  angles : Vec3
deriving BEq, DecidableEq

namespace Turtle

def start : Turtle := ⟨Vec3.zero, Vec3.zero⟩

/-- The rotations about the turtle's own X, Y and Z axes, in this order. -/
def rotation (t : Turtle) : Quaternion :=
  Quaternion.aboutX t.angles.x * Quaternion.aboutY t.angles.y * Quaternion.aboutZ t.angles.z

/-- The turtle faces along its own Y axis. -/
def forward (t : Turtle) : Vec3 := t.rotation.rotate Vec3.unitY

def advance (t : Turtle) (distance : Float32) : Turtle :=
  { t with position := t.position + t.forward.scale distance }

def pitch (t : Turtle) (angle : Float32) : Turtle :=
  { t with angles.x := t.angles.x + angle }

def roll (t : Turtle) (angle : Float32) : Turtle :=
  { t with angles.y := t.angles.y + angle }

def yaw (t : Turtle) (angle : Float32) : Turtle :=
  { t with angles.z := t.angles.z + angle }

end Turtle

end FractalCurve
