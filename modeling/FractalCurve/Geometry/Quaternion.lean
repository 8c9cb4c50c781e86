import FractalCurve.Geometry.Vec3
import FractalCurve.Number.Trig

/-!
# Rotations

Unit quaternions and their action on vectors. The grouping of the sums is part
of the result, since single-precision addition does not associate.
-/

namespace FractalCurve

structure Quaternion where
  x : Float32
  y : Float32
  z : Float32
  w : Float32
deriving BEq, DecidableEq

namespace Quaternion

open Number

def identity : Quaternion := ⟨0.0, 0.0, 0.0, 1.0⟩

def aboutX (angle : Float32) : Quaternion :=
  let half := angle * 0.5
  ⟨sine half, 0.0, 0.0, cosine half⟩

def aboutY (angle : Float32) : Quaternion :=
  let half := angle * 0.5
  ⟨0.0, sine half, 0.0, cosine half⟩

def aboutZ (angle : Float32) : Quaternion :=
  let half := angle * 0.5
  ⟨0.0, 0.0, sine half, cosine half⟩

/-- First the rotation `b`, then `a`. -/
instance : Mul Quaternion := ⟨fun a b =>
  { x := (a.w * b.x + a.x * b.w) + (a.y * b.z - a.z * b.y)
    y := (a.w * b.y - a.x * b.z) + (a.y * b.w + a.z * b.x)
    z := (a.w * b.z + a.x * b.y) + (a.z * b.w - a.y * b.x)
    w := (a.w * b.w - a.x * b.x) + (-(a.y * b.y) - a.z * b.z) }⟩

/-- The rotated vector. No term is left out, so a zero keeps its sign and a NaN
or an infinity spreads as the sum makes it. -/
def rotate (q : Quaternion) (v : Vec3) : Vec3 :=
  let axis : Vec3 := ⟨q.x, q.y, q.z⟩
  let k := q.w * q.w - axis.dot axis
  let d := v.dot axis * 2.0
  let w2 := q.w * 2.0
  { x := (v.x * k + q.x * d) + (q.y * v.z - v.y * q.z) * w2
    y := (v.y * k + q.y * d) + (q.z * v.x - v.z * q.x) * w2
    z := (v.z * k + q.z * d) + (q.x * v.y - v.x * q.y) * w2 }

end Quaternion

end FractalCurve
