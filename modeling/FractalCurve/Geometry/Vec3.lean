/-!
# Vectors

Points, directions and angle triples in single precision. `==` compares
coordinates as numbers, so the two zeros are equal and NaN equals nothing; `=`
tells bit patterns apart.
-/

namespace FractalCurve

structure Vec3 where
  x : Float32
  y : Float32
  z : Float32
deriving BEq, DecidableEq

namespace Vec3

def splat (a : Float32) : Vec3 := ⟨a, a, a⟩
def zero : Vec3 := splat 0.0
def unitY : Vec3 := ⟨0.0, 1.0, 0.0⟩

instance : Add Vec3 := ⟨fun a b => ⟨a.x + b.x, a.y + b.y, a.z + b.z⟩⟩
instance : Sub Vec3 := ⟨fun a b => ⟨a.x - b.x, a.y - b.y, a.z - b.z⟩⟩

def scale (a : Vec3) (s : Float32) : Vec3 := ⟨a.x * s, a.y * s, a.z * s⟩

def dot (a b : Vec3) : Float32 := (a.x * b.x + a.y * b.y) + a.z * b.z

def distance (a b : Vec3) : Float32 :=
  let d := a - b
  (d.dot d).sqrt

end Vec3

end FractalCurve
