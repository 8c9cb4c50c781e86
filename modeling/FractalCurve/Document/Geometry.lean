import FractalCurve.Json.Record
import FractalCurve.Path.Fit
import FractalCurve.Turtle.Command

/-!
# JSON forms of geometry

Vectors are arrays of three numbers, boxes and turtles objects, path elements
and commands variants.
-/

namespace FractalCurve

open Json

namespace Vec3

def toJson (v : Vec3) : Json := .array [.ofFloat v.x, .ofFloat v.y, .ofFloat v.z]

def coordinate (first : Bool) : Reader Float32 := fun ts => do
  match ← nextItem first Reader.float32 ts with
  | (some a, ts) => .ok (a, ts)
  | (none, _) => .error .unsuitable

def reader : Reader Vec3
  | .openArray :: ts => do
    let (x, ts) ← coordinate true ts
    let (y, ts) ← coordinate false ts
    let (z, ts) ← coordinate false ts
    return (⟨x, y, z⟩, ← require .closeArray ts)
  | ts => wrongKind ts

end Vec3

namespace PathElement

def toJson : PathElement → Json
  | .point p => ofContent "Point" p.toJson
  | .gap => .ofString "Break"

def variants : List (Variant PathElement) :=
  [.ofContent "Point" .point Vec3.reader, .ofValue "Break" .gap]

def codec : Codec PathElement := ⟨toJson, variantReader variants⟩

end PathElement

namespace Command

def toJson : Command → Json
  | .draw => .ofString "Draw"
  | .yaw factor => ofContent "Yaw" (.ofFloat factor)
  | .pitch factor => ofContent "Pitch" (.ofFloat factor)
  | .roll factor => ofContent "Roll" (.ofFloat factor)
  | .turnAround => .ofString "TurnAround"
  | .push => .ofString "Push"
  | .pop => .ofString "Pop"
  | .ignore => .ofString "Ignore"

def variants : List (Variant Command) :=
  [ .ofValue "Draw" .draw,
    .ofContent "Yaw" .yaw Reader.float32,
    .ofContent "Pitch" .pitch Reader.float32,
    .ofContent "Roll" .roll Reader.float32,
    .ofValue "TurnAround" .turnAround,
    .ofValue "Push" .push,
    .ofValue "Pop" .pop,
    .ofValue "Ignore" .ignore ]

def codec : Codec Command := ⟨toJson, variantReader variants⟩

end Command

structure VectorPair where
  first : Option Vec3
  second : Option Vec3

/-- A record of two vectors, neither of which may be missing. -/
def vectorPair {α : Type} (first second : String) (make : Vec3 → Vec3 → α) :
    Record VectorPair α :=
  { fields :=
      [ .of first Vec3.reader VectorPair.first fun d v => { d with first := some v },
        .of second Vec3.reader VectorPair.second fun d v => { d with second := some v } ]
    blank := ⟨none, none⟩
    finish := fun d => return make (← d.first) (← d.second) }

def Turtle.toJson (t : Turtle) : Json :=
  ofMembers [("position", t.position.toJson), ("angles", t.angles.toJson)]

def Turtle.codec : Codec Turtle := ⟨toJson, (vectorPair "position" "angles" .mk).reader⟩

def Box.toJson (b : Box) : Json :=
  ofMembers [("min", b.lower.toJson), ("max", b.upper.toJson)]

def Box.codec : Codec Box := ⟨toJson, (vectorPair "min" "max" .mk).reader⟩

end FractalCurve
