import FractalCurve.Geometry.Vec3
import FractalCurve.Number.Numeral
import FractalCurve.Text.Quoted

/-!
# Errors of curve generation

Each constructor is a cause found before any geometry is returned; `message`
is its wording.
-/

namespace FractalCurve

inductive CurveError where
  /-- A step length that is zero, negative or not finite. -/
  | invalidStepLength (stepLength : Float32)
  /-- A target box that is inverted or flat on some axis. -/
  | invalidTargetBox (lower upper : Vec3)
  /-- A branch closed at this symbol without having been opened. -/
  | unbalancedBranch (index : Nat)
  | stackOverflow (limit : Nat)
  /-- An entry that is not of the form `X => production`. -/
  | ruleSyntax (entry : List Char)
deriving DecidableEq

open Number

/-- Messages write the fewest digits that read back, never an exponent, and
whole numbers without a point. -/
def messageStyle : FloatStyle := ⟨.up, fun _ => true, []⟩

def floatText (x : Float32) : String :=
  match finite32 x with
  | some v => String.ofList (messageStyle.numeral v).text
  | none => if x.isNaN then "NaN" else if x < 0.0 then "-inf" else "inf"

def vectorText (v : Vec3) : String :=
  "[" ++ floatText v.x ++ ", " ++ floatText v.y ++ ", " ++ floatText v.z ++ "]"

def CurveError.message : CurveError → String
  | .invalidStepLength s =>
    "step length must be a positive finite number, got " ++ floatText s
  | .invalidTargetBox lower upper =>
    "target box min " ++ vectorText lower ++ " must be strictly less than max " ++
      vectorText upper ++ " on every axis"
  | .unbalancedBranch index => "unbalanced branch close at symbol index " ++ toString index
  | .stackOverflow limit =>
    "branch nesting exceeds the maximum stack depth of " ++ toString limit
  | .ruleSyntax entry => "malformed rule: " ++ String.ofList (Text.quoted entry)

end FractalCurve
