import FractalCurve.Turtle.State

/-!
# Turtle commands

What a symbol can tell the turtle. A turn carries a factor on the curve's turn
angle, usually its sign.
-/

namespace FractalCurve

inductive Command where
  | draw
  | yaw (factor : Float32)
  | pitch (factor : Float32)
  | roll (factor : Float32)
  /-- Pitch back by twice the angle. -/
  | turnAround
  /-- Open a branch: save position and orientation. -/
  | push
  /-- Close the innermost branch and break the line. -/
  | pop
  | ignore
deriving BEq, DecidableEq

namespace Command

/-- Turns the turtle. Commands that draw or work on branches are no turns and
leave it as it is. -/
def turn (c : Command) (angle : Float32) (t : Turtle) : Turtle :=
  match c with
  | .yaw factor => t.yaw (angle * factor)
  | .pitch factor => t.pitch (angle * factor)
  | .roll factor => t.roll (angle * factor)
  | .turnAround => t.pitch (-2.0 * angle)
  | .draw | .push | .pop | .ignore => t

def isDraw : Command → Bool
  | .draw => true
  | _ => false

def standard : List (Char × Command) :=
  [ ('F', .draw), ('G', .draw), ('H', .draw), ('I', .draw),
    ('+', .yaw 1.0), ('-', .yaw (-1.0)),
    ('<', .pitch 1.0), ('>', .pitch (-1.0)), ('|', .turnAround),
    ('^', .roll 1.0), ('&', .roll (-1.0)),
    ('[', .push), (']', .pop) ]

end Command

end FractalCurve
