import FractalCurve.Path.Element
import FractalCurve.Turtle.Command

/-!
# Turtles with branches

A turtle that works on branches leaves copies of itself behind, one for every
open branch, and closing a branch goes back to the latest copy.
-/

namespace FractalCurve

structure Turtles where
  current : Turtle
  /-- The copies, that of the innermost open branch first. -/
  saved : List Turtle
deriving DecidableEq

def Turtles.start : Turtles := ⟨Turtle.start, []⟩

namespace Command

/-- Carries out a command. At a close without an open branch the turtle
stays. -/
def act (c : Command) (angle stepLength : Float32) (t : Turtles) : Turtles :=
  match c with
  | .draw => { t with current := t.current.advance stepLength }
  | .push => { t with saved := t.current :: t.saved }
  | .pop =>
    match t.saved with
    | last :: outer => ⟨last, outer⟩
    | [] => t
  | .ignore => t
  | turn => { t with current := turn.turn angle t.current }

/-- What the path gains when a command has led to these turtles: draws give
points and closed branches give gaps. -/
def element? (c : Command) (t : Turtles) : Option PathElement :=
  match c with
  | .draw => some (.point t.current.position)
  | .pop => some .gap
  | _ => none

end Command

end FractalCurve
