import FractalCurve.Geometry.Vec3

/-!
# Paths

A path is a sequence of points with gaps between them. The points between two
gaps, or between a gap and either end, form one polyline; `polylines` reads
those off and drops the empty ones.
-/

namespace FractalCurve

inductive PathElement where
  /-- Continues the current polyline. -/
  | point (position : Vec3)
  /-- Ends the current polyline. -/
  | gap
deriving BEq, DecidableEq

abbrev Path := List PathElement

namespace PathElement

def point? : PathElement → Option Vec3
  | .point p => some p
  | .gap => none

def isGap : PathElement → Bool
  | .point _ => false
  | .gap => true

def map (f : Vec3 → Vec3) : PathElement → PathElement
  | .point p => .point (f p)
  | .gap => .gap

end PathElement

namespace Path

def points (path : Path) : List Vec3 := path.filterMap PathElement.point?

@[simp] theorem points_nil : points [] = [] := rfl

@[simp] theorem points_cons_point (position : Vec3) (path : Path) :
    points (.point position :: path) = position :: points path := rfl

@[simp] theorem points_cons_gap (path : Path) : points (.gap :: path) = points path := rfl

@[simp] theorem points_append (p q : Path) : points (p ++ q) = points p ++ points q :=
  List.filterMap_append

/-- Puts an element in front of a path whose runs of points are known. -/
def extendRuns : PathElement → List (List Vec3) → List (List Vec3)
  | .gap, runs => [] :: runs
  | .point p, run :: runs => (p :: run) :: runs
  | .point p, [] => [[p]]

/-- The runs of points between gaps, one more than there are gaps. -/
def runs (path : Path) : List (List Vec3) := path.foldr extendRuns [[]]

@[simp] theorem runs_nil : runs [] = [[]] := rfl

@[simp] theorem runs_cons (e : PathElement) (path : Path) :
    runs (e :: path) = extendRuns e (runs path) := rfl

def polylines (path : Path) : List (List Vec3) := path.runs.filter fun run => !run.isEmpty

def segmentLengths (line : List Vec3) : List Float32 :=
  List.zipWith Vec3.distance line line.tail

/-- The drawn length: the segments of all polylines, added up in order. The sum
of no segments is negative zero, the number that changes no sum. -/
def drawnLength (path : Path) : Float32 :=
  (path.polylines.flatMap segmentLengths).foldl (· + ·) (-0.0)

end Path

end FractalCurve
