import FractalCurve.Catalog.Basic
import FractalCurve.Number.Angle
import FractalCurve.Path.Fit

/-!
# Browsing a catalog

A selector holds a catalog with one of its curves selected, the box that curves
are shown in, and a debug mode in which only the first elements are shown, so
that a curve can be watched being drawn.
-/

namespace FractalCurve

structure Selector where
  catalog : Catalog
  index : Nat
  index_lt : index < catalog.curves.length
  box : Box
  debugMode : Bool
  /-- How many elements debug mode shows. It has no bound here; a counter of 64 bits
  agrees with it below `2 ^ 64`, a range that takes as many steps up to leave. -/
  debugStep : Nat

namespace Selector

open Number

def ofCatalog? (catalog : Catalog) : Option Selector :=
  if h : 0 < catalog.curves.length then some ⟨catalog, 0, h, Box.standard, false, 1⟩ else none

def withBox (s : Selector) (box : Box) : Selector := { s with box }

def current (s : Selector) : Curve := s.catalog.curves.get ⟨s.index, s.index_lt⟩

def modifyCurrent (s : Selector) (f : Curve → Curve) : Selector :=
  { s with
    catalog := ⟨s.catalog.curves.modify s.index f⟩
    index_lt := by simpa using s.index_lt }

@[simp] theorem current_modifyCurrent (s : Selector) (f : Curve → Curve) :
    (s.modifyCurrent f).current = f s.current := by
  simp [current, modifyCurrent]

def modifyGrammar (s : Selector) (f : Grammar → Grammar) : Selector :=
  s.modifyCurrent fun c => { c with grammar := f c.grammar }

/-- A place past either end of a list becomes the other end, however far past
it lies. -/
def wrap (size : Nat) (place : Int) : Nat :=
  if place < 0 then size - 1 else if size ≤ place then 0 else place.toNat

theorem wrap_lt {size : Nat} (h : 0 < size) (place : Int) : wrap size place < size := by
  unfold wrap
  split
  · omega
  · split <;> omega

/-- Moves the selection and leaves debug mode. -/
def switch (s : Selector) (direction : Int) : Selector :=
  { s with
    index := wrap s.catalog.curves.length (s.index + direction)
    index_lt := wrap_lt (Nat.zero_lt_of_lt s.index_lt) _
    debugMode := false
    debugStep := 0 }

/-- The new count is cut off at zero and at the curve's cap. -/
def changeIterations (s : Selector) (delta : Int) : Selector :=
  s.modifyCurrent fun c =>
    let next := max 0 (min (c.iterations.toNat + delta) c.maxIterations.toNat)
    { c with iterations := next.toNat.toUInt32 }

/-- Rounded to whole degrees, then moved by one full turn at most from either
side of the range from zero to a full turn. -/
def turnedAngle (angle delta : Float32) : Float32 :=
  let rounded := radians (roundAway (degrees (angle + delta)))
  let raised := if rounded < 0.0 then rounded + fullTurn else rounded
  if raised > fullTurn then raised - fullTurn else raised

def changeAngle (s : Selector) (delta : Float32) : Selector :=
  s.modifyGrammar fun g => { g with angle := turnedAngle g.angle delta }

def setDebugMode (s : Selector) (enabled : Bool) : Selector := { s with debugMode := enabled }

def increaseDebugStep (s : Selector) : Selector :=
  if s.debugMode then { s with debugStep := s.debugStep + 1 } else s

def decreaseDebugStep (s : Selector) : Selector :=
  if s.debugMode then { s with debugStep := s.debugStep - 1 } else s

/-- The selected curve in the selector's box; in debug mode its first elements,
where the whole curve has them. -/
def generate (s : Selector) : Except CurveError Path := do
  let path ← s.box.fit (← s.current.generate)
  return if s.debugMode then path.take s.debugStep else path

end Selector

end FractalCurve
