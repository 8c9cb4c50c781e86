import FractalCurve.Interpreter.Basic
import FractalCurve.Turtle.Turtles

/-!
# Walks

A walk is a turtle on its way through a word. `next` goes on to the next
element and no further, so a word is read only as far as elements are asked
for. The first element is the start point; draws give points and closed
branches give gaps; a closed curve ends with the start point once more.
-/

namespace FractalCurve

inductive Phase where
  | start
  | walking
  | done
deriving DecidableEq

structure Walk where
  interpreter : Interpreter
  angle : Float32
  stepLength : Float32
  closed : Bool
  phase : Phase
  rest : Word
  turtles : Turtles

def Interpreter.interpret (i : Interpreter) (word : Word) (angle stepLength : Float32)
    (closed : Bool) : Except CurveError Walk := do
  checkStepLength stepLength
  i.checkBranches word
  return ⟨i, angle, stepLength, closed, .start, word, Turtles.start⟩

namespace Walk

/-- Reads symbols up to the first that gives an element. -/
def read (w : Walk) : Word → Turtles → Option PathElement × Walk
  | [], turtles =>
    (if w.closed then some (.point Turtle.start.position) else none,
      { w with phase := .done, rest := [], turtles })
  | symbol :: rest, turtles =>
    let command := w.interpreter.command symbol
    let reached := command.act w.angle w.stepLength turtles
    match command.element? reached with
    | some element => (some element, { w with rest, turtles := reached })
    | none => w.read rest reached

/-- The next element, or none at the end, and the walk from there. -/
def next (w : Walk) : Option PathElement × Walk :=
  match w.phase with
  | .start => (some (.point w.turtles.current.position), { w with phase := .walking })
  | .walking => w.read w.rest w.turtles
  | .done => (none, w)

theorem next_start {w : Walk} (h : w.phase = .start) :
    w.next = (some (.point w.turtles.current.position), { w with phase := .walking }) := by
  simp [next, h]

theorem next_walking {w : Walk} (h : w.phase = .walking) :
    w.next = w.read w.rest w.turtles := by
  simp [next, h]

theorem next_done {w : Walk} (h : w.phase = .done) : w.next = (none, w) := by
  simp [next, h]

def callsOnto (results : List (Option PathElement)) : Nat → Walk → List (Option PathElement)
  | 0, _ => results.reverse
  | n + 1, w =>
    let (result, after) := w.next
    callsOnto (result :: results) n after

/-- The results of `n` calls of `next` one after the other. -/
def calls (n : Nat) (w : Walk) : List (Option PathElement) := callsOnto [] n w

/-- All elements: the start point, at most one for each symbol, and the point
that closes the curve. -/
def elements (w : Walk) : Path := (w.calls (w.rest.length + 2)).filterMap id

theorem callsOnto_eq (results : List (Option PathElement)) (n : Nat) (w : Walk) :
    callsOnto results n w = results.reverse ++ w.calls n := by
  induction n generalizing results w with
  | zero => simp [calls, callsOnto]
  | succ n ih => simp only [calls, callsOnto]; rw [ih, ih [_]]; simp

@[simp] theorem calls_zero (w : Walk) : w.calls 0 = [] := rfl

@[simp] theorem calls_succ (n : Nat) (w : Walk) :
    w.calls (n + 1) = w.next.1 :: w.next.2.calls n := by
  show callsOnto [w.next.1] n w.next.2 = _
  rw [callsOnto_eq]
  rfl

end Walk

end FractalCurve
