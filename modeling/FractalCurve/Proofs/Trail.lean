import FractalCurve.Interpreter.Walk
import FractalCurve.Proofs.Nesting

/-!
# Trails

A course carried out in one go: `track` says where it leads and `trail` which
elements it leaves behind. A walk stops at each element instead and reads on
when asked, yet it goes through the same turtles.

`next_remaining`: a call takes away the first of the elements that a walk has
still to give. `map_elements_interpret`: asked for all its elements, a walk
gives the trail of its word between the start point and the point that closes
the curve. `after_consumes`: after any number of calls, a walk stands where the
part of the word that it has consumed leads. `calls_of_interpret`: the results
of any number of calls.
-/

namespace FractalCurve

namespace Turtles

variable (angle stepLength : Float32)

/-- Where a course leads. -/
def track (t : Turtles) (c : Course) : Turtles :=
  c.foldl (fun t command => command.act angle stepLength t) t

/-- The elements that a course leaves behind. -/
def trail : Turtles → Course → Path
  | _, [] => []
  | t, command :: rest =>
    let reached := command.act angle stepLength t
    (command.element? reached).toList ++ trail reached rest

@[simp] theorem track_nil (t : Turtles) : t.track angle stepLength [] = t := rfl

@[simp] theorem track_cons (t : Turtles) (command : Command) (c : Course) :
    t.track angle stepLength (command :: c) =
      (command.act angle stepLength t).track angle stepLength c := rfl

@[simp] theorem track_append (t : Turtles) (c d : Course) :
    t.track angle stepLength (c ++ d) = (t.track angle stepLength c).track angle stepLength d :=
  List.foldl_append

@[simp] theorem trail_nil (t : Turtles) : t.trail angle stepLength [] = [] := rfl

theorem trail_cons (t : Turtles) (command : Command) (c : Course) :
    t.trail angle stepLength (command :: c) =
      (command.element? (command.act angle stepLength t)).toList ++
        (command.act angle stepLength t).trail angle stepLength c := rfl

theorem trail_append (t : Turtles) (c d : Course) :
    t.trail angle stepLength (c ++ d) =
      t.trail angle stepLength c ++ (t.track angle stepLength c).trail angle stepLength d := by
  induction c generalizing t with
  | nil => rfl
  | cons command c ih => simp [trail_cons, ih]

variable {angle stepLength}

/-- One point for each draw and one gap for each close, in their order. -/
theorem map_isGap_trail (t : Turtles) (c : Course) :
    (t.trail angle stepLength c).map PathElement.isGap =
      (c.filter fun command => command.isDraw || command.isPop).map Command.isPop := by
  induction c generalizing t with
  | nil => rfl
  | cons command c ih =>
    rw [trail_cons, List.map_append, ih]
    cases command <;> rfl

/-- Elements are counted through the commands that give them. -/
theorem countP_trail (p : Bool → Bool) (t : Turtles) (c : Course) :
    (t.trail angle stepLength c).countP (fun e => p e.isGap) =
      c.countP fun command => p command.isPop && (command.isDraw || command.isPop) := by
  have hgaps : ((t.trail angle stepLength c).map PathElement.isGap).countP p = _ :=
    congrArg (List.countP p) (t.map_isGap_trail c)
  rw [List.countP_map, List.countP_map, List.countP_filter] at hgaps
  exact hgaps

theorem length_trail (t : Turtles) (c : Course) :
    (t.trail angle stepLength c).length =
      c.countP fun command => command.isDraw || command.isPop := by
  rw [← List.countP_true]
  exact countP_trail (fun _ => true) t c

end Turtles

/-- The point that closes a curve. -/
def closing (closed : Bool) : Path := if closed then [.point Turtle.start.position] else []

def Course.path (c : Course) (angle stepLength : Float32) (closed : Bool) : Path :=
  .point Turtle.start.position :: Turtles.start.trail angle stepLength c ++ closing closed

theorem filterMap_getElem?_range {α : Type} (l : List α) (n : Nat) :
    ((List.range n).map fun k => l[k]?).filterMap id = l.take n := by
  induction n generalizing l with
  | zero => rfl
  | succ n ih =>
    rw [List.range_succ_eq_map, List.map_cons, List.map_map]
    cases l with
    | nil => simp [Function.comp_def]
    | cons a l => simpa [Function.comp_def] using ih l

namespace Walk

section
variable {w : Walk} {symbol : Char} {rest : Word} {t reached : Turtles}

theorem read_silent (hr : (w.interpreter.command symbol).act w.angle w.stepLength t = reached)
    (he : (w.interpreter.command symbol).element? reached = none) :
    w.read (symbol :: rest) t = w.read rest reached := by
  simp [read, hr, he]

theorem read_element {element : PathElement}
    (hr : (w.interpreter.command symbol).act w.angle w.stepLength t = reached)
    (he : (w.interpreter.command symbol).element? reached = some element) :
    w.read (symbol :: rest) t = (some element, { w with rest, turtles := reached }) := by
  simp [read, hr, he]

end

/-- The elements that a walk has not given yet. -/
def remaining (w : Walk) : Path :=
  let ahead := w.turtles.trail w.angle w.stepLength (w.interpreter.course w.rest) ++
    closing w.closed
  match w.phase with
  | .start => .point w.turtles.current.position :: ahead
  | .walking => ahead
  | .done => []

theorem remaining_walking {w : Walk} (h : w.phase = .walking) :
    w.remaining = w.turtles.trail w.angle w.stepLength (w.interpreter.course w.rest) ++
      closing w.closed := by
  simp [remaining, h]

/-- A symbol that gives an element ends a call, and the next call reads on
behind it. -/
theorem read_remaining {w : Walk} (h : w.phase = .walking) (word : Word) (t : Turtles) :
    (w.read word t).1 =
        (t.trail w.angle w.stepLength (w.interpreter.course word) ++ closing w.closed).head? ∧
      (w.read word t).2.remaining =
        (t.trail w.angle w.stepLength (w.interpreter.course word) ++ closing w.closed).tail := by
  induction word generalizing t with
  | nil => cases hc : w.closed <;> simp [read, remaining, closing, hc]
  | cons symbol rest ih =>
    generalize hr : (w.interpreter.command symbol).act w.angle w.stepLength t = reached
    rw [Interpreter.course_cons, Turtles.trail_cons, hr]
    cases he : (w.interpreter.command symbol).element? reached with
    | none =>
      rw [read_silent hr he]
      exact ih reached
    | some element =>
      rw [read_element hr he]
      exact ⟨rfl, remaining_walking h⟩

/-- A call takes the first of the remaining elements away. -/
theorem next_remaining (w : Walk) :
    w.next.1 = w.remaining.head? ∧ w.next.2.remaining = w.remaining.tail := by
  cases hp : w.phase with
  | start =>
    rw [next_start hp]
    simp [remaining, hp]
  | walking =>
    rw [next_walking hp, remaining_walking hp]
    exact read_remaining hp w.rest w.turtles
  | done =>
    rw [next_done hp]
    simp [remaining, hp]

/-- The results of calls one after the other, none from the end on. -/
theorem calls_eq (n : Nat) (w : Walk) :
    w.calls n = (List.range n).map fun k => w.remaining[k]? := by
  induction n generalizing w with
  | zero => rfl
  | succ n ih =>
    obtain ⟨hfirst, hrest⟩ := w.next_remaining
    rw [calls_succ, ih, hrest, hfirst, List.range_succ_eq_map, List.map_cons, List.map_map]
    simp [Function.comp_def, List.head?_eq_getElem?]

theorem length_remaining_le (w : Walk) : w.remaining.length ≤ w.rest.length + 2 := by
  have htrail : (w.turtles.trail w.angle w.stepLength (w.interpreter.course w.rest)).length = _ :=
    Turtles.length_trail _ _
  have hcourse : (w.interpreter.course w.rest).countP
      (fun command => command.isDraw || command.isPop) ≤ w.rest.length := by
    simpa [Interpreter.course] using List.countP_le_length
  have hclosing : (closing w.closed).length ≤ 1 := by cases w.closed <;> simp [closing]
  cases hp : w.phase <;> simp [remaining, hp] <;> omega

theorem elements_eq_remaining (w : Walk) : w.elements = w.remaining := by
  rw [elements, calls_eq, filterMap_getElem?_range, List.take_of_length_le w.length_remaining_le]

/-- The walk after a number of calls of `next`. -/
def after : Nat → Walk → Walk
  | 0, w => w
  | n + 1, w => after n w.next.2

/-- The walk further on, where a part of its word has been consumed. -/
def further (w : Walk) (phase : Phase) (consumed later : Word) : Walk :=
  { w with
    phase
    rest := later
    turtles := w.turtles.track w.angle w.stepLength (w.interpreter.course consumed) }

theorem further_further (w : Walk) (phase phase' : Phase) (u v later later' : Word) :
    (w.further phase u later).further phase' v later' = w.further phase' (u ++ v) later' := by
  simp [further]

theorem read_consumes (w : Walk) (word : Word) (t : Turtles) :
    ∃ phase consumed later, word = consumed ++ later ∧
      (w.read word t).2 = further { w with turtles := t } phase consumed later := by
  induction word generalizing t with
  | nil => exact ⟨.done, [], [], rfl, rfl⟩
  | cons symbol rest ih =>
    generalize hr : (w.interpreter.command symbol).act w.angle w.stepLength t = reached
    cases he : (w.interpreter.command symbol).element? reached with
    | some element =>
      refine ⟨w.phase, [symbol], rest, rfl, ?_⟩
      rw [read_element hr he]
      simp [further, hr]
    | none =>
      obtain ⟨phase, u, later, rfl, hread⟩ := ih reached
      refine ⟨phase, symbol :: u, later, rfl, ?_⟩
      rw [read_silent hr he, hread]
      simp [further, hr]

theorem next_consumes (w : Walk) :
    ∃ phase consumed later, w.rest = consumed ++ later ∧
      w.next.2 = w.further phase consumed later := by
  cases hp : w.phase with
  | start => exact ⟨.walking, [], w.rest, rfl, by rw [next_start hp]; rfl⟩
  | walking => rw [next_walking hp]; exact w.read_consumes w.rest w.turtles
  | done => exact ⟨w.phase, [], w.rest, rfl, by rw [next_done hp]; rfl⟩

theorem after_consumes (n : Nat) (w : Walk) :
    ∃ phase consumed later, w.rest = consumed ++ later ∧
      w.after n = w.further phase consumed later := by
  induction n generalizing w with
  | zero => exact ⟨w.phase, [], w.rest, rfl, rfl⟩
  | succ n ih =>
    obtain ⟨phase, u, later, hu, hnext⟩ := w.next_consumes
    obtain ⟨phase', v, later', hv, hafter⟩ := ih w.next.2
    refine ⟨phase', u ++ v, later', ?_, ?_⟩
    · rw [hu, List.append_assoc, ← hv, hnext]
      rfl
    · rw [after, hafter, hnext, further_further]

end Walk

theorem checkStepLength_eq_ok_iff {stepLength : Float32} :
    checkStepLength stepLength = .ok () ↔ stepLength.isFinite = true ∧ 0.0 < stepLength := by
  unfold checkStepLength
  split
  next h => exact iff_of_true rfl h
  next h => exact iff_of_false nofun h

/-- Whether a word is walked is decided before the first element. -/
theorem Interpreter.interpret_eq_ok_iff {i : Interpreter} {word : Word}
    {angle stepLength : Float32} {closed : Bool} {w : Walk} :
    i.interpret word angle stepLength closed = .ok w ↔
      checkStepLength stepLength = .ok () ∧ i.checkBranches word = .ok () ∧
        w = ⟨i, angle, stepLength, closed, .start, word, Turtles.start⟩ := by
  simp only [interpret, check_bind_ok, pure, Except.pure, Except.ok.injEq, eq_comm (b := w)]

theorem Walk.elements_start (i : Interpreter) (word : Word) (angle stepLength : Float32)
    (closed : Bool) :
    elements ⟨i, angle, stepLength, closed, .start, word, Turtles.start⟩ =
      (i.course word).path angle stepLength closed :=
  elements_eq_remaining _

theorem Interpreter.map_elements_interpret (i : Interpreter) (word : Word)
    (angle stepLength : Float32) (closed : Bool) :
    (i.interpret word angle stepLength closed).map Walk.elements = do
      checkStepLength stepLength
      i.checkBranches word
      return (i.course word).path angle stepLength closed := by
  simp only [interpret]
  cases checkStepLength stepLength with
  | error e => rfl
  | ok =>
    cases i.checkBranches word with
    | error e => rfl
    | ok => exact congrArg Except.ok (Walk.elements_start i word angle stepLength closed)

/-- An interpreter sees nothing of a word but its course. -/
theorem Interpreter.checkBranchesFrom_congr {i j : Interpreter} (hcap : i.maxDepth = j.maxDepth)
    {u v : Word} (h : i.course u = j.course v) (index branches : Nat) :
    i.checkBranchesFrom index branches u = j.checkBranchesFrom index branches v := by
  induction u generalizing v index branches with
  | nil =>
    obtain rfl : v = [] := List.map_eq_nil_iff.1 h.symm
    rfl
  | cons a u ih =>
    cases v with
    | nil => exact absurd h (List.cons_ne_nil _ _)
    | cons b v =>
      obtain ⟨hab, huv⟩ := List.cons.inj h
      have hsymbol : i.checkBranchesFrom index branches [a] =
          j.checkBranchesFrom index branches [b] := by
        simp only [checkBranchesFrom, hab, hcap]
      rw [i.checkBranchesFrom_cons, j.checkBranchesFrom_cons, hsymbol, hab, ih huv]

theorem Interpreter.map_elements_interpret_congr {i j : Interpreter}
    (hcap : i.maxDepth = j.maxDepth) {u v : Word} (h : i.course u = j.course v)
    (angle stepLength : Float32) (closed : Bool) :
    (i.interpret u angle stepLength closed).map Walk.elements =
      (j.interpret v angle stepLength closed).map Walk.elements := by
  rw [map_elements_interpret, map_elements_interpret, checkBranches, checkBranches,
    checkBranchesFrom_congr hcap h, h]

theorem Interpreter.checkBranches_of_append {i : Interpreter} {u v : Word}
    (h : i.checkBranches (u ++ v) = .ok ()) : i.checkBranches u = .ok () := by
  rw [checkBranches_eq_ok_iff, course_append, forall_prefix_append] at h
  exact checkBranches_eq_ok_iff.2 h.1

/-- Calls give the start point, a point for each draw and a gap for each close
in the order of the word, the start point again for a closed curve, and nothing
from then on. Closing a curve only adds its last point, and what is read of a
word does not depend on what follows. -/
theorem calls_of_interpret {i : Interpreter} {word : Word} {angle stepLength : Float32}
    {closed : Bool} {w : Walk} (h : i.interpret word angle stepLength closed = .ok w) :
    (∃ inner : Path,
        inner.map PathElement.isGap =
          ((i.course word).filter fun command => command.isDraw || command.isPop).map
            Command.isPop ∧
        ∀ n, w.calls n = (List.range n).map fun k =>
          (.point Vec3.zero :: inner ++ if closed then [.point Vec3.zero] else [])[k]?) ∧
      (∃ path, (i.interpret word angle stepLength false).map Walk.elements = .ok path ∧
        (i.interpret word angle stepLength true).map Walk.elements =
          .ok (path ++ [.point Vec3.zero])) ∧
      ∀ u v, word = u ++ v →
        ∃ before, (i.interpret u angle stepLength false).map Walk.elements = .ok before ∧
          before <+: w.elements := by
  obtain ⟨hstep, hcheck, rfl⟩ := Interpreter.interpret_eq_ok_iff.1 h
  refine ⟨?_, ?_, ?_⟩
  · exact ⟨_, Turtles.map_isGap_trail Turtles.start (i.course word), fun n => Walk.calls_eq n _⟩
  · refine ⟨(i.course word).path angle stepLength false, ?_, ?_⟩
    · rw [Interpreter.map_elements_interpret, hstep, hcheck]
      rfl
    · rw [Interpreter.map_elements_interpret, hstep, hcheck]
      simp [Course.path, closing, Turtle.start, bind, Except.bind, pure, Except.pure]
  · rintro u v rfl
    refine ⟨(i.course u).path angle stepLength false, ?_, ?_⟩
    · rw [Interpreter.map_elements_interpret, hstep, Interpreter.checkBranches_of_append hcheck]
      rfl
    · rw [Walk.elements_start, Interpreter.course_append, Course.path, Course.path,
        Turtles.trail_append]
      simp [closing, List.append_assoc]

/-- Silent symbols at either end, closes in a row and a branch left open. -/
theorem calls_of_branches :
    ∃ w, Interpreter.standard.interpret "X[F+[F]]-F[G".toList 1.5 10.0 true = .ok w ∧
      (∃ inner : Path,
        inner.map PathElement.isGap = [false, false, true, true, false, false] ∧
        ∀ n, w.calls n = (List.range n).map fun k =>
          (.point Vec3.zero :: inner ++ if true then [.point Vec3.zero] else [])[k]?) ∧
      (∃ path, (Interpreter.standard.interpret "X[F+[F]]-F[G".toList 1.5 10.0 false).map
          Walk.elements = .ok path ∧
        (Interpreter.standard.interpret "X[F+[F]]-F[G".toList 1.5 10.0 true).map Walk.elements =
          .ok (path ++ [.point Vec3.zero])) ∧
      "X[F+[F]]-F[G".toList = "X[F+[F".toList ++ "]]-F[G".toList ∧
        ∃ before, (Interpreter.standard.interpret "X[F+[F".toList 1.5 10.0 false).map
            Walk.elements = .ok before ∧ before <+: w.elements := by
  have h : Interpreter.standard.interpret "X[F+[F]]-F[G".toList 1.5 10.0 true = .ok _ :=
    Interpreter.interpret_eq_ok_iff.2 ⟨by decide, by decide, rfl⟩
  obtain ⟨hcalls, hclosed, hsplit⟩ := calls_of_interpret h
  exact ⟨_, h, hcalls, hclosed, rfl, hsplit "X[F+[F".toList "]]-F[G".toList rfl⟩

end FractalCurve
