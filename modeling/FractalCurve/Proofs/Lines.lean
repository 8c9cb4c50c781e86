import FractalCurve.Proofs.Splitting
import FractalCurve.Proofs.Trail

/-!
# The polylines of a walk

Closing a branch ends a line, so the lines of a path follow the segments of the
course between its closes. A segment without moves gives no line, except that
the first one always has the start point.

`polylines_of_moves`: how many lines a walk leaves and how many vertices each
of them has.
-/

namespace FractalCurve

-- ---------------------------------------------------------------------------
-- Segments
-- ---------------------------------------------------------------------------

namespace Course

/-- The parts of a course between its closes, one more than there are
closes. -/
def segments (c : Course) : List Course := c.splitOnP Command.isPop

/-- The number of moves in each segment: its draws, and in the last one the
return to the start of a closed curve. -/
def moves (c : Course) (closed : Bool) : List Nat :=
  c.segments.mapIdx fun k segment =>
    segment.countP Command.isDraw + if closed ∧ k + 1 = c.segments.length then 1 else 0

theorem exists_segments_eq_cons (c : Course) : ∃ first later, c.segments = first :: later :=
  List.exists_cons_of_ne_nil (List.splitOnP_ne_nil _ c)

theorem moves_cons_pop (c : Course) (closed : Bool) :
    moves (.pop :: c) closed = 0 :: moves c closed := by
  obtain ⟨first, later, hsegments⟩ := c.exists_segments_eq_cons
  have hcons : segments (.pop :: c) = [] :: segments c :=
    List.splitOnP_cons_eq_if_modifyHead _ _
  simp [moves, hcons, hsegments]

/-- A command other than a close belongs to the first segment. -/
theorem moves_cons {command : Command} (h : command ≠ .pop) (c : Course) (closed : Bool) :
    moves (command :: c) closed =
      (moves c closed).modifyHead (· + if command.isDraw then 1 else 0) := by
  obtain ⟨first, later, hsegments⟩ := c.exists_segments_eq_cons
  have hpop : command.isPop = false := by cases command <;> first | rfl | contradiction
  have hcons : segments (command :: c) = (command :: first) :: later := by
    rw [segments, List.splitOnP_cons_eq_if_modifyHead, hpop]
    exact congrArg (List.modifyHead (command :: ·)) hsegments
  simp only [moves, hcons, hsegments, List.mapIdx_cons, List.modifyHead_cons, List.length_cons,
    List.countP_cons]
  exact congrArg (· :: _) (Nat.add_right_comm _ _ _)

end Course

-- ---------------------------------------------------------------------------
-- Lines
-- ---------------------------------------------------------------------------

namespace Path

theorem length_runs_cons_point (p : Vec3) (path : Path) :
    (runs (.point p :: path)).map List.length =
      (path.runs.map List.length).modifyHead (· + 1) := by
  obtain ⟨run, later, hruns⟩ := path.exists_runs_eq_cons
  simp [hruns, extendRuns]

theorem length_segmentLengths (line : List Vec3) :
    (segmentLengths line).length = line.length - 1 := by
  simp [segmentLengths]

end Path

theorem Turtles.length_runs_trail (t : Turtles) (angle stepLength : Float32) (c : Course)
    (closed : Bool) :
    (Path.runs (t.trail angle stepLength c ++ closing closed)).map List.length =
      c.moves closed := by
  induction c generalizing t with
  | nil => cases closed <;> rfl
  | cons command rest ih =>
    rw [trail_cons]
    generalize command.act angle stepLength t = reached
    cases command with
    | draw =>
      rw [Course.moves_cons (by decide), ← ih reached]
      exact Path.length_runs_cons_point _ _
    | pop =>
      rw [Course.moves_cons_pop, ← ih reached]
      rfl
    | _ =>
      -- neither an element nor a move
      rw [Course.moves_cons (by simp), ← ih reached]
      exact (congrFun List.modifyHead_id _).symm

/-- The first segment leaves a line from the start point on, each later one
with moves a line of its own. A line has as many vertices as its segment has
moves, the first one also the start point, and segments one fewer. -/
theorem polylines_of_moves {i : Interpreter} {word : Word} {angle stepLength : Float32}
    {closed : Bool} {w : Walk} (h : i.interpret word angle stepLength closed = .ok w) :
    ∃ first later line lines, (i.course word).moves closed = first :: later ∧
      w.elements.polylines = line :: lines ∧
      line.head? = some Vec3.zero ∧
      line.length = 1 + first ∧
      lines.map List.length = later.filter (0 < ·) ∧
      (Path.segmentLengths line).length = first ∧
      lines.map (fun line => (Path.segmentLengths line).length) =
        (later.filter (0 < ·)).map (· - 1) := by
  obtain ⟨-, -, rfl⟩ := Interpreter.interpret_eq_ok_iff.1 h
  have hmoves := Turtles.start.length_runs_trail angle stepLength (i.course word) closed
  generalize hbehind : Turtles.start.trail angle stepLength (i.course word) ++ closing closed =
    behind at hmoves
  obtain ⟨run, later, hruns⟩ := Path.exists_runs_eq_cons behind
  have hlines : (later.filter fun run => !run.isEmpty).map List.length =
      (later.map List.length).filter (0 < ·) := by
    rw [List.filter_map]
    refine congrArg (List.map List.length) (List.filter_congr fun run _ => ?_)
    cases run <;> rfl
  have hpolylines : Path.polylines (.point Turtle.start.position :: behind) =
      (Turtle.start.position :: run) :: later.filter fun run => !run.isEmpty := by
    simp [Path.polylines, hruns, Path.extendRuns]
  refine ⟨run.length, later.map List.length, Turtle.start.position :: run,
    later.filter fun run => !run.isEmpty, ?_, ?_, rfl, ?_, hlines, ?_, ?_⟩
  · rw [← hmoves, hruns, List.map_cons]
  · rw [Walk.elements_start, Course.path, List.cons_append, hbehind, hpolylines]
  · rw [List.length_cons, Nat.add_comm]
  · rw [Path.length_segmentLengths, List.length_cons, Nat.add_sub_cancel]
  · rw [← hlines, List.map_map]
    exact List.map_congr_left fun line _ => Path.length_segmentLengths line

/-- Two closes in a row, a branch without moves and the closing point. -/
theorem polylines_of_nested_branches :
    ∃ w, Interpreter.standard.interpret "F[+F[-FF]][X]-".toList 1.5 10.0 true = .ok w ∧
      (Interpreter.standard.course "F[+F[-FF]][X]-".toList).moves true = [4, 0, 0, 1] ∧
      ∃ line lines, w.elements.polylines = line :: lines ∧
        line.head? = some Vec3.zero ∧
        line.length = 5 ∧
        lines.map List.length = [1] ∧
        (Path.segmentLengths line).length = 4 ∧
        lines.map (fun line => (Path.segmentLengths line).length) = [0] := by
  have h : Interpreter.standard.interpret "F[+F[-FF]][X]-".toList 1.5 10.0 true = .ok _ :=
    Interpreter.interpret_eq_ok_iff.2 ⟨by decide, by decide, rfl⟩
  have hmoves : (Interpreter.standard.course "F[+F[-FF]][X]-".toList).moves true =
      [4, 0, 0, 1] := by decide
  obtain ⟨first, later, line, lines, hsegments, hpolylines, hhead, hline, hlines, hfirst, hlater⟩ :=
    polylines_of_moves h
  obtain ⟨rfl, rfl⟩ := List.cons.inj (hmoves.symm.trans hsegments)
  exact ⟨_, h, hmoves, line, lines, hpolylines, hhead, hline, hlines, hfirst, hlater⟩

end FractalCurve
