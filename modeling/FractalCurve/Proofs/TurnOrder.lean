import FractalCurve.Proofs.Agreement
import FractalCurve.Proofs.Axes

/-!
# The order of turns

A turn adds to one of the three angles and to nothing else. Of several turns in a
row, only the order of those about the same axis can matter, and it does: sums of
rounded numbers depend on it.

`interpret_turnsReordered`: words that differ by the order of turns about
different axes have the same result.
-/

namespace FractalCurve

-- ---------------------------------------------------------------------------
-- Turns
-- ---------------------------------------------------------------------------

namespace Command

/-- The axis that a turn is about. -/
def axis? : Command → Option Axis
  | .yaw _ => some .z
  | .pitch _ | .turnAround => some .x
  | .roll _ => some .y
  | .draw | .push | .pop | .ignore => none

/-- What a turn adds to the angle about its axis. -/
def amount (c : Command) (angle : Float32) : Float32 :=
  match c with
  | .yaw factor | .pitch factor | .roll factor => angle * factor
  | .turnAround => -2.0 * angle
  | .draw | .push | .pop | .ignore => 0.0

variable (c : Command) (angle stepLength : Float32)

theorem position_turn (t : Turtle) : (c.turn angle t).position = t.position := by
  cases c <;> rfl

theorem component_turn (t : Turtle) (a : Axis) :
    (c.turn angle t).angles.component a =
      if c.axis? = some a then t.angles.component a + c.amount angle
      else t.angles.component a := by
  cases c <;> cases a <;> rfl

variable {c}

theorem act_turn (h : c.isTurn) (t : Turtles) :
    c.act angle stepLength t = { t with current := c.turn angle t.current } := by
  cases c <;> first | rfl | contradiction

theorem element?_turn (h : c.isTurn) (t : Turtles) : c.element? t = none := by
  cases c <;> first | rfl | contradiction

end Command

namespace Turtle

/-- Turns one after the other. -/
def turns (angle : Float32) (t : Turtle) (c : Course) : Turtle :=
  c.foldl (fun t command => command.turn angle t) t

theorem turns_cons (angle : Float32) (t : Turtle) (command : Command) (c : Course) :
    t.turns angle (command :: c) = (command.turn angle t).turns angle c := rfl

theorem position_turns (angle : Float32) (t : Turtle) (c : Course) :
    (t.turns angle c).position = t.position := by
  induction c generalizing t with
  | nil => rfl
  | cons command c ih => rw [turns_cons, ih, Command.position_turn]

/-- An angle is the sum of the turns about its axis, added in their order. -/
theorem component_turns (angle : Float32) (t : Turtle) (c : Course) (a : Axis) :
    (t.turns angle c).angles.component a =
      (c.filter fun command => command.axis? = some a).foldl
        (fun sum command => sum + command.amount angle) (t.angles.component a) := by
  induction c generalizing t with
  | nil => rfl
  | cons command c ih =>
    rw [turns_cons, ih, Command.component_turn, List.filter_cons]
    simp only [decide_eq_true_eq]
    split <;> rfl

theorem turns_congr {c d : Course}
    (h : ∀ a : Axis, (c.filter fun command => command.axis? = some a) =
      d.filter fun command => command.axis? = some a) (angle : Float32) (t : Turtle) :
    t.turns angle c = t.turns angle d := by
  have hangles : (t.turns angle c).angles = (t.turns angle d).angles :=
    Vec3.eq_of_component_eq fun a => by rw [component_turns, component_turns, h a]
  have hposition : (t.turns angle c).position = (t.turns angle d).position := by
    rw [position_turns, position_turns]
  exact congrArg₂ Turtle.mk hposition hangles

/-- About one axis the order matters: a small turn is lost next to a large one. -/
example : start.turns 1.0 [.yaw 1e8, .yaw (-1e8), .yaw 1.0] ≠
    start.turns 1.0 [.yaw 1e8, .yaw 1.0, .yaw (-1e8)] := by
  decide +kernel

end Turtle

namespace Turtles

variable {c : Course} (angle stepLength : Float32) (t : Turtles)

theorem track_turns (h : ∀ command ∈ c, command.isTurn) :
    t.track angle stepLength c = { t with current := t.current.turns angle c } := by
  induction c generalizing t with
  | nil => rfl
  | cons command c ih =>
    obtain ⟨hcommand, hc⟩ := List.forall_mem_cons.1 h
    rw [track_cons, ih _ hc, Command.act_turn _ _ hcommand, Turtle.turns_cons]

theorem trail_turns (h : ∀ command ∈ c, command.isTurn) : t.trail angle stepLength c = [] := by
  induction c generalizing t with
  | nil => rfl
  | cons command c ih =>
    obtain ⟨hcommand, hc⟩ := List.forall_mem_cons.1 h
    rw [trail_cons, Command.element?_turn hcommand, ih _ hc]
    rfl

end Turtles

-- ---------------------------------------------------------------------------
-- Words
-- ---------------------------------------------------------------------------

namespace Interpreter

variable (i : Interpreter)

/-- The symbols of a word that turn about an axis, in their order. -/
def turnsAbout (a : Axis) (word : Word) : Word :=
  word.filter fun symbol => (i.command symbol).axis? = some a

/-- The words are the same but for blocks of turns, in which turns about the same
axis keep their order. -/
inductive TurnsReordered : Word → Word → Prop where
  | nil : TurnsReordered [] []
  | keep {u v : Word} (symbol : Char) (h : TurnsReordered u v) :
      TurnsReordered (symbol :: u) (symbol :: v)
  | block {block other u v : Word} (hturns : ∀ symbol ∈ block, (i.command symbol).isTurn)
      (hperm : block.Perm other) (horder : ∀ a, i.turnsAbout a block = i.turnsAbout a other)
      (h : TurnsReordered u v) : TurnsReordered (block ++ u) (other ++ v)

variable {i}

theorem TurnsReordered.refl (word : Word) : i.TurnsReordered word word := by
  induction word with
  | nil => exact .nil
  | cons symbol word ih => exact .keep symbol ih

theorem forall_course_isTurn {word : Word} (h : ∀ symbol ∈ word, (i.command symbol).isTurn) :
    ∀ command ∈ i.course word, command.isTurn :=
  List.forall_mem_map.2 h

theorem filter_course (a : Axis) (word : Word) :
    (i.course word).filter (fun command => command.axis? = some a) =
      i.course (i.turnsAbout a word) := by
  rw [course, List.filter_map]
  rfl

theorem checkBranchesFrom_turns {block : Word} (h : ∀ symbol ∈ block, (i.command symbol).isTurn)
    (index branches : Nat) (u : Word) :
    i.checkBranchesFrom index branches (block ++ u) =
      i.checkBranchesFrom (index + block.length) branches u := by
  induction block generalizing index with
  | nil => rfl
  | cons symbol block ih =>
    obtain ⟨hsymbol, hblock⟩ := List.forall_mem_cons.1 h
    have hpush : i.command symbol ≠ .push := by
      rintro hc
      simp [hc, Command.isTurn] at hsymbol
    have hpop : i.command symbol ≠ .pop := by
      rintro hc
      simp [hc, Command.isTurn] at hsymbol
    rw [List.cons_append, checkBranchesFrom_flat hpush hpop, ih hblock, List.length_cons,
      Nat.add_assoc, Nat.add_comm 1]

theorem TurnsReordered.checkBranchesFrom_eq {u v : Word} (h : i.TurnsReordered u v)
    (index branches : Nat) :
    i.checkBranchesFrom index branches u = i.checkBranchesFrom index branches v := by
  induction h generalizing index branches with
  | nil => rfl
  | keep symbol h ih => rw [checkBranchesFrom_cons, ih, ← checkBranchesFrom_cons]
  | block hturns hperm horder h ih =>
    have hother := fun symbol hs => hturns symbol (hperm.mem_iff.2 hs)
    rw [checkBranchesFrom_turns hturns, checkBranchesFrom_turns hother, hperm.length_eq, ih]

theorem TurnsReordered.trail_eq {u v : Word} (h : i.TurnsReordered u v)
    (angle stepLength : Float32) (t : Turtles) :
    t.trail angle stepLength (i.course u) = t.trail angle stepLength (i.course v) := by
  induction h generalizing t with
  | nil => rfl
  | keep symbol h ih => rw [course_cons, course_cons, Turtles.trail_cons, Turtles.trail_cons, ih]
  | @block block other u v hturns hperm horder h ih =>
    have hother := fun symbol hs => hturns symbol (hperm.mem_iff.2 hs)
    -- behind either block the turtle is the same, and neither block draws
    have hreached : t.current.turns angle (i.course block) =
        t.current.turns angle (i.course other) :=
      Turtle.turns_congr (fun a => by rw [filter_course, filter_course, horder]) angle t.current
    rw [course_append, course_append, Turtles.trail_append, Turtles.trail_append,
      Turtles.trail_turns _ _ _ (forall_course_isTurn hturns),
      Turtles.trail_turns _ _ _ (forall_course_isTurn hother),
      Turtles.track_turns _ _ _ (forall_course_isTurn hturns),
      Turtles.track_turns _ _ _ (forall_course_isTurn hother), hreached, ih]

/-- Turns about different axes may change places: the word is refused as before,
at the same index, or gives the same elements. -/
theorem interpret_turnsReordered {u v : Word} (h : i.TurnsReordered u v)
    (angle stepLength : Float32) (closed : Bool) :
    (i.interpret u angle stepLength closed).map Walk.elements =
      (i.interpret v angle stepLength closed).map Walk.elements := by
  rw [map_elements_interpret, map_elements_interpret, checkBranches, checkBranches,
    h.checkBranchesFrom_eq, Course.path, Course.path, h.trail_eq]

/-- Two blocks of turns, the second inside of a branch, where all three turns
about the X axis stay in their order. -/
theorem interpret_turnsReordered_in_branch :
    standard.TurnsReordered "F+<^|>[F&-F]G".toList "F<|^+>[F-&F]G".toList ∧
      (standard.interpret "F+<^|>[F&-F]G".toList 0.1 10.0 true).map Walk.elements =
        (standard.interpret "F<|^+>[F-&F]G".toList 0.1 10.0 true).map Walk.elements := by
  have hinner : standard.TurnsReordered ("&-".toList ++ "F]G".toList)
      ("-&".toList ++ "F]G".toList) :=
    .block (List.all_eq_true.1 (by decide)) (by decide) (by rintro ⟨⟩ <;> decide) (.refl _)
  have houter : standard.TurnsReordered ("+<^|>".toList ++ "[F&-F]G".toList)
      ("<|^+>".toList ++ "[F-&F]G".toList) :=
    .block (List.all_eq_true.1 (by decide)) (by decide) (by rintro ⟨⟩ <;> decide)
      (.keep '[' (.keep 'F' hinner))
  have hturns : standard.TurnsReordered "F+<^|>[F&-F]G".toList "F<|^+>[F-&F]G".toList :=
    .keep 'F' houter
  exact ⟨hturns, interpret_turnsReordered hturns _ _ _⟩

end Interpreter

end FractalCurve
