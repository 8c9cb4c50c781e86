import FractalCurve.Derivation.Interpreter
import FractalCurve.Proofs.Branches
import Mathlib.Data.List.Forall2

/-!
# The two interpreters agree

A word is checked first and then walked element by element; a derivation is
checked and drawn in one pass. `interpret_derivation_eq`: where each module
means what the symbol at its place means, both give the same path or the same
error.
-/

namespace FractalCurve

open Number

def Command.isTurn : Command → Bool
  | .yaw _ | .pitch _ | .roll _ | .turnAround => true
  | .draw | .push | .pop | .ignore => false

/-- A module means what a symbol means: it has the same command, and where the
command reads a parameter, the module has none or repeats the default. -/
structure Module.Means (m : Module) (d : DerivationInterpreter) (i : Interpreter)
    (angle stepLength : Float32) (symbol : Char) : Prop where
  command_eq : d.command m.symbol = i.command symbol
  length_eq : i.command symbol = .draw → ∀ x ∈ m.parameters.head?, narrow x = stepLength
  angle_eq : (i.command symbol).isTurn → ∀ x ∈ m.parameters.head?, radians (narrow x) = angle

instance (m : Module) (d : DerivationInterpreter) (i : Interpreter) (angle stepLength : Float32)
    (symbol : Char) : Decidable (m.Means d i angle stepLength symbol) :=
  decidable_of_iff (d.command m.symbol = i.command symbol ∧
      (i.command symbol = .draw → ∀ x ∈ m.parameters.head?, narrow x = stepLength) ∧
      ((i.command symbol).isTurn → ∀ x ∈ m.parameters.head?, radians (narrow x) = angle))
    ⟨fun h => ⟨h.1, h.2.1, h.2.2⟩, fun h => ⟨h.command_eq, h.length_eq, h.angle_eq⟩⟩

theorem getD_map_eq {α β : Type} {x : Option α} {f : α → β} {y : β} (h : ∀ a ∈ x, f a = y) :
    (x.map f).getD y = y := by
  cases x with
  | none => rfl
  | some a => exact h a rfl

namespace Trace

def turtles (t : Trace) : Turtles := ⟨t.turtle, t.branches⟩

def follow (t : Trace) (angle stepLength : Float32) (c : Course) : Trace :=
  let reached := t.turtles.track angle stepLength c
  ⟨reached.current, reached.saved, (t.turtles.trail angle stepLength c).reverse ++ t.elements⟩

variable {angle stepLength : Float32}

theorem follow_cons (t : Trace) (command : Command) (c : Course) :
    t.follow angle stepLength (command :: c) =
      (t.follow angle stepLength [command]).follow angle stepLength c := by
  simp [follow, turtles, Turtles.trail_cons]

theorem length_branches_follow (t : Trace) (command : Command) :
    (t.follow angle stepLength [command]).branches.length = command.nest t.branches.length :=
  Turtles.length_saved_act command t.turtles

end Trace

namespace DerivationInterpreter

variable {d : DerivationInterpreter} {i : Interpreter} {angle stepLength : Float32}

/-- The check of a symbol decides whether its module can be drawn. -/
theorem step_eq (hcap : d.maxDepth = i.maxDepth) {m : Module} {symbol : Char}
    (hm : m.Means d i angle stepLength symbol) (index : Nat) (t : Trace) :
    d.step angle stepLength t (m, index) =
      (i.checkBranchesFrom index t.branches.length [symbol]).map fun _ =>
        t.follow angle stepLength [i.command symbol] := by
  obtain ⟨hcommand, hlength, hangle⟩ := hm
  obtain ⟨turtle, branches, elements⟩ := t
  simp only [step, hcommand]
  cases hc : i.command symbol with
  | draw =>
    rw [getD_map_eq (hlength hc)]
    simp only [Interpreter.checkBranchesFrom, hc]
    rfl
  | push =>
    simp only [Interpreter.checkBranchesFrom, hc, hcap]
    cases i.maxDepth with
    | none => rfl
    | some limit =>
      simp only [Nat.lt_succ_iff]
      split <;> rfl
  | pop =>
    simp only [Interpreter.checkBranchesFrom, hc]
    cases branches with
    | nil => rfl
    | cons saved outer => rfl
  | ignore =>
    simp only [Interpreter.checkBranchesFrom, hc]
    rfl
  | _ =>
    have hturn : ((m.parameters.head?.map narrow).map radians).getD angle = angle := by
      rw [Option.map_map]
      exact getD_map_eq (hangle (by rw [hc]; rfl))
    simp only [Interpreter.checkBranchesFrom, hc, hturn]
    rfl

theorem foldlM_step_eq (hcap : d.maxDepth = i.maxDepth) {modules : List Module} {word : Word}
    (h : List.Forall₂ (fun m symbol => m.Means d i angle stepLength symbol) modules word)
    (index : Nat) (t : Trace) :
    (modules.zipIdx index).foldlM (d.step angle stepLength) t =
      (i.checkBranchesFrom index t.branches.length word).map fun _ =>
        t.follow angle stepLength (i.course word) := by
  induction h generalizing index t with
  | nil => rfl
  | @cons m symbol modules word hm _ ih =>
    -- the branches saved so far are the depth that the check counts
    have hlength : (t.follow angle stepLength [i.command symbol]).branches.length =
        (i.command symbol).nest t.branches.length := t.length_branches_follow _
    rw [Interpreter.checkBranchesFrom_cons, Interpreter.course_cons, Trace.follow_cons, ← hlength,
      List.zipIdx_cons, List.foldlM_cons, step_eq hcap hm]
    cases i.checkBranchesFrom index t.branches.length [symbol] with
    | error e => rfl
    | ok => exact ih (index + 1) _

/-- Paths and errors are the same, element for element and index for index. -/
theorem interpret_derivation_eq (hcap : d.maxDepth = i.maxDepth) {modules : List Module}
    {word : Word}
    (h : List.Forall₂ (fun m symbol => m.Means d i angle stepLength symbol) modules word)
    (closed : Bool) :
    d.interpret modules angle stepLength closed =
      (i.interpret word angle stepLength closed).map Walk.elements := by
  rw [Interpreter.map_elements_interpret, interpret, foldlM_step_eq hcap h]
  cases checkStepLength stepLength with
  | error e => rfl
  | ok =>
    show ((i.checkBranches word).map _ >>= _) = _
    cases i.checkBranches word with
    | error e => rfl
    | ok =>
      refine congrArg Except.ok ?_
      simp only [Trace.follow, List.reverse_append, List.reverse_reverse]
      rfl

/-- Parameters that repeat the defaults, and others that are not read. -/
theorem interpret_parametric_branch :
    (⟨#[.draw, .push, .yaw 1.0, .pop], some 1⟩ : DerivationInterpreter).interpret
        [⟨0, [2.5]⟩, ⟨1, [7.0]⟩, ⟨2, [90.0, 1.0]⟩, ⟨0, []⟩, ⟨3, []⟩] quarterTurn 2.5 true =
      ((⟨Interpreter.standard.commands, some 1⟩ : Interpreter).interpret "F[+F]".toList
        quarterTurn 2.5 true).map Walk.elements :=
  interpret_derivation_eq rfl (by decide) true

end DerivationInterpreter

end FractalCurve
