import FractalCurve.Derivation.Basic
import FractalCurve.Derivation.SymbolTable
import FractalCurve.Interpreter.Basic
import FractalCurve.Number.Angle
import FractalCurve.Path.Element

/-!
# Interpreters of derivations

Derivations are interpreted as words are, except that a module's first
parameter takes the place of the default: a distance for a draw, degrees for a
turn. Branches are checked while the path is drawn, in one pass.
-/

namespace FractalCurve

structure DerivationInterpreter where
  commands : Array Command
  maxDepth : Option Nat

namespace DerivationInterpreter

def empty (maxDepth : Option Nat) : DerivationInterpreter := ⟨#[], maxDepth⟩

/-- Symbols past the end of the table are ignored. -/
def command (i : DerivationInterpreter) (symbol : Nat) : Command :=
  i.commands[symbol]?.getD .ignore

/-- The table grows as far as needed; symbols in between are ignored. -/
def setCommand (i : DerivationInterpreter) (symbol : Nat) (command : Command) :
    DerivationInterpreter :=
  let missing := symbol + 1 - i.commands.size
  { i with
    commands :=
      (i.commands ++ Array.replicate missing Command.ignore).setIfInBounds symbol command }

def withCommands (i : DerivationInterpreter) (commands : Array Command) :
    DerivationInterpreter :=
  { i with commands }

/-- Sets the command of a character if it has a number as a name. -/
def setNamed (number? : String → Option Nat) (i : DerivationInterpreter)
    (entry : Char × Command) : DerivationInterpreter :=
  match number? (String.singleton entry.1) with
  | some symbol => i.setCommand symbol entry.2
  | none => i

/-- The conventional commands for those symbols that have a number. -/
def addStandardBy (number? : String → Option Nat) (i : DerivationInterpreter) :
    DerivationInterpreter :=
  Command.standard.foldl (setNamed number?) i

def addStandard (i : DerivationInterpreter) (table : SymbolTable) : DerivationInterpreter :=
  i.addStandardBy table.resolve?

theorem command_setCommand (i : DerivationInterpreter) (symbol : Nat) (command : Command)
    (other : Nat) :
    (i.setCommand symbol command).command other =
      if other = symbol then command else i.command other := by
  simp only [DerivationInterpreter.command, setCommand, Array.getElem?_setIfInBounds,
    Array.size_append, Array.size_replicate, Array.getElem?_append, Array.getElem?_replicate]
  grind

theorem command_setNamed (number? : String → Option Nat) (i : DerivationInterpreter)
    (entry : Char × Command) (symbol : Nat) :
    (i.setNamed number? entry).command symbol =
      if number? (String.singleton entry.1) = some symbol then entry.2 else i.command symbol := by
  cases h : number? (String.singleton entry.1) with
  | none => simp [setNamed, h]
  | some number => simp [setNamed, h, command_setCommand, eq_comm]

end DerivationInterpreter

/-- The turtle, the turtles saved by open branches, and the elements so far,
the last one first. -/
structure Trace where
  turtle : Turtle
  branches : List Turtle
  elements : Path

def Trace.start : Trace := ⟨Turtle.start, [], [.point Turtle.start.position]⟩

namespace DerivationInterpreter

open Number

def step (i : DerivationInterpreter) (angle stepLength : Float32) (t : Trace)
    (entry : Module × Nat) : Except CurveError Trace :=
  let parameter := entry.1.parameters.head?.map narrow
  match i.command entry.1.symbol with
  | .draw =>
    let moved := t.turtle.advance (parameter.getD stepLength)
    .ok { t with turtle := moved, elements := .point moved.position :: t.elements }
  | .push =>
    match i.maxDepth with
    | some limit =>
      if limit ≤ t.branches.length then .error (.stackOverflow limit)
      else .ok { t with branches := t.turtle :: t.branches }
    | none => .ok { t with branches := t.turtle :: t.branches }
  | .pop =>
    match t.branches with
    | [] => .error (.unbalancedBranch entry.2)
    | saved :: outer => .ok ⟨saved, outer, .gap :: t.elements⟩
  | .ignore => .ok t
  | turn => .ok { t with turtle := turn.turn ((parameter.map radians).getD angle) t.turtle }

def interpret (i : DerivationInterpreter) (modules : List Module) (angle stepLength : Float32)
    (closed : Bool) : Except CurveError Path := do
  checkStepLength stepLength
  let final ← modules.zipIdx.foldlM (i.step angle stepLength) Trace.start
  return final.elements.reverse ++ if closed then [.point Turtle.start.position] else []

end DerivationInterpreter

end FractalCurve
