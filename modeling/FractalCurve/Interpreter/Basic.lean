import FractalCurve.Error
import FractalCurve.Grammar.Basic
import FractalCurve.Turtle.Command

/-!
# Interpreters of words

An interpreter gives symbols their commands and may cap the nesting of
branches. Before a word is walked, its step length and its branches are
checked: `checkBranches` refuses a close without an open and nesting past the
cap, whichever comes first.
-/

namespace FractalCurve

/-- Only positive finite lengths move the turtle. -/
def checkStepLength (stepLength : Float32) : Except CurveError Unit :=
  if stepLength.isFinite ∧ 0.0 < stepLength then .ok ()
  else .error (.invalidStepLength stepLength)

structure Interpreter where
  commands : SymbolMap Command
  maxDepth : Option Nat

namespace Interpreter

def empty (maxDepth : Option Nat) : Interpreter := ⟨SymbolMap.empty, maxDepth⟩

/-- Symbols without a command are ignored. -/
def command (i : Interpreter) (symbol : Char) : Command :=
  (i.commands.find? symbol).getD .ignore

def setCommand (i : Interpreter) (symbol : Char) (command : Command) : Interpreter :=
  { i with commands := i.commands.insert symbol command }

def withCommands (i : Interpreter) (commands : SymbolMap Command) : Interpreter :=
  { i with commands }

def addStandard (i : Interpreter) : Interpreter :=
  { i with commands := i.commands.insertAll Command.standard }

def standard : Interpreter := (empty none).addStandard

/-- Makes exactly these symbols draw. Other symbols that drew lose their
command; all other commands stay, unless their symbol draws now. -/
def setDrawSymbols (i : Interpreter) (symbols : Word) : Interpreter :=
  { i with
    commands :=
      (i.commands.filter fun c => !c.isDraw).insertAll (symbols.map fun s => (s, .draw)) }

@[simp] theorem command_setCommand (i : Interpreter) (symbol : Char) (command : Command)
    (other : Char) :
    (i.setCommand symbol command).command other =
      if other = symbol then command else i.command other := by
  simp only [Interpreter.command, setCommand, SymbolMap.find?_insert]
  split <;> rfl

theorem command_setDrawSymbols (i : Interpreter) (symbols : Word) (c : Char) :
    (i.setDrawSymbols symbols).command c =
      if c ∈ symbols then .draw else if i.command c = .draw then .ignore else i.command c := by
  have hkept : ∀ old : Option Command, (old.filter fun c => !c.isDraw).getD .ignore =
      if old.getD .ignore = .draw then .ignore else old.getD .ignore := by
    rintro (- | command)
    · rfl
    · cases command <;> rfl
  simp only [Interpreter.command, setDrawSymbols, SymbolMap.find?_insertAll_const,
    SymbolMap.find?_filter]
  split
  · rfl
  · exact hkept (i.commands.find? c)

/-- Checks a word that starts at a position and inside a number of branches. -/
def checkBranchesFrom (i : Interpreter) (index depth : Nat) : Word → Except CurveError Unit
  | [] => .ok ()
  | symbol :: rest =>
    match i.command symbol with
    | .push =>
      match i.maxDepth with
      | some limit =>
        if limit < depth + 1 then .error (.stackOverflow limit)
        else i.checkBranchesFrom (index + 1) (depth + 1) rest
      | none => i.checkBranchesFrom (index + 1) (depth + 1) rest
    | .pop =>
      match depth with
      | 0 => .error (.unbalancedBranch index)
      | outer + 1 => i.checkBranchesFrom (index + 1) outer rest
    | _ => i.checkBranchesFrom (index + 1) depth rest

def checkBranches (i : Interpreter) (word : Word) : Except CurveError Unit :=
  i.checkBranchesFrom 0 0 word

end Interpreter

end FractalCurve
