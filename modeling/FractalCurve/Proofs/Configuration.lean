import FractalCurve.Derivation.Interpreter

/-!
# Configured alike

An interpreter of words looks up commands by character, one of derivations by
number, in a table that grows as numbers come. Which numbers there are, and of
which names, is up to the table of names.

`mirrors_configure`: the same settings, made one after the other, give every
character the same command in both, and a number that is no character's never
gets one.
-/

namespace FractalCurve

/-- No two names have the same number. -/
def DistinctNumbers (number? : String → Option Nat) : Prop :=
  ∀ name other symbol, number? name = some symbol → number? other = some symbol → name = other

theorem SymbolTable.distinctNumbers (table : SymbolTable) : DistinctNumbers table.resolve? := by
  intro name other symbol hname hother
  rw [resolve?_eq_some_iff] at hname hother
  exact Option.some.inj (hname.symm.trans hother)

/-- What can be set: the command of one character, or all conventional ones. -/
inductive Setting where
  | one (c : Char) (command : Command)
  | standard

namespace Interpreter

def set (i : Interpreter) : Setting → Interpreter
  | .one c command => i.setCommand c command
  | .standard => i.addStandard

def configure (i : Interpreter) (settings : List Setting) : Interpreter := settings.foldl set i

theorem addStandard_eq (i : Interpreter) :
    i.addStandard = Command.standard.foldl (fun i entry => i.setCommand entry.1 entry.2) i := by
  have hall : ∀ entries : List (Char × Command), { i with
      commands := i.commands.insertAll entries } =
        entries.foldl (fun i entry => i.setCommand entry.1 entry.2) i := by
    intro entries
    induction entries generalizing i with
    | nil => rfl
    | cons entry rest ih => exact ih (i.setCommand entry.1 entry.2)
  exact hall Command.standard

end Interpreter

namespace DerivationInterpreter

/-- Sets what has a number. -/
def set (number? : String → Option Nat) (d : DerivationInterpreter) :
    Setting → DerivationInterpreter
  | .one c command => d.setNamed number? (c, command)
  | .standard => d.addStandardBy number?

def configure (number? : String → Option Nat) (d : DerivationInterpreter)
    (settings : List Setting) : DerivationInterpreter :=
  settings.foldl (set number?) d

/-- A character has the same command by its number as by itself, and a number
that is no character's has none. -/
structure Mirrors (number? : String → Option Nat) (d : DerivationInterpreter)
    (i : Interpreter) : Prop where
  command_eq : ∀ c symbol, number? (String.singleton c) = some symbol →
    d.command symbol = i.command c
  ignores : ∀ symbol, (∀ c, number? (String.singleton c) ≠ some symbol) →
    d.command symbol = .ignore

variable {number? : String → Option Nat} {d : DerivationInterpreter} {i : Interpreter}

theorem mirrors_empty (number? : String → Option Nat) (maxDepth maxDepth' : Option Nat) :
    (empty maxDepth).Mirrors number? (Interpreter.empty maxDepth') :=
  ⟨fun _ _ _ => rfl, fun _ _ => rfl⟩

/-- A command that is set reaches the number of its character and no other. -/
theorem Mirrors.setNamed (h : d.Mirrors number? i) (hdistinct : DistinctNumbers number?) (c : Char)
    (command : Command) :
    (d.setNamed number? (c, command)).Mirrors number? (i.setCommand c command) := by
  constructor
  · intro other symbol hsymbol
    have hother : number? (String.singleton c) = some symbol ↔ other = c := by
      constructor
      · intro hc
        exact String.singleton_inj.1 (hdistinct _ _ symbol hsymbol hc)
      · rintro rfl
        exact hsymbol
    simp [command_setNamed, hother, h.command_eq other symbol hsymbol]
  · intro symbol hsymbol
    simp [command_setNamed, hsymbol c, h.ignores symbol hsymbol]

theorem Mirrors.addAll (h : d.Mirrors number? i) (hdistinct : DistinctNumbers number?)
    (entries : List (Char × Command)) :
    (entries.foldl (DerivationInterpreter.setNamed number?) d).Mirrors number?
      (entries.foldl (fun i entry => i.setCommand entry.1 entry.2) i) := by
  induction entries generalizing d i with
  | nil => exact h
  | cons entry rest ih => exact ih (h.setNamed hdistinct entry.1 entry.2)

theorem Mirrors.set (h : d.Mirrors number? i) (hdistinct : DistinctNumbers number?)
    (setting : Setting) : (d.set number? setting).Mirrors number? (i.set setting) := by
  cases setting with
  | one c command => exact h.setNamed hdistinct c command
  | standard =>
    rw [Interpreter.set, Interpreter.addStandard_eq]
    exact h.addAll hdistinct Command.standard

theorem Mirrors.configure (h : d.Mirrors number? i) (hdistinct : DistinctNumbers number?)
    (settings : List Setting) :
    (d.configure number? settings).Mirrors number? (i.configure settings) := by
  induction settings generalizing d i with
  | nil => exact h
  | cons setting rest ih => exact ih (h.set hdistinct setting)

/-- Interpreters that start empty and are given the same settings keep the same
commands. -/
theorem mirrors_configure (hdistinct : DistinctNumbers number?) (settings : List Setting)
    (maxDepth maxDepth' : Option Nat) :
    ((empty maxDepth).configure number? settings).Mirrors number?
      ((Interpreter.empty maxDepth').configure settings) :=
  (mirrors_empty number? maxDepth maxDepth').configure hdistinct settings

/-- A name that is no character's stands between two that are. -/
def fewNames : SymbolTable := ["F", "F+", "X", "]"].foldl SymbolTable.intern SymbolTable.empty

/-- The highest number is set first, and a conventional command is replaced. -/
theorem mirrors_configure_few :
    DistinctNumbers fewNames.resolve? ∧
      ((empty none).configure fewNames.resolve?
          [.one ']' .ignore, .standard, .one 'X' .draw, .one 'F' .turnAround]).Mirrors
        fewNames.resolve?
        ((Interpreter.empty (some 2)).configure
          [.one ']' .ignore, .standard, .one 'X' .draw, .one 'F' .turnAround]) :=
  ⟨fewNames.distinctNumbers, mirrors_configure fewNames.distinctNumbers _ none (some 2)⟩

end DerivationInterpreter

end FractalCurve
