import FractalCurve.SymbolMap

/-!
# Grammars

A deterministic, context-free L-system together with the parameters for drawing
its words. Every pass replaces all symbols of a word at once; a symbol without a
rule is kept.
-/

namespace FractalCurve

abbrev Word := List Char
abbrev Rules := SymbolMap Word

namespace Rules

def production (rules : Rules) (symbol : Char) : Word := (rules.find? symbol).getD [symbol]

def pass (rules : Rules) (word : Word) : Word := word.flatMap rules.production

def expand (rules : Rules) : Nat → Word → Word
  | 0, word => word
  | n + 1, word => rules.expand n (rules.pass word)

@[simp] theorem pass_append (rules : Rules) (u v : Word) :
    rules.pass (u ++ v) = rules.pass u ++ rules.pass v :=
  List.flatMap_append

@[simp] theorem expand_zero (rules : Rules) (word : Word) : rules.expand 0 word = word := rfl

@[simp] theorem expand_succ (rules : Rules) (n : Nat) (word : Word) :
    rules.expand (n + 1) word = rules.expand n (rules.pass word) := rfl

end Rules

structure Grammar where
  /-- The word before any pass. -/
  start : Word
  rules : Rules
  /-- Turn angle in radians. -/
  angle : Float32
  stepLength : Float32
  /-- Whether the path returns to its first point at the end. -/
  closed : Bool
  drawSymbols : Word
deriving BEq

namespace Grammar

def defaultStepLength : Float32 := 10.0
def defaultDrawSymbols : Word := ['F', 'G', 'H', 'I']

/-- An open curve with the default step length and draw symbols. -/
def ofRules (start : Word) (rules : List (Char × Word)) (angle : Float32) : Grammar :=
  ⟨start, SymbolMap.ofList rules, angle, defaultStepLength, false, defaultDrawSymbols⟩

def expand (g : Grammar) (iterations : Nat) : Word := g.rules.expand iterations g.start

end Grammar

end FractalCurve
