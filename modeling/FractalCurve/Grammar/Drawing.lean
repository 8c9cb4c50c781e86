import FractalCurve.Interpreter.Walk

/-!
# Drawing a grammar

A grammar expanded and walked by the standard interpreter with the grammar's
own draw symbols.
-/

namespace FractalCurve.Grammar

def interpreter (g : Grammar) : Interpreter :=
  Interpreter.standard.setDrawSymbols g.drawSymbols

def generate (g : Grammar) (iterations : Nat) : Except CurveError Path := do
  let walk ← g.interpreter.interpret (g.expand iterations) g.angle g.stepLength g.closed
  return walk.elements

end FractalCurve.Grammar
