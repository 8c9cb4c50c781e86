import FractalCurve.Catalog.Basic
import FractalCurve.Number.Angle

/-!
# The standard catalog

Well-known curves in the order in which they are shown.
-/

namespace FractalCurve.Catalog

open Number

def grammarOfText (start : String) (rules : List (Char × String)) (angle : Float32) : Grammar :=
  Grammar.ofRules start.toList (rules.map fun rule => (rule.1, rule.2.toList)) angle

def kochSnowflake : Curve :=
  { Curve.ofGrammar
    { grammarOfText "F--F--F" [('F', "F+F--F+F")] sixthTurn with closed := true }
    "Koch snowflake" with
    url := some "https://en.wikipedia.org/wiki/Koch_snowflake" }

def cesaroFractal : Curve :=
  { Curve.ofGrammar
    (grammarOfText "F" [('F', "F+F-F-F+F")] (radians 85.0))
    "Cesaro fractal" with
    url := some "http://mathworld.wolfram.com/CesaroFractal.html" }

def quadraticType2 : Curve :=
  { Curve.ofGrammar
    (grammarOfText "F" [('F', "F+F-F-FF+F+F-F")] quarterTurn)
    "Quadratic type 2" with
    url := some "https://en.wikipedia.org/wiki/Koch_snowflake#Variants_of_the_Koch_curve" }

def hilbertCurve : Curve :=
  { Curve.ofGrammar
    (grammarOfText "A" [('A', "-BF+AFA+FB-"), ('B', "+AF-BFB-FA+")] quarterTurn)
    "Hilbert curve" with
    url := some "https://en.wikipedia.org/wiki/Hilbert_curve" }

def lindenmayerCurve : Curve :=
  Curve.ofGrammar
    (grammarOfText "X"
      [ ('X', "XFYFX+F+YFXFY-F-XFYFX"),
        ('Y', "YFXFY-F-XFYFX+F+YFXFY") ]
      quarterTurn)
    "Lindenmayer curve"

def gosperCurve : Curve :=
  { Curve.ofGrammar
    (grammarOfText "F"
      [ ('F', "F-G--G+F++FF+G-"),
        ('G', "+F-GG--G-F++F+G") ]
      (radians 60.0))
    "Gosper curve" with
    url := some "https://en.wikipedia.org/wiki/Gosper_curve" }

def sierpinskiTriangle : Curve :=
  { Curve.ofGrammar
    (grammarOfText "F-G-G" [('F', "F-G+F+G-F"), ('G', "GG")] (radians 120.0))
    "Sierpinski triangle" with
    url := some "https://en.wikipedia.org/wiki/Sierpinski_triangle" }

def sierpinskiArrowhead : Curve :=
  { Curve.ofGrammar
    (grammarOfText "F" [('F', "G-F-G"), ('G', "F+G+F")] sixthTurn)
    "Sierpinski arrow head triangle" with
    url := some "https://en.wikipedia.org/wiki/Sierpi%C5%84ski_arrowhead_curve" }

def dragonCurve : Curve :=
  { Curve.ofGrammar
    (grammarOfText "FX" [('X', "X+YF+"), ('Y', "-FX-Y")] quarterTurn)
    "Dragon curve" with
    url := some "https://en.wikipedia.org/wiki/Dragon_curve"
    maxIterations := 14 }

def plant : Curve :=
  { Curve.ofGrammar
    (grammarOfText "X" [('X', "F[-X][X]F[-X]+FX"), ('F', "FF")] (radians 25.0))
    "Plant" with
    url := some "https://en.wikipedia.org/wiki/L-system#Example_7:_Fractal_plant" }

/-- Each generation draws with a move symbol of its own. -/
def kochCurve3d : Curve :=
  { Curve.ofGrammar
    (grammarOfText "A"
      [ ('A', "[[[[F+F-F-F+F]G<G>G>G<G]H-H+H+H-H]I>I<I<I>I]"),
        ('F', "F+F-F-F+F"),
        ('G', "G<G>G>G<G"),
        ('H', "H-H+H+H-H"),
        ('I', "I>I<I<I>I") ]
      quarterTurn)
    "Koch curve 3d" with
    url := some "https://github.com/Hiestaa/3D-Lsystem/blob/master/lsystem/KochCurve3D.py" }

def standard : Catalog :=
  ⟨[ kochSnowflake,
     cesaroFractal,
     quadraticType2,
     hilbertCurve,
     lindenmayerCurve,
     gosperCurve,
     sierpinskiTriangle,
     sierpinskiArrowhead,
     dragonCurve,
     plant,
     kochCurve3d ]⟩

end FractalCurve.Catalog
