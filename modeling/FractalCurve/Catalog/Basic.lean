import FractalCurve.Grammar.Drawing

/-!
# Catalogs of curves

A curve is a grammar with a title and the number of passes chosen for display,
which never goes past a cap of the curve's own.
-/

namespace FractalCurve

structure Curve where
  grammar : Grammar
  /-- The most passes that are ever made: the length of the word grows
  exponentially with them. -/
  maxIterations : UInt32
  title : String
  url : Option String
  iterations : UInt32
deriving BEq

namespace Curve

def defaultMaxIterations : UInt32 := 9
def defaultIterations : UInt32 := 1

def ofGrammar (grammar : Grammar) (title : String) : Curve :=
  ⟨grammar, defaultMaxIterations, title, none, defaultIterations⟩

def effectiveIterations (c : Curve) : UInt32 := min c.iterations c.maxIterations

def generate (c : Curve) : Except CurveError Path :=
  c.grammar.generate c.effectiveIterations.toNat

end Curve

structure Catalog where
  curves : List Curve
deriving BEq

namespace Catalog

def size (c : Catalog) : Nat := c.curves.length

def isEmpty (c : Catalog) : Bool := c.curves.isEmpty

end Catalog

end FractalCurve
