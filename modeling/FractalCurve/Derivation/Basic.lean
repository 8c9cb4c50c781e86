/-!
# Derivations

A derivation is a word of modules: numbered symbols that may carry parameters.
Parameters are finite numbers in double precision.
-/

namespace FractalCurve

structure Module where
  symbol : Nat
  parameters : List Float

def Module.isFinite (m : Module) : Bool := m.parameters.all Float.isFinite

inductive ParameterError where
  | notFinite
deriving DecidableEq

def ParameterError.message : ParameterError → String
  | .notFinite => "Non-finite numeric value detected (NaN/Inf)"

structure Derivation where
  modules : List Module
  finite : ∀ m ∈ modules, m.isFinite

namespace Derivation

def empty : Derivation := ⟨[], by simp⟩

/-- Appends the modules in front of the first that has a parameter that is not
finite. -/
def append (d : Derivation) (modules : List Module) : Derivation :=
  ⟨d.modules ++ modules.takeWhile Module.isFinite, fun m hm =>
    (List.mem_append.1 hm).elim (d.finite m) fun h =>
      List.all_eq_true.1 List.all_takeWhile m h⟩

def checkParameters (modules : List Module) : Except ParameterError Unit :=
  if modules.all Module.isFinite then .ok () else .error .notFinite

end Derivation

end FractalCurve
