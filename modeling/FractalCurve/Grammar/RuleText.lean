import FractalCurve.Error
import FractalCurve.Grammar.Basic
import FractalCurve.Text.Blank

/-!
# Rules as text

Rules are written `X => production`, several of them separated by `"; "`.
`parse` and `format` are the two directions. Only the first character of a left
side counts as the symbol, and a later rule for a symbol replaces an earlier
one.
-/

namespace FractalCurve.Rules

def separator : List Char := [';', ' ']
def arrow : List Char := [' ', '=', '>', ' ']

def consFirst (c : Char) : List (List Char) → List (List Char)
  | [] => [[c]]
  | piece :: pieces => (c :: piece) :: pieces

def pieces : List Char → List (List Char)
  | [] => [[]]
  | ';' :: ' ' :: rest => [] :: pieces rest
  | c :: rest => consFirst c (pieces rest)

def splitArrow : List Char → Option (List Char × List Char)
  | [] => none
  | ' ' :: '=' :: '>' :: ' ' :: rest => some ([], rest)
  | c :: rest => (splitArrow rest).map fun sides => (c :: sides.1, sides.2)

/-- An entry needs an arrow and something in front of it. -/
def parseEntry (entry : List Char) : Except CurveError (Char × Word) :=
  match splitArrow entry with
  | some (symbol :: _, production) => .ok (symbol, production)
  | _ => .error (.ruleSyntax entry)

/-- Blank text holds no rules. -/
def parse (text : List Char) : Except CurveError Rules :=
  if text.all Text.isBlank then .ok SymbolMap.empty
  else return SymbolMap.ofList (← (pieces text).mapM parseEntry)

def entryText (entry : Char × Word) : List Char := entry.1 :: arrow ++ entry.2

/-- The rules in the order of their symbols. -/
def format (rules : Rules) : List Char :=
  separator.intercalate (rules.entries.map entryText)

end FractalCurve.Rules
