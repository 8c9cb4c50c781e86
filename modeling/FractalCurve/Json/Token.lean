import FractalCurve.Number.Numeral

/-!
# JSON tokens

Text is cut into tokens before anything else is read from it. A token that is
cut short or wrong ends the text. It is kept as the last token together with
its fault, because a reader that wants something else in its place reports a
fault of its own.
-/

namespace FractalCurve.Json

open Number (Numeral)

/-- What can be wrong with a text, in the place where it is noticed first. -/
inductive Fault where
  /-- No JSON. -/
  | malformed
  /-- JSON, but not a value of the wanted kind. -/
  | unsuitable
  | truncated
deriving DecidableEq

/-- A part of a string: a character, or the 16-bit code of a `\u` escape. -/
inductive StringPart where
  | char (c : Char)
  | code (unit : Nat)
deriving DecidableEq

inductive Token where
  | openArray
  | closeArray
  | openObject
  | closeObject
  | comma
  | colon
  | null
  | bool (value : Bool)
  | number (numeral : Numeral)
  | string (parts : List StringPart)
  | brokenWord (fault : Fault)
  | brokenNumber (fault : Fault)
  | brokenString (parts : List StringPart) (fault : Fault)
  | stray
deriving DecidableEq

def isHighSurrogate (unit : Nat) : Bool := 0xd800 ≤ unit ∧ unit < 0xdc00
def isLowSurrogate (unit : Nat) : Bool := 0xdc00 ≤ unit ∧ unit < 0xe000

def pairChar (high low : Nat) : Char :=
  Char.ofNat (0x10000 + (high - 0xd800) * 0x400 + (low - 0xdc00))

/-- The characters of a string with the given ending. Two surrogates make one
character, and neither may stand alone. What is wrong in the parts is noticed
before an ending that is broken off. -/
def characters (ending : Except Fault Unit) : List StringPart → Except Fault (List Char)
  | [] => ending.map fun _ => []
  | .char c :: parts => return c :: (← characters ending parts)
  | .code unit :: parts =>
    if isHighSurrogate unit then
      match parts with
      | [] => ending.bind fun _ => .error .malformed
      | .char _ :: _ => .error .malformed
      | .code low :: parts =>
        if isLowSurrogate low then return pairChar unit low :: (← characters ending parts)
        else .error .malformed
    else if isLowSurrogate unit then .error .malformed
    else return Char.ofNat unit :: (← characters ending parts)

end FractalCurve.Json
