import FractalCurve.Json.Value

/-!
# JSON text

`compact` writes a value without blanks; `pretty` gives every item and member a
line of its own.
-/

namespace FractalCurve.Json

/-- Escapes quotes, backslashes and the characters below U+0020; all others
stand for themselves. -/
def escaped (c : Char) : List Char :=
  match c with
  | '"' => ['\\', '"']
  | '\\' => ['\\', '\\']
  | '\x08' => ['\\', 'b']
  | '\x0c' => ['\\', 'f']
  | '\n' => ['\\', 'n']
  | '\r' => ['\\', 'r']
  | '\t' => ['\\', 't']
  | c =>
    if c < ' ' then
      ['\\', 'u', '0', '0', Nat.digitChar (c.toNat / 16), Nat.digitChar (c.toNat % 16)]
    else [c]

def stringText (text : List Char) : List Char := '"' :: text.flatMap escaped ++ ['"']

def boolText (b : Bool) : List Char := if b then ['t', 'r', 'u', 'e'] else ['f', 'a', 'l', 's', 'e']

def nullText : List Char := ['n', 'u', 'l', 'l']

mutual
def compact : Json → List Char
  | .null => nullText
  | .bool b => boolText b
  | .number n => n.text
  | .string s => stringText s
  | .array items => '[' :: compactItems items ++ [']']
  | .object members => '\x7b' :: compactMembers members ++ ['\x7d']

def compactItems : List Json → List Char
  | [] => []
  | [item] => item.compact
  | item :: items => item.compact ++ ',' :: compactItems items

def compactMembers : List (List Char × Json) → List Char
  | [] => []
  | [(name, value)] => stringText name ++ ':' :: value.compact
  | (name, value) :: members =>
    stringText name ++ ':' :: value.compact ++ ',' :: compactMembers members
end

/-- A new line at a depth of nesting, two blanks for each level. -/
def newline (depth : Nat) : List Char := '\n' :: List.replicate (2 * depth) ' '

mutual
/-- The text of a value that stands at a depth of nesting. Empty arrays and
objects stay on their line. -/
def prettyAt (depth : Nat) : Json → List Char
  | .null => nullText
  | .bool b => boolText b
  | .number n => n.text
  | .string s => stringText s
  | .array [] => ['[', ']']
  | .array items => '[' :: prettyItems (depth + 1) items ++ newline depth ++ [']']
  | .object [] => ['\x7b', '\x7d']
  | .object members =>
    '\x7b' :: prettyMembers (depth + 1) members ++ newline depth ++ ['\x7d']

def prettyItems (depth : Nat) : List Json → List Char
  | [] => []
  | [item] => newline depth ++ item.prettyAt depth
  | item :: items => newline depth ++ item.prettyAt depth ++ ',' :: prettyItems depth items

def prettyMembers (depth : Nat) : List (List Char × Json) → List Char
  | [] => []
  | [(name, value)] => newline depth ++ stringText name ++ ':' :: ' ' :: value.prettyAt depth
  | (name, value) :: members =>
    newline depth ++ stringText name ++ ':' :: ' ' :: value.prettyAt depth ++
      ',' :: prettyMembers depth members
end

def pretty (j : Json) : List Char := j.prettyAt 0

end FractalCurve.Json
