import FractalCurve.Json.Number
import FractalCurve.Json.Scan
import FractalCurve.Json.Text

/-!
# Reading values from tokens

A reader takes the tokens of one value off the front. Faults are noticed from
left to right, and the first one decides: a value of the wrong kind is
unsuitable whatever follows it, but a token that is itself wrong comes before
that.
-/

namespace FractalCurve.Json

/-- Takes a value off the front of the tokens. -/
abbrev Reader (α : Type) := List Token → Except Fault (α × List Token)

def Reader.map {α β : Type} (f : α → β) (read : Reader α) : Reader β := fun ts => do
  let (a, ts) ← read ts
  return (f a, ts)

def closedString (parts : List StringPart) : Except Fault (List Char) :=
  characters (.ok ()) parts

def brokenString (parts : List StringPart) (fault : Fault) : Except Fault (List Char) :=
  characters (.error fault) parts

/-- The fault of a value that is not of the wanted kind. -/
def wrongKind {α : Type} : List Token → Except Fault α
  | [] => .error .truncated
  | .brokenWord fault :: _ | .brokenNumber fault :: _ => .error fault
  | .brokenString parts fault :: _ => brokenString parts fault >>= fun _ => .error fault
  | .string parts :: _ => closedString parts >>= fun _ => .error .unsuitable
  | .number n :: _ => numberValue n >>= fun _ => .error .unsuitable
  | .null :: _ | .bool _ :: _ | .openArray :: _ | .openObject :: _ => .error .unsuitable
  | .closeArray :: _ | .closeObject :: _ | .comma :: _ | .colon :: _ | .stray :: _ =>
    .error .malformed

def require (token : Token) : List Token → Except Fault (List Token)
  | [] => .error .truncated
  | t :: ts => if t = token then .ok ts else .error .malformed

def Reader.null : Reader Unit
  | .null :: ts => .ok ((), ts)
  | ts => wrongKind ts

def Reader.bool : Reader Bool
  | .bool b :: ts => .ok (b, ts)
  | ts => wrongKind ts

def Reader.string : Reader (List Char)
  | .string parts :: ts => return (← closedString parts, ts)
  | ts => wrongKind ts

def Reader.float32 : Reader Float32
  | .number n :: ts => return ((← numberValue n).toFloat32, ts)
  | ts => wrongKind ts

/-- A number written without fraction and exponent, in range. -/
def Reader.uint32 : Reader UInt32
  | .number n :: ts => do
    match (← numberValue n).toUInt32? with
    | some size => .ok (size, ts)
    | none => .error .unsuitable
  | ts => wrongKind ts

def Reader.optional {α : Type} (read : Reader α) : Reader (Option α)
  | .null :: ts => .ok (none, ts)
  | ts => read.map some ts

/-- The next item of an array, or none in front of the closing bracket. All
items but the first follow a comma. -/
def nextItem {α : Type} (first : Bool) (read : Reader α) : Reader (Option α)
  | .closeArray :: ts => .ok (none, .closeArray :: ts)
  | .comma :: ts => if first then .error .malformed else read.map some ts
  | [] => .error .truncated
  | ts => if first then read.map some ts else .error .malformed

/-- The items of an array up to its closing bracket, which there are fewer of
than tokens. -/
def itemsWithin {α : Type} (read : Reader α) : Nat → Bool → Reader (List α)
  | 0, _, _ => .error .truncated
  | bound + 1, first, ts => do
    match ← nextItem first read ts with
    | (none, ts) => return ([], ← require .closeArray ts)
    | (some item, ts) =>
      let (items, ts) ← itemsWithin read bound false ts
      return (item :: items, ts)

def Reader.list {α : Type} (read : Reader α) : Reader (List α)
  | .openArray :: ts => itemsWithin read (ts.length + 1) true ts
  | ts => wrongKind ts

def memberName : Reader (List Char)
  | [] => .error .truncated
  | .string parts :: ts => return (← closedString parts, ts)
  | .brokenString parts fault :: _ => brokenString parts fault >>= fun _ => .error fault
  | _ => .error .malformed

/-- The name of the next member of an object, or none behind the closing brace.
All members but the first follow a comma. -/
def nextMember (first : Bool) : Reader (Option (List Char))
  | .closeObject :: ts => .ok (none, ts)
  | .comma :: ts => if first then .error .malformed else memberName.map some ts
  | [] => .error .truncated
  | ts => if first then memberName.map some ts else .error .malformed

inductive Frame where
  | array
  | object

inductive Expected where
  | value
  | name
  /-- A comma or the end of the innermost frame. -/
  | separator

/-- Skips to the end of the outermost frame. Only the shape is looked at:
numbers may have any size and surrogates may stand alone. -/
def skipWithin : Expected → List Frame → List Token → Except Fault (List Token)
  | .separator, [], ts => .ok ts
  | _, _, [] => .error .truncated
  | .value, frames, t :: ts =>
    match t with
    | .null | .bool _ | .number _ | .string _ => skipWithin .separator frames ts
    | .openArray =>
      match ts with
      | .closeArray :: ts => skipWithin .separator frames ts
      | ts => skipWithin .value (.array :: frames) ts
    | .openObject =>
      match ts with
      | .closeObject :: ts => skipWithin .separator frames ts
      | ts => skipWithin .name (.object :: frames) ts
    | .brokenWord fault | .brokenString _ fault => .error fault
    | _ => .error .malformed
  | .name, frames, t :: ts =>
    match t with
    | .string _ =>
      match ts with
      | [] => .error .truncated
      | .colon :: ts => skipWithin .value frames ts
      | _ => .error .malformed
    | .brokenString _ fault => .error fault
    | _ => .error .malformed
  | .separator, .array :: frames, t :: ts =>
    match t with
    | .comma => skipWithin .value (.array :: frames) ts
    | .closeArray => skipWithin .separator frames ts
    | _ => .error .malformed
  | .separator, .object :: frames, t :: ts =>
    match t with
    | .comma => skipWithin .name (.object :: frames) ts
    | .closeObject => skipWithin .separator frames ts
    | _ => .error .malformed

def skip (ts : List Token) : Except Fault (List Token) := skipWithin .value [] ts

structure Codec (α : Type) where
  write : α → Json
  read : Reader α

/-- The value of a text that holds nothing else. -/
def Reader.ofText {α : Type} (read : Reader α) (text : List Char) : Except Fault α := do
  match ← read (tokens text) with
  | (a, []) => .ok a
  | (_, _ :: _) => .error .malformed

namespace Codec

variable {α : Type}

def ofText (codec : Codec α) (text : List Char) : Except Fault α := codec.read.ofText text

def toText (codec : Codec α) (a : α) : List Char := (codec.write a).compact

def toPrettyText (codec : Codec α) (a : α) : List Char := (codec.write a).pretty

end Codec

end FractalCurve.Json
