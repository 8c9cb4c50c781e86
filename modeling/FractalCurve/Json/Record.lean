import FractalCurve.Json.Reader

/-!
# Records and variants

A record is written as an object with a member for each field. It is read from
such an object with its members in any order, foreign members among them, and
also from the array of its fields in order. Fields are collected in a draft;
once the object or array has ended, `finish` fills in defaults or finds that a
field is missing.
-/

namespace FractalCurve.Json

structure Field (δ : Type) where
  name : List Char
  isSet : δ → Bool
  read : δ → Reader δ

def Field.of {δ β : Type} (name : String) (read : Reader β) (get : δ → Option β)
    (set : δ → β → δ) : Field δ :=
  { name := name.toList
    isSet := fun draft => (get draft).isSome
    read := fun draft => read.map (set draft) }

structure Record (δ α : Type) where
  fields : List (Field δ)
  blank : δ
  finish : δ → Option α

namespace Record

variable {δ α : Type}

/-- Reads the value of a member. A field may be given once only; foreign
members are skipped. -/
def member (r : Record δ α) (draft : δ) (name : List Char) : Reader δ := fun ts =>
  match r.fields.find? fun f => f.name = name with
  | some f =>
    if f.isSet draft then .error .unsuitable
    else require .colon ts >>= f.read draft
  | none => do
    let ts ← require .colon ts
    return (draft, ← skip ts)

/-- The members of an object up to its closing brace, which there are fewer of
than tokens. -/
def membersWithin (r : Record δ α) : Nat → Bool → δ → Reader δ
  | 0, _, _, _ => .error .truncated
  | bound + 1, first, draft, ts => do
    match ← nextMember first ts with
    | (none, ts) => return (draft, ts)
    | (some name, ts) =>
      let (draft, ts) ← r.member draft name ts
      r.membersWithin bound false draft ts

/-- The items of an array as fields in order. Fields may be left out at the
end. -/
def positional (first : Bool) (draft : δ) : List (Field δ) → Reader δ
  | [], ts => .ok (draft, ts)
  | f :: fields, ts => do
    match ← nextItem first (f.read draft) ts with
    | (none, ts) => return (draft, ts)
    | (some draft, ts) => positional false draft fields ts

def finished (r : Record δ α) (draft : δ) : Except Fault α :=
  match r.finish draft with
  | some a => .ok a
  | none => .error .unsuitable

/-- A missing field is noticed before items that are too many. -/
def reader (r : Record δ α) : Reader α
  | .openObject :: ts => do
    let (draft, ts) ← r.membersWithin (ts.length + 1) true r.blank ts
    return (← r.finished draft, ts)
  | .openArray :: ts => do
    let (draft, ts) ← positional true r.blank r.fields ts
    let a ← r.finished draft
    return (a, ← require .closeArray ts)
  | ts => wrongKind ts

end Record

/-- One alternative of a type. A bare name stands for `bare`, if there is such
a value; an object with the name as its only member holds what `content`
reads. -/
structure Variant (α : Type) where
  name : List Char
  bare : Option α
  content : Reader α

/-- An alternative without content, which may also be written with null. -/
def Variant.ofValue {α : Type} (name : String) (a : α) : Variant α :=
  ⟨name.toList, some a, Reader.null.map fun _ => a⟩

def Variant.ofContent {α β : Type} (name : String) (make : β → α) (read : Reader β) :
    Variant α :=
  ⟨name.toList, none, read.map make⟩

def findVariant {α : Type} (variants : List (Variant α)) (name : List Char) :
    Except Fault (Variant α) :=
  match variants.find? fun v => v.name = name with
  | some v => .ok v
  | none => .error .unsuitable

/-- Anything but a string or an object is malformed here, and so is an object
whose first member has no name. -/
def variantReader {α : Type} (variants : List (Variant α)) : Reader α
  | [] => .error .truncated
  | .brokenString parts fault :: _ => brokenString parts fault >>= fun _ => .error fault
  | .string parts :: ts => do
    let v ← findVariant variants (← closedString parts)
    match v.bare with
    | some a => .ok (a, ts)
    | none => .error .unsuitable
  | .openObject :: ts => do
    let (name, ts) ← memberName ts
    let v ← findVariant variants name
    let (a, ts) ← v.content (← require .colon ts)
    return (a, ← require .closeObject ts)
  | _ => .error .malformed

def ofMembers (members : List (String × Json)) : Json :=
  .object (members.map fun m => (m.1.toList, m.2))

def ofContent (name : String) (content : Json) : Json := ofMembers [(name, content)]

end FractalCurve.Json
