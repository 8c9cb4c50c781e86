import FractalCurve.Catalog.Basic
import FractalCurve.Json.Record

/-!
# JSON form of catalogs

Catalogs are kept as documents: `Catalog.toDocument` writes one and
`Catalog.ofDocument` reads one. Fields with a default may be left out.
-/

namespace FractalCurve

open Json

namespace Rules

def toJson (rules : Rules) : Json :=
  .object (rules.entries.map fun e => ([e.1], .string e.2))

/-- The members of an object of rules, which there are fewer of than tokens. A
name is a single symbol; a later rule replaces an earlier one. -/
def membersWithin : Nat → Bool → Rules → Reader Rules
  | 0, _, _, _ => .error .truncated
  | bound + 1, first, rules, ts => do
    match ← nextMember first ts with
    | (none, ts) => return (rules, ts)
    | (some [symbol], ts) =>
      let (production, ts) ← Reader.string (← require .colon ts)
      membersWithin bound false (rules.insert symbol production) ts
    | (some _, _) => .error .unsuitable

def reader : Reader Rules
  | .openObject :: ts => membersWithin (ts.length + 1) true SymbolMap.empty ts
  | ts => wrongKind ts

end Rules

namespace Grammar

def toJson (g : Grammar) : Json :=
  ofMembers
    [ ("axiom", .string g.start),
      ("rules", g.rules.toJson),
      ("angle", .ofFloat g.angle),
      ("step_length", .ofFloat g.stepLength),
      ("closed_path", .bool g.closed),
      ("draw_symbols", .string g.drawSymbols) ]

structure Draft where
  start : Option Word
  rules : Option Rules
  angle : Option Float32
  stepLength : Option Float32
  closed : Option Bool
  drawSymbols : Option Word

def Draft.blank : Draft := ⟨none, none, none, none, none, none⟩

def Draft.finish (d : Draft) : Option Grammar := do
  return {
    start := ← d.start
    rules := ← d.rules
    angle := ← d.angle
    stepLength := d.stepLength.getD defaultStepLength
    closed := d.closed.getD false
    drawSymbols := d.drawSymbols.getD defaultDrawSymbols }

def record : Record Draft Grammar :=
  { fields :=
      [ .of "axiom" Reader.string Draft.start fun d v => { d with start := some v },
        .of "rules" Rules.reader Draft.rules fun d v => { d with rules := some v },
        .of "angle" Reader.float32 Draft.angle fun d v => { d with angle := some v },
        .of "step_length" Reader.float32 Draft.stepLength fun d v =>
          { d with stepLength := some v },
        .of "closed_path" Reader.bool Draft.closed fun d v => { d with closed := some v },
        .of "draw_symbols" Reader.string Draft.drawSymbols fun d v =>
          { d with drawSymbols := some v } ]
    blank := Draft.blank
    finish := Draft.finish }

def codec : Codec Grammar := ⟨toJson, record.reader⟩

end Grammar

namespace Curve

def toJson (c : Curve) : Json :=
  ofMembers
    [ ("grammar", c.grammar.toJson),
      ("max_iterations", .ofNat c.maxIterations.toNat),
      ("title", .ofString c.title),
      ("url", match c.url with
        | some url => .ofString url
        | none => .null),
      ("iterations", .ofNat c.iterations.toNat) ]

structure Draft where
  grammar : Option Grammar
  maxIterations : Option UInt32
  title : Option (List Char)
  url : Option (Option (List Char))
  iterations : Option UInt32

def Draft.blank : Draft := ⟨none, none, none, none, none⟩

def Draft.finish (d : Draft) : Option Curve := do
  return {
    grammar := ← d.grammar
    maxIterations := d.maxIterations.getD defaultMaxIterations
    title := String.ofList (← d.title)
    url := (d.url.getD none).map String.ofList
    iterations := d.iterations.getD defaultIterations }

def record : Record Draft Curve :=
  { fields :=
      [ .of "grammar" Grammar.record.reader Draft.grammar fun d v => { d with grammar := some v },
        .of "max_iterations" Reader.uint32 Draft.maxIterations fun d v =>
          { d with maxIterations := some v },
        .of "title" Reader.string Draft.title fun d v => { d with title := some v },
        .of "url" (Reader.optional Reader.string) Draft.url fun d v => { d with url := some v },
        .of "iterations" Reader.uint32 Draft.iterations fun d v => { d with iterations := some v } ]
    blank := Draft.blank
    finish := Draft.finish }

def codec : Codec Curve := ⟨toJson, record.reader⟩

end Curve

namespace Catalog

def toJson (c : Catalog) : Json := ofMembers [("curves", .array (c.curves.map Curve.toJson))]

/-- The draft of a catalog is the list of its curves, once there. -/
def record : Record (Option (List Curve)) Catalog :=
  { fields := [.of "curves" (Reader.list Curve.record.reader) id fun _ curves => some curves]
    blank := none
    finish := Option.map Catalog.mk }

def codec : Codec Catalog := ⟨toJson, record.reader⟩

def toDocument (c : Catalog) : List Char := codec.toPrettyText c

def ofDocument (text : List Char) : Except Fault Catalog := codec.ofText text

end Catalog

end FractalCurve
