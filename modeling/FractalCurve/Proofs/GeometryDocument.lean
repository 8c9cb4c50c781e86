import FractalCurve.Document.Geometry
import FractalCurve.Proofs.Reading

/-!
# Geometry as text

What becomes of a vector, a path element, a command, a turtle or a box that is
written as compact text and read again. A bare name stands for an element or
command without floats; in all others each float is put through its numeral.

`geometry_round_trip`: the text is unsuitable if one of the floats is infinite
or NaN, and readable otherwise; where the numerals read back as the floats they
were written for, the value is the same.
-/

namespace FractalCurve

open Json

-- ---------------------------------------------------------------------------
-- Compact texts
-- ---------------------------------------------------------------------------

namespace Json.Codec

variable {α : Type}

/-- What becomes of the values of a codec when their compact text is read. An
infinity or NaN, for which null is written, makes a text unsuitable, and nothing
else does; what changes a value can only be a numeral that does not read back. -/
structure RoundTrip (codec : Codec α) (floats : α → List Float32) : Prop where
  exists_ok_iff (a : α) :
    (∃ b, codec.ofText (codec.toText a) = .ok b) ↔ ∀ x ∈ floats a, x.isFinite
  unsuitable (a : α) :
    ¬ (∀ x ∈ floats a, x.isFinite) → codec.ofText (codec.toText a) = .error .unsuitable
  same (a : α) : (∀ x ∈ floats a, ReadsBack x) → codec.ofText (codec.toText a) = .ok a

theorem RoundTrip.of_rereads {codec : Codec α} {floats : α → List Float32}
    {reread : α → Except Fault α} (hwritten : ∀ a, (codec.write a).WellFormed)
    (hread : ∀ a, codec.read.Yields (codec.write a) (reread a))
    (h : ∀ a, Rereads a (floats a) (reread a)) : codec.RoundTrip floats := by
  have htext (a : α) : codec.ofText (codec.toText a) = reread a :=
    Reader.Takes.ofText (hread a) (tokens_compact (hwritten a))
  constructor <;> intro a <;> rw [htext]
  · exact (h a).suitable.exists_ok_iff
  · exact (h a).suitable.unsuitable
  · exact (h a).same

end Json.Codec

-- ---------------------------------------------------------------------------
-- Vectors
-- ---------------------------------------------------------------------------

namespace Vec3

def floats (v : Vec3) : List Float32 := [v.x, v.y, v.z]

theorem wellFormed_toJson (v : Vec3) : v.toJson.WellFormed := by
  refine .array ?_
  simp only [List.forall_mem_cons]
  exact ⟨wellFormed_ofFloat _, wellFormed_ofFloat _, wellFormed_ofFloat _, List.forall_mem_nil _⟩

/-- A vector after its coordinates have been written and read. -/
def reread (v : Vec3) : Except Fault Vec3 := do
  let x ← rereadFloat v.x
  let y ← rereadFloat v.y
  let z ← rereadFloat v.z
  return ⟨x, y, z⟩

theorem rereads (v : Vec3) : Rereads v v.floats v.reread := by
  have hz (x y : Float32) := (Rereads.float v.z).map (Vec3.mk x y)
  have hy (x : Float32) := (Rereads.float v.y).bind (hz x)
  exact (Rereads.float v.x).bind hy

theorem coordinate_append (first : Bool) (x : Float32) (rest : List Token) :
    coordinate first (lead first ++ ((Json.ofFloat x).written ++ rest)) =
      (rereadFloat x).map fun a => (a, rest) := by
  rw [coordinate, nextItem_append (isValue_written _) (yields_float32 x)]
  cases rereadFloat x <;> rfl

theorem yields_toJson (v : Vec3) : reader.Yields v.toJson v.reread := by
  intro rest
  rw [toJson, written_array, arrayTokens]
  simp only [List.map_cons, List.map_nil, separated, List.cons_append, List.append_assoc,
    List.nil_append, reader, coordinate_append, reread]
  -- The first coordinate that is null ends the reading.
  cases rereadFloat v.x with
  | error fault => rfl
  | ok x =>
    simp only [Except.map, bind, Except.bind, coordinate_append]
    cases rereadFloat v.y with
    | error fault => rfl
    | ok y =>
      simp only [coordinate_append]
      cases rereadFloat v.z <;> rfl

end Vec3

-- ---------------------------------------------------------------------------
-- Path elements and commands
-- ---------------------------------------------------------------------------

namespace PathElement

def floats : PathElement → List Float32
  | .point p => p.floats
  | .gap => []

theorem wellFormed_toJson (e : PathElement) : e.toJson.WellFormed := by
  cases e with
  | point p => exact wellFormed_ofMembers (List.forall_mem_singleton.2 p.wellFormed_toJson)
  | gap => exact .string _

/-- An element after its floats have been written and read. -/
def reread : PathElement → Except Fault PathElement
  | .point p => p.reread.map .point
  | .gap => .ok .gap

theorem rereads (e : PathElement) : Rereads e e.floats e.reread := by
  cases e with
  | point p => exact p.rereads.map PathElement.point
  | gap => exact .ok _

theorem yields_toJson (e : PathElement) : codec.read.Yields e.toJson e.reread := by
  cases e with
  | point p => exact yields_ofContent rfl p.yields_toJson
  | gap => exact yields_ofString rfl

end PathElement

namespace Command

def floats : Command → List Float32
  | .yaw factor | .pitch factor | .roll factor => [factor]
  | .draw | .turnAround | .push | .pop | .ignore => []

theorem wellFormed_toJson (c : Command) : c.toJson.WellFormed := by
  cases c with
  | yaw factor | pitch factor | roll factor =>
    exact wellFormed_ofMembers (List.forall_mem_singleton.2 (wellFormed_ofFloat factor))
  | _ => exact .string _

/-- A command after its floats have been written and read. -/
def reread : Command → Except Fault Command
  | .yaw factor => (rereadFloat factor).map .yaw
  | .pitch factor => (rereadFloat factor).map .pitch
  | .roll factor => (rereadFloat factor).map .roll
  | c => .ok c

theorem rereads (c : Command) : Rereads c c.floats c.reread := by
  cases c with
  | yaw factor => exact (Rereads.float factor).map Command.yaw
  | pitch factor => exact (Rereads.float factor).map Command.pitch
  | roll factor => exact (Rereads.float factor).map Command.roll
  | _ => exact .ok _

theorem yields_toJson (c : Command) : codec.read.Yields c.toJson c.reread := by
  cases c with
  | yaw factor | pitch factor | roll factor => exact yields_ofContent rfl (yields_float32 factor)
  | _ => exact yields_ofString rfl

end Command

-- ---------------------------------------------------------------------------
-- Turtles and boxes
-- ---------------------------------------------------------------------------

section

variable {α : Type} {first second : String}

/-- A record of two vectors after their coordinates have been written and
read. -/
def rereadPair (make : Vec3 → Vec3 → α) (u v : Vec3) : Except Fault α := do
  let u ← u.reread
  let v ← v.reread
  return make u v

theorem rereads_pair (make : Vec3 → Vec3 → α) (u v : Vec3) :
    Rereads (make u v) (u.floats ++ v.floats) (rereadPair make u v) := by
  have hv (u : Vec3) := v.rereads.map (make u)
  exact u.rereads.bind hv

theorem wellFormed_pair (u v : Vec3) :
    (ofMembers [(first, u.toJson), (second, v.toJson)]).WellFormed := by
  refine wellFormed_ofMembers ?_
  simp only [List.forall_mem_cons]
  exact ⟨u.wellFormed_toJson, v.wellFormed_toJson, List.forall_mem_nil _⟩

theorem yields_pair (hnames : first ≠ second) (make : Vec3 → Vec3 → α) (u v : Vec3) :
    (vectorPair first second make).reader.Yields
      (ofMembers [(first, u.toJson), (second, v.toJson)]) (rereadPair make u v) := by
  have hmembers : (vectorPair first second make).Collects ⟨none, none⟩
      [writtenMember (first.toList, u.toJson), writtenMember (second.toList, v.toJson)]
      (do
        let u ← u.reread
        let v ← v.reread
        .ok ⟨some u, some v⟩) := by
    refine .field_bind Field.find?_cons_self rfl u.yields_toJson fun u => ?_
    refine .field_bind (Field.find?_cons_of_ne hnames Field.find?_cons_self) rfl
      v.yields_toJson fun v => ?_
    exact .nil _
  refine yields_record hmembers ?_
  unfold rereadPair
  cases u.reread with
  | error fault => rfl
  | ok u => cases v.reread <;> rfl

/-- For a type whose values are made of two vectors `u` and `v`. -/
theorem roundTrip_pair (hnames : first ≠ second) (make : Vec3 → Vec3 → α) (u v : α → Vec3)
    (hmake : ∀ a, make (u a) (v a) = a) :
    Codec.RoundTrip
      ⟨fun a => ofMembers [(first, (u a).toJson), (second, (v a).toJson)],
        (vectorPair first second make).reader⟩
      fun a => (u a).floats ++ (v a).floats := by
  refine .of_rereads (fun a => wellFormed_pair (u a) (v a))
    (fun a => yields_pair hnames make (u a) (v a)) fun a => ?_
  have hrereads := rereads_pair make (u a) (v a)
  rwa [hmake] at hrereads

end

def Turtle.floats (t : Turtle) : List Float32 := t.position.floats ++ t.angles.floats

def Box.floats (b : Box) : List Float32 := b.lower.floats ++ b.upper.floats

-- ---------------------------------------------------------------------------
-- The round trip
-- ---------------------------------------------------------------------------

/-- Commands, path elements, turtles and boxes keep every float in its place and
every zero with its sign. -/
theorem geometry_round_trip :
    Command.codec.RoundTrip Command.floats ∧ PathElement.codec.RoundTrip PathElement.floats ∧
      Turtle.codec.RoundTrip Turtle.floats ∧ Box.codec.RoundTrip Box.floats := by
  refine ⟨?_, ?_, ?_, ?_⟩
  · exact .of_rereads Command.wellFormed_toJson Command.yields_toJson Command.rereads
  · exact .of_rereads PathElement.wellFormed_toJson PathElement.yields_toJson PathElement.rereads
  · exact roundTrip_pair (by decide) Turtle.mk Turtle.position Turtle.angles fun _ => rfl
  · exact roundTrip_pair (by decide) Box.mk Box.lower Box.upper fun _ => rfl

/-- Negative zero, the least number above zero and the greatest one. -/
def Vec3.extremes : Vec3 := ⟨-0.0, 1e-45, 3.4028235e38⟩

theorem extremes_round_trip :
    Command.codec.ofText (Command.codec.toText .turnAround) = .ok .turnAround ∧
      Command.codec.ofText (Command.codec.toText (.roll (-0.0))) = .ok (.roll (-0.0)) ∧
      Command.codec.ofText (Command.codec.toText (.pitch Number.nan32)) = .error .unsuitable ∧
      PathElement.codec.ofText (PathElement.codec.toText (.point Vec3.extremes)) =
        .ok (.point Vec3.extremes) ∧
      Turtle.codec.ofText (Turtle.codec.toText ⟨Vec3.extremes, Vec3.unitY⟩) =
        .ok ⟨Vec3.extremes, Vec3.unitY⟩ ∧
      Box.codec.ofText (Box.codec.toText ⟨Vec3.extremes, Vec3.splat Number.infinity32⟩) =
        .error .unsuitable := by
  obtain ⟨hcommand, helement, hturtle, hbox⟩ := geometry_round_trip
  refine ⟨?_, ?_, ?_, ?_, ?_, ?_⟩
  · exact hcommand.same _ (List.forall_mem_nil _)
  · exact hcommand.same _ (by decide +kernel)
  · exact hcommand.unsuitable _ (by decide +kernel)
  · exact helement.same _ (by decide +kernel)
  · exact hturtle.same _ (by decide +kernel)
  · exact hbox.unsuitable _ (by decide +kernel)

end FractalCurve
