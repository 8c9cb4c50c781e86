import FractalCurve.Proofs.Trail
import FractalCurve.Proofs.TrigSize

/-!
# Planar curves

A turtle that only yaws draws in the plane it starts in. Its rotation is one
about the Z axis, and every product that could lead out of the plane has an exact
zero as a factor. The other factors are made of squares of sine and cosine, so it
takes a bound on these to know that no zero meets an infinity. No more is used of
the two functions than `CircularFunctions` says.

`elements_planar`: all points of a curve without pitch, roll and turning around
lie in the plane, as long as the sum of its yaws stays finite.
-/

namespace FractalCurve

open Number

-- ---------------------------------------------------------------------------
-- Rotations
-- ---------------------------------------------------------------------------

namespace Quaternion

/-- A rotation about the Z axis, of a size that can be squared. -/
structure Planar (q : Quaternion) : Prop where
  x : HasValue 0 q.x
  y : HasValue 0 q.y
  z : Within 59 q.z
  w : Within 59 q.w

theorem aboutX_mul_aboutY_zero : aboutX 0.0 * aboutY 0.0 = identity := by
  have hhalf : (0.0 * 0.5 : Float32) = 0.0 := by decide +kernel
  rw [aboutX, aboutY, hhalf, circularFunctions.sine_zero, circularFunctions.cosine_zero]
  decide +kernel

/-- The identity is neutral, except for the signs of zeros. -/
theorem hasValue_identity_mul {q : Quaternion} {x y z w : ℚ} (hx : HasValue x q.x)
    (hy : HasValue y q.y) (hz : HasValue z q.z) (hw : HasValue w q.w) :
    HasValue x (identity * q).x ∧ HasValue y (identity * q).y ∧
      HasValue z (identity * q).z ∧ HasValue w (identity * q).w := by
  have hone {r : ℚ} {a : Float32} (h : HasValue r a) : HasValue r (1.0 * a) :=
    hasValue_one_mul h hasValue_one
  have hzero {r : ℚ} {a : Float32} (h : HasValue r a) : HasValue 0 (0.0 * a) :=
    hasValue_zero_mul h hasValue_zero
  refine ⟨?_, ?_, ?_, ?_⟩
  · exact hasValue_add_zero (hasValue_add_zero (hone hx) (hzero hw))
      (hasValue_sub_zero (hzero hz) (hzero hy))
  · exact hasValue_add_zero (hasValue_sub_zero (hone hy) (hzero hz))
      (hasValue_add_zero (hzero hw) (hzero hx))
  · exact hasValue_add_zero (hasValue_add_zero (hone hz) (hzero hy))
      (hasValue_sub_zero (hzero hw) (hzero hx))
  · exact hasValue_add_zero (hasValue_sub_zero (hone hw) (hzero hx))
      (hasValue_sub_zero (hzero hy).neg_zero (hzero hz))

theorem planar_identity_mul_aboutZ {angle : Float32} (h : angle.isFinite = true) :
    (identity * aboutZ angle).Planar := by
  have hs : Within 59 (aboutZ angle).z := circularFunctions.within_sine (isFinite_mul_half h)
  have hc : Within 59 (aboutZ angle).w := circularFunctions.within_cosine (isFinite_mul_half h)
  obtain ⟨hx, hy, hz, hw⟩ := hasValue_identity_mul (q := aboutZ angle) hasValue_zero hasValue_zero
    (.of_isFinite hs.isFinite) (.of_isFinite hc.isFinite)
  exact ⟨hx, hy, .of_hasValue hz hs.abs_le, .of_hasValue hw hc.abs_le⟩

theorem Planar.hasValue_rotate {q : Quaternion} (h : q.Planar) :
    HasValue 0 (q.rotate Vec3.unitY).z := by
  have hplane : HasValue 0 (q.x * q.x + q.y * q.y) :=
    hasValue_add_zero (hasValue_mul_zero h.x h.x) (hasValue_mul_zero h.y h.y)
  have hsquares : Within 119 ((q.x * q.x + q.y * q.y) + q.z * q.z) :=
    Within.add (k := 118) (.of_hasValue hplane (by norm_num)) (h.z.mul h.z (by decide)) (by decide)
  have hk : Within 120 (q.w * q.w - ((q.x * q.x + q.y * q.y) + q.z * q.z)) :=
    ((h.w.mul h.w (by decide)).mono (by decide)).sub hsquares (by decide)
  have hdot : HasValue 0 ((0.0 * q.x + 1.0 * q.y) + 0.0 * q.z) :=
    hasValue_add_zero
      (hasValue_add_zero (hasValue_mul_zero hasValue_zero h.x) (hasValue_mul_zero hasValue_one h.y))
      (hasValue_zero_mul (.of_isFinite h.z.isFinite) hasValue_zero)
  have htwo : HasValue (value 2.0) 2.0 := .of_isFinite (by decide)
  have hwide : Within 61 (q.w * 2.0) :=
    h.w.mul (k := 2) (.of_finiteUpTo (by decide +kernel)) (by decide)
  have hcross : HasValue 0 (q.x * 1.0 - 0.0 * q.y) :=
    hasValue_sub_zero (hasValue_mul_one h.x hasValue_one) (hasValue_mul_zero hasValue_zero h.y)
  exact hasValue_add_zero
    (hasValue_add_zero (hasValue_zero_mul (.of_isFinite hk.isFinite) hasValue_zero)
      (hasValue_mul_zero (.of_isFinite h.z.isFinite) (hasValue_zero_mul htwo hdot)))
    (hasValue_zero_mul (.of_isFinite hwide.isFinite) hcross)

end Quaternion

-- ---------------------------------------------------------------------------
-- Turtles
-- ---------------------------------------------------------------------------

/-- Drawn in the plane of the start, and never turned out of it. -/
structure Turtle.Planar (t : Turtle) : Prop where
  pitched : t.angles.x = 0.0
  rolled : t.angles.y = 0.0
  height : HasValue 0 t.position.z

structure Turtles.Planar (t : Turtles) : Prop where
  current : t.current.Planar
  saved : ∀ u ∈ t.saved, u.Planar

/-- Keeps the turtle in its plane. -/
def Command.isPlanar : Command → Bool
  | .pitch _ | .roll _ | .turnAround => false
  | .draw | .yaw _ | .push | .pop | .ignore => true

theorem Turtle.Planar.hasValue_forward {t : Turtle} (h : t.Planar)
    (hfinite : t.angles.z.isFinite = true) : HasValue 0 t.forward.z := by
  rw [Turtle.forward, Turtle.rotation, h.pitched, h.rolled, Quaternion.aboutX_mul_aboutY_zero]
  exact (Quaternion.planar_identity_mul_aboutZ hfinite).hasValue_rotate

theorem Turtle.Planar.advance {t : Turtle} (h : t.Planar) (hfinite : t.angles.z.isFinite = true)
    {distance : Float32} (hdistance : distance.isFinite = true) : (t.advance distance).Planar :=
  ⟨h.pitched, h.rolled, hasValue_add_zero h.height
    (hasValue_zero_mul (.of_isFinite hdistance) (h.hasValue_forward hfinite))⟩

namespace Turtles.Planar

variable {angle stepLength : Float32} {t : Turtles}

theorem start : Turtles.start.Planar :=
  ⟨⟨rfl, rfl, hasValue_zero⟩, fun _ h => absurd h List.not_mem_nil⟩

theorem act {command : Command} (h : t.Planar) (hcommand : command.isPlanar = true)
    (hfinite : t.current.angles.z.isFinite = true) (hstep : stepLength.isFinite = true) :
    (command.act angle stepLength t).Planar := by
  cases command with
  | draw => exact ⟨h.current.advance hfinite hstep, h.saved⟩
  | yaw => exact ⟨⟨h.current.pitched, h.current.rolled, h.current.height⟩, h.saved⟩
  | pitch => cases hcommand
  | roll => cases hcommand
  | turnAround => cases hcommand
  | push => exact ⟨h.current, List.forall_mem_cons.2 ⟨h.current, h.saved⟩⟩
  | pop =>
    obtain ⟨current, saved⟩ := t
    cases saved with
    | nil => exact h
    | cons last outer =>
      obtain ⟨hlast, houter⟩ := List.forall_mem_cons.1 h.saved
      exact ⟨hlast, houter⟩
  | ignore => exact ⟨h.current, h.saved⟩

theorem trail {c : Course} (h : t.Planar) (hc : ∀ command ∈ c, command.isPlanar = true)
    (hfinite : ∀ d, d <+: c → (t.track angle stepLength d).current.angles.z.isFinite = true)
    (hstep : stepLength.isFinite = true) :
    ∀ p, .point p ∈ t.trail angle stepLength c → HasValue 0 p.z := by
  induction c generalizing t with
  | nil => exact fun _ h => absurd h List.not_mem_nil
  | cons command c ih =>
    obtain ⟨hcommand, hc⟩ := List.forall_mem_cons.1 hc
    obtain ⟨hnow, hlater⟩ := forall_prefix_cons.1 hfinite
    have hreached : (command.act angle stepLength t).Planar := h.act hcommand hnow hstep
    intro p hp
    rw [trail_cons, List.mem_append] at hp
    rcases hp with hp | hp
    · have hp : command.element? (command.act angle stepLength t) = some (.point p) :=
        Option.mem_toList.1 hp
      cases command with
      | draw =>
        cases hp
        exact hreached.current.height
      | _ => cases hp
    · exact ih hreached hc hlater p hp

end Turtles.Planar

/-- All points of a curve without pitch, roll and turning around have a zero for
their third coordinate, whatever the yaws and branches, as long as the sum of the
yaws stays finite. -/
theorem Interpreter.elements_planar {i : Interpreter} {word : Word} {angle stepLength : Float32}
    {closed : Bool} {w : Walk} (h : i.interpret word angle stepLength closed = .ok w)
    (hplanar : ∀ symbol ∈ word, (i.command symbol).isPlanar = true)
    (hfinite : ∀ u, u <+: word → (Turtles.start.track angle stepLength
      (i.course u)).current.angles.z.isFinite = true) :
    ∀ p, .point p ∈ w.elements → p.z = 0.0 ∨ p.z = -0.0 := by
  obtain ⟨hstep, -, rfl⟩ := interpret_eq_ok_iff.1 h
  have hlength : stepLength.isFinite = true := (checkStepLength_eq_ok_iff.1 hstep).1
  have hcourse : ∀ command ∈ i.course word, command.isPlanar = true :=
    List.forall_mem_map.2 hplanar
  have hangles : ∀ d, d <+: i.course word →
      (Turtles.start.track angle stepLength d).current.angles.z.isFinite = true := by
    intro d hd
    obtain ⟨u, hu, rfl⟩ := List.prefix_map_iff.1 hd
    exact hfinite u hu
  intro p hp
  rw [Walk.elements_start, Course.path, List.mem_append, List.mem_cons] at hp
  obtain (hfirst | hinner) | hlast := hp
  · cases hfirst
    exact .inl rfl
  · exact (Turtles.Planar.start.trail hcourse hangles hlength p hinner).eq_zero
  · cases closed with
    | false => cases hlast
    | true =>
      cases List.mem_singleton.1 hlast
      exact .inl rfl

/-- A closed curve of two branches, one in the other. -/
theorem Interpreter.elements_planar_in_branches :
    ∃ w, Interpreter.standard.interpret "F+[F-[F]]X+F".toList 1.5 10.0 true = .ok w ∧
      (∀ symbol ∈ "F+[F-[F]]X+F".toList, (Interpreter.standard.command symbol).isPlanar = true) ∧
      (∀ u, u <+: "F+[F-[F]]X+F".toList → (Turtles.start.track 1.5 10.0
        (Interpreter.standard.course u)).current.angles.z.isFinite = true) ∧
      ∀ p, .point p ∈ w.elements → p.z = 0.0 ∨ p.z = -0.0 := by
  have h : Interpreter.standard.interpret "F+[F-[F]]X+F".toList 1.5 10.0 true = .ok _ :=
    Interpreter.interpret_eq_ok_iff.2 ⟨by decide, by decide, rfl⟩
  have hplanar : ∀ symbol ∈ "F+[F-[F]]X+F".toList,
      (Interpreter.standard.command symbol).isPlanar = true :=
    List.all_eq_true.1 (by decide)
  have hfinite : ∀ u ∈ "F+[F-[F]]X+F".toList.inits, (Turtles.start.track 1.5 10.0
      (Interpreter.standard.course u)).current.angles.z.isFinite = true := by
    decide +kernel
  have hprefix := fun u hu => hfinite u ((List.mem_inits u _).2 hu)
  exact ⟨_, h, hplanar, hprefix, Interpreter.elements_planar h hplanar hprefix⟩

end FractalCurve
