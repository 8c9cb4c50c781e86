import FractalCurve.Proofs.Axes
import FractalCurve.Proofs.FloatArithmetic

/-!
# Bounds

The turn by the identity leaves the value of every finite coordinate as it is,
and the corners of the bounds are the least and the greatest of those values.
So neither the order of the points nor their number has a part in the bounds,
and a zero that is found there has lost its sign.

`fit_of_same_points`: two paths through the same points are moved by one map.
-/

namespace FractalCurve

open Number

-- ---------------------------------------------------------------------------
-- Extremes
-- ---------------------------------------------------------------------------

section

variable {pick : Float32 → Float32 → Float32}

theorem foldl_mem_of_pick (hpick : ∀ x y, pick x y = x ∨ pick x y = y) (x : Float32)
    (xs : List Float32) : xs.foldl pick x ∈ x :: xs := by
  induction xs generalizing x with
  | nil => exact List.mem_singleton_self x
  | cons y xs ih =>
    rw [List.foldl_cons]
    obtain hfirst | hrest := List.mem_cons.1 (ih (pick x y))
    · rw [hfirst]
      obtain heq | heq := hpick x y
      · rw [heq]
        exact List.mem_cons_self
      · rw [heq]
        exact List.mem_cons_of_mem _ List.mem_cons_self
    · exact List.mem_cons_of_mem _ (List.mem_cons_of_mem _ hrest)

/-- `pick` gives one of two finite numbers, and no other has a smaller key. -/
structure PicksLeast (key : Float32 → ℚ) (pick : Float32 → Float32 → Float32) : Prop where
  pick_eq : ∀ x y, pick x y = x ∨ pick x y = y
  le_left : ∀ x y, x.isFinite → y.isFinite → key (pick x y) ≤ key x
  le_right : ∀ x y, x.isFinite → y.isFinite → key (pick x y) ≤ key y

namespace PicksLeast

variable {key : Float32 → ℚ} (h : PicksLeast key pick)

include h

theorem foldl_le {x : Float32} {xs : List Float32} (hfinite : ∀ y ∈ x :: xs, y.isFinite = true) :
    ∀ y ∈ x :: xs, key (xs.foldl pick x) ≤ key y := by
  induction xs generalizing x with
  | nil =>
    intro y hy
    rw [List.mem_singleton.1 hy]
    rfl
  | cons z xs ih =>
    have hx := hfinite x List.mem_cons_self
    have hz := hfinite z (List.mem_cons_of_mem _ List.mem_cons_self)
    have hpicked : ∀ y ∈ pick x z :: xs, y.isFinite = true := by
      intro y hy
      obtain rfl | hrest := List.mem_cons.1 hy
      · obtain heq | heq := h.pick_eq x z
        · rwa [heq]
        · rwa [heq]
      · exact hfinite y (List.mem_cons_of_mem _ (List.mem_cons_of_mem _ hrest))
    have hle := ih hpicked
    have hhead := hle (pick x z) List.mem_cons_self
    intro y hy
    rw [List.foldl_cons]
    obtain rfl | hrest := List.mem_cons.1 hy
    · exact hhead.trans (h.le_left y z hx hz)
    obtain rfl | hrest := List.mem_cons.1 hrest
    · exact hhead.trans (h.le_right x y hx hz)
    · exact hle y (List.mem_cons_of_mem _ hrest)

/-- The key that is picked is known from the members. -/
theorem key_foldl_eq {x y : Float32} {xs ys : List Float32}
    (hxs : ∀ z ∈ x :: xs, z.isFinite = true) (hys : ∀ z ∈ y :: ys, z.isFinite = true)
    (hsame : ∀ z, z ∈ x :: xs ↔ z ∈ y :: ys) :
    key (xs.foldl pick x) = key (ys.foldl pick y) :=
  le_antisymm
    (h.foldl_le hxs _ ((hsame _).2 (foldl_mem_of_pick h.pick_eq y ys)))
    (h.foldl_le hys _ ((hsame _).1 (foldl_mem_of_pick h.pick_eq x xs)))

end PicksLeast

end

theorem picksLeast_of_less {key : Float32 → ℚ} (less : Float32 → Float32 → Prop)
    [∀ x y, Decidable (less x y)]
    (hless : ∀ x y, x.isFinite → y.isFinite → (less x y ↔ key x < key y)) :
    PicksLeast key fun x y => if less y x then y else x := by
  refine ⟨fun x y => (ite_eq_or_eq _ y x).symm, fun x y hx hy => ?_, fun x y hx hy => ?_⟩
  · by_cases h : less y x
    · rw [if_pos h]
      exact ((hless y x hy hx).1 h).le
    · rw [if_neg h]
  · by_cases h : less y x
    · rw [if_pos h]
    · rw [if_neg h]
      exact not_lt.1 (mt (hless y x hy hx).2 h)

theorem picksLeast_lesser : PicksLeast value lesser :=
  picksLeast_of_less (· < ·) fun _ _ hx hy =>
    lt_iff_value_lt (isNaN_of_isFinite hx) (isNaN_of_isFinite hy)

theorem picksLeast_greater : PicksLeast (fun x => -value x) greater :=
  picksLeast_of_less (· > ·) fun _ _ hx hy =>
    (lt_iff_value_lt (isNaN_of_isFinite hy) (isNaN_of_isFinite hx)).trans neg_lt_neg_iff.symm

-- ---------------------------------------------------------------------------
-- Finite points
-- ---------------------------------------------------------------------------

def Vec3.IsFinite (p : Vec3) : Prop := ∀ a, (p.component a).isFinite = true

instance (p : Vec3) : Decidable p.IsFinite :=
  decidable_of_iff (∀ a ∈ Axis.all, (p.component a).isFinite = true)
    ⟨fun h a => h a a.mem_all, fun h a _ => h a⟩

def Path.IsFinite (path : Path) : Prop := ∀ p ∈ path.points, p.IsFinite

instance (path : Path) : Decidable path.IsFinite :=
  inferInstanceAs (Decidable (∀ p ∈ path.points, p.IsFinite))

-- ---------------------------------------------------------------------------
-- The turn by the identity
-- ---------------------------------------------------------------------------

theorem hasValue_turned {q : ℚ} {a b c d k w : Float32} (ha : HasValue q a)
    (hb : b.isFinite = true) (hc : c.isFinite = true) (hd : HasValue 0 d) (hk : HasValue 1 k)
    (hw : w.isFinite = true) :
    HasValue q ((a * k + 0.0 * d) + (0.0 * b - c * 0.0) * w) := by
  have hstretched : HasValue q (a * k + 0.0 * d) :=
    hasValue_add_zero (hasValue_mul_one ha hk) (hasValue_mul_zero hasValue_zero hd)
  have hcross : HasValue 0 (0.0 * b - c * 0.0) :=
    hasValue_sub_zero (hasValue_zero_mul (.of_isFinite hb) hasValue_zero)
      (hasValue_mul_zero (.of_isFinite hc) hasValue_zero)
  exact hasValue_add_zero hstretched (hasValue_zero_mul (.of_isFinite hw) hcross)

theorem hasValue_rotate_identity {p : Vec3} (hp : p.IsFinite) (a : Axis) :
    HasValue (value (p.component a)) ((Quaternion.identity.rotate p).component a) := by
  have hzero (a : Axis) : HasValue 0 (p.component a * 0.0) :=
    hasValue_mul_zero (.of_isFinite (hp a)) hasValue_zero
  have hd : HasValue 0 (p.dot Vec3.zero * 2.0) :=
    hasValue_zero_mul (.of_isFinite (by decide))
      (hasValue_add_zero (hasValue_add_zero (hzero .x) (hzero .y)) (hzero .z))
  have hk : HasValue 1 (1.0 * 1.0 - Vec3.zero.dot Vec3.zero) := by
    have : 1.0 * 1.0 - Vec3.zero.dot Vec3.zero = 1.0 := by decide +kernel
    rw [this]
    exact hasValue_one
  have htwo : (1.0 * 2.0 : Float32).isFinite = true := by decide +kernel
  cases a with
  | x => exact hasValue_turned (.of_isFinite (hp .x)) (hp .z) (hp .y) hd hk htwo
  | y => exact hasValue_turned (.of_isFinite (hp .y)) (hp .x) (hp .z) hd hk htwo
  | z => exact hasValue_turned (.of_isFinite (hp .z)) (hp .y) (hp .x) hd hk htwo

-- ---------------------------------------------------------------------------
-- Bounds
-- ---------------------------------------------------------------------------

/-- A corner picks on each axis by itself. -/
theorem component_foldl_extend (corner : Box → Vec3) {pick : Float32 → Float32 → Float32}
    (hcorner : ∀ b p, corner (b.extend p) = (corner b).zipWith pick p) (f : Vec3 → Vec3)
    (b : Box) (ps : List Vec3) (a : Axis) :
    (corner (ps.foldl (fun b p => b.extend (f p)) b)).component a =
      (ps.map fun p => (f p).component a).foldl pick ((corner b).component a) := by
  induction ps generalizing b with
  | nil => rfl
  | cons p ps ih =>
    rw [List.foldl_cons, ih, List.map_cons, List.foldl_cons, hcorner, Vec3.component_zipWith]

/-- The coordinates on one axis, as the bounds see them. -/
def turned (a : Axis) (p : Vec3) : Float32 := (Quaternion.identity.rotate p).component a

section

variable (first : Vec3) (rest : List Vec3) (a : Axis)

theorem lower_bounds : (bounds first rest).lower.component a =
    (rest.map (turned a)).foldl lesser (turned a first) + 0.0 := by
  rw [bounds, Vec3.component_add, Vec3.component_zero,
    component_foldl_extend Box.lower fun _ _ => rfl]
  rfl

theorem upper_bounds : (bounds first rest).upper.component a =
    (rest.map (turned a)).foldl greater (turned a first) + 0.0 := by
  rw [bounds, Vec3.component_add, Vec3.component_zero,
    component_foldl_extend Box.upper fun _ _ => rfl]
  rfl

end

section

variable {first : Vec3} {rest : List Vec3} (hfinite : ∀ p ∈ first :: rest, p.IsFinite)

include hfinite

theorem isFinite_turned (a : Axis) :
    ∀ x ∈ turned a first :: rest.map (turned a), x.isFinite = true := by
  intro x hx
  obtain ⟨p, hp, rfl⟩ := List.mem_map.1 (List.map_cons ▸ hx)
  exact (hasValue_rotate_identity (hfinite p hp) a).isFinite

theorem exists_hasValue_picked {pick : Float32 → Float32 → Float32}
    (hpick : ∀ x y, pick x y = x ∨ pick x y = y) (a : Axis) : ∃ p ∈ first :: rest,
      HasValue (value (p.component a))
        ((rest.map (turned a)).foldl pick (turned a first) + 0.0) := by
  have hmem := foldl_mem_of_pick hpick (turned a first) (rest.map (turned a))
  rw [← List.map_cons] at hmem
  obtain ⟨p, hp, heq⟩ := List.mem_map.1 hmem
  refine ⟨p, hp, ?_⟩
  rw [← heq]
  exact hasValue_add_zero (hasValue_rotate_identity (hfinite p hp) a) hasValue_zero

theorem key_picked_le {key : Float32 → ℚ} {pick : Float32 → Float32 → Float32}
    (hpick : PicksLeast key pick) (a : Axis) {p : Vec3} (hp : p ∈ first :: rest) :
    key ((rest.map (turned a)).foldl pick (turned a first)) ≤ key (turned a p) := by
  refine hpick.foldl_le (isFinite_turned hfinite a) _ ?_
  rw [← List.map_cons]
  exact List.mem_map_of_mem hp

theorem value_picked {pick : Float32 → Float32 → Float32}
    (hpick : ∀ x y, pick x y = x ∨ pick x y = y) (a : Axis) :
    value ((rest.map (turned a)).foldl pick (turned a first) + 0.0) =
      value ((rest.map (turned a)).foldl pick (turned a first)) :=
  have hmem := foldl_mem_of_pick hpick (turned a first) (rest.map (turned a))
  (hasValue_add_zero (.of_isFinite (isFinite_turned hfinite a _ hmem)) hasValue_zero).value_eq

theorem exists_hasValue_lower (a : Axis) : ∃ p ∈ first :: rest,
    HasValue (value (p.component a)) ((bounds first rest).lower.component a) := by
  rw [lower_bounds]
  exact exists_hasValue_picked hfinite picksLeast_lesser.pick_eq a

theorem exists_hasValue_upper (a : Axis) : ∃ p ∈ first :: rest,
    HasValue (value (p.component a)) ((bounds first rest).upper.component a) := by
  rw [upper_bounds]
  exact exists_hasValue_picked hfinite picksLeast_greater.pick_eq a

theorem value_lower_le (a : Axis) {p : Vec3} (hp : p ∈ first :: rest) :
    value ((bounds first rest).lower.component a) ≤ value (p.component a) := by
  rw [lower_bounds, value_picked hfinite picksLeast_lesser.pick_eq,
    ← (hasValue_rotate_identity (hfinite p hp) a).value_eq]
  exact key_picked_le hfinite picksLeast_lesser a hp

theorem value_le_upper (a : Axis) {p : Vec3} (hp : p ∈ first :: rest) :
    value (p.component a) ≤ value ((bounds first rest).upper.component a) := by
  rw [upper_bounds, value_picked hfinite picksLeast_greater.pick_eq,
    ← (hasValue_rotate_identity (hfinite p hp) a).value_eq]
  exact neg_le_neg_iff.1 (key_picked_le hfinite picksLeast_greater a hp)

theorem bounds_eq_of_same_points {first' : Vec3} {rest' : List Vec3}
    (hsame : ∀ p, p ∈ first :: rest ↔ p ∈ first' :: rest') :
    bounds first rest = bounds first' rest' := by
  have hleft := isFinite_turned hfinite
  have hright := isFinite_turned fun p hp => hfinite p ((hsame p).2 hp)
  have hturned (a : Axis) (x : Float32) : x ∈ turned a first :: rest.map (turned a) ↔
      x ∈ turned a first' :: rest'.map (turned a) := by
    rw [← List.map_cons, ← List.map_cons, List.mem_map, List.mem_map]
    simp only [hsame]
  -- The same value is picked from either list, and adding a zero makes that the same number.
  have hcorner {key : Float32 → ℚ} {pick : Float32 → Float32 → Float32}
      (hpick : PicksLeast key pick) (hkey : ∀ {x y}, key x = key y → value x = value y)
      (a : Axis) : (rest.map (turned a)).foldl pick (turned a first) + 0.0 =
        (rest'.map (turned a)).foldl pick (turned a first') + 0.0 := by
    have hl := hleft a _ (foldl_mem_of_pick hpick.pick_eq _ _)
    have hr := hright a _ (foldl_mem_of_pick hpick.pick_eq _ _)
    have heq := hkey (hpick.key_foldl_eq (hleft a) (hright a) (hturned a))
    exact add_zero_eq_of_hasValue ⟨hl, heq⟩ (.of_isFinite hr)
  have hlower : (bounds first rest).lower = (bounds first' rest').lower := by
    refine Vec3.eq_of_component_eq fun a => ?_
    rw [lower_bounds, lower_bounds]
    exact hcorner picksLeast_lesser id a
  have hupper : (bounds first rest).upper = (bounds first' rest').upper := by
    refine Vec3.eq_of_component_eq fun a => ?_
    rw [upper_bounds, upper_bounds]
    exact hcorner picksLeast_greater neg_inj.1 a
  exact congrArg₂ Box.mk hlower hupper

end

theorem Box.placementOf_eq_of_same_points (target : Box) {ps qs : List Vec3}
    (hsame : ∀ p, p ∈ ps ↔ p ∈ qs) (hfinite : ∀ p ∈ ps, p.IsFinite) :
    target.placementOf ps = target.placementOf qs := by
  cases ps with
  | nil =>
    cases qs with
    | nil => rfl
    | cons q qs => exact absurd ((hsame q).2 List.mem_cons_self) List.not_mem_nil
  | cons p ps =>
    cases qs with
    | nil => exact absurd ((hsame p).1 List.mem_cons_self) List.not_mem_nil
    | cons q qs =>
      exact congrArg target.placement (bounds_eq_of_same_points hfinite hsame)

/-- Two paths through the same points, in whatever order, however often and with
whatever gaps: each point goes to the same place in both. -/
theorem fit_of_same_points {path other : Path}
    (hsame : ∀ p, p ∈ path.points ↔ p ∈ other.points) (hfinite : path.IsFinite) {target : Box}
    (htarget : target.isValid) :
    ∃ move : Vec3 → Vec3, target.fit path = .ok (path.map (PathElement.map move)) ∧
      target.fit other = .ok (other.map (PathElement.map move)) := by
  refine ⟨_, Box.fit_of_valid htarget path, ?_⟩
  rw [target.placementOf_eq_of_same_points hsame hfinite]
  exact Box.fit_of_valid htarget other

/-- Two points, and the same two with one of them at both ends of a line. -/
theorem fit_of_same_points_repeated :
    ∃ move : Vec3 → Vec3,
      Box.standard.fit [.point ⟨1.0, 2.0, -3.0⟩, .gap, .point ⟨0.0, 5.0, -0.0⟩] =
        .ok [.point (move ⟨1.0, 2.0, -3.0⟩), .gap, .point (move ⟨0.0, 5.0, -0.0⟩)] ∧
      Box.standard.fit
          [.point ⟨0.0, 5.0, -0.0⟩, .point ⟨1.0, 2.0, -3.0⟩, .point ⟨0.0, 5.0, -0.0⟩] =
        .ok [.point (move ⟨0.0, 5.0, -0.0⟩), .point (move ⟨1.0, 2.0, -3.0⟩),
          .point (move ⟨0.0, 5.0, -0.0⟩)] := by
  refine fit_of_same_points (fun p => ?_) (by decide +kernel) (by decide)
  grind [Path.points_cons_point, Path.points_cons_gap, Path.points_nil]

end FractalCurve
