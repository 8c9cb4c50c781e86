import FractalCurve.Derivation.Basic
import FractalCurve.Derivation.Interpreter
import FractalCurve.Proofs.Axes
import FractalCurve.Proofs.Narrowing
import FractalCurve.Proofs.Nesting

/-!
# Distances

The distance of a draw is checked where it is the default. Where a module brings
its own, it is narrowed to single precision and taken as it is, and past the
largest float this gives an infinity.

`distances_isFinite_iff`: all distances that a derivation moves the turtle by are
finite if and only if the parameters that give them are in range. A path tells
which of them are not: the points there have no finite coordinate.
-/

namespace FractalCurve

open Number
open Json (bind_eq_ok)

theorem Turtle.position_advance_not_isFinite {distance : Float32}
    (h : distance.isFinite = false) (t : Turtle) (a : Axis) :
    ((t.advance distance).position.component a).isFinite = false := by
  have hcomponent : (t.advance distance).position.component a =
      t.position.component a + t.forward.component a * distance := by
    rw [advance, Vec3.component_add, Vec3.component_scale]
  rw [hcomponent]
  by_contra hfinite
  obtain ⟨-, hproduct⟩ := isFinite_of_add (Bool.not_eq_false _ ▸ hfinite)
  rw [(isFinite_of_mul hproduct).2] at h
  cases h

/-- The turtle goes on by a distance and draws. -/
def Trace.advance (t : Trace) (distance : Float32) : Trace :=
  let moved := t.turtle.advance distance
  { t with turtle := moved, elements := .point moved.position :: t.elements }

namespace DerivationInterpreter

variable (i : DerivationInterpreter) (angle stepLength : Float32)

/-- The distance that a module moves the turtle by, if it draws. -/
def distance? (m : Module) : Option Float32 :=
  if (i.command m.symbol).isDraw then some ((m.parameters.head?.map narrow).getD stepLength)
  else none

/-- Draws modules from the start point on, up to the first that is refused. -/
def run (modules : List Module) : Except CurveError Trace :=
  modules.zipIdx.foldlM (i.step angle stepLength) Trace.start

/-- The run through these modules comes to the module `m`, with this trace behind
it. -/
def Reaches (modules : List Module) (t : Trace) (m : Module) : Prop :=
  ∃ before behind, modules = before ++ m :: behind ∧ i.run angle stepLength before = .ok t

variable {i angle stepLength} {t t' : Trace} {m : Module} {distance : Float32}

-- ---------------------------------------------------------------------------
-- Steps and runs
-- ---------------------------------------------------------------------------

theorem step_of_distance (h : distance ∈ i.distance? stepLength m) (t : Trace) (index : Nat) :
    i.step angle stepLength t (m, index) = .ok (t.advance distance) := by
  unfold distance? at h
  cases hc : i.command m.symbol with
  | draw =>
    rw [hc] at h
    cases h
    simp only [step, hc]
    rfl
  | _ =>
    rw [hc] at h
    cases h

theorem elements_suffix_of_step {entry : Module × Nat}
    (h : i.step angle stepLength t entry = .ok t') : t.elements <:+ t'.elements := by
  unfold step at h
  cases hc : i.command entry.1.symbol with
  | draw =>
    rw [hc] at h
    cases h
    exact List.suffix_cons _ _
  | push =>
    simp only [hc] at h
    split at h
    · split at h
      · cases h
      · cases h
        exact List.suffix_refl _
    · cases h
      exact List.suffix_refl _
  | pop =>
    simp only [hc] at h
    split at h
    · cases h
    · cases h
      exact List.suffix_cons _ _
  | _ =>
    rw [hc] at h
    cases h
    exact List.suffix_refl _

theorem elements_suffix_of_run {entries : List (Module × Nat)}
    (h : entries.foldlM (i.step angle stepLength) t = .ok t') : t.elements <:+ t'.elements := by
  induction entries generalizing t with
  | nil =>
    cases h
    exact List.suffix_refl _
  | cons entry entries ih =>
    rw [List.foldlM_cons] at h
    obtain ⟨next, hstep, hrest⟩ := bind_eq_ok.1 h
    exact (elements_suffix_of_step hstep).trans (ih hrest)

/-- What has been drawn stays in the path. -/
theorem point_mem_of_reaches {modules : List Module} {closed : Bool} {path : Path}
    (h : i.interpret modules angle stepLength closed = .ok path)
    (hreaches : i.Reaches angle stepLength modules t m)
    (hdistance : distance ∈ i.distance? stepLength m) :
    .point (t.turtle.advance distance).position ∈ path := by
  obtain ⟨before, behind, rfl, hrun⟩ := hreaches
  obtain ⟨-, hdrawn⟩ := check_bind_ok.1 h
  obtain ⟨final, hfinal, hpath⟩ := bind_eq_ok.1 hdrawn
  -- the run is the one that comes to the module, the draw, and what follows
  rw [List.zipIdx_append, List.zipIdx_cons, List.foldlM_append] at hfinal
  obtain ⟨reached, hreached, hrest⟩ := bind_eq_ok.1 hfinal
  obtain rfl : reached = t := Except.ok.inj (hreached.symm.trans hrun)
  rw [List.foldlM_cons, step_of_distance hdistance] at hrest
  have hkept : (reached.advance distance).elements <:+ final.elements :=
    elements_suffix_of_run hrest
  cases hpath
  exact List.mem_append_left _ (List.mem_reverse.2 (hkept.subset List.mem_cons_self))

-- ---------------------------------------------------------------------------
-- Finite distances
-- ---------------------------------------------------------------------------

theorem distance_isFinite_iff (hm : m.isFinite) (hstep : stepLength.isFinite = true) :
    (∀ distance ∈ i.distance? stepLength m, distance.isFinite = true) ↔
      ((i.command m.symbol).isDraw →
        ∀ x ∈ m.parameters.head?, |doubleValue x| < 2 ^ 128 - 2 ^ 103) := by
  unfold distance?
  by_cases hdraw : (i.command m.symbol).isDraw
  · rw [if_pos hdraw]
    cases hhead : m.parameters.head? with
    | none => simp [hstep]
    | some x =>
      have hx : x.isFinite = true :=
        List.all_eq_true.1 hm x (List.mem_of_head? hhead)
      simp [hdraw, isFinite_narrow_iff hx]
  · simp [hdraw]

/-- In place of the default any length is taken, and only those below the middle
between the largest float and the next power of two are finite. The others are
not refused either: the path has the points that they lead to. -/
theorem distances_isFinite_iff (i : DerivationInterpreter) (d : Derivation)
    {angle stepLength : Float32} (hstep : checkStepLength stepLength = .ok ()) (closed : Bool) :
    ((∀ t m, i.Reaches angle stepLength d.modules t m →
        ∀ distance ∈ i.distance? stepLength m, distance.isFinite = true) ↔
      ∀ t m, i.Reaches angle stepLength d.modules t m → (i.command m.symbol).isDraw →
        ∀ x ∈ m.parameters.head?, |doubleValue x| < 2 ^ 128 - 2 ^ 103) ∧
    ∀ path, i.interpret d.modules angle stepLength closed = .ok path →
      ∀ t m, i.Reaches angle stepLength d.modules t m →
        ∀ distance ∈ i.distance? stepLength m,
          .point (t.turtle.advance distance).position ∈ path ∧
            (distance.isFinite = false →
              ∀ a, ((t.turtle.advance distance).position.component a).isFinite = false) := by
  have hfinite : stepLength.isFinite = true := by
    rw [checkStepLength] at hstep
    split at hstep
    next h => exact h.1
    next => cases hstep
  constructor
  · refine forall₃_congr fun t m hreaches => distance_isFinite_iff (d.finite m ?_) hfinite
    obtain ⟨before, behind, hmodules, -⟩ := hreaches
    simp [hmodules]
  · intro path hpath t m hreaches distance hdistance
    exact ⟨point_mem_of_reaches hpath hreaches hdistance,
      fun h => t.turtle.position_advance_not_isFinite h⟩

/-- A length past the largest float that is rounded down to it, one below zero, and
parameters that give no length. -/
theorem distances_isFinite_below_overflow :
    let i : DerivationInterpreter := ⟨#[.draw, .push, .pop], some 1⟩
    let d : Derivation :=
      ⟨[⟨0, [3.4028235e38]⟩, ⟨1, [1e300]⟩, ⟨0, [-1e38, 1e39]⟩, ⟨2, []⟩, ⟨0, []⟩],
        by decide +kernel⟩
    checkStepLength 1.0 = .ok () ∧
      ∀ t m, i.Reaches 0.5 1.0 d.modules t m →
        ∀ distance ∈ i.distance? 1.0 m, distance.isFinite = true := by
  intro i d
  have hsmall : ∀ m ∈ d.modules, (i.command m.symbol).isDraw →
      ∀ x ∈ m.parameters.head?, |doubleValue x| < 2 ^ 128 - 2 ^ 103 := by
    decide +kernel
  refine ⟨by decide, (distances_isFinite_iff i d (by decide) true).1.2 ?_⟩
  rintro t m ⟨before, behind, hmodules, -⟩
  exact hsmall m (by rw [hmodules]; simp)

/-- A length of `10 ^ 39` is infinite, and the path says so only in its points. -/
theorem distance_not_isFinite_past_overflow :
    let i : DerivationInterpreter := ⟨#[.draw], none⟩
    let d : Derivation := ⟨[⟨0, [1e39]⟩], by decide +kernel⟩
    i.Reaches 0.5 1.0 d.modules Trace.start ⟨0, [1e39]⟩ ∧
      i.distance? 1.0 ⟨0, [1e39]⟩ = some infinity32 ∧ infinity32.isFinite = false ∧
      ∃ p, i.interpret d.modules 0.5 1.0 false = .ok [.point Vec3.zero, .point p] ∧
        ∀ a, (p.component a).isFinite = false := by
  intro i d
  have hdistance : i.distance? 1.0 ⟨0, [1e39]⟩ = some infinity32 := by decide +kernel
  have hinfinity : infinity32.isFinite = false := by decide
  have hrun : i.run 0.5 1.0 d.modules = .ok (Trace.start.advance infinity32) := by
    show [((⟨0, [1e39]⟩ : Module), 0)].foldlM (i.step 0.5 1.0) Trace.start = _
    rw [List.foldlM_cons, step_of_distance hdistance]
    rfl
  have hlength : checkStepLength 1.0 = .ok () := by decide
  refine ⟨⟨[], [], rfl, rfl⟩, hdistance, hinfinity, _, ?_,
    Turtle.start.position_advance_not_isFinite hinfinity⟩
  rw [interpret, ← run, hlength, hrun]
  rfl

end DerivationInterpreter

end FractalCurve
