import FractalCurve.Proofs.Browsing
import Mathlib.Data.List.Infix

/-!
# Watching a curve being drawn

Debug mode cuts off what is shown, after the whole curve has been generated and
fitted. So the elements that are shown never move while more of them appear.

`generate_debug`: what debug mode shows of a curve, and how that changes as the
number of elements is stepped up and down.
-/

namespace FractalCurve.Selector

-- ---------------------------------------------------------------------------
-- Steps
-- ---------------------------------------------------------------------------

/-- One element more, or one fewer. -/
inductive DebugStep where
  | more
  | less

def DebugStep.operation : DebugStep → Operation
  | .more => .increaseDebugStep
  | .less => .decreaseDebugStep

/-- The number of elements after a step in debug mode; fewer than none are not
shown. -/
def DebugStep.apply (n : Nat) : DebugStep → Nat
  | .more => n + 1
  | .less => n - 1

def stepped (s : Selector) (steps : List DebugStep) : Selector :=
  s.run (steps.map DebugStep.operation)

theorem stepped_cons (s : Selector) (step : DebugStep) (steps : List DebugStep) :
    s.stepped (step :: steps) = (s.perform step.operation).stepped steps := rfl

theorem perform_step (s : Selector) (step : DebugStep) :
    s.perform step.operation =
      { s with debugStep := if s.debugMode then step.apply s.debugStep else s.debugStep } := by
  obtain ⟨catalog, index, hindex, box, mode, n⟩ := s
  cases mode <;> cases step <;> rfl

/-- Steps do nothing outside of debug mode, and in debug mode nothing else. -/
theorem stepped_eq (s : Selector) (steps : List DebugStep) :
    s.stepped steps =
      { s with
        debugStep := if s.debugMode then steps.foldl DebugStep.apply s.debugStep
          else s.debugStep } := by
  induction steps generalizing s with
  | nil => simp [stepped, run]
  | cons step steps ih =>
    rw [stepped_cons, ih, perform_step]
    cases s.debugMode <;> rfl

-- ---------------------------------------------------------------------------
-- Elements
-- ---------------------------------------------------------------------------

theorem generate_eq_map (s : Selector) :
    s.generate = (s.setDebugMode false).generate.map fun path =>
      if s.debugMode then path.take s.debugStep else path := by
  unfold generate
  show (s.current.generate >>= fun path => s.box.fit path >>= _) =
    (s.current.generate >>= fun path => s.box.fit path >>= pure).map _
  cases s.current.generate with
  | error e => rfl
  | ok path =>
    show (s.box.fit path >>= _) = (s.box.fit path >>= pure).map _
    cases s.box.fit path <;> rfl

theorem generate_eq_error_iff {s : Selector} {e : CurveError} :
    s.generate = .error e ↔ (s.setDebugMode false).generate = .error e := by
  rw [generate_eq_map]
  cases (s.setDebugMode false).generate <;> simp [Except.map]

theorem generate_of_ok {s : Selector} {path : Path}
    (h : (s.setDebugMode false).generate = .ok path) :
    s.generate = .ok (if s.debugMode then path.take s.debugStep else path) := by
  rw [generate_eq_map, h]
  rfl

theorem exists_whole_of_ok {s : Selector} {path : Path} (h : s.generate = .ok path) :
    ∃ whole, (s.setDebugMode false).generate = .ok whole ∧
      path = if s.debugMode then whole.take s.debugStep else whole := by
  cases hwhole : (s.setDebugMode false).generate with
  | error e => cases h.symm.trans (generate_eq_error_iff.2 hwhole)
  | ok whole => exact ⟨whole, rfl, Except.ok.inj (h.symm.trans (generate_of_ok hwhole))⟩

/-- What was shown before a step more is shown after it, with at most one element
behind it. -/
theorem generate_increaseDebugStep {s : Selector} {path : Path} (h : s.generate = .ok path) :
    ∃ more, s.increaseDebugStep.generate = .ok more ∧ path <+: more ∧
      more.length ≤ path.length + 1 := by
  obtain ⟨whole, hwhole, rfl⟩ := exists_whole_of_ok h
  have hstep : s.increaseDebugStep = _ := s.perform_step .more
  have hmore : s.increaseDebugStep.generate = .ok _ :=
    generate_of_ok (by rw [hstep]; exact hwhole)
  refine ⟨_, hmore, ?_⟩
  rw [hstep]
  cases s.debugMode with
  | false => exact ⟨List.prefix_rfl, Nat.le_succ _⟩
  | true =>
    refine ⟨List.take_prefix_take_left (Nat.le_succ _), ?_⟩
    simp only [DebugStep.apply, if_true, List.length_take]
    omega

/-- Debug mode shows as many elements of the whole curve as it has been stepped up
to, or all of them if they are fewer, and whatever is refused is refused as
before. For a counter of 64 bits this holds while `debugStep` is below `2 ^ 64`. -/
theorem generate_debug (s : Selector) :
    let whole := (s.setDebugMode false).generate
    (s.debugMode = true →
      (∀ e, whole = .error e → s.generate = .error e) ∧
      ∀ path, whole = .ok path → s.generate = .ok (path.take (min s.debugStep path.length))) ∧
    ∀ steps : List DebugStep,
      let after := s.stepped steps
      (s.debugMode = false → after = s) ∧
      (s.debugMode = true →
        after = { s with debugStep := steps.foldl DebugStep.apply s.debugStep }) ∧
      (∀ e, after.generate = .error e → after.increaseDebugStep.generate = .error e) ∧
      ∀ path, after.generate = .ok path →
        ∃ more, after.increaseDebugStep.generate = .ok more ∧ path <+: more ∧
          more.length ≤ path.length + 1 := by
  intro whole
  refine ⟨fun hmode => ⟨fun e => generate_eq_error_iff.2, fun path hwhole => ?_⟩,
    fun steps => ⟨fun hmode => ?_, fun hmode => ?_, fun e he => ?_, fun path => ?_⟩⟩
  · rw [generate_of_ok hwhole, if_pos hmode, ← List.take_take, List.take_length]
  · rw [stepped_eq, if_neg (Bool.eq_false_iff.1 hmode)]
  · rw [stepped_eq, if_pos hmode]
  · have hstep : (s.stepped steps).increaseDebugStep = _ := (s.stepped steps).perform_step .more
    rw [generate_eq_error_iff, hstep]
    exact (generate_eq_error_iff (s := s.stepped steps)).1 he
  · exact generate_increaseDebugStep

/-- Stepped down past nothing and up again. -/
theorem generate_debug_of_line :
    let line := Curve.ofGrammar
      ⟨"FF".toList, SymbolMap.empty, 0.0, 10.0, false, "F".toList⟩ "line"
    let s : Selector := ⟨⟨[line]⟩, 0, Nat.one_pos, Box.standard, true, 2⟩
    let path : Path :=
      [.point ⟨0.0, -100.0, 0.0⟩, .point ⟨0.0, 0.0, 0.0⟩, .point ⟨0.0, 100.0, 0.0⟩]
    s.debugMode = true ∧ (s.setDebugMode false).generate = .ok path ∧
      s.generate = .ok (path.take (min 2 path.length)) ∧
      s.stepped [.less, .less, .less, .more] = { s with debugStep := 1 } ∧
      ∃ more, s.increaseDebugStep.generate = .ok more ∧ path.take 2 <+: more ∧
        more.length ≤ 3 := by
  intro line s path
  have hwhole : (s.setDebugMode false).generate = .ok path := by
    decide +kernel
  obtain ⟨hshown, hsteps⟩ := generate_debug s
  have hpart := (hshown rfl).2 path hwhole
  obtain ⟨-, hstepped, -, -⟩ := hsteps [.less, .less, .less, .more]
  obtain ⟨-, -, -, hmore⟩ := hsteps []
  exact ⟨rfl, hwhole, hpart, hstepped rfl, hmore _ hpart⟩

end FractalCurve.Selector
