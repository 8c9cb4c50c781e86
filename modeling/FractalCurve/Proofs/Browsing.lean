import FractalCurve.Catalog.Selector
import FractalCurve.Catalog.Standard
import Mathlib.Order.Basic

/-!
# Browsing never loses a curve

The operations of a selector, one after the other in any order. None of them
adds or removes a curve, and none touches a curve that is not selected:
`length_perform` and `getElem?_perform` say so of one operation.

`browsing_invariant`: what holds in every state that a run of operations
reaches, and of the operation that comes next.
-/

namespace FractalCurve.Selector

/-- All that can be done to a selector. An edit changes the selected curve in
whatever way. -/
inductive Operation where
  | switch (direction : Int)
  | changeIterations (delta : Int)
  | changeAngle (delta : Float32)
  | setDebugMode (enabled : Bool)
  | increaseDebugStep
  | decreaseDebugStep
  | withBox (box : Box)
  | edit (change : Curve → Curve)

def perform (s : Selector) : Operation → Selector
  | .switch direction => s.switch direction
  | .changeIterations delta => s.changeIterations delta
  | .changeAngle delta => s.changeAngle delta
  | .setDebugMode enabled => s.setDebugMode enabled
  | .increaseDebugStep => s.increaseDebugStep
  | .decreaseDebugStep => s.decreaseDebugStep
  | .withBox box => s.withBox box
  | .edit change => s.modifyCurrent change

def run (s : Selector) (operations : List Operation) : Selector := operations.foldl perform s

-- ---------------------------------------------------------------------------
-- One operation
-- ---------------------------------------------------------------------------

/-- In the place of the selected curve stands this one, and nothing else has
changed. -/
structure Replaces (s after : Selector) (curve : Curve) : Prop where
  curves_eq : after.catalog.curves = s.catalog.curves.set s.index curve
  index_eq : after.index = s.index
  box_eq : after.box = s.box
  debugMode_eq : after.debugMode = s.debugMode
  debugStep_eq : after.debugStep = s.debugStep

/-- What an operation does to the curves, and to the rest of the selector where
it works on the selected curve. -/
def Operation.Outcome (s after : Selector) : Operation → Prop
  | .switch _ => after.catalog = s.catalog ∧ after.debugMode = false ∧ after.debugStep = 0
  | .changeIterations _ =>
    ∃ n ≤ s.current.maxIterations, s.Replaces after { s.current with iterations := n }
  | .changeAngle _ =>
    ∃ angle, s.Replaces after { s.current with grammar := { s.current.grammar with angle } }
  | .edit change => s.Replaces after (change s.current)
  | .setDebugMode _ | .increaseDebugStep | .decreaseDebugStep | .withBox _ =>
    after.catalog = s.catalog

theorem getElem?_index (s : Selector) : s.catalog.curves[s.index]? = some s.current :=
  List.getElem?_eq_getElem s.index_lt

theorem replaces_modifyCurrent (s : Selector) (change : Curve → Curve) :
    s.Replaces (s.modifyCurrent change) (change s.current) := by
  refine ⟨List.ext_getElem? fun k => ?_, rfl, rfl, rfl, rfl⟩
  simp only [modifyCurrent, List.getElem?_modify, List.getElem?_set, s.index_lt, if_true]
  split
  next h => rw [← h, getElem?_index]; rfl
  next => exact Option.map_id' ..

theorem catalog_increaseDebugStep (s : Selector) : s.increaseDebugStep.catalog = s.catalog := by
  unfold increaseDebugStep
  split <;> rfl

theorem catalog_decreaseDebugStep (s : Selector) : s.decreaseDebugStep.catalog = s.catalog := by
  unfold decreaseDebugStep
  split <;> rfl

theorem outcome_perform (s : Selector) (op : Operation) : op.Outcome s (s.perform op) := by
  cases op with
  | switch direction => exact ⟨rfl, rfl, rfl⟩
  | changeIterations delta =>
    refine ⟨_, ?_, s.replaces_modifyCurrent _⟩
    have hcap : s.current.maxIterations.toNat < 2 ^ 32 := s.current.maxIterations.toNat_lt
    rw [UInt32.le_iff_toNat_le, Nat.toUInt32_eq, UInt32.toNat_ofNat']
    omega
  | changeAngle delta => exact ⟨_, s.replaces_modifyCurrent _⟩
  | edit change => exact s.replaces_modifyCurrent change
  | increaseDebugStep => exact s.catalog_increaseDebugStep
  | decreaseDebugStep => exact s.catalog_decreaseDebugStep
  | _ => rfl

/-- Either all curves are the same, or only the selected one may not be. -/
theorem perform_cases (s : Selector) (op : Operation) :
    (s.perform op).catalog = s.catalog ∨ ∃ curve, s.Replaces (s.perform op) curve := by
  have h := s.outcome_perform op
  cases op with
  | switch direction => exact .inl h.1
  | changeIterations delta =>
    obtain ⟨n, -, h⟩ := h
    exact .inr ⟨_, h⟩
  | changeAngle delta =>
    obtain ⟨angle, h⟩ := h
    exact .inr ⟨_, h⟩
  | edit change => exact .inr ⟨_, h⟩
  | _ => exact .inl h

theorem length_perform (s : Selector) (op : Operation) :
    (s.perform op).catalog.curves.length = s.catalog.curves.length := by
  rcases s.perform_cases op with h | ⟨curve, h⟩
  · rw [h]
  · rw [h.curves_eq, List.length_set]

theorem getElem?_perform (s : Selector) (op : Operation) {k : Nat} (hk : k ≠ s.index) :
    (s.perform op).catalog.curves[k]? = s.catalog.curves[k]? := by
  rcases s.perform_cases op with h | ⟨curve, h⟩
  · rw [h]
  · rw [h.curves_eq, List.getElem?_set_ne (Ne.symm hk)]

-- ---------------------------------------------------------------------------
-- Runs of operations
-- ---------------------------------------------------------------------------

theorem length_run (s : Selector) (operations : List Operation) :
    (s.run operations).catalog.curves.length = s.catalog.curves.length := by
  induction operations generalizing s with
  | nil => rfl
  | cons op operations ih => exact (ih (s.perform op)).trans (s.length_perform op)

/-- However a catalog is browsed, it keeps its number of curves and one of them
is selected. The next operation leaves all others as they are. -/
theorem browsing_invariant {catalog : Catalog} (h : catalog.curves ≠ []) :
    ∃ start, ofCatalog? catalog = some start ∧ ∀ operations : List Operation,
      let s := start.run operations
      s.catalog.curves.length = catalog.curves.length ∧
        s.index < catalog.curves.length ∧
        s.catalog.curves[s.index]? = some s.current ∧
        ∀ op : Operation,
          (∀ k ≠ s.index, (s.perform op).catalog.curves[k]? = s.catalog.curves[k]?) ∧
          op.Outcome s (s.perform op) := by
  have hpos : 0 < catalog.curves.length := List.length_pos_iff.2 h
  obtain ⟨start, hstart, rfl⟩ : ∃ start, ofCatalog? catalog = some start ∧
      start.catalog = catalog := ⟨_, dif_pos hpos, rfl⟩
  refine ⟨start, hstart, fun operations => ?_⟩
  have hlength := start.length_run operations
  refine ⟨hlength, hlength ▸ index_lt _, getElem?_index _, fun op => ⟨fun k hk => ?_, ?_⟩⟩
  · exact getElem?_perform _ op hk
  · exact outcome_perform _ op

/-- Far past the ends of the catalog, with a count above the cap. -/
theorem browsing_standard_above_cap :
    Catalog.standard.curves ≠ [] ∧ ∃ start, ofCatalog? Catalog.standard = some start ∧
      let s := start.run [.switch (-2147483648), .setDebugMode true, .switch 2147483647,
        .switch (-1), .increaseDebugStep, .edit fun c => { c with iterations := 4294967295 }]
      s.catalog.curves.length = 11 ∧ s.index < 11 ∧
        s.catalog.curves[s.index]? = some s.current ∧
        (∀ k ≠ s.index,
          (s.changeIterations 2147483647).catalog.curves[k]? = s.catalog.curves[k]?) ∧
        ∃ n ≤ s.current.maxIterations,
          s.Replaces (s.changeIterations 2147483647) { s.current with iterations := n } := by
  have hcurves : Catalog.standard.curves ≠ [] := List.cons_ne_nil _ _
  obtain ⟨start, hstart, hrun⟩ := browsing_invariant hcurves
  obtain ⟨hlength, hindex, hcurrent, hnext⟩ := hrun [.switch (-2147483648), .setDebugMode true,
    .switch 2147483647, .switch (-1), .increaseDebugStep,
    .edit fun c => { c with iterations := 4294967295 }]
  obtain ⟨hothers, hcount⟩ := hnext (.changeIterations 2147483647)
  exact ⟨hcurves, start, hstart, hlength, hindex, hcurrent, hothers, hcount⟩

end FractalCurve.Selector
