import FractalCurve.Proofs.BracketedGrammar
import FractalCurve.Proofs.Rewriting
import Mathlib.Algebra.BigOperators.Finprod

/-!
# How many symbols and elements

Rewriting is counted symbol by symbol: every occurrence of a symbol gives way
to all those of its production, whatever stands around it.

`generated_size`: the counts of a grammar's word, and with them the numbers of
points and gaps in what it generates.
-/

namespace FractalCurve

-- ---------------------------------------------------------------------------
-- Words
-- ---------------------------------------------------------------------------

theorem countP_mem_eq_sum (symbols word : Word) :
    (word.countP fun c => c ∈ symbols) = ∑ c ∈ symbols.toFinset, word.count c := by
  induction word with
  | nil => simp
  | cons d rest ih =>
    simp only [List.countP_cons, List.count_cons, ih, Finset.sum_add_distrib, beq_iff_eq,
      Finset.sum_ite_eq, List.mem_toFinset, decide_eq_true_eq]

namespace Rules

variable (rules : Rules)

theorem count_pass (word : Word) (s : Char) :
    (rules.pass word).count s = ∑ᶠ c, word.count c * ((rules.find? c).getD [c]).count s := by
  have hsupport : (Function.support fun c => word.count c *
      ((rules.find? c).getD [c]).count s) ⊆ word.toFinset := by
    intro c hc
    have hcount : word.count c ≠ 0 := left_ne_zero_of_mul hc
    exact List.mem_toFinset.2 (List.count_pos_iff.1 (Nat.pos_of_ne_zero hcount))
  rw [pass, List.count_flatMap, Finset.sum_list_map_count,
    finsum_eq_sum_of_support_subset _ hsupport]
  rfl

end Rules

/-- How often a symbol occurs after a number of passes, counted on the table of
rules without rewriting a word. A symbol that is not in the table counts once for
itself. -/
noncomputable def Grammar.population (g : Grammar) : Nat → Char → Nat
  | 0, s => g.start.count s
  | n + 1, s => ∑ᶠ c, g.population n c * ((g.rules.find? c).getD [c]).count s

theorem Grammar.count_expand (g : Grammar) (n : Nat) (s : Char) :
    (g.expand n).count s = g.population n s := by
  induction n generalizing s with
  | zero => rfl
  | succ n ih =>
    rw [expand, Rules.expand_succ_eq_pass, Rules.count_pass, population]
    exact finsum_congr fun c => by rw [← ih c, expand]

-- ---------------------------------------------------------------------------
-- Elements
-- ---------------------------------------------------------------------------

theorem Path.length_points (path : Path) :
    path.points.length = path.countP fun e => !e.isGap := by
  induction path with
  | nil => rfl
  | cons e path ih => cases e <;> simp [ih, PathElement.isGap]

namespace Turtles

variable {angle stepLength : Float32}

theorem length_points_trail (t : Turtles) (c : Course) :
    (t.trail angle stepLength c).points.length = c.countP Command.isDraw := by
  rw [Path.length_points, countP_trail (!·)]
  refine List.countP_congr fun command _ => ?_
  cases command <;> simp [Command.isDraw, Command.isPop]

theorem countP_isGap_trail (t : Turtles) (c : Course) :
    (t.trail angle stepLength c).countP PathElement.isGap = c.countP Command.isPop := by
  refine (countP_trail id t c).trans (List.countP_congr fun command _ => ?_)
  cases command <;> simp [Command.isDraw, Command.isPop]

end Turtles

namespace Course

variable (c : Course) (angle stepLength : Float32) (closed : Bool)

theorem length_points_path :
    (c.path angle stepLength closed).points.length =
      1 + c.countP Command.isDraw + if closed then 1 else 0 := by
  rw [path, List.cons_append, Path.points_cons_point, Path.points_append, List.length_cons,
    List.length_append, Turtles.length_points_trail]
  cases closed <;> simp [closing] <;> omega

theorem countP_isGap_path :
    (c.path angle stepLength closed).countP PathElement.isGap = c.countP Command.isPop := by
  rw [path, List.countP_append, List.countP_cons, Turtles.countP_isGap_trail]
  cases closed <;> simp [closing, PathElement.isGap]

end Course

namespace Grammar

variable {g : Grammar}

theorem isDraw_command (c : Char) :
    (g.interpreter.command c).isDraw = decide (c ∈ g.drawSymbols) := by
  rw [interpreter, Interpreter.command_setDrawSymbols]
  split
  next h => simp [h, Command.isDraw]
  next h =>
    rw [decide_eq_false h]
    split
    next => rfl
    next hne => cases hc : Interpreter.standard.command c <;> simp_all [Command.isDraw]

theorem isPop_command (c : Char) :
    (g.interpreter.command c).isPop = (decide (c ∉ g.drawSymbols) && c == ']') := by
  rw [← Interpreter.standard_readsBrackets.closes, interpreter, Interpreter.command_setDrawSymbols]
  split
  next h => simp [h, Command.isPop]
  next h =>
    rw [decide_eq_true h, Bool.true_and]
    split
    next hdraw => rw [hdraw]; rfl
    next => rfl

theorem countP_isDraw_course (word : Word) :
    (g.interpreter.course word).countP Command.isDraw =
      ∑ c ∈ g.drawSymbols.toFinset, word.count c := by
  rw [← countP_mem_eq_sum, Interpreter.course, List.countP_map]
  exact List.countP_congr fun c _ => by rw [Function.comp_apply, isDraw_command]

theorem countP_isPop_course (word : Word) :
    (g.interpreter.course word).countP Command.isPop =
      if ']' ∈ g.drawSymbols then 0 else word.count ']' := by
  rw [Interpreter.course, List.countP_map]
  split
  next h =>
    refine List.countP_eq_zero.2 fun c _ => ?_
    rw [Function.comp_apply, isPop_command]
    intro hpop
    obtain ⟨hdraw, hc⟩ := Bool.and_eq_true_iff.1 hpop
    exact of_decide_eq_true hdraw (beq_iff_eq.1 hc ▸ h)
  next h =>
    refine List.countP_congr fun c _ => ?_
    rw [Function.comp_apply, isPop_command]
    constructor
    · intro hpop
      exact (Bool.and_eq_true_iff.1 hpop).2
    · intro heq
      rw [beq_iff_eq.1 heq]
      simp [h]

theorem path_of_generate {n : Nat} {path : Path} (h : g.generate n = .ok path) :
    path = (g.interpreter.course (g.expand n)).path g.angle g.stepLength g.closed := by
  rw [generate] at h
  cases hwalk : g.interpreter.interpret (g.expand n) g.angle g.stepLength g.closed with
  | error e => rw [hwalk] at h; contradiction
  | ok w =>
    rw [hwalk] at h
    obtain ⟨-, -, rfl⟩ := Interpreter.interpret_eq_ok_iff.1 hwalk
    rw [← Walk.elements_start]
    exact (Except.ok.inj h).symm

end Grammar

/-- The word after any number of passes has as many of each symbol as the
productions make of it. What is generated starts at the origin and has one more
point for each symbol that draws and for closing the curve, and a gap for each
closing bracket that does not draw. -/
theorem generated_size (g : Grammar) (n : Nat) :
    (∀ s, (g.expand n).count s = g.population n s) ∧
      ∀ path, g.generate n = .ok path →
        path.head? = some (.point Vec3.zero) ∧
          path.points.length =
            1 + ∑ c ∈ g.drawSymbols.toFinset, g.population n c + (if g.closed then 1 else 0) ∧
          path.countP PathElement.isGap =
            if ']' ∈ g.drawSymbols then 0 else g.population n ']' := by
  refine ⟨g.count_expand n, fun path hpath => ?_⟩
  obtain rfl := Grammar.path_of_generate hpath
  simp only [← g.count_expand n, ← Grammar.countP_isDraw_course, ← Grammar.countP_isPop_course]
  exact ⟨rfl, Course.length_points_path _ _ _ _, Course.countP_isGap_path _ _ _ _⟩

/-- Three passes give the plant 84 edges and 63 branches. -/
theorem plant_generated_size :
    "FX+-[]".toList.map (Catalog.plant.grammar.population 3) = [84, 64, 21, 42, 63, 63] ∧
      ∃ path, Catalog.plant.grammar.generate 3 = .ok path ∧
        path.head? = some (.point Vec3.zero) ∧ path.points.length = 85 ∧
          path.countP PathElement.isGap = 63 := by
  obtain ⟨hcount, hsize⟩ := generated_size Catalog.plant.grammar 3
  obtain ⟨path, hpath⟩ := Grammar.Bracketed.generate (g := Catalog.plant.grammar) (by decide)
    (by decide) 3
  obtain ⟨hfirst, hpoints, hgaps⟩ := hsize path hpath
  have hpopulation : Catalog.plant.grammar.population 3 =
      fun s => (Catalog.plant.grammar.expand 3).count s := funext fun s => (hcount s).symm
  rw [hpopulation] at hpoints hgaps ⊢
  refine ⟨by decide +kernel, path, hpath, hfirst, hpoints.trans ?_, hgaps.trans ?_⟩
  · decide +kernel
  · decide +kernel

end FractalCurve
