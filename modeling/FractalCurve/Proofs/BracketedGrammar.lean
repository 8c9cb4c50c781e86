import FractalCurve.Catalog.Standard
import FractalCurve.Proofs.Trail

/-!
# Grammars with balanced brackets

A pass puts productions in the place of symbols all over a word. Where every
production is balanced in `[` and `]`, and the two have no rule themselves, the
word stays balanced, and its nesting grows by at most that of the deepest
production.

`bracketed_grammars_generate`: the words of such a grammar pass the check of
branches however often they are rewritten, and the standard catalog consists of
such grammars.
-/

namespace FractalCurve

/-- The two characters that are branches to the standard interpreter. -/
def squareBrackets : Brackets Char := ⟨(· == '['), (· == ']')⟩

theorem squareBrackets_depth_other {c : Char} (hopen : c ≠ '[') (hclose : c ≠ ']') :
    squareBrackets.depth [c] = 0 := by
  simp [Brackets.depth, squareBrackets, hopen, hclose]

-- ---------------------------------------------------------------------------
-- Rewriting
-- ---------------------------------------------------------------------------

namespace Rules

/-- The deepest nesting in a production. -/
def height (rules : Rules) : Nat :=
  (rules.entries.map fun e => squareBrackets.height e.2).foldr max 0

/-- No rule for a bracket, and no production that is not balanced. -/
structure Bracketed (rules : Rules) : Prop where
  opening : rules.find? '[' = none
  closing : rules.find? ']' = none
  balanced : ∀ e ∈ rules.entries, squareBrackets.Balanced e.2

instance (rules : Rules) : Decidable rules.Bracketed :=
  decidable_of_iff (rules.find? '[' = none ∧ rules.find? ']' = none ∧
      ∀ e ∈ rules.entries, squareBrackets.Balanced e.2)
    ⟨fun h => ⟨h.1, h.2.1, h.2.2⟩, fun h => ⟨h.opening, h.closing, h.balanced⟩⟩

theorem height_le_of_mem {rules : Rules} {e : Char × Word} (h : e ∈ rules.entries) :
    squareBrackets.height e.2 ≤ rules.height := foldr_max_le_iff.1 (Nat.le_refl rules.height) e h

theorem production_cases {rules : Rules} (h : rules.Bracketed) (c : Char) :
    rules.production c = [c] ∨
      squareBrackets.depth [c] = 0 ∧ squareBrackets.Balanced (rules.production c) ∧
        squareBrackets.height (rules.production c) ≤ rules.height := by
  cases hc : rules.find? c with
  | none => exact .inl (by simp [production, hc])
  | some p =>
    have hp : rules.production c = p := by simp [production, hc]
    have hm : (c, p) ∈ rules.entries := (rules.find?_eq_some_iff c p).1 hc
    have hopen : c ≠ '[' := by
      rintro rfl
      exact absurd hc (by rw [h.opening]; simp)
    have hclose : c ≠ ']' := by
      rintro rfl
      exact absurd hc (by rw [h.closing]; simp)
    rw [hp]
    exact .inr ⟨squareBrackets_depth_other hopen hclose, h.balanced _ hm, height_le_of_mem hm⟩

theorem depth_production {rules : Rules} (h : rules.Bracketed) (c : Char) :
    squareBrackets.depth (rules.production c) = squareBrackets.depth [c] := by
  rcases production_cases h c with hkept | ⟨hzero, hbalanced, -⟩
  · rw [hkept]
  · rw [hbalanced.depth_eq, hzero]

theorem depth_pass {rules : Rules} (h : rules.Bracketed) (word : Word) :
    squareBrackets.depth (rules.pass word) = squareBrackets.depth word := by
  induction word with
  | nil => rfl
  | cons c rest ih =>
    rw [Brackets.depth_cons, ← depth_production h c, ← ih, ← Brackets.depth_append]
    rfl

/-- A production starts at the depth of its symbol and rises above it by no
more than the rules allow. -/
theorem depth_within_pass {rules : Rules} (h : rules.Bracketed) {word : Word} {low high : Int}
    (hw : ∀ p, p <+: word → low ≤ squareBrackets.depth p ∧ squareBrackets.depth p ≤ high) :
    ∀ p, p <+: rules.pass word →
      low ≤ squareBrackets.depth p ∧ squareBrackets.depth p ≤ high + rules.height := by
  induction word generalizing low high with
  | nil =>
    intro p hp
    obtain ⟨hlow, hhigh⟩ := hw [] List.nil_prefix
    rw [List.prefix_nil.1 hp]
    exact ⟨hlow, by omega⟩
  | cons c rest ih =>
    obtain ⟨⟨hlow, hhigh⟩, hrest⟩ := forall_prefix_cons.1 hw
    rw [Brackets.depth_nil] at hlow hhigh
    rw [show rules.pass (c :: rest) = rules.production c ++ rules.pass rest from rfl,
      forall_prefix_append]
    constructor
    · intro p hp
      rcases production_cases h c with hkept | ⟨-, hbalanced, hheight⟩
      · rw [hkept] at hp
        obtain ⟨hclow, hchigh⟩ := hrest [] List.nil_prefix
        rcases List.prefix_cons_iff.1 hp with rfl | ⟨q, rfl, hq⟩
        · exact ⟨hlow, by rw [Brackets.depth_nil]; omega⟩
        · rw [List.prefix_nil.1 hq]
          exact ⟨hclow, by omega⟩
      · have hcovered := hbalanced.covered p hp
        have hle := squareBrackets.depth_le_height hp
        constructor <;> omega
    · intro p hp
      have hbehind := @ih (low - squareBrackets.depth [c]) (high - squareBrackets.depth [c])
        (fun q hq => by
          have hq := hrest q hq
          rw [Brackets.depth_cons] at hq
          constructor <;> omega) p hp
      rw [Brackets.depth_append, depth_production h]
      constructor <;> omega

theorem balanced_pass {rules : Rules} (h : rules.Bracketed) {word : Word}
    (hw : squareBrackets.Balanced word) :
    squareBrackets.Balanced (rules.pass word) ∧
      squareBrackets.height (rules.pass word) ≤ squareBrackets.height word + rules.height := by
  have hpass := depth_within_pass h fun p hp =>
    ⟨hw.covered p hp, squareBrackets.depth_le_height hp⟩
  refine ⟨⟨fun p hp => (hpass p hp).1, (depth_pass h word).trans hw.depth_eq⟩, ?_⟩
  exact squareBrackets.height_le_iff.2 fun p hp => (hpass p hp).2

theorem balanced_expand {rules : Rules} (h : rules.Bracketed) {word : Word}
    (hw : squareBrackets.Balanced word) (n : Nat) :
    squareBrackets.Balanced (rules.expand n word) ∧
      squareBrackets.height (rules.expand n word) ≤
        squareBrackets.height word + n * rules.height := by
  induction n generalizing word with
  | zero => exact ⟨hw, by simp⟩
  | succ n ih =>
    obtain ⟨hpass, hheight⟩ := balanced_pass h hw
    obtain ⟨hbalanced, hle⟩ := ih hpass
    refine ⟨hbalanced, Nat.le_trans hle ?_⟩
    rw [Nat.succ_mul]
    omega

end Rules

-- ---------------------------------------------------------------------------
-- Interpreters of brackets
-- ---------------------------------------------------------------------------

namespace Interpreter

/-- The two brackets, and no other symbols, open and close branches. -/
structure ReadsBrackets (i : Interpreter) : Prop where
  opens : ∀ c, (i.command c).isPush = (c == '[')
  closes : ∀ c, (i.command c).isPop = (c == ']')

theorem standard_readsBrackets : standard.ReadsBrackets := by
  have hentries : ∀ e ∈ standard.commands.entries,
      e.2.isPush = (e.1 == '[') ∧ e.2.isPop = (e.1 == ']') := by decide
  have hc : ∀ c, (standard.command c).isPush = (c == '[') ∧
      (standard.command c).isPop = (c == ']') := by
    intro c
    rw [command]
    cases hc : standard.commands.find? c with
    | some command => exact hentries _ ((standard.commands.find?_eq_some_iff c command).1 hc)
    | none =>
      have hopen : c ≠ '[' := by
        rintro rfl
        exact absurd hc (by decide)
      have hclose : c ≠ ']' := by
        rintro rfl
        exact absurd hc (by decide)
      exact ⟨(beq_false_of_ne hopen).symm, (beq_false_of_ne hclose).symm⟩
  exact ⟨fun c => (hc c).1, fun c => (hc c).2⟩

theorem setDrawSymbols_readsBrackets {i : Interpreter} (h : i.ReadsBrackets) {symbols : Word}
    (hopen : '[' ∉ symbols) (hclose : ']' ∉ symbols) :
    (i.setDrawSymbols symbols).ReadsBrackets := by
  have hc : ∀ c, ((i.setDrawSymbols symbols).command c).isPush = (i.command c).isPush ∧
      ((i.setDrawSymbols symbols).command c).isPop = (i.command c).isPop := by
    intro c
    rw [command_setDrawSymbols]
    split
    next hm =>
      have hne : c ≠ '[' ∧ c ≠ ']' := by
        constructor
        · rintro rfl; exact hopen hm
        · rintro rfl; exact hclose hm
      rw [h.opens, h.closes, beq_false_of_ne hne.1, beq_false_of_ne hne.2]
      exact ⟨rfl, rfl⟩
    next =>
      split
      next hdraw =>
        rw [hdraw]
        exact ⟨rfl, rfl⟩
      next => exact ⟨rfl, rfl⟩
  exact ⟨fun c => (hc c).1.trans (h.opens c), fun c => (hc c).2.trans (h.closes c)⟩

theorem depth_course {i : Interpreter} (h : i.ReadsBrackets) (word : Word) :
    Command.brackets.depth (i.course word) = squareBrackets.depth word := by
  simp only [Brackets.depth, course, List.countP_map, Command.brackets, squareBrackets,
    Function.comp_def, h.opens, h.closes]

theorem checkBranches_of_balanced {i : Interpreter} (h : i.ReadsBrackets) {word : Word}
    (hw : squareBrackets.Balanced word)
    (hcap : ∀ limit, i.maxDepth = some limit → squareBrackets.height word ≤ limit) :
    i.checkBranches word = .ok () := by
  rw [checkBranches_eq_ok_iff]
  intro c hc
  obtain ⟨p, hp, rfl⟩ := List.prefix_map_iff.1 hc
  have hdepth := depth_course h p
  rw [course] at hdepth
  rw [hdepth]
  refine ⟨hw.covered p hp, fun limit hlimit => ?_⟩
  have hheight := squareBrackets.depth_le_height hp
  have hle := hcap limit hlimit
  omega

end Interpreter

/-- Rules and start word are balanced, and no bracket draws. -/
structure Grammar.Bracketed (g : Grammar) : Prop where
  rules : g.rules.Bracketed
  start : squareBrackets.Balanced g.start
  draws : '[' ∉ g.drawSymbols ∧ ']' ∉ g.drawSymbols

instance (g : Grammar) : Decidable g.Bracketed :=
  decidable_of_iff (g.rules.Bracketed ∧ squareBrackets.Balanced g.start ∧
      '[' ∉ g.drawSymbols ∧ ']' ∉ g.drawSymbols)
    ⟨fun h => ⟨h.1, h.2.1, h.2.2⟩, fun h => ⟨h.rules, h.start, h.draws⟩⟩

theorem checkStepLength_eq_ok {stepLength : Float32} (hfinite : stepLength.isFinite)
    (hpos : 0.0 < stepLength) : checkStepLength stepLength = .ok () :=
  checkStepLength_eq_ok_iff.2 ⟨hfinite, hpos⟩

theorem Interpreter.interpret_bracketed {i : Interpreter} (h : i.ReadsBrackets) {g : Grammar}
    (hg : g.Bracketed) {n : Nat}
    (hcap : ∀ limit, i.maxDepth = some limit →
      squareBrackets.height g.start + n * g.rules.height ≤ limit)
    {angle stepLength : Float32} {closed : Bool} (hstep : checkStepLength stepLength = .ok ()) :
    ∃ w, i.interpret (g.expand n) angle stepLength closed = .ok w := by
  obtain ⟨hbalanced, hheight⟩ := Rules.balanced_expand hg.rules hg.start n
  have hcheck : i.checkBranches (g.expand n) = .ok () :=
    checkBranches_of_balanced h hbalanced fun limit hlimit =>
      Nat.le_trans hheight (hcap limit hlimit)
  exact ⟨_, interpret_eq_ok_iff.2 ⟨hstep, hcheck, rfl⟩⟩

theorem Grammar.Bracketed.generate {g : Grammar} (hg : g.Bracketed)
    (hstep : checkStepLength g.stepLength = .ok ()) (n : Nat) :
    ∃ path, g.generate n = .ok path := by
  have hreads : g.interpreter.ReadsBrackets :=
    Interpreter.setDrawSymbols_readsBrackets Interpreter.standard_readsBrackets
      hg.draws.1 hg.draws.2
  obtain ⟨w, hwalk⟩ : ∃ w, g.interpreter.interpret (g.expand n) g.angle g.stepLength g.closed =
      .ok w := Interpreter.interpret_bracketed hreads hg nofun hstep
  refine ⟨w.elements, ?_⟩
  rw [Grammar.generate, hwalk]
  rfl

theorem standard_catalog_bracketed :
    ∀ c ∈ Catalog.standard.curves,
      c.grammar.Bracketed ∧ checkStepLength c.grammar.stepLength = .ok () := by
  decide

/-- Balanced grammars generate at every depth of rewriting, and no cap is
needed beyond what their start word and each pass can add. -/
theorem bracketed_grammars_generate :
    (∀ g : Grammar, g.Bracketed → g.stepLength.isFinite → 0.0 < g.stepLength →
      ∀ n, (∃ path, g.generate n = .ok path) ∧
        ∀ i : Interpreter, (∀ c, i.command c = Interpreter.standard.command c) →
          (∀ limit, i.maxDepth = some limit →
            squareBrackets.height g.start + n * g.rules.height ≤ limit) →
          ∀ angle stepLength closed, stepLength.isFinite → 0.0 < stepLength →
            ∃ w, i.interpret (g.expand n) angle stepLength closed = .ok w) ∧
      ∀ c ∈ Catalog.standard.curves, ∀ n, ∃ path, c.grammar.generate n = .ok path := by
  constructor
  · intro g hg hfinite hpos n
    refine ⟨hg.generate (checkStepLength_eq_ok hfinite hpos) n, ?_⟩
    intro i hcommand hcap angle stepLength closed hfinite hpos
    have hreads : i.ReadsBrackets :=
      ⟨fun c => by rw [hcommand, Interpreter.standard_readsBrackets.opens],
        fun c => by rw [hcommand, Interpreter.standard_readsBrackets.closes]⟩
    exact Interpreter.interpret_bracketed hreads hg hcap (checkStepLength_eq_ok hfinite hpos)
  · intro c hc n
    obtain ⟨hbracketed, hstep⟩ := standard_catalog_bracketed c hc
    exact hbracketed.generate hstep n

/-- The start word opens no branch and each pass at most one. -/
theorem plant_generates_within_cap :
    (∃ path, Catalog.plant.grammar.generate 3 = .ok path) ∧
      ∃ w, (⟨Interpreter.standard.commands, some 3⟩ : Interpreter).interpret
        (Catalog.plant.grammar.expand 3) 1.5 10.0 true = .ok w := by
  obtain ⟨hpath, hwalk⟩ := bracketed_grammars_generate.1 Catalog.plant.grammar (by decide)
    (by decide) (by decide) 3
  refine ⟨hpath, hwalk ⟨Interpreter.standard.commands, some 3⟩ (fun _ => rfl) ?_ 1.5 10.0 true
    (by decide) (by decide)⟩
  rintro limit ⟨⟩
  decide

end FractalCurve
