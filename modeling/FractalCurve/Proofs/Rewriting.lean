import FractalCurve.Catalog.Standard
import FractalCurve.Grammar.Drawing
import Mathlib.Data.List.Basic
import Mathlib.Data.Set.Defs

/-!
# Rewriting words

Every symbol of a word is rewritten by itself, whatever stands around it, and
passes follow one another without a memory. `expand_append_add`: words can be
rewritten part by part and the passes done in any number of stages.

`generate_of_reachable`: rules for symbols that a word never comes to have no
influence on it, nor has the difference between a rule that keeps its symbol and
none.
-/

namespace FractalCurve

namespace Rules

variable (rules : Rules)

-- ---------------------------------------------------------------------------
-- Parts and stages
-- ---------------------------------------------------------------------------

theorem expand_append (n : Nat) (u v : Word) :
    rules.expand n (u ++ v) = rules.expand n u ++ rules.expand n v := by
  induction n generalizing u v with
  | zero => rfl
  | succ n ih => rw [expand_succ, pass_append, ih, expand_succ, expand_succ]

theorem expand_add (m n : Nat) (word : Word) :
    rules.expand (m + n) word = rules.expand n (rules.expand m word) := by
  induction m generalizing word with
  | zero => rw [Nat.zero_add, expand_zero]
  | succ m ih => rw [Nat.succ_add, expand_succ, ih, expand_succ]

theorem expand_succ_eq_pass (n : Nat) (word : Word) :
    rules.expand (n + 1) word = rules.pass (rules.expand n word) :=
  rules.expand_add n 1 word

/-- Words are rewritten part by part, and passes done in stages. -/
theorem expand_append_add (m n : Nat) (u v : Word) :
    rules.expand (m + n) (u ++ v) =
      rules.expand n (rules.expand m u) ++ rules.expand n (rules.expand m v) := by
  rw [expand_append, expand_add, expand_add]

-- ---------------------------------------------------------------------------
-- Symbols that rewriting comes to
-- ---------------------------------------------------------------------------

variable {rules}

/-- Rewriting never leaves a set of symbols that holds their productions. -/
def Closed (rules : Rules) (used : Set Char) : Prop :=
  ∀ c ∈ used, ∀ d ∈ rules.production c, d ∈ used

/-- The symbols of a word, and of the productions of all such symbols. -/
inductive Reachable (rules : Rules) (word : Word) : Char → Prop where
  | start {c : Char} : c ∈ word → Reachable rules word c
  | production {c d : Char} :
    Reachable rules word c → d ∈ rules.production c → Reachable rules word d

variable {used : Set Char} {word : Word}

theorem forall_mem_pass (h : rules.Closed used) {word : Word} (hw : ∀ c ∈ word, c ∈ used) :
    ∀ c ∈ rules.pass word, c ∈ used := by
  intro d hd
  obtain ⟨c, hc, hd⟩ := List.mem_flatMap.1 hd
  exact h c (hw c hc) d hd

theorem forall_mem_expand (h : rules.Closed used) {word : Word} (hw : ∀ c ∈ word, c ∈ used)
    (n : Nat) : ∀ c ∈ rules.expand n word, c ∈ used := by
  induction n generalizing word with
  | zero => exact hw
  | succ n ih => exact ih (forall_mem_pass h hw)

theorem closed_reachable (rules : Rules) (word : Word) :
    rules.Closed {c | rules.Reachable word c} :=
  fun _ hc _ hd => .production hc hd

theorem Reachable.mem_of_closed {c : Char} (hc : rules.Reachable word c)
    (h : rules.Closed used) (hw : ∀ c ∈ word, c ∈ used) : c ∈ used := by
  induction hc with
  | start hc => exact hw _ hc
  | production _ hd ih => exact h _ ih _ hd

-- ---------------------------------------------------------------------------
-- Rules side by side
-- ---------------------------------------------------------------------------

variable {rules' : Rules} {σ : Char → Char}

theorem pass_map (hσ : ∀ c ∈ used, rules'.production (σ c) = (rules.production c).map σ)
    (hw : ∀ c ∈ word, c ∈ used) : rules'.pass (word.map σ) = (rules.pass word).map σ := by
  simp only [pass, List.flatMap_map, List.map_flatMap]
  exact List.flatMap_congr fun c hc => hσ c (hw c hc)

/-- Rules that take replaced symbols to replaced productions take replaced words
to replaced words. -/
theorem expand_map (h : rules.Closed used)
    (hσ : ∀ c ∈ used, rules'.production (σ c) = (rules.production c).map σ) {word : Word}
    (hw : ∀ c ∈ word, c ∈ used) (n : Nat) :
    rules'.expand n (word.map σ) = (rules.expand n word).map σ := by
  induction n generalizing word with
  | zero => rfl
  | succ n ih => simp only [expand_succ, pass_map hσ hw, ih (forall_mem_pass h hw)]

theorem expand_congr (h : rules.Closed used)
    (hsame : ∀ c ∈ used, rules.production c = rules'.production c)
    (hw : ∀ c ∈ word, c ∈ used) (n : Nat) : rules.expand n word = rules'.expand n word := by
  have hid : ∀ c ∈ used, rules'.production (id c) = (rules.production c).map id := by
    intro c hc
    simp [hsame c hc]
  simpa using (expand_map h hid hw n).symm

end Rules

namespace Grammar

/-- A grammar can be given other rules, as long as no symbol that its start word
leads to gets another production. -/
theorem generate_of_reachable {g : Grammar} {rules : Rules}
    (h : ∀ c, g.rules.Reachable g.start c → g.rules.production c = rules.production c) (n : Nat) :
    g.rules.expand n g.start = rules.expand n g.start ∧
      g.generate n = { g with rules }.generate n := by
  have hexpand : g.rules.expand n g.start = rules.expand n g.start :=
    Rules.expand_congr (Rules.closed_reachable g.rules g.start) h (fun _ => .start) n
  refine ⟨hexpand, ?_⟩
  rw [generate, generate, expand, expand, hexpand]
  rfl

/-- The plant with a rule for a symbol that it never comes to. -/
def sparePlant : Grammar :=
  { Catalog.plant.grammar with rules := Catalog.plant.grammar.rules.insert 'Q' [']'] }

/-- The same rules, but another one for that symbol and one that keeps its
symbol. -/
def spareRules : Rules :=
  Catalog.plant.grammar.rules.insertAll [('Q', ['[', 'Q']), ('+', ['+'])]

/-- All that the plant comes to. -/
def plantSymbols : Word := "FX+-[]".toList

theorem generate_of_reachable_plant :
    (∀ c, sparePlant.rules.Reachable sparePlant.start c →
        sparePlant.rules.production c = spareRules.production c) ∧
      sparePlant.rules.expand 4 sparePlant.start = spareRules.expand 4 sparePlant.start ∧
      sparePlant.generate 4 = { sparePlant with rules := spareRules }.generate 4 := by
  have hstart : sparePlant.start ⊆ plantSymbols := by decide
  have hall : (plantSymbols.all fun c =>
      sparePlant.rules.production c = spareRules.production c ∧
        sparePlant.rules.production c ⊆ plantSymbols) = true := by
    decide
  have hsymbol : ∀ c ∈ plantSymbols, sparePlant.rules.production c = spareRules.production c ∧
      sparePlant.rules.production c ⊆ plantSymbols :=
    fun c hc => of_decide_eq_true (List.all_eq_true.1 hall c hc)
  have hclosed : sparePlant.rules.Closed {c | c ∈ plantSymbols} :=
    fun c hc _ hd => (hsymbol c hc).2 hd
  have hsame : ∀ c, sparePlant.rules.Reachable sparePlant.start c →
      sparePlant.rules.production c = spareRules.production c :=
    fun c hc => (hsymbol c (hc.mem_of_closed hclosed fun _ h => hstart h)).1
  exact ⟨hsame, generate_of_reachable hsame 4⟩

end Grammar

end FractalCurve
