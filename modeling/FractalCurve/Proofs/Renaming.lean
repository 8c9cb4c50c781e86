import FractalCurve.Proofs.Rewriting
import FractalCurve.Proofs.Trail
import Mathlib.Data.List.Nodup
import Mathlib.Data.Set.Function
import Mathlib.Logic.Equiv.Basic

/-!
# Renaming symbols

A word means something only through the rules and commands of its symbols.
`generate_rename`: a grammar whose symbols are replaced by others, different
ones by different ones, rewrites to the replaced words and generates the same
path or error, as long as the commands go along.
-/

namespace FractalCurve

-- ---------------------------------------------------------------------------
-- Rules
-- ---------------------------------------------------------------------------

namespace Rules

/-- The symbols that have a rule and those of all productions. -/
def symbols (rules : Rules) : Word := rules.entries.flatMap fun e => e.1 :: e.2

def rename (rules : Rules) (σ : Char → Char) : Rules :=
  SymbolMap.ofList (rules.entries.map fun e => (σ e.1, e.2.map σ))

variable {rules : Rules} {used : Set Char} {σ : Char → Char}

theorem closed_of_symbols (h : ∀ c ∈ rules.symbols, c ∈ used) : rules.Closed used := by
  intro c hc d hd
  cases hp : rules.find? c with
  | none =>
    have hkept : d = c := by simpa [production, hp] using hd
    exact hkept ▸ hc
  | some p =>
    have hd : d ∈ p := by simpa [production, hp] using hd
    have hm : (c, p) ∈ rules.entries := (rules.find?_eq_some_iff c p).1 hp
    exact h d (List.mem_flatMap.2 ⟨(c, p), hm, List.mem_cons_of_mem c hd⟩)

theorem mem_used_of_mem_entries (h : ∀ c ∈ rules.symbols, c ∈ used) {e : Char × Word}
    (he : e ∈ rules.entries) : e.1 ∈ used :=
  h e.1 (List.mem_flatMap.2 ⟨e, he, List.mem_cons_self⟩)

/-- No two of the symbols with a rule become one, and none becomes a symbol
that had no rule. -/
theorem find?_rename (h : ∀ c ∈ rules.symbols, c ∈ used) (hσ : Set.InjOn σ used) {c : Char}
    (hc : c ∈ used) : (rules.rename σ).find? (σ c) = (rules.find? c).map (List.map σ) := by
  have hkeys : ((rules.entries.map fun e => (σ e.1, e.2.map σ)).map (·.1)).Nodup := by
    have hused : ∀ k ∈ rules.entries.map (·.1), k ∈ used := by
      intro k hk
      obtain ⟨e, he, rfl⟩ := List.mem_map.1 hk
      exact mem_used_of_mem_entries h he
    have hmapped := List.Nodup.map_on (fun a ha b hb hab => hσ (hused a ha) (hused b hb) hab)
      rules.nodup_keys
    simpa [Function.comp_def] using hmapped
  ext word
  rw [rename, SymbolMap.find?_ofList_eq_some_iff hkeys, List.mem_map, Option.map_eq_some_iff]
  constructor
  · rintro ⟨e, he, heq⟩
    obtain ⟨hkey, hword⟩ := Prod.mk.inj heq
    have hsame : e.1 = c := hσ (mem_used_of_mem_entries h he) hc hkey
    exact ⟨e.2, (rules.find?_eq_some_iff c e.2).2 (hsame ▸ he), hword⟩
  · rintro ⟨p, hp, rfl⟩
    exact ⟨(c, p), (rules.find?_eq_some_iff c p).1 hp, rfl⟩

theorem production_rename (h : ∀ c ∈ rules.symbols, c ∈ used) (hσ : Set.InjOn σ used) {c : Char}
    (hc : c ∈ used) : (rules.rename σ).production (σ c) = (rules.production c).map σ := by
  rw [production, production, find?_rename h hσ hc]
  cases rules.find? c <;> rfl

theorem expand_rename (h : ∀ c ∈ rules.symbols, c ∈ used) (hσ : Set.InjOn σ used) {word : Word}
    (hw : ∀ c ∈ word, c ∈ used) (n : Nat) :
    (rules.rename σ).expand n (word.map σ) = (rules.expand n word).map σ :=
  expand_map (closed_of_symbols h) (fun _ hc => production_rename h hσ hc) hw n

end Rules

-- ---------------------------------------------------------------------------
-- Grammars
-- ---------------------------------------------------------------------------

namespace Grammar

/-- The symbols of the start word and of the rules. -/
def symbols (g : Grammar) : Word := g.start ++ g.rules.symbols

/-- The grammar with other symbols, some of which draw. -/
def rename (g : Grammar) (σ : Char → Char) (drawSymbols : Word) : Grammar :=
  { g with start := g.start.map σ, rules := g.rules.rename σ, drawSymbols }

theorem generate_eq (g : Grammar) (n : Nat) :
    g.generate n =
      (g.interpreter.interpret (g.expand n) g.angle g.stepLength g.closed).map Walk.elements := by
  rw [generate]
  cases g.interpreter.interpret (g.expand n) g.angle g.stepLength g.closed <;> rfl

variable {g : Grammar} {σ : Char → Char}

theorem forall_mem_expand (g : Grammar) (n : Nat) : ∀ c ∈ g.expand n, c ∈ g.symbols := by
  have hclosed : g.rules.Closed {c | c ∈ g.symbols} :=
    Rules.closed_of_symbols fun _ => List.mem_append_right g.start
  exact Rules.forall_mem_expand hclosed (fun _ => List.mem_append_left g.rules.symbols) n

theorem expand_rename (hσ : Set.InjOn σ {c | c ∈ g.symbols}) (drawSymbols : Word) (n : Nat) :
    (g.rename σ drawSymbols).expand n = (g.expand n).map σ :=
  Rules.expand_rename (fun _ => List.mem_append_right g.start) hσ
    (fun _ => List.mem_append_left g.rules.symbols) n

/-- Symbols have no meaning beyond their rules and commands: in the place of
different ones may stand any different ones with the same commands. -/
theorem generate_rename {drawSymbols : Word} (hσ : Set.InjOn σ {c | c ∈ g.symbols})
    (hcommand : ∀ c ∈ g.symbols,
      (g.rename σ drawSymbols).interpreter.command (σ c) = g.interpreter.command c) (n : Nat) :
    (g.rename σ drawSymbols).expand n = (g.expand n).map σ ∧
      (g.rename σ drawSymbols).generate n = g.generate n := by
  have hexpand := expand_rename hσ drawSymbols n
  refine ⟨hexpand, ?_⟩
  have hcourse : (g.rename σ drawSymbols).interpreter.course ((g.rename σ drawSymbols).expand n) =
      g.interpreter.course (g.expand n) := by
    rw [hexpand, Interpreter.course, Interpreter.course, List.map_map]
    exact List.map_congr_left fun c hc => hcommand c (g.forall_mem_expand n c hc)
  have hcap : (g.rename σ drawSymbols).interpreter.maxDepth = g.interpreter.maxDepth := rfl
  rw [generate_eq, generate_eq]
  exact Interpreter.map_elements_interpret_congr hcap hcourse g.angle g.stepLength g.closed

/-- The symbol that draws and the one that only grows change places. -/
def swappedPlant : Grammar := Catalog.plant.grammar.rename (Equiv.swap 'F' 'X') ['X']

theorem generate_rename_plant :
    Set.InjOn (Equiv.swap 'F' 'X') {c | c ∈ Catalog.plant.grammar.symbols} ∧
      (∀ c ∈ Catalog.plant.grammar.symbols,
        swappedPlant.interpreter.command (Equiv.swap 'F' 'X' c) =
          Catalog.plant.grammar.interpreter.command c) ∧
      swappedPlant.expand 4 = (Catalog.plant.grammar.expand 4).map (Equiv.swap 'F' 'X') ∧
      swappedPlant.generate 4 = Catalog.plant.grammar.generate 4 := by
  have hinjective : Set.InjOn (Equiv.swap 'F' 'X') {c | c ∈ Catalog.plant.grammar.symbols} :=
    (Equiv.swap 'F' 'X').injective.injOn
  have hall : (Catalog.plant.grammar.symbols.all fun c =>
      swappedPlant.interpreter.command (Equiv.swap 'F' 'X' c) =
        Catalog.plant.grammar.interpreter.command c) = true := by
    decide
  have hcommand : ∀ c ∈ Catalog.plant.grammar.symbols,
      swappedPlant.interpreter.command (Equiv.swap 'F' 'X' c) =
        Catalog.plant.grammar.interpreter.command c :=
    fun c hc => of_decide_eq_true (List.all_eq_true.1 hall c hc)
  exact ⟨hinjective, hcommand, generate_rename hinjective hcommand 4⟩

end Grammar

end FractalCurve
