import FractalCurve.Proofs.Trail
import Mathlib.Order.Nat

/-!
# Refusals

Which words an interpreter refuses and for what. The check of branches runs
along a word and stops at the first symbol behind which the depth is one that
the interpreter does not allow; `RefusedAt` says of a symbol that it is that
one.

`interpret_outcome`: the result of interpreting a word, in every case.
-/

namespace FractalCurve.Interpreter

open Command (brackets)

variable {i : Interpreter}

/-- The depth of nesting behind the first `n` symbols of a word. -/
def depthAfter (i : Interpreter) (word : Word) (n : Nat) : Int :=
  brackets.depth (i.course (word.take n))

/-- The symbol at an index is the first behind which the depth of nesting is
not allowed. -/
structure RefusedAt (i : Interpreter) (word : Word) (index : Nat) (symbol : Char) : Prop where
  symbol_eq : word[index]? = some symbol
  allowed : ∀ n ≤ index, i.Allows (i.depthAfter word n)
  refused : ¬ i.Allows (i.depthAfter word (index + 1))

instance (depth : Int) : Decidable (i.Allows depth) :=
  decidable_of_iff (0 ≤ depth ∧ ∀ limit ∈ i.maxDepth, depth ≤ limit) Iff.rfl

instance (word : Word) (index : Nat) (symbol : Char) : Decidable (i.RefusedAt word index symbol) :=
  decidable_of_iff (word[index]? = some symbol ∧ (∀ n ≤ index, i.Allows (i.depthAfter word n)) ∧
      ¬ i.Allows (i.depthAfter word (index + 1)))
    ⟨fun h => ⟨h.1, h.2.1, h.2.2⟩, fun h => ⟨h.symbol_eq, h.allowed, h.refused⟩⟩

/-- The error that a command at an index is refused with. -/
def Blames (i : Interpreter) (index : Nat) (command : Command) (e : CurveError) : Prop :=
  command = .pop ∧ e = .unbalancedBranch index ∨
    command = .push ∧ ∃ limit, i.maxDepth = some limit ∧ e = .stackOverflow limit

theorem Blames.unique {index : Nat} {command : Command} {e f : CurveError}
    (he : i.Blames index command e) (hf : i.Blames index command f) : e = f := by
  rcases he with ⟨rfl, rfl⟩ | ⟨rfl, limit, hlimit, rfl⟩
  · rcases hf with ⟨-, rfl⟩ | ⟨hc, -⟩
    · rfl
    · contradiction
  · rcases hf with ⟨hc, -⟩ | ⟨-, limit', hlimit', rfl⟩
    · contradiction
    · rw [Option.some.inj (hlimit.symm.trans hlimit')]

theorem allowed_prefixes_iff {word : Word} :
    (∀ p, p <+: i.course word → i.Allows (brackets.depth p)) ↔
      ∀ n, i.Allows (i.depthAfter word n) := by
  constructor
  · intro h n
    exact h _ ((List.take_prefix n word).map i.command)
  · intro h p hp
    rw [List.prefix_iff_eq_take.1 hp, course, ← List.map_take]
    exact h p.length

/-- The check goes on behind a part of the word in which all depths are
allowed. -/
theorem checkBranchesFrom_append {u : Word} (v : Word) (index : Nat) {branches reached : Nat}
    (hbranches : i.Allows branches)
    (hu : ∀ p, p <+: i.course u → i.Allows (branches + brackets.depth p))
    (hreached : (reached : Int) = branches + brackets.depth (i.course u)) :
    i.checkBranchesFrom index branches (u ++ v) =
      i.checkBranchesFrom (index + u.length) reached v := by
  induction u generalizing index branches with
  | nil =>
    have hsame : reached = branches := Int.ofNat_inj.1 (by simpa using hreached)
    rw [hsame]
    rfl
  | cons symbol rest ih =>
    obtain ⟨-, hrest⟩ := forall_prefix_cons.1 hu
    have hsymbol : i.Allows (branches + brackets.depth [i.command symbol]) :=
      hrest [] List.nil_prefix
    have hnest := Command.nest_eq hsymbol.1
    rw [List.cons_append, checkBranchesFrom_cons, (checkBranchesFrom_single_ok hbranches).2 hsymbol]
    show i.checkBranchesFrom (index + 1) _ (rest ++ v) = _
    rw [ih (index + 1) (hnest ▸ hsymbol), List.length_cons, Nat.add_right_comm, Nat.add_assoc]
    · intro p hp
      rw [hnest, Int.add_assoc, ← Brackets.depth_cons]
      exact hrest p hp
    · rw [hreached, hnest, course_cons, Brackets.depth_cons, Int.add_assoc]

theorem checkBranchesFrom_single_error (index : Nat) {branches : Nat} {symbol : Char}
    (hbranches : i.Allows branches)
    (hsymbol : ¬ i.Allows (branches + brackets.depth [i.command symbol])) :
    ∃ e, i.Blames index (i.command symbol) e ∧
      i.checkBranchesFrom index branches [symbol] = .error e := by
  cases hc : i.command symbol with
  | push =>
    rw [hc, Command.depth_push] at hsymbol
    cases hm : i.maxDepth with
    | none => exact absurd ⟨by omega, by simp [hm]⟩ hsymbol
    | some limit =>
      have hlimit : limit < branches + 1 := by
        by_contra hle
        refine hsymbol ⟨by omega, fun limit' hlimit' => ?_⟩
        rw [hm, Option.some.injEq] at hlimit'
        omega
      exact ⟨.stackOverflow limit, .inr ⟨rfl, limit, hm, rfl⟩,
        by simp [checkBranchesFrom, hc, hm, hlimit]⟩
  | pop =>
    rw [hc, Command.depth_pop] at hsymbol
    cases branches with
    | zero => exact ⟨.unbalancedBranch index, .inl ⟨rfl, rfl⟩, by simp [checkBranchesFrom, hc]⟩
    | succ outer =>
      refine absurd ⟨by omega, fun limit hm => ?_⟩ hsymbol
      have := hbranches.2 limit hm
      omega
  | _ => exact absurd (by simpa [hc, Command.depth_flat] using hbranches) hsymbol

theorem RefusedAt.checkBranches_eq {word : Word} {index : Nat} {symbol : Char}
    (h : i.RefusedAt word index symbol) :
    ∃ e, i.Blames index (i.command symbol) e ∧ i.checkBranches word = .error e := by
  obtain ⟨hlt, hsymbol⟩ := List.getElem?_eq_some_iff.1 h.symbol_eq
  have hword : word = word.take index ++ symbol :: word.drop (index + 1) := by
    rw [← hsymbol, ← List.drop_eq_getElem_cons hlt, List.take_append_drop]
  have hbefore : ∀ p, p <+: i.course (word.take index) → i.Allows (brackets.depth p) := by
    refine allowed_prefixes_iff.2 fun n => ?_
    rw [depthAfter, List.take_take]
    exact h.allowed _ (Nat.min_le_right n index)
  have hindex := h.allowed index (Nat.le_refl index)
  obtain ⟨reached, hreached⟩ := Int.eq_ofNat_of_zero_le hindex.1
  -- the check stands in front of the symbol, inside of `reached` branches
  have hcheck : i.checkBranches word =
      i.checkBranchesFrom index reached [symbol] >>= fun _ =>
        i.checkBranchesFrom (index + 1) ((i.command symbol).nest reached)
          (word.drop (index + 1)) := by
    conv => lhs; rw [hword]
    rw [← checkBranchesFrom_cons, checkBranches,
      checkBranchesFrom_append _ 0 (show i.Allows (0 : Nat) from i.allows_zero)
        (by simpa using hbefore)
        (by simpa [depthAfter] using hreached.symm),
      List.length_take_of_le (Nat.le_of_lt hlt), Nat.zero_add]
  have hbehind : ¬ i.Allows (reached + brackets.depth [i.command symbol]) := by
    rw [← hreached, depthAfter, ← Brackets.depth_append]
    have h := h.refused
    rwa [depthAfter, List.take_succ_eq_append_getElem hlt, hsymbol, course_append] at h
  obtain ⟨e, he, herror⟩ := checkBranchesFrom_single_error index (hreached ▸ hindex) hbehind
  exact ⟨e, he, by rw [hcheck, herror]; rfl⟩

/-- Behind some symbol the depth is not allowed for the first time. -/
theorem exists_refusedAt {word : Word} (h : ¬ ∀ n, i.Allows (i.depthAfter word n)) :
    ∃ index symbol, i.RefusedAt word index symbol := by
  classical
  obtain ⟨n, hn, hleast⟩ : ∃ n, ¬ i.Allows (i.depthAfter word n) ∧
      ∀ m < n, i.Allows (i.depthAfter word m) := by
    have hex := not_forall.1 h
    exact ⟨Nat.find hex, Nat.find_spec hex, fun m hm => not_not.1 (Nat.find_min hex hm)⟩
  cases n with
  | zero => exact absurd i.allows_zero hn
  | succ index =>
    have hlt : index < word.length := by
      by_contra hge
      refine hn ?_
      rw [depthAfter, List.take_of_length_le (by omega),
        ← List.take_of_length_le (Nat.le_of_not_lt hge)]
      exact hleast index (Nat.lt_succ_self index)
    exact ⟨index, word[index], List.getElem?_eq_getElem hlt,
      fun m hm => hleast m (Nat.lt_succ_of_le hm), hn⟩

theorem checkBranches_eq_error_iff {word : Word} {e : CurveError} :
    i.checkBranches word = .error e ↔
      ∃ index symbol, i.RefusedAt word index symbol ∧ i.Blames index (i.command symbol) e := by
  constructor
  · intro h
    have hnot : ¬ ∀ n, i.Allows (i.depthAfter word n) := by
      rw [← allowed_prefixes_iff, ← checkBranches_eq_ok_iff, h]
      nofun
    obtain ⟨index, symbol, hrefused⟩ := exists_refusedAt hnot
    obtain ⟨f, hf, herror⟩ := hrefused.checkBranches_eq
    rw [h, Except.error.injEq] at herror
    exact ⟨index, symbol, hrefused, herror ▸ hf⟩
  · rintro ⟨index, symbol, hrefused, he⟩
    obtain ⟨f, hf, herror⟩ := hrefused.checkBranches_eq
    rw [herror, he.unique hf]

/-- A step length that moves nothing is refused whatever the word is. Any other
leaves it to the branches: the word is walked if all depths in it are allowed,
and else refused at the first symbol behind which one is not. -/
theorem interpret_outcome (i : Interpreter) (word : Word) (angle stepLength : Float32)
    (closed : Bool) :
    (¬ (stepLength.isFinite ∧ 0.0 < stepLength) →
      i.interpret word angle stepLength closed = .error (.invalidStepLength stepLength)) ∧
    (stepLength.isFinite ∧ 0.0 < stepLength →
      ((∃ w, i.interpret word angle stepLength closed = .ok w) ↔
        ∀ n, i.Allows (i.depthAfter word n)) ∧
      ∀ e, i.interpret word angle stepLength closed = .error e ↔
        ∃ index symbol, i.RefusedAt word index symbol ∧
          (i.command symbol = .pop ∧ e = .unbalancedBranch index ∨
            i.command symbol = .push ∧
              ∃ limit, i.maxDepth = some limit ∧ e = .stackOverflow limit)) := by
  constructor
  · intro hstep
    simp only [interpret, checkStepLength, if_neg hstep]
    rfl
  · intro hstep
    have hcheck : i.interpret word angle stepLength closed = (i.checkBranches word).map fun _ =>
        ⟨i, angle, stepLength, closed, .start, word, Turtles.start⟩ := by
      simp only [interpret, checkStepLength, if_pos hstep]
      cases i.checkBranches word <;> rfl
    rw [← allowed_prefixes_iff, ← checkBranches_eq_ok_iff, hcheck]
    constructor
    · cases i.checkBranches word <;> simp [Except.map]
    · intro e
      show _ ↔ ∃ index symbol, i.RefusedAt word index symbol ∧ i.Blames index (i.command symbol) e
      rw [← checkBranches_eq_error_iff]
      cases i.checkBranches word <;> simp [Except.map]

/-- A third branch past a cap of two, and a close behind the end of all
branches. -/
theorem interpret_past_cap_and_unopened :
    (⟨standard.commands, some 2⟩ : Interpreter).interpret "[F[]é[[]]]".toList 1.5 10.0 true =
        .error (.stackOverflow 2) ∧
      standard.interpret "[é]F][".toList 1.5 10.0 true = .error (.unbalancedBranch 4) :=
  ⟨(((interpret_outcome ⟨standard.commands, some 2⟩ _ _ _ _).2 (by decide)).2 _).2
      ⟨6, '[', by decide, .inr ⟨by decide, 2, rfl, rfl⟩⟩,
    (((interpret_outcome standard _ _ _ _).2 (by decide)).2 _).2
      ⟨4, ']', by decide, .inl ⟨by decide, rfl⟩⟩⟩

end FractalCurve.Interpreter
