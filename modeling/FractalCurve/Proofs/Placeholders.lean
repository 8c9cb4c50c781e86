import FractalCurve.Proofs.Refusal

/-!
# Placeholders

Symbols that are ignored serve the rules of a grammar and mean nothing to the
turtle. The check of branches and the walk go past them, each in its own way:
the check counts them, the walk does not.

`interpret_withoutIgnored`: a word and what is left of it without its
placeholders have the same result, but for the index of a close without an open,
which moves by the number of placeholders in front of it.
-/

namespace FractalCurve

-- ---------------------------------------------------------------------------
-- Moved indices
-- ---------------------------------------------------------------------------

/-- The same error where the symbols of a word stand at other indices. -/
def CurveError.reindex (f : Nat → Nat) : CurveError → CurveError
  | .unbalancedBranch index => .unbalancedBranch (f index)
  | e => e

theorem mapError_bind {ε ε' α β : Type} (f : ε → ε') (x : Except ε α) (y : α → Except ε β) :
    (x >>= y).mapError f = x.mapError f >>= fun a => (y a).mapError f := by
  cases x <;> rfl

namespace Interpreter

variable (i : Interpreter)

theorem checkBranchesFrom_single_reindex {f : Nat → Nat} {index moved : Nat}
    (h : f index = moved) (branches : Nat) (symbol : Char) :
    i.checkBranchesFrom moved branches [symbol] =
      (i.checkBranchesFrom index branches [symbol]).mapError (CurveError.reindex f) := by
  cases hc : i.command symbol with
  | push =>
    cases hm : i.maxDepth with
    | none => simp [checkBranchesFrom, hc, hm, Except.mapError]
    | some limit =>
      simp only [checkBranchesFrom, hc, hm]
      split <;> rfl
  | pop =>
    cases branches with
    | zero => simp [checkBranchesFrom, hc, Except.mapError, CurveError.reindex, h]
    | succ outer => simp [checkBranchesFrom, hc, Except.mapError]
  | _ => simp [checkBranchesFrom, hc, Except.mapError]

-- ---------------------------------------------------------------------------
-- Words without placeholders
-- ---------------------------------------------------------------------------

/-- The symbols of a word that have a command. -/
def withoutIgnored (word : Word) : Word := word.filter fun symbol => i.command symbol ≠ .ignore

/-- How many of the first `n` symbols of a word are ignored. -/
def ignoredBefore (word : Word) (n : Nat) : Nat :=
  (word.take n).countP fun symbol => i.command symbol = .ignore

theorem withoutIgnored_append (u v : Word) :
    i.withoutIgnored (u ++ v) = i.withoutIgnored u ++ i.withoutIgnored v :=
  List.filter_append ..

theorem length_withoutIgnored_take (word : Word) {n : Nat} (h : n ≤ word.length) :
    (i.withoutIgnored (word.take n)).length + i.ignoredBefore word n = n := by
  have hall := List.length_eq_countP_add_countP (fun symbol => i.command symbol = .ignore)
    (l := word.take n)
  rw [List.length_take_of_le h] at hall
  rw [withoutIgnored, ← List.countP_eq_length_filter, ignoredBefore]
  simp only [decide_eq_true_eq, ← ne_eq] at hall
  omega

/-- The check of a word says where in the shorter word it would have stopped. -/
theorem checkBranchesFrom_withoutIgnored (before word : Word) (branches : Nat) :
    i.checkBranchesFrom (i.withoutIgnored before).length branches (i.withoutIgnored word) =
      (i.checkBranchesFrom before.length branches word).mapError
        (CurveError.reindex fun n => (i.withoutIgnored ((before ++ word).take n)).length) := by
  induction word generalizing before branches with
  | nil => rfl
  | cons symbol rest ih =>
    have ih := ih (before ++ [symbol])
    rw [List.length_append, List.append_assoc, withoutIgnored_append] at ih
    by_cases h : i.command symbol = .ignore
    · have hsymbol : i.withoutIgnored [symbol] = [] := by simp [withoutIgnored, h]
      have hrest : i.withoutIgnored (symbol :: rest) = i.withoutIgnored rest := by
        simp [withoutIgnored, h]
      rw [hsymbol, List.append_nil] at ih
      have hskip : i.checkBranchesFrom before.length branches (symbol :: rest) =
          i.checkBranchesFrom (before.length + 1) branches rest :=
        checkBranchesFrom_flat (by simp [h]) (by simp [h]) _ _ _
      rw [hrest, ih branches, hskip]
      rfl
    · have hsymbol : i.withoutIgnored [symbol] = [symbol] := by simp [withoutIgnored, h]
      have hrest : i.withoutIgnored (symbol :: rest) = symbol :: i.withoutIgnored rest := by
        simp [withoutIgnored, h]
      rw [hsymbol, List.length_append] at ih
      rw [hrest, checkBranchesFrom_cons, checkBranchesFrom_cons _ before.length, mapError_bind]
      congr 1
      · exact i.checkBranchesFrom_single_reindex (by simp) branches symbol
      · exact funext fun _ => ih _

theorem checkBranches_withoutIgnored (word : Word) :
    i.checkBranches (i.withoutIgnored word) =
      (i.checkBranches word).mapError
        (CurveError.reindex fun n => (i.withoutIgnored (word.take n)).length) :=
  i.checkBranchesFrom_withoutIgnored [] word 0

theorem course_withoutIgnored (word : Word) :
    i.course (i.withoutIgnored word) = (i.course word).filter (· ≠ .ignore) := by
  rw [course, withoutIgnored, course, List.filter_map]
  rfl

end Interpreter

theorem Turtles.trail_filter_ignore (angle stepLength : Float32) (t : Turtles) (c : Course) :
    t.trail angle stepLength (c.filter (· ≠ .ignore)) = t.trail angle stepLength c := by
  induction c generalizing t with
  | nil => rfl
  | cons command c ih =>
    by_cases h : command = .ignore
    · subst h
      exact ih t
    · rw [List.filter_cons_of_pos (by simpa using h), trail_cons, trail_cons, ih]

namespace Interpreter

variable (i : Interpreter)

theorem map_elements_interpret_withoutIgnored (word : Word) (angle stepLength : Float32)
    (closed : Bool) :
    (i.interpret (i.withoutIgnored word) angle stepLength closed).map Walk.elements =
      ((i.interpret word angle stepLength closed).map Walk.elements).mapError
        (CurveError.reindex fun n => (i.withoutIgnored (word.take n)).length) := by
  have hpath : (i.course (i.withoutIgnored word)).path angle stepLength closed =
      (i.course word).path angle stepLength closed := by
    rw [Course.path, course_withoutIgnored, Turtles.trail_filter_ignore, Course.path]
  rw [map_elements_interpret, map_elements_interpret, checkBranches_withoutIgnored, hpath,
    checkStepLength]
  split
  · cases i.checkBranches word <;> rfl
  · rfl

variable {i}

theorem lt_length_of_unbalancedBranch {word : Word} {angle stepLength : Float32} {closed : Bool}
    {index : Nat}
    (h : (i.interpret word angle stepLength closed).map Walk.elements =
      .error (.unbalancedBranch index)) :
    index < word.length := by
  have hcheck : i.checkBranches word = .error (.unbalancedBranch index) := by
    rw [map_elements_interpret, checkStepLength] at h
    split at h
    · cases hc : i.checkBranches word with
      | ok => simp [hc, bind, Except.bind, pure, Except.pure] at h
      | error e => simpa [hc, bind, Except.bind] using h
    · cases h
  obtain ⟨index, symbol, hrefused, ⟨-, he⟩ | ⟨-, limit, -, he⟩⟩ :=
    checkBranches_eq_error_iff.1 hcheck
  · cases he
    exact (List.getElem?_eq_some_iff.1 hrefused.symbol_eq).1
  · cases he

variable (i)

/-- Placeholders may be left out: the same path comes of it, and the same errors.
Only a close without an open is found at an index that no longer counts them. -/
theorem interpret_withoutIgnored (word : Word) (angle stepLength : Float32) (closed : Bool) :
    let result := (i.interpret word angle stepLength closed).map Walk.elements
    let kept := (i.interpret (i.withoutIgnored word) angle stepLength closed).map Walk.elements
    (∀ path, kept = .ok path ↔ result = .ok path) ∧
    (∀ x, kept = .error (.invalidStepLength x) ↔ result = .error (.invalidStepLength x)) ∧
    (∀ limit, kept = .error (.stackOverflow limit) ↔ result = .error (.stackOverflow limit)) ∧
    ∀ place, kept = .error (.unbalancedBranch place) ↔
      ∃ index, result = .error (.unbalancedBranch index) ∧
        place = index - i.ignoredBefore word index := by
  intro result kept
  have hkept : kept = result.mapError _ :=
    i.map_elements_interpret_withoutIgnored word angle stepLength closed
  rw [hkept]
  cases hresult : result with
  | ok path => simp [Except.mapError]
  | error e =>
    cases e with
    | unbalancedBranch index =>
      have hindex := i.length_withoutIgnored_take word
        (Nat.le_of_lt (lt_length_of_unbalancedBranch hresult))
      have hplace : (i.withoutIgnored (word.take index)).length =
          index - i.ignoredBefore word index := by omega
      simp [Except.mapError, CurveError.reindex, hplace, eq_comm]
    | _ => simp [Except.mapError, CurveError.reindex]

end Interpreter

end FractalCurve
