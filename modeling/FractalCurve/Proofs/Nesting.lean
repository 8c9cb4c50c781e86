import FractalCurve.Interpreter.Basic
import Mathlib.Data.List.Infix
import Mathlib.Order.Basic

/-!
# Nesting of branches

`depth` counts the branches that a list leaves open, `height` is the deepest
nesting on the way, and a list is `Balanced` when it closes what it opens and
nothing else. The definitions serve commands and characters alike.

`checkBranches_eq_ok_iff`: the branches of a word pass the check exactly when
the interpreter allows the depth of everything that can be read of it.
-/

namespace FractalCurve

-- ---------------------------------------------------------------------------
-- Depth
-- ---------------------------------------------------------------------------

theorem forall_prefix_cons {α : Type} {P : List α → Prop} {a : α} {l : List α} :
    (∀ p, p <+: a :: l → P p) ↔ P [] ∧ ∀ p, p <+: l → P (a :: p) := by
  constructor
  · intro h
    exact ⟨h [] List.nil_prefix, fun p hp => h (a :: p) (List.cons_prefix_cons.2 ⟨rfl, hp⟩)⟩
  · rintro ⟨hnil, hcons⟩ p hp
    rcases List.prefix_cons_iff.1 hp with rfl | ⟨q, rfl, hq⟩
    · exact hnil
    · exact hcons q hq

theorem forall_prefix_append {α : Type} {P : List α → Prop} {u v : List α} :
    (∀ p, p <+: u ++ v → P p) ↔ (∀ p, p <+: u → P p) ∧ ∀ p, p <+: v → P (u ++ p) := by
  induction u generalizing P with
  | nil =>
    refine ⟨fun h => ⟨fun p hp => ?_, h⟩, fun h => h.2⟩
    rw [List.prefix_nil.1 hp]
    exact h [] List.nil_prefix
  | cons a u ih => simp only [List.cons_append, forall_prefix_cons, ih, and_assoc]

theorem foldr_max_le_iff {α : Type} {f : α → Nat} {l : List α} {n : Nat} :
    (l.map f).foldr max 0 ≤ n ↔ ∀ a ∈ l, f a ≤ n := by
  induction l with
  | nil => simp
  | cons a l ih =>
    rw [List.map_cons, List.foldr_cons, Nat.max_le, ih, List.forall_mem_cons]

/-- Which items of a list open a branch and which close one. -/
structure Brackets (α : Type) where
  opens : α → Bool
  closes : α → Bool

namespace Brackets

variable {α : Type} (b : Brackets α)

/-- How many branches a list opens beyond those it closes. -/
def depth (l : List α) : Int := l.countP b.opens - l.countP b.closes

/-- The deepest nesting in any part that can be read of a list. -/
def height (l : List α) : Nat := (l.inits.map fun p => (b.depth p).toNat).foldr max 0

/-- Nothing is closed that was not opened before. -/
def Covered (l : List α) : Prop := ∀ p, p <+: l → 0 ≤ b.depth p

/-- Nothing is closed that was not opened before, and nothing is left open. -/
structure Balanced (l : List α) : Prop where
  covered : b.Covered l
  depth_eq : b.depth l = 0

instance (l : List α) : Decidable (b.Covered l) :=
  decidable_of_iff (∀ p ∈ l.inits, 0 ≤ b.depth p)
    (forall_congr' fun p => imp_congr_left (List.mem_inits p l))

instance (l : List α) : Decidable (b.Balanced l) :=
  decidable_of_iff (b.Covered l ∧ b.depth l = 0)
    ⟨fun h => ⟨h.1, h.2⟩, fun h => ⟨h.covered, h.depth_eq⟩⟩

def swap : Brackets α := ⟨b.closes, b.opens⟩

@[simp] theorem depth_nil : b.depth [] = 0 := rfl

@[simp] theorem depth_append (u v : List α) : b.depth (u ++ v) = b.depth u + b.depth v := by
  simp only [depth, List.countP_append]
  omega

theorem depth_cons (a : α) (l : List α) : b.depth (a :: l) = b.depth [a] + b.depth l :=
  b.depth_append [a] l

theorem depth_swap (l : List α) : b.swap.depth l = -b.depth l := by
  simp only [depth, swap]
  omega

-- ---------------------------------------------------------------------------
-- Height
-- ---------------------------------------------------------------------------

theorem height_le_iff {l : List α} {n : Nat} : b.height l ≤ n ↔ ∀ p, p <+: l → b.depth p ≤ n := by
  rw [height, foldr_max_le_iff]
  exact forall_congr' fun p => by rw [List.mem_inits, Int.toNat_le]

theorem depth_le_height {p l : List α} (h : p <+: l) : b.depth p ≤ b.height l :=
  b.height_le_iff.1 le_rfl p h

@[simp] theorem height_nil : b.height [] = 0 := rfl

theorem height_cons (a : α) (l : List α) :
    b.height (a :: l) = (b.depth [a] + b.height l).toNat := by
  refine eq_of_forall_ge_iff fun n => ?_
  rw [height_le_iff, forall_prefix_cons]
  constructor
  · rintro ⟨-, h⟩
    have hl : b.height l ≤ (n - b.depth [a]).toNat := b.height_le_iff.2 fun p hp => by
      have hp := h p hp
      rw [depth_cons] at hp
      omega
    have ha : b.depth [a] ≤ n := h [] List.nil_prefix
    omega
  · intro h
    refine ⟨by simp, fun p hp => ?_⟩
    have hp := b.depth_le_height hp
    rw [depth_cons]
    omega

/-- The swapped height is the number of branches that are closed but not
opened. -/
theorem covered_iff_height_swap {l : List α} : b.Covered l ↔ b.swap.height l = 0 := by
  rw [← Nat.le_zero, height_le_iff]
  exact forall₂_congr fun p _ => by rw [depth_swap]; omega

end Brackets

-- ---------------------------------------------------------------------------
-- Commands
-- ---------------------------------------------------------------------------

abbrev Course := List Command

namespace Command

def isPush : Command → Bool
  | .push => true
  | _ => false

def isPop : Command → Bool
  | .pop => true
  | _ => false

def brackets : Brackets Command := ⟨isPush, isPop⟩

/-- The number of open branches after a command. -/
def nest (c : Command) (branches : Nat) : Nat :=
  match c with
  | .push => branches + 1
  | .pop => branches - 1
  | _ => branches

theorem depth_push : brackets.depth [.push] = 1 := rfl

theorem depth_pop : brackets.depth [.pop] = -1 := rfl

theorem depth_flat {c : Command} (hpush : c ≠ .push) (hpop : c ≠ .pop) :
    brackets.depth [c] = 0 := by
  cases c <;> first | rfl | contradiction

theorem depth_branch {c : Course} (h : brackets.Balanced c) :
    brackets.depth (.push :: c ++ [.pop]) = 0 := by
  rw [List.cons_append, Brackets.depth_cons, Brackets.depth_append, h.depth_eq]
  rfl

theorem nest_eq {c : Command} {branches : Nat} (h : 0 ≤ branches + brackets.depth [c]) :
    (c.nest branches : Int) = branches + brackets.depth [c] := by
  cases c with
  | push => rfl
  | pop =>
    rw [depth_pop] at h ⊢
    simp only [nest]
    omega
  | _ => simp [nest, depth_flat]

end Command

-- ---------------------------------------------------------------------------
-- The check of branches
-- ---------------------------------------------------------------------------

theorem check_bind_ok {ε α : Type} {x : Except ε Unit} {y : Except ε α} {a : α} :
    (x >>= fun _ => y) = .ok a ↔ x = .ok () ∧ y = .ok a := by
  cases x <;> simp [bind, Except.bind]

namespace Interpreter

def course (i : Interpreter) (word : Word) : Course := word.map i.command

@[simp] theorem course_nil (i : Interpreter) : i.course [] = [] := rfl

@[simp] theorem course_cons (i : Interpreter) (symbol : Char) (word : Word) :
    i.course (symbol :: word) = i.command symbol :: i.course word := rfl

@[simp] theorem course_append (i : Interpreter) (u v : Word) :
    i.course (u ++ v) = i.course u ++ i.course v := List.map_append

/-- The depths of nesting that an interpreter accepts. -/
def Allows (i : Interpreter) (depth : Int) : Prop :=
  0 ≤ depth ∧ ∀ limit, i.maxDepth = some limit → depth ≤ limit

theorem allows_zero (i : Interpreter) : i.Allows 0 := ⟨Int.le_refl 0, by simp⟩

theorem checkBranchesFrom_cons (i : Interpreter) (index branches : Nat) (symbol : Char)
    (rest : Word) :
    i.checkBranchesFrom index branches (symbol :: rest) =
      i.checkBranchesFrom index branches [symbol] >>= fun _ =>
        i.checkBranchesFrom (index + 1) ((i.command symbol).nest branches) rest := by
  cases hc : i.command symbol with
  | push =>
    cases hm : i.maxDepth with
    | none => simp [checkBranchesFrom, hc, hm, Command.nest, bind, Except.bind]
    | some limit =>
      simp only [checkBranchesFrom, hc, hm, Command.nest]
      split <;> rfl
  | pop =>
    cases branches with
    | zero => simp [checkBranchesFrom, hc, bind, Except.bind]
    | succ outer => simp [checkBranchesFrom, hc, Command.nest, bind, Except.bind]
  | _ => simp [checkBranchesFrom, hc, Command.nest, bind, Except.bind]

/-- What works on no branch is only counted. -/
theorem checkBranchesFrom_flat {i : Interpreter} {symbol : Char}
    (hpush : i.command symbol ≠ .push) (hpop : i.command symbol ≠ .pop) (index branches : Nat)
    (rest : Word) :
    i.checkBranchesFrom index branches (symbol :: rest) =
      i.checkBranchesFrom (index + 1) branches rest := by
  cases hc : i.command symbol with
  | push => exact absurd hc hpush
  | pop => exact absurd hc hpop
  | _ => simp [checkBranchesFrom, hc]

theorem checkBranchesFrom_single_ok {i : Interpreter} {index branches : Nat} {symbol : Char}
    (h : i.Allows branches) :
    i.checkBranchesFrom index branches [symbol] = .ok () ↔
      i.Allows (branches + Command.brackets.depth [i.command symbol]) := by
  cases hc : i.command symbol with
  | push =>
    rw [Command.depth_push]
    cases hm : i.maxDepth with
    | none =>
      simp only [checkBranchesFrom, hc, hm, Allows, true_iff]
      exact ⟨by omega, by simp⟩
    | some limit =>
      simp only [checkBranchesFrom, hc, hm, Allows, Option.some.injEq, forall_eq']
      split
      next hlt => simp; omega
      next hle => simp; omega
  | pop =>
    rw [Command.depth_pop]
    cases branches with
    | zero => simp [checkBranchesFrom, hc, Allows]
    | succ outer =>
      simp only [checkBranchesFrom, hc, true_iff]
      exact ⟨by omega, fun limit hm => by have := h.2 limit hm; omega⟩
  | _ => simp [checkBranchesFrom, hc, Command.depth_flat, h]

theorem checkBranchesFrom_eq_ok_iff {i : Interpreter} {index branches : Nat} {word : Word}
    (h : i.Allows branches) :
    i.checkBranchesFrom index branches word = .ok () ↔
      ∀ p, p <+: i.course word → i.Allows (branches + Command.brackets.depth p) := by
  induction word generalizing index branches with
  | nil => simp [checkBranchesFrom, h]
  | cons symbol rest ih =>
    rw [checkBranchesFrom_cons, check_bind_ok, checkBranchesFrom_single_ok h, course_cons,
      forall_prefix_cons]
    have hnil : i.Allows (branches + Command.brackets.depth []) := by simpa using h
    -- what follows is checked from the depth after the symbol, which the first
    -- of the longer prefixes bounds
    have hrest : i.Allows (branches + Command.brackets.depth [i.command symbol]) →
        (i.checkBranchesFrom (index + 1) ((i.command symbol).nest branches) rest = .ok () ↔
          ∀ p, p <+: i.course rest →
            i.Allows (branches + Command.brackets.depth (i.command symbol :: p))) := by
      intro hs
      have hn := Command.nest_eq hs.1
      rw [ih (hn ▸ hs), hn]
      exact forall₂_congr fun p _ => by
        rw [Brackets.depth_cons _ (i.command symbol) p, Int.add_assoc]
    constructor
    · rintro ⟨hs, hr⟩
      exact ⟨hnil, (hrest hs).1 hr⟩
    · rintro ⟨-, hr⟩
      have hs := hr [] List.nil_prefix
      exact ⟨hs, (hrest hs).2 hr⟩

theorem checkBranches_eq_ok_iff {i : Interpreter} {word : Word} :
    i.checkBranches word = .ok () ↔
      ∀ p, p <+: i.course word → i.Allows (Command.brackets.depth p) := by
  unfold checkBranches
  rw [checkBranchesFrom_eq_ok_iff i.allows_zero]
  simp only [Int.natCast_zero, Int.zero_add]

end Interpreter

end FractalCurve
