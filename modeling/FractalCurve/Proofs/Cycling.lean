import FractalCurve.Proofs.Browsing
import Mathlib.Algebra.Order.Ring.Int
import Mathlib.Algebra.Ring.Divisibility.Basic
import Mathlib.Data.List.Nodup
import Mathlib.Data.List.Perm.Subperm
import Mathlib.Tactic.Ring

/-!
# Browsing goes round

Moves by one curve either way. A place past an end becomes the other end, which
is the place modulo the number of curves, so moves add up, whatever their order.

`switches_cyclic`: where any moves lead, that moves either way undo each other,
and that a round visits every curve exactly once.
-/

namespace FractalCurve.Selector

/-- The next curve, or the one before. -/
inductive Move where
  | next
  | previous
deriving DecidableEq

def Move.direction : Move → Int
  | .next => 1
  | .previous => -1

def switches (s : Selector) (moves : List Move) : Selector :=
  s.run (moves.map fun move => .switch move.direction)

theorem switches_cons (s : Selector) (move : Move) (moves : List Move) :
    s.switches (move :: moves) = (s.switch move.direction).switches moves := rfl

-- ---------------------------------------------------------------------------
-- Places
-- ---------------------------------------------------------------------------

/-- One place past either end, wrapping is reduction modulo the size. -/
theorem wrap_eq_emod {size : Nat} {place : Int} (hlow : -1 ≤ place) (hhigh : place ≤ size)
    (hsize : 0 < size) : (wrap size place : Int) = place % size := by
  unfold wrap
  obtain rfl | hinside | rfl : place = -1 ∨ (0 ≤ place ∧ place < size) ∨ place = size := by omega
  · rw [if_pos (by decide), ← Int.add_emod_right, Int.emod_eq_of_lt (by omega) (by omega)]
    omega
  · rw [if_neg (by omega), if_neg (by omega), Int.emod_eq_of_lt hinside.1 hinside.2]
    omega
  · rw [if_neg (by omega), if_pos (Int.le_refl _), Int.emod_self]
    rfl

theorem index_switch (s : Selector) (move : Move) :
    ((s.switch move.direction).index : Int) =
      (s.index + move.direction) % s.catalog.curves.length := by
  have hindex := s.index_lt
  refine wrap_eq_emod ?_ ?_ (Nat.zero_lt_of_lt hindex) <;> cases move <;>
    simp only [Move.direction] <;> omega

theorem catalog_switches (s : Selector) (moves : List Move) :
    (s.switches moves).catalog = s.catalog := by
  induction moves generalizing s with
  | nil => rfl
  | cons move moves ih => exact ih (s.switch move.direction)

/-- Moves add up. -/
theorem index_switches (s : Selector) (moves : List Move) :
    ((s.switches moves).index : Int) =
      (s.index + moves.count .next - moves.count .previous) % s.catalog.curves.length := by
  induction moves generalizing s with
  | nil =>
    have hindex := s.index_lt
    simp only [List.count_nil, Nat.cast_zero, add_zero, sub_zero]
    rw [Int.emod_eq_of_lt (by omega) (by omega)]
    rfl
  | cons move moves ih =>
    rw [switches_cons, ih, index_switch]
    show (_ % (s.catalog.curves.length : Int) + _ - _) % (s.catalog.curves.length : Int) = _
    rw [Int.sub_emod, Int.emod_add_emod, ← Int.sub_emod]
    congr 1
    cases move <;> simp [Move.direction] <;> ring

/-- Back where the selection was, nothing has changed but that debug mode has been
left. -/
theorem switches_pair_eq {s : Selector} {move back : Move}
    (h : (s.switches [move, back]).index = s.index) :
    s.switches [move, back] = { s with debugMode := false, debugStep := 0 } := by
  have hplace : s.switches [move, back] =
      ⟨s.catalog, (s.switches [move, back]).index, (s.switches [move, back]).index_lt, s.box, false,
        0⟩ := rfl
  rw [hplace]
  simp only [h]

theorem index_undone {s : Selector} {moves : List Move}
    (h : moves.count .next = moves.count .previous) : (s.switches moves).index = s.index := by
  have hindex := s.index_lt
  have hplace := s.index_switches moves
  rw [h, add_sub_cancel_right, Int.emod_eq_of_lt (by omega) (by omega)] at hplace
  exact_mod_cast hplace

-- ---------------------------------------------------------------------------
-- Rounds
-- ---------------------------------------------------------------------------

/-- The same move a number of times. -/
theorem index_replicate (s : Selector) (n : Nat) (move : Move) :
    ((s.switches (List.replicate n move)).index : Int) =
      (s.index + n * move.direction) % s.catalog.curves.length := by
  rw [index_switches, List.count_replicate, List.count_replicate]
  cases move <;> simp [Move.direction, Int.sub_eq_add_neg]

theorem index_round (s : Selector) (move : Move) :
    (s.switches (List.replicate s.catalog.curves.length move)).index = s.index := by
  have hindex := s.index_lt
  have hplace := s.index_replicate s.catalog.curves.length move
  rw [Int.add_mul_emod_self_left, Int.emod_eq_of_lt (by omega) (by omega)] at hplace
  exact_mod_cast hplace

/-- Within one round no place comes twice. -/
theorem index_replicate_inj (s : Selector) (move : Move) {j k : Nat}
    (hj : j < s.catalog.curves.length) (hk : k < s.catalog.curves.length)
    (h : (s.switches (List.replicate (j + 1) move)).index =
      (s.switches (List.replicate (k + 1) move)).index) : j = k := by
  have hplaces : ((s.switches (List.replicate (j + 1) move)).index : Int) =
      (s.switches (List.replicate (k + 1) move)).index := by rw [h]
  rw [index_replicate, index_replicate, Int.emod_eq_emod_iff_emod_sub_eq_zero] at hplaces
  have hdvd : (s.catalog.curves.length : Int) ∣ j - k := by
    have hdifference := Int.dvd_of_emod_eq_zero hplaces
    cases move with
    | next => simpa [Move.direction] using hdifference
    | previous => simpa [Move.direction, neg_add_eq_sub, dvd_sub_comm] using hdifference
  have hzero := Int.eq_zero_of_abs_lt_dvd hdvd (abs_lt.2 ⟨by omega, by omega⟩)
  omega

theorem indexes_round_perm (s : Selector) (move : Move) :
    ((List.range s.catalog.curves.length).map fun k =>
      (s.switches (List.replicate (k + 1) move)).index).Perm
        (List.range s.catalog.curves.length) := by
  refine (List.Nodup.subperm (List.Nodup.map_on ?_ List.nodup_range) ?_).perm_of_length_le (by simp)
  · intro j hj k hk h
    exact s.index_replicate_inj move (List.mem_range.1 hj) (List.mem_range.1 hk) h
  · intro place hplace
    obtain ⟨k, -, rfl⟩ := List.mem_map.1 hplace
    have hindex := (s.switches (List.replicate (k + 1) move)).index_lt
    rw [catalog_switches] at hindex
    exact List.mem_range.2 hindex

theorem getElem?_index_switches (s : Selector) (moves : List Move) :
    s.catalog.curves[(s.switches moves).index]? = some (s.switches moves).current := by
  rw [← getElem?_index, catalog_switches]

theorem currents_round_perm (s : Selector) (move : Move) :
    ((List.range s.catalog.curves.length).map fun k =>
      (s.switches (List.replicate (k + 1) move)).current).Perm s.catalog.curves := by
  have hperm := (s.indexes_round_perm move).map fun place => s.catalog.curves[place]?
  have hall : (List.range s.catalog.curves.length).map (fun place => s.catalog.curves[place]?) =
      s.catalog.curves.map some := by
    refine List.ext_getElem (by simp) fun k hk _ => ?_
    simp at hk
    simp [hk]
  rw [hall, List.map_map] at hperm
  simp only [Function.comp_def, getElem?_index_switches] at hperm
  rw [← List.map_perm_map_iff (Option.some_injective Curve), List.map_map]
  exact hperm

/-- Any moves lead as far as they add up to, modulo the number of curves. Two moves
that undo each other leave nothing behind but that debug mode is off. As many
moves one way as there are curves show each of them once and come back. -/
theorem switches_cyclic (s : Selector) :
    let size := s.catalog.curves.length
    (∀ moves : List Move, ((s.switches moves).index : Int) =
      (s.index + moves.count .next - moves.count .previous) % size) ∧
    s.switches [.next, .previous] = { s with debugMode := false, debugStep := 0 } ∧
    s.switches [.previous, .next] = { s with debugMode := false, debugStep := 0 } ∧
    ∀ move : Move,
      ((List.range size).map fun k =>
        (s.switches (List.replicate (k + 1) move)).index).Perm (List.range size) ∧
      ((List.range size).map fun k =>
        (s.switches (List.replicate (k + 1) move)).current).Perm s.catalog.curves ∧
      (s.switches (List.replicate size move)).index = s.index := by
  refine ⟨s.index_switches, ?_, ?_, fun move => ⟨?_, ?_, ?_⟩⟩
  · exact switches_pair_eq (index_undone rfl)
  · exact switches_pair_eq (index_undone rfl)
  · exact s.indexes_round_perm move
  · exact s.currents_round_perm move
  · exact s.index_round move

end FractalCurve.Selector
