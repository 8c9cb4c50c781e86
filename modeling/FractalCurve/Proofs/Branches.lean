import FractalCurve.Proofs.Trail

/-!
# Branches of a walk

`Course.openings` lists the pushes that a course leaves open. They are what a
walk has saved turtles for: `saved_track` reads the saved turtles off the
course, from which follows that a balanced course leaves them alone.

`frames_after_calls`: the saved turtles of a walk fit the part of its word that
it has read, wherever it is stopped. `elements_around_branch`: a closed branch
adds its own elements to a path and changes none of the others.
-/

namespace FractalCurve

open Command (brackets)

/-- The places of the pushes that a course leaves open, from left to right. -/
def Course.openings : Course → List Nat
  | [] => []
  | command :: rest =>
    let later := (openings rest).map (· + 1)
    if command = .push ∧ brackets.Covered rest then 0 :: later else later

theorem Course.mem_openings_iff {course : Course} {k : Nat} :
    k ∈ openings course ↔ course[k]? = some .push ∧ brackets.Covered (course.drop (k + 1)) := by
  induction course generalizing k with
  | nil => simp [openings]
  | cons command rest ih =>
    rw [openings]
    cases k with
    | zero =>
      rw [List.getElem?_cons_zero, Option.some.injEq, List.drop_succ_cons, List.drop_zero]
      split
      next hopen => simp [hopen]
      next hopen => simp [hopen]
    | succ k =>
      rw [List.getElem?_cons_succ, List.drop_succ_cons, ← ih]
      split
      next => simp
      next => simp

theorem Course.openings_increasing (c : Course) : (openings c).Pairwise (· < ·) := by
  induction c with
  | nil => exact .nil
  | cons command rest ih =>
    have hlater : ((openings rest).map (· + 1)).Pairwise (· < ·) :=
      ih.map _ fun _ _ h => Nat.succ_lt_succ h
    rw [openings]
    split
    next =>
      refine .cons ?_ hlater
      intro k hk
      obtain ⟨k, -, rfl⟩ := List.mem_map.1 hk
      exact Nat.succ_pos k
    next => exact hlater

theorem Course.length_openings (c : Course) :
    ((openings c).length : Int) = brackets.depth c + brackets.swap.height c := by
  induction c with
  | nil => rfl
  | cons command rest ih =>
    rw [openings, Brackets.depth_cons, Brackets.height_cons, Brackets.depth_swap]
    cases command with
    | push =>
      rw [Command.depth_push]
      by_cases hr : brackets.Covered rest
      · have hheight := brackets.covered_iff_height_swap.1 hr
        simp only [hr, and_self, if_true, List.length_cons, List.length_map]
        omega
      · have hheight := mt brackets.covered_iff_height_swap.2 hr
        simp only [hr, and_false, if_false, List.length_map]
        omega
    | pop =>
      rw [Command.depth_pop]
      simp only [reduceCtorEq, false_and, if_false, List.length_map]
      omega
    | _ => simp [Command.depth_flat, ih]

theorem Course.openings_of_balanced {c : Course} (h : brackets.Balanced c) : openings c = [] := by
  have hlen := length_openings c
  rw [h.depth_eq, brackets.covered_iff_height_swap.1 h.covered] at hlen
  exact List.length_eq_zero_iff.1 (Int.ofNat_eq_zero.1 hlen)

-- ---------------------------------------------------------------------------
-- Saved turtles
-- ---------------------------------------------------------------------------

namespace Turtles

variable {angle stepLength : Float32}

theorem saved_act_push (t : Turtles) :
    (Command.act .push angle stepLength t).saved = t.current :: t.saved := rfl

theorem saved_act_pop (t : Turtles) :
    (Command.act .pop angle stepLength t).saved = t.saved.drop 1 := by
  obtain ⟨current, saved⟩ := t
  cases saved <;> rfl

theorem saved_act_flat {c : Command} (hpush : c ≠ .push) (hpop : c ≠ .pop) (t : Turtles) :
    (c.act angle stepLength t).saved = t.saved := by
  cases c <;> first | rfl | contradiction

theorem length_saved_act (c : Command) (t : Turtles) :
    (c.act angle stepLength t).saved.length = c.nest t.saved.length := by
  cases c with
  | pop => rw [saved_act_pop, List.length_drop]; rfl
  | _ => rfl

/-- No close of a course lacks a saved turtle. -/
def Supports (t : Turtles) (c : Course) : Prop :=
  ∀ p, p <+: c → 0 ≤ t.saved.length + brackets.depth p

theorem supports_of_covered {c : Course} (h : brackets.Covered c) (t : Turtles) :
    t.Supports c :=
  fun p hp => Int.add_nonneg (Int.natCast_nonneg _) (h p hp)

theorem length_saved_act_eq {command : Command} {t : Turtles}
    (h : 0 ≤ t.saved.length + brackets.depth [command]) :
    ((command.act angle stepLength t).saved.length : Int) =
      t.saved.length + brackets.depth [command] := by
  rw [length_saved_act, Command.nest_eq h]

theorem Supports.head {command : Command} {rest : Course} {t : Turtles}
    (h : t.Supports (command :: rest)) : 0 ≤ t.saved.length + brackets.depth [command] :=
  (forall_prefix_cons.1 h).2 [] List.nil_prefix

/-- The turtles that a command leaves support what follows it. -/
theorem Supports.tail {command : Command} {rest : Course} {t : Turtles}
    (h : t.Supports (command :: rest)) : (command.act angle stepLength t).Supports rest := by
  intro p hp
  rw [length_saved_act_eq h.head, Int.add_assoc, ← Brackets.depth_cons]
  exact (forall_prefix_cons.1 h).2 p hp

theorem length_saved_track {c : Course} {t : Turtles} (h : t.Supports c) :
    ((t.track angle stepLength c).saved.length : Int) = t.saved.length + brackets.depth c := by
  induction c generalizing t with
  | nil => simp
  | cons command rest ih =>
    rw [track_cons, ih h.tail, length_saved_act_eq h.head, Int.add_assoc, ← Brackets.depth_cons]

/-- The turtle at each push that a course leaves open. -/
def atOpenings (angle stepLength : Float32) (t : Turtles) (c : Course) : List Turtle :=
  (Course.openings c).map fun k => (t.track angle stepLength (c.take k)).current

theorem atOpenings_cons (t : Turtles) (command : Command) (rest : Course) :
    t.atOpenings angle stepLength (command :: rest) =
      (if command = .push ∧ brackets.Covered rest then [t.current] else []) ++
        (command.act angle stepLength t).atOpenings angle stepLength rest := by
  simp only [atOpenings, Course.openings]
  split <;> simp [Function.comp_def]

theorem length_saved_track_start {c : Course} (h : brackets.Covered c) :
    ((start.track angle stepLength c).saved.length : Int) = brackets.depth c := by
  rw [length_saved_track (supports_of_covered h start)]
  exact Int.zero_add _

/-- A course saves the turtles at its open pushes. Of those saved before it
takes away one for every close that it does not open. -/
theorem saved_track (c : Course) (t : Turtles) :
    (t.track angle stepLength c).saved =
      (t.atOpenings angle stepLength c).reverse ++ t.saved.drop (brackets.swap.height c) := by
  induction c generalizing t with
  | nil => simp [atOpenings, Course.openings]
  | cons command rest ih =>
    rw [track_cons, ih, atOpenings_cons, Brackets.height_cons, Brackets.depth_swap]
    cases command with
    | push =>
      rw [saved_act_push, Command.depth_push]
      by_cases hr : brackets.Covered rest
      · simp [hr, brackets.covered_iff_height_swap.1 hr]
      · -- one of the closes in the rest belongs to the push
        obtain ⟨n, hn⟩ := Nat.exists_eq_succ_of_ne_zero (mt brackets.covered_iff_height_swap.2 hr)
        have hone : (-1 + (n + 1 : Nat) : Int).toNat = n := by omega
        rw [hn, hone, List.drop_succ_cons, if_neg fun h => hr h.2, List.nil_append]
    | pop =>
      have hone : (-(-1) + (brackets.swap.height rest : Int)).toNat =
          1 + brackets.swap.height rest := by omega
      rw [saved_act_pop, Command.depth_pop, List.drop_drop, hone]
      simp
    | _ => simp [saved_act_flat, Command.depth_flat]

theorem saved_track_start {c : Course} (h : brackets.Covered c) :
    (start.track angle stepLength c).saved = (start.atOpenings angle stepLength c).reverse := by
  rw [saved_track, brackets.covered_iff_height_swap.1 h]
  exact List.append_nil _

theorem saved_track_of_balanced {c : Course} (h : brackets.Balanced c) (t : Turtles) :
    (t.track angle stepLength c).saved = t.saved := by
  rw [saved_track, brackets.covered_iff_height_swap.1 h.covered, atOpenings,
    Course.openings_of_balanced h]
  rfl

/-- A closed branch leads back to where it began. -/
theorem track_branch {c : Course} (h : brackets.Balanced c) (t : Turtles) :
    t.track angle stepLength (.push :: c ++ [.pop]) = t := by
  rw [List.cons_append, track_cons, track_append, track_cons, track_nil]
  generalize hr : (Command.act .push angle stepLength t).track angle stepLength c = reached
  have hsaved : reached.saved = t.current :: t.saved := by
    rw [← hr, saved_track_of_balanced h, saved_act_push]
  simp [Command.act, hsaved]

theorem trail_branch (c : Course) (t : Turtles) :
    t.trail angle stepLength (.push :: c ++ [.pop]) =
      (Command.act .push angle stepLength t).trail angle stepLength c ++ [.gap] := by
  rw [List.cons_append, trail_cons, trail_append]
  rfl

theorem saved_ne_nil_of_covered {before behind : Course}
    (h : brackets.Covered (before ++ .pop :: behind)) :
    (start.track angle stepLength before).saved ≠ [] := by
  have hbefore : brackets.Covered before := fun p hp => h p (hp.trans (List.prefix_append _ _))
  have hpop := h (before ++ [.pop]) ⟨behind, by simp⟩
  rw [Brackets.depth_append, Command.depth_pop] at hpop
  intro hnone
  have hlength : (([] : List Turtle).length : Int) = brackets.depth before :=
    hnone ▸ length_saved_track_start hbefore
  simp only [List.length_nil] at hlength
  omega

end Turtles

-- ---------------------------------------------------------------------------
-- Walks
-- ---------------------------------------------------------------------------

/-- The turtles of a walk that has read a part of its word: the saved ones are
those of the pushes left open, the outermost last, and are as many as the cap
allows. No close has found none. -/
structure Turtles.Framed (t : Turtles) (i : Interpreter) (angle stepLength : Float32)
    (consumed : Word) : Prop where
  reached : t = start.track angle stepLength (i.course consumed)
  length_eq : (t.saved.length : Int) = brackets.depth (i.course consumed)
  length_le : ∀ limit, i.maxDepth = some limit → t.saved.length ≤ limit
  frames_eq : t.saved.reverse = start.atOpenings angle stepLength (i.course consumed)
  pop_ne_nil : ∀ before k behind, consumed = before ++ k :: behind → i.command k = .pop →
    (start.track angle stepLength (i.course before)).saved ≠ []

theorem Turtles.framed_track {i : Interpreter} {consumed later : Word}
    (hcheck : i.checkBranches (consumed ++ later) = .ok ()) (angle stepLength : Float32) :
    (start.track angle stepLength (i.course consumed)).Framed i angle stepLength consumed := by
  have hallowed : ∀ p, p <+: i.course consumed → i.Allows (brackets.depth p) := by
    rw [Interpreter.checkBranches_eq_ok_iff, Interpreter.course_append] at hcheck
    exact fun p hp => hcheck p (hp.trans (List.prefix_append _ _))
  have hcovered : brackets.Covered (i.course consumed) := fun p hp => (hallowed p hp).1
  have hlength : ((start.track angle stepLength (i.course consumed)).saved.length : Int) =
      brackets.depth (i.course consumed) := length_saved_track_start hcovered
  refine ⟨rfl, hlength, ?_, ?_, ?_⟩
  · intro limit hlimit
    have hle := (hallowed _ List.prefix_rfl).2 limit hlimit
    rw [← hlength] at hle
    exact Int.ofNat_le.1 hle
  · rw [saved_track_start hcovered, List.reverse_reverse]
  · rintro before k behind rfl hk
    rw [Interpreter.course_append, Interpreter.course_cons, hk] at hcovered
    exact saved_ne_nil_of_covered hcovered

/-- Wherever a walk is stopped, its saved turtles fit what it has read. -/
theorem frames_after_calls {i : Interpreter} {word : Word} {angle stepLength : Float32}
    {closed : Bool} {w : Walk} (h : i.interpret word angle stepLength closed = .ok w) (n : Nat) :
    ∃ consumed, word = consumed ++ (w.after n).rest ∧
      (w.after n).turtles.Framed i angle stepLength consumed := by
  obtain ⟨-, hcheck, rfl⟩ := Interpreter.interpret_eq_ok_iff.1 h
  obtain ⟨phase, consumed, later, rfl, hafter⟩ := Walk.after_consumes n
    ⟨i, angle, stepLength, closed, .start, word, Turtles.start⟩
  rw [hafter]
  exact ⟨consumed, rfl, Turtles.framed_track hcheck angle stepLength⟩

/-- Stopped inside of two branches that are never closed. -/
theorem frames_in_open_branches :
    ∃ w, (⟨Interpreter.standard.commands, some 2⟩ : Interpreter).interpret "F[+F[F".toList
        1.5 10.0 true = .ok w ∧
      (w.after 4).rest = [] ∧ (w.after 4).turtles.saved.length = 2 ∧
        (w.after 4).turtles.Framed ⟨Interpreter.standard.commands, some 2⟩ 1.5 10.0
          "F[+F[F".toList := by
  have h : (⟨Interpreter.standard.commands, some 2⟩ : Interpreter).interpret "F[+F[F".toList
      1.5 10.0 true = .ok _ := Interpreter.interpret_eq_ok_iff.2 ⟨by decide, by decide, rfl⟩
  obtain ⟨consumed, hconsumed, hframed⟩ := frames_after_calls h 4
  obtain rfl : "F[+F[F".toList = consumed := hconsumed.trans (List.append_nil _)
  exact ⟨_, h, rfl, rfl, hframed⟩

theorem Interpreter.course_around_branch {i : Interpreter} {o k : Char}
    (ho : i.command o = .push) (hk : i.command k = .pop) (u b v : Word) :
    i.course (u ++ o :: b ++ k :: v) =
      i.course u ++ ((.push :: i.course b ++ [.pop]) ++ i.course v) := by
  simp [ho, hk]

/-- Cut out of a word that passes the check, a closed branch leaves one that
passes it too. -/
theorem Interpreter.checkBranches_cut_branch {i : Interpreter} {o k : Char} {u b v : Word}
    (ho : i.command o = .push) (hk : i.command k = .pop) (hb : brackets.Balanced (i.course b))
    (h : i.checkBranches (u ++ o :: b ++ k :: v) = .ok ()) :
    i.checkBranches u = .ok () ∧ i.checkBranches (u ++ v) = .ok () := by
  rw [checkBranches_eq_ok_iff, course_around_branch ho hk, forall_prefix_append,
    forall_prefix_append] at h
  obtain ⟨hu, -, hv⟩ := h
  refine ⟨checkBranches_eq_ok_iff.2 hu, ?_⟩
  rw [checkBranches_eq_ok_iff, course_append, forall_prefix_append]
  refine ⟨hu, ?_⟩
  intro p hp
  have hbehind := hv p hp
  rwa [Brackets.depth_append, Brackets.depth_append, Command.depth_branch hb, Int.zero_add,
    ← Brackets.depth_append] at hbehind

/-- A closed branch has no effect outside itself. -/
theorem elements_around_branch {i : Interpreter} {o k : Char} {u b v : Word}
    {angle stepLength : Float32} {closed : Bool} {w : Walk}
    (ho : i.command o = .push) (hk : i.command k = .pop) (hb : brackets.Balanced (i.course b))
    (h : i.interpret (u ++ o :: b ++ k :: v) angle stepLength closed = .ok w) :
    ∃ A B C, (i.interpret u angle stepLength false).map Walk.elements = .ok A ∧
      (i.interpret (u ++ v) angle stepLength closed).map Walk.elements = .ok (A ++ C) ∧
      w.elements = A ++ B ++ [.gap] ++ C ∧
      B.length = (i.course b).countP fun command => command.isDraw || command.isPop := by
  obtain ⟨hstep, hcheck, rfl⟩ := Interpreter.interpret_eq_ok_iff.1 h
  obtain ⟨hu, hcut⟩ := Interpreter.checkBranches_cut_branch ho hk hb hcheck
  -- the turtles at the branch, and with the push carried out
  let t := Turtles.start.track angle stepLength (i.course u)
  let inside := Command.act .push angle stepLength t
  refine ⟨(i.course u).path angle stepLength false, inside.trail angle stepLength (i.course b),
    t.trail angle stepLength (i.course v) ++ closing closed, ?_, ?_, ?_, Turtles.length_trail _ _⟩
  · rw [Interpreter.map_elements_interpret, hstep, hu]
    rfl
  · rw [Interpreter.map_elements_interpret, hstep, hcut]
    simp [Course.path, Turtles.trail_append, closing, t, bind, Except.bind, pure, Except.pure]
  · rw [Walk.elements_start, Interpreter.course_around_branch ho hk, Course.path,
      Turtles.trail_append, Turtles.trail_append, Turtles.trail_branch, Turtles.track_branch hb]
    simp [Course.path, closing, t, inside]

theorem elements_around_nested_branch :
    ∃ w, Interpreter.standard.interpret
        ("F+".toList ++ '[' :: "F[-F]F".toList ++ ']' :: "F".toList) 1.5 10.0 true =
          .ok w ∧
      ∃ A B C,
        (Interpreter.standard.interpret "F+".toList 1.5 10.0 false).map Walk.elements =
          .ok A ∧
        (Interpreter.standard.interpret ("F+".toList ++ "F".toList) 1.5 10.0 true).map
          Walk.elements = .ok (A ++ C) ∧
        w.elements = A ++ B ++ [.gap] ++ C ∧
        B.length = (Interpreter.standard.course "F[-F]F".toList).countP
          fun command => command.isDraw || command.isPop := by
  have h : Interpreter.standard.interpret
      ("F+".toList ++ '[' :: "F[-F]F".toList ++ ']' :: "F".toList) 1.5 10.0 true = .ok _ :=
    Interpreter.interpret_eq_ok_iff.2 ⟨by decide, by decide, rfl⟩
  exact ⟨_, h, elements_around_branch (by decide) (by decide) (by decide) h⟩

end FractalCurve
