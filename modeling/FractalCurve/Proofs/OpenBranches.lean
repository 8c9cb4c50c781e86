import FractalCurve.Proofs.Branches

/-!
# Branches that are never closed

A course that closes no branch from before it does not look at the turtles saved
before it: `trail_above` puts any others underneath. A push saves one turtle
more, so where it is never closed, what comes behind it leaves the same trail as
without it.

`elements_eraseIdx_of_open`: a push that is never closed can be taken out of a
word.
-/

namespace FractalCurve

open Command (brackets)

-- ---------------------------------------------------------------------------
-- Turtles above others
-- ---------------------------------------------------------------------------

namespace Turtles

variable {angle stepLength : Float32}

/-- The same turtles with others saved before them. -/
def above (t : Turtles) (below : List Turtle) : Turtles := { t with saved := t.saved ++ below }

theorem element?_above (command : Command) (t : Turtles) (below : List Turtle) :
    command.element? (t.above below) = command.element? t := rfl

theorem act_above {command : Command} {t : Turtles}
    (h : 0 ≤ t.saved.length + brackets.depth [command]) (below : List Turtle) :
    command.act angle stepLength (t.above below) =
      (command.act angle stepLength t).above below := by
  obtain ⟨current, saved⟩ := t
  cases command with
  | pop =>
    cases saved with
    | nil => simp [Command.depth_pop] at h
    | cons last outer => rfl
  | _ => rfl

/-- As long as a course finds its own saved turtles, it does not come to those
below. -/
theorem trail_above {c : Course} {t : Turtles} (h : t.Supports c) (below : List Turtle) :
    (t.above below).trail angle stepLength c = t.trail angle stepLength c := by
  induction c generalizing t with
  | nil => rfl
  | cons command rest ih =>
    rw [trail_cons, trail_cons, act_above h.head, element?_above, ih h.tail]

theorem trail_of_covered {c : Course} (h : brackets.Covered c) (current : Turtle)
    (saved : List Turtle) :
    trail angle stepLength ⟨current, saved⟩ c = trail angle stepLength ⟨current, []⟩ c :=
  trail_above (supports_of_covered h ⟨current, []⟩) saved

/-- A push has no trail of its own, and what it saves lies below all that a
covered course comes to. -/
theorem trail_push_of_covered {c : Course} (h : brackets.Covered c) (t : Turtles) :
    t.trail angle stepLength (.push :: c) = t.trail angle stepLength c := by
  obtain ⟨current, saved⟩ := t
  calc
    trail angle stepLength ⟨current, saved⟩ (.push :: c)
    _ = trail angle stepLength ⟨current, current :: saved⟩ c := rfl
    _ = trail angle stepLength ⟨current, []⟩ c := trail_of_covered h current _
    _ = trail angle stepLength ⟨current, saved⟩ c := (trail_of_covered h current _).symm

end Turtles

theorem Course.path_without_open {c : Course} (h : brackets.Covered c) (before : Course)
    (angle stepLength : Float32) (closed : Bool) :
    (before ++ c).path angle stepLength closed =
      (before ++ .push :: c).path angle stepLength closed := by
  rw [path, path, Turtles.trail_append, Turtles.trail_append, Turtles.trail_push_of_covered h]

-- ---------------------------------------------------------------------------
-- Words
-- ---------------------------------------------------------------------------

namespace Interpreter

variable {i : Interpreter}

theorem Allows.of_le {depth deeper : Int} (h : i.Allows deeper) (hcovered : 0 ≤ depth)
    (hle : depth ≤ deeper) : i.Allows depth :=
  ⟨hcovered, fun limit hlimit => Int.le_trans hle (h.2 limit hlimit)⟩

/-- Without the push, all that follows is one branch less deep, and still no
close is without an open. -/
theorem checkBranches_without_open {o : Char} {u v : Word} (ho : i.command o = .push)
    (hv : brackets.Covered (i.course v)) (h : i.checkBranches (u ++ o :: v) = .ok ()) :
    i.checkBranches (u ++ v) = .ok () := by
  rw [checkBranches_eq_ok_iff, course_append, course_cons, ho, forall_prefix_append] at h
  rw [checkBranches_eq_ok_iff, course_append, forall_prefix_append]
  obtain ⟨hu, hbehind⟩ := h
  refine ⟨hu, ?_⟩
  intro p hp
  have hbefore : i.Allows (brackets.depth (i.course u)) := hu _ List.prefix_rfl
  have hinside := hbehind (.push :: p) (List.cons_prefix_cons.2 ⟨rfl, hp⟩)
  have hdepth : 0 ≤ brackets.depth p := hv p hp
  rw [Brackets.depth_append, Brackets.depth_cons, Command.depth_push] at hinside
  rw [Brackets.depth_append]
  exact hinside.of_le (Int.add_nonneg hbefore.1 hdepth) (by omega)

/-- A word at a push that is never closed. -/
theorem exists_open_push {word : Word} {place : Nat}
    (hpush : (i.course word)[place]? = some .push)
    (hopen : brackets.Covered ((i.course word).drop (place + 1))) :
    ∃ u o v, word = u ++ o :: v ∧ word.eraseIdx place = u ++ v ∧ i.command o = .push ∧
      brackets.Covered (i.course v) := by
  rw [course, List.getElem?_map, Option.map_eq_some_iff] at hpush
  obtain ⟨o, hplace, ho⟩ := hpush
  obtain ⟨hlt, rfl⟩ := List.getElem?_eq_some_iff.1 hplace
  refine ⟨word.take place, word[place], word.drop (place + 1), ?_, ?_, ho, ?_⟩
  · rw [List.getElem_cons_drop, List.take_append_drop]
  · exact List.eraseIdx_eq_take_drop_succ ..
  · rwa [course, List.map_drop]

/-- A branch that is never closed is inert: without its push, the word is
accepted as well and gives the same elements. -/
theorem elements_eraseIdx_of_open {word : Word} {angle stepLength : Float32} {closed : Bool}
    {w : Walk} {place : Nat} (hpush : (i.course word)[place]? = some .push)
    (hopen : brackets.Covered ((i.course word).drop (place + 1)))
    (h : i.interpret word angle stepLength closed = .ok w) :
    (i.interpret (word.eraseIdx place) angle stepLength closed).map Walk.elements =
      .ok w.elements := by
  obtain ⟨hstep, hcheck, rfl⟩ := interpret_eq_ok_iff.1 h
  obtain ⟨u, o, v, rfl, hkept, ho, hv⟩ := exists_open_push hpush hopen
  have hpath : (i.course (u ++ v)).path angle stepLength closed =
      (i.course (u ++ o :: v)).path angle stepLength closed := by
    rw [course_append, course_append, course_cons, ho, Course.path_without_open hv]
  rw [hkept, map_elements_interpret, hstep, checkBranches_without_open ho hv hcheck,
    Walk.elements_start, ← hpath]
  rfl

/-- The second of three branches left open, with a closed one inside of it. -/
theorem elements_eraseIdx_of_nested_open :
    ∃ w, (⟨standard.commands, some 3⟩ : Interpreter).interpret "[F[+F[-F]G[F".toList
        1.5 10.0 true = .ok w ∧
      ((⟨standard.commands, some 3⟩ : Interpreter).course "[F[+F[-F]G[F".toList)[2]? =
        some .push ∧
      brackets.Covered
        (((⟨standard.commands, some 3⟩ : Interpreter).course "[F[+F[-F]G[F".toList).drop 3) ∧
      ((⟨standard.commands, some 3⟩ : Interpreter).interpret ("[F[+F[-F]G[F".toList.eraseIdx 2)
        1.5 10.0 true).map Walk.elements = .ok w.elements := by
  have h : (⟨standard.commands, some 3⟩ : Interpreter).interpret "[F[+F[-F]G[F".toList
      1.5 10.0 true = .ok _ := interpret_eq_ok_iff.2 ⟨by decide, by decide, rfl⟩
  exact ⟨_, h, by decide, by decide, elements_eraseIdx_of_open (by decide) (by decide) h⟩

end Interpreter

end FractalCurve
