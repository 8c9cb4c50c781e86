import FractalCurve.Path.Element
import Mathlib.Data.List.DropRight

/-!
# Splitting a path into lines

The lines of a path keep all its points and where it is interrupted, but not
how often, and nothing of the gaps at its ends. `tidy` forgets just that much of
a path, and what it leaves are the lines joined by single gaps.

`polylines_eq_iff`: two paths have the same lines if and only if they are the
same when tidied, and joined lines are split again.
-/

namespace FractalCurve.Path

-- ---------------------------------------------------------------------------
-- Runs
-- ---------------------------------------------------------------------------

theorem exists_runs_eq_cons (path : Path) : ∃ run later, path.runs = run :: later := by
  cases path with
  | nil => exact ⟨[], [], rfl⟩
  | cons e path =>
    rw [runs_cons]
    cases e with
    | gap => exact ⟨[], runs path, rfl⟩
    | point p =>
      cases runs path with
      | nil => exact ⟨[p], [], rfl⟩
      | cons run later => exact ⟨p :: run, later, rfl⟩

theorem runs_append_gap (before behind : Path) :
    runs (before ++ .gap :: behind) = before.runs ++ behind.runs := by
  induction before with
  | nil => rfl
  | cons e before ih =>
    rw [List.cons_append, runs_cons, runs_cons, ih]
    cases e with
    | gap => rfl
    | point p =>
      obtain ⟨run, later, hruns⟩ := exists_runs_eq_cons before
      rw [hruns]
      rfl

theorem runs_map_point (line : List Vec3) : runs (line.map .point) = [line] := by
  induction line with
  | nil => rfl
  | cons p line ih => rw [List.map_cons, runs_cons, ih, extendRuns]

theorem flatten_runs (path : Path) : path.runs.flatten = path.points := by
  induction path with
  | nil => rfl
  | cons e path ih =>
    cases e with
    | gap => exact ih
    | point p =>
      obtain ⟨run, later, hruns⟩ := exists_runs_eq_cons path
      rw [points_cons_point, ← ih, runs_cons, hruns]
      rfl

-- ---------------------------------------------------------------------------
-- Lines
-- ---------------------------------------------------------------------------

theorem polylines_append_gap (before behind : Path) :
    polylines (before ++ .gap :: behind) = before.polylines ++ behind.polylines := by
  rw [polylines, runs_append_gap, List.filter_append]
  rfl

theorem polylines_map_point {line : List Vec3} (h : line ≠ []) :
    polylines (line.map .point) = [line] := by
  rw [polylines, runs_map_point]
  exact List.filter_cons_of_pos (by simpa using h)

theorem ne_nil_of_mem_polylines {path : Path} {line : List Vec3} (h : line ∈ path.polylines) :
    line ≠ [] := by
  simpa using (List.mem_filter.1 h).2

theorem flatten_polylines (path : Path) : path.polylines.flatten = path.points := by
  rw [polylines, List.flatten_filter_not_isEmpty, flatten_runs]

/-- The lines one after the other, a gap between any two of them. -/
def join (lines : List (List Vec3)) : Path :=
  [PathElement.gap].intercalate (lines.map (List.map .point))

theorem join_cons_cons (line next : List Vec3) (lines : List (List Vec3)) :
    join (line :: next :: lines) = line.map .point ++ .gap :: join (next :: lines) := by
  simp [join, List.intercalate]

theorem polylines_join {lines : List (List Vec3)} (h : ∀ line ∈ lines, line ≠ []) :
    (join lines).polylines = lines := by
  induction lines with
  | nil => rfl
  | cons line lines ih =>
    obtain ⟨hline, hlines⟩ := List.forall_mem_cons.1 h
    cases lines with
    | nil =>
      have hjoin : join [line] = line.map .point := by simp [join]
      rw [hjoin, polylines_map_point hline]
    | cons next lines =>
      rw [join_cons_cons, polylines_append_gap, polylines_map_point hline, ih hlines]
      rfl

-- ---------------------------------------------------------------------------
-- Tidy paths
-- ---------------------------------------------------------------------------

/-- Puts an element in front of a path, unless both would be gaps. -/
def settle : PathElement → Path → Path
  | .gap, .gap :: path => .gap :: path
  | e, path => e :: path

/-- One gap in place of each run of gaps. -/
def collapse (path : Path) : Path := path.foldr settle []

/-- Without gaps at either end, and never more than one gap in a row. -/
def tidy (path : Path) : Path :=
  (path.collapse.rdropWhile PathElement.isGap).dropWhile PathElement.isGap

theorem rdropWhile_cons {α : Type} (p : α → Bool) (a : α) (l : List α) :
    (a :: l).rdropWhile p =
      if l.rdropWhile p = [] then [a].rdropWhile p else a :: l.rdropWhile p := by
  by_cases h : l.reverse.dropWhile p = [] <;>
    simp [List.rdropWhile, List.dropWhile_append, h]

theorem rdropWhile_point_cons (p : Vec3) (path : Path) :
    (PathElement.point p :: path).rdropWhile PathElement.isGap =
      .point p :: path.rdropWhile PathElement.isGap := by
  have hkept : [PathElement.point p].rdropWhile PathElement.isGap = [.point p] := rfl
  rw [rdropWhile_cons, hkept]
  split
  next hnone => rw [hnone]
  next => rfl

theorem rdropWhile_gap_cons {path : Path} (h : path.rdropWhile PathElement.isGap ≠ []) :
    (PathElement.gap :: path).rdropWhile PathElement.isGap =
      .gap :: path.rdropWhile PathElement.isGap := by
  rw [rdropWhile_cons, if_neg h]

/-- A line that follows a gap. -/
def behindGap (line : List Vec3) : Path := .gap :: line.map .point

theorem join_cons (line : List Vec3) (lines : List (List Vec3)) :
    join (line :: lines) = line.map .point ++ lines.flatMap behindGap := by
  induction lines generalizing line with
  | nil => simp [join]
  | cons next lines ih =>
    rw [join_cons_cons, ih, List.flatMap_cons]
    rfl

theorem settle_point (p : Vec3) (path : Path) : settle (.point p) path = .point p :: path := rfl

theorem exists_settle_gap (path : Path) : ∃ rest, settle .gap path = .gap :: rest := by
  cases path with
  | nil => exact ⟨[], rfl⟩
  | cons e path => cases e <;> exact ⟨_, rfl⟩

theorem collapse_cons (e : PathElement) (path : Path) :
    collapse (e :: path) = settle e path.collapse := rfl

/-- Up to its last point, a collapsed path is the first run, whether empty or not,
and the lines behind it. -/
theorem rdropWhile_collapse {path : Path} {run : List Vec3} {later : List (List Vec3)}
    (h : path.runs = run :: later) :
    path.collapse.rdropWhile PathElement.isGap =
      run.map .point ++ (later.filter fun run => !run.isEmpty).flatMap behindGap := by
  induction path generalizing run later with
  | nil =>
    cases h
    rfl
  | cons e path ih =>
    obtain ⟨next, behind, hnext⟩ := exists_runs_eq_cons path
    have ih := ih hnext
    rw [runs_cons, hnext] at h
    rw [collapse_cons]
    cases e with
    | point p =>
      cases h
      rw [settle_point, rdropWhile_point_cons, ih]
      rfl
    | gap =>
      cases h
      -- whether the gap is dropped depends on what the path behind it begins with
      cases path with
      | nil =>
        cases hnext
        rfl
      | cons first path =>
        rw [runs_cons] at hnext
        cases first with
        | gap =>
          obtain ⟨rest, hrest⟩ := exists_settle_gap (collapse path)
          cases hnext
          rw [collapse_cons, hrest] at ih ⊢
          exact ih
        | point p =>
          obtain ⟨line, later, hruns⟩ := exists_runs_eq_cons path
          rw [hruns] at hnext
          cases hnext
          rw [collapse_cons, settle_point] at ih ⊢
          have hmore :
              (PathElement.point p :: collapse path).rdropWhile PathElement.isGap ≠ [] := by
            simp [ih]
          show (PathElement.gap :: .point p :: collapse path).rdropWhile _ = _
          rw [rdropWhile_gap_cons hmore, ih]
          rfl

/-- What a path is when tidied are its lines, joined. -/
theorem tidy_eq (path : Path) : path.tidy = join path.polylines := by
  obtain ⟨run, later, hruns⟩ := exists_runs_eq_cons path
  rw [tidy, rdropWhile_collapse hruns, polylines, hruns]
  cases run with
  | cons p run =>
    rw [List.filter_cons_of_pos (by simp), join_cons]
    rfl
  | nil =>
    rw [List.filter_cons_of_neg (by simp)]
    cases hlines : later.filter fun run => !run.isEmpty with
    | nil => rfl
    | cons line lines =>
      obtain ⟨p, line, rfl⟩ : ∃ p rest, line = p :: rest := by
        have hline : line ∈ later.filter fun run => !run.isEmpty := hlines ▸ List.mem_cons_self
        exact List.exists_cons_of_ne_nil (by simpa using (List.mem_filter.1 hline).2)
      rw [join_cons]
      rfl

theorem polylines_tidy (path : Path) : path.tidy.polylines = path.polylines := by
  rw [tidy_eq, polylines_join fun line => ne_nil_of_mem_polylines]

/-- Splitting loses and confuses nothing but gaps at the ends and gaps next to
each other. -/
theorem polylines_eq_iff (p q : Path) :
    (p.polylines = q.polylines ↔ p.tidy = q.tidy) ∧
      (∀ line ∈ p.polylines, line ≠ []) ∧
      p.polylines.flatten = p.points ∧
      ∀ lines : List (List Vec3), (∀ line ∈ lines, line ≠ []) → (join lines).polylines = lines := by
  refine ⟨⟨?_, ?_⟩, fun line => ne_nil_of_mem_polylines, flatten_polylines p,
    fun lines => polylines_join⟩
  · intro h
    rw [tidy_eq, tidy_eq, h]
  · intro h
    rw [← polylines_tidy p, h, polylines_tidy]

/-- Gaps at either end, in a row, and around a line of one point. -/
theorem polylines_eq_of_scattered_gaps :
    polylines [.gap, .point Vec3.zero, .gap, .gap, .point Vec3.unitY, .point Vec3.zero] =
        polylines [.point Vec3.zero, .gap, .point Vec3.unitY, .point Vec3.zero, .gap, .gap] ∧
      (join [[Vec3.zero], [Vec3.unitY, Vec3.zero]]).polylines =
        [[Vec3.zero], [Vec3.unitY, Vec3.zero]] :=
  ⟨(polylines_eq_iff _ _).1.2 rfl, (polylines_eq_iff [] []).2.2.2 _ (by simp)⟩

end FractalCurve.Path
