import FractalCurve.Proofs.Splitting

/-!
# Measuring a path in one pass

The drawn length is defined through the lines of a path. It can as well be
measured on the way: from point to point, and not across a gap. The lengths are
added in the same order, which is what rounded sums depend on.

`drawnLength_eq_measured`: one pass gives the drawn length, and gaps that divide
nothing do not change it.
-/

namespace FractalCurve.Path

/-- Goes along a path and knows how long it has been, and which element it has
passed last. -/
structure Odometer where
  total : Float32
  last : Option PathElement

/-- Only from a point to the next element, if that is a point as well, there is
something to add. -/
def Odometer.pass (o : Odometer) (e : PathElement) : Odometer :=
  { total :=
      match o.last, e with
      | some (.point p), .point q => o.total + p.distance q
      | _, _ => o.total
    last := some e }

def measured (path : Path) : Float32 := (path.foldl Odometer.pass ⟨-0.0, none⟩).total

/-- The lengths of all segments, in order. -/
def segments (path : Path) : List Float32 := path.polylines.flatMap segmentLengths

theorem segments_eq (path : Path) : path.segments = path.runs.flatMap segmentLengths := by
  rw [segments, polylines]
  generalize path.runs = runs
  induction runs with
  | nil => rfl
  | cons run runs ih => cases run <;> simp [segmentLengths, ih]

theorem segments_gap_cons (path : Path) : segments (.gap :: path) = path.segments := by
  rw [segments_eq, segments_eq]
  rfl

theorem segments_point_gap (p : Vec3) (path : Path) :
    segments (.point p :: .gap :: path) = segments (.gap :: path) := by
  rw [segments_eq, segments_eq]
  rfl

theorem segments_point_point (p q : Vec3) (path : Path) :
    segments (.point p :: .point q :: path) = p.distance q :: segments (.point q :: path) := by
  obtain ⟨run, later, hruns⟩ := path.exists_runs_eq_cons
  rw [segments_eq, segments_eq]
  simp [hruns, extendRuns, segmentLengths]

/-- What has been passed counts through its last element alone. -/
theorem total_foldl_pass (path : Path) (total : Float32) (last : Option PathElement) :
    (path.foldl Odometer.pass ⟨total, last⟩).total =
      (segments (last.toList ++ path)).foldl (· + ·) total := by
  induction path generalizing total last with
  | nil =>
    cases last with
    | none => rfl
    | some e => cases e <;> rfl
  | cons e path ih =>
    show (path.foldl Odometer.pass ⟨_, some e⟩).total = _
    rw [ih]
    cases last with
    | none => rfl
    | some before =>
      cases before with
      | gap => exact congrArg (List.foldl _ total) (segments_gap_cons (e :: path)).symm
      | point p =>
        cases e with
        | gap => exact congrArg (List.foldl _ total) (segments_point_gap p path).symm
        | point q =>
          show _ = (segments (.point p :: .point q :: path)).foldl _ total
          rw [segments_point_point]
          rfl

theorem segments_append_gap (before behind : Path) :
    segments (before ++ .gap :: behind) = before.segments ++ behind.segments := by
  rw [segments, polylines_append_gap, List.flatMap_append]
  rfl

theorem segments_replicate_gap (n : Nat) (path : Path) :
    segments (List.replicate n .gap ++ path) = path.segments := by
  induction n with
  | zero => rfl
  | succ n ih => rw [List.replicate_succ, List.cons_append, segments_gap_cons, ih]

theorem segments_append_replicate_gap (path : Path) (n : Nat) :
    segments (path ++ List.replicate n .gap) = path.segments := by
  cases n with
  | zero => rw [List.replicate_zero, List.append_nil]
  | succ n =>
    have hgaps := segments_replicate_gap n []
    rw [List.append_nil] at hgaps
    rw [List.replicate_succ, segments_append_gap, hgaps]
    exact List.append_nil _

/-- One pass from negative zero on measures the drawn length. Gaps at either end
or next to another gap, however many, are measured as nothing. -/
theorem drawnLength_eq_measured (path : Path) :
    path.drawnLength = path.measured ∧
      ∀ n : Nat,
        drawnLength (List.replicate n .gap ++ path) = path.drawnLength ∧
        drawnLength (path ++ List.replicate n .gap) = path.drawnLength ∧
        ∀ before behind : Path,
          drawnLength (before ++ (List.replicate n .gap ++ .gap :: behind)) =
            drawnLength (before ++ .gap :: behind) := by
  have hlength {p q : Path} (h : p.segments = q.segments) : p.drawnLength = q.drawnLength :=
    congrArg (List.foldl (· + ·) (-0.0)) h
  refine ⟨(total_foldl_pass path _ none).symm, fun n => ⟨?_, ?_, fun before behind => ?_⟩⟩
  · exact hlength (segments_replicate_gap n path)
  · exact hlength (segments_append_replicate_gap path n)
  · rw [← List.append_assoc]
    refine hlength ?_
    rw [segments_append_gap, segments_append_replicate_gap, segments_append_gap]

end FractalCurve.Path
