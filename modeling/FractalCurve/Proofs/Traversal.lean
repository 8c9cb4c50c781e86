import Mathlib.Data.List.Forall2

/-!
# Lists handled element by element

A list handled by a function that may refuse an element: every element gets its
result, or the first that is refused decides.
-/

namespace FractalCurve

theorem exists_of_forall₂ {α β : Type} {R : α → β → Prop} {as : List α} {bs : List β}
    (h : List.Forall₂ R as bs) : ∀ b ∈ bs, ∃ a ∈ as, R a b := by
  induction h with
  | nil => exact List.forall_mem_nil _
  | cons hab _ ih =>
    refine List.forall_mem_cons.2 ⟨⟨_, List.mem_cons_self, hab⟩, fun b hb => ?_⟩
    obtain ⟨a, ha, hrelated⟩ := ih b hb
    exact ⟨a, List.mem_cons_of_mem _ ha, hrelated⟩

section
variable {ε α β : Type} {f : α → Except ε β} {l : List α}

theorem mapM_eq_ok_iff {r : List β} :
    l.mapM f = .ok r ↔ List.Forall₂ (fun a b => f a = .ok b) l r := by
  induction l generalizing r with
  | nil => cases r <;> simp [pure, Except.pure]
  | cons a l ih =>
    rw [List.mapM_cons]
    cases ha : f a with
    | error e => cases r <;> simp [ha, bind, Except.bind]
    | ok b =>
      cases hl : l.mapM f with
      | error e => cases r <;> simp [← ih, hl, bind, Except.bind]
      | ok bs => cases r <;> simp [← ih, ha, hl, bind, Except.bind, pure, Except.pure]

/-- The first refused element has the elements in front of it accepted. -/
theorem mapM_eq_error_iff {e : ε} :
    l.mapM f = .error e ↔ ∃ before a after, l = before ++ a :: after ∧
      (∀ b ∈ before, ∃ c, f b = .ok c) ∧ f a = .error e := by
  induction l with
  | nil => simp [pure, Except.pure]
  | cons a l ih =>
    rw [List.mapM_cons]
    cases ha : f a with
    | error e' =>
      simp only [bind, Except.bind, Except.error.injEq]
      constructor
      · rintro rfl
        exact ⟨[], a, l, rfl, nofun, ha⟩
      · rintro ⟨before, b, after, hl, hbefore, hb⟩
        cases before with
        | nil =>
          cases hl
          rw [ha] at hb
          exact Except.error.inj hb
        | cons d before =>
          cases hl
          obtain ⟨c, hc⟩ := hbefore a List.mem_cons_self
          rw [ha] at hc
          contradiction
    | ok c =>
      have hrest : (do let rest ← l.mapM f; pure (c :: rest) : Except ε (List β)) = .error e ↔
          l.mapM f = .error e := by
        cases l.mapM f <;> simp [bind, Except.bind, pure, Except.pure]
      refine hrest.trans (ih.trans ?_)
      constructor
      · rintro ⟨before, b, after, rfl, hbefore, hb⟩
        refine ⟨a :: before, b, after, rfl, ?_, hb⟩
        exact List.forall_mem_cons.2 ⟨⟨c, ha⟩, hbefore⟩
      · rintro ⟨before, b, after, hl, hbefore, hb⟩
        cases before with
        | nil =>
          cases hl
          rw [ha] at hb
          contradiction
        | cons d before =>
          cases hl
          exact ⟨before, b, after, rfl, (List.forall_mem_cons.1 hbefore).2, hb⟩

theorem exists_mapM_eq_ok_iff : (∃ r, l.mapM f = .ok r) ↔ ∀ a ∈ l, ∃ b, f a = .ok b := by
  constructor
  · rintro ⟨r, h⟩ a ha
    obtain ⟨b, -, hb⟩ := exists_of_forall₂ (mapM_eq_ok_iff.1 h).flip a ha
    exact ⟨b, hb⟩
  · intro h
    cases hr : l.mapM f with
    | ok r => exact ⟨r, rfl⟩
    | error e =>
      obtain ⟨before, a, after, rfl, -, ha⟩ := mapM_eq_error_iff.1 hr
      obtain ⟨b, hb⟩ := h a (List.mem_append_right before List.mem_cons_self)
      rw [ha] at hb
      contradiction

end

end FractalCurve
