import Mathlib.Data.List.Forall2

/-! Calls that may fail, one for each element of a list.

`mapM` of `Except` returns exactly if every call does (`mapM_eq_ok_iff`), and fails with
what the first call fails with that does not (`mapM_eq_error_iff`). -/
namespace Foundation

variable {E α β : Type}

section MapM
variable {f : α → Except E β} {l : List α}

/-- The first call, and the others. -/
theorem mapM_cons_ok (rest : List α) {x : α} {y : β} (h : f x = .ok y) :
    (x :: rest).mapM f = (y :: ·) <$> rest.mapM f := by
  rw [List.mapM_cons, h]
  cases rest.mapM f <;> rfl

theorem mapM_cons_error (rest : List α) {x : α} {e : E} (h : f x = .error e) :
    (x :: rest).mapM f = .error e := by
  rw [List.mapM_cons, h]
  rfl

/-- All calls return, and these are their results. -/
theorem mapM_eq_ok_iff {bs : List β} :
    l.mapM f = .ok bs ↔ List.Forall₂ (fun x y => f x = .ok y) l bs := by
  induction l generalizing bs with
  | nil =>
    rw [List.forall₂_nil_left_iff, List.mapM_nil]
    exact ⟨fun h => (Except.ok.inj h).symm, fun h => congrArg _ h.symm⟩
  | cons x rest ih =>
    rw [List.forall₂_cons_left_iff]
    cases hx : f x with
    | error e =>
      rw [mapM_cons_error rest hx]
      simp
    | ok y =>
      rw [mapM_cons_ok rest hx]
      simp only [Except.ok.injEq, exists_and_left, exists_eq_left', ← ih]
      cases rest.mapM f with
      | error e => simp
      | ok ys => simp [eq_comm]

/-- The first call that does not return. -/
theorem mapM_eq_error_iff {e : E} :
    l.mapM f = .error e ↔
      ∃ before x after, l = before ++ x :: after ∧ (∀ b ∈ before, ∃ y, f b = .ok y) ∧
        f x = .error e := by
  induction l with
  | nil => simp [pure, Except.pure]
  | cons x rest ih =>
    cases hx : f x with
    | error e' =>
      rw [mapM_cons_error rest hx]
      refine ⟨fun h => ?_, fun h => ?_⟩
      · cases h
        exact ⟨[], x, rest, rfl, by simp, hx⟩
      · obtain ⟨before, x', after, hl, hbefore, hx'⟩ := h
        cases before with
        | nil =>
          cases hl
          cases hx.symm.trans hx'
          rfl
        | cons b before =>
          cases hl
          obtain ⟨⟨y, hy⟩, -⟩ := List.forall_mem_cons.mp hbefore
          cases hx.symm.trans hy
    | ok y =>
      have hrest : (x :: rest).mapM f = .error e ↔ rest.mapM f = .error e := by
        rw [mapM_cons_ok rest hx]
        cases rest.mapM f <;> simp
      rw [hrest, ih]
      refine ⟨fun h => ?_, fun h => ?_⟩
      · obtain ⟨before, x', after, rfl, hbefore, hx'⟩ := h
        exact ⟨x :: before, x', after, rfl, List.forall_mem_cons.mpr ⟨⟨y, hx⟩, hbefore⟩, hx'⟩
      · obtain ⟨before, x', after, hl, hbefore, hx'⟩ := h
        cases before with
        | nil =>
          cases hl
          cases hx.symm.trans hx'
        | cons b before =>
          cases hl
          exact ⟨before, x', after, rfl, (List.forall_mem_cons.mp hbefore).2, hx'⟩

end MapM

end Foundation
