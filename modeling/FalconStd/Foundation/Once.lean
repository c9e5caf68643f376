import FalconStd.Foundation.Run

/-! Initialisation that runs once.

A flag guards a value. The first use whose initialiser returns sets it, one whose
initialiser throws leaves it unset and fails, and every later use finds the value that
was set. A use may change the value it finds. Which initialiser was the one to return is
read off the history (`firstOk`). -/
namespace Foundation

variable {A E α : Type*}

/-- What the flag guards, `none` while it is not set. -/
abbrev Once (α : Type*) := Option α

/-- `call_once`, and the value that is there afterwards. -/
def Once.get (init : Except E α) (o : Once α) : Except E α × Once α :=
  match o with
  | some x => (.ok x, some x)
  | none => (init, init.toOption)

/-- The first action whose initialiser returns: what it returns, and the actions from it
on. -/
def firstOk (init : A → Except E α) : List A → Option (α × List A)
  | [] => none
  | a :: rest =>
    match init a with
    | .ok x => some (x, a :: rest)
    | .error _ => firstOk init rest

section History
variable {init : A → Except E α} {as : List A} {x : α} {uses : List A}

theorem firstOk_concat_some (h : firstOk init as = some (x, uses)) (a : A) :
    firstOk init (as ++ [a]) = some (x, uses ++ [a]) := by
  induction as with
  | nil => cases h
  | cons b rest ih =>
    rw [firstOk] at h
    rw [List.cons_append, firstOk]
    split at h
    case h_1 =>
      cases h
      rfl
    case h_2 => exact ih h

theorem firstOk_concat_none (h : firstOk init as = none) (a : A) :
    firstOk init (as ++ [a]) = (init a).toOption.map fun x => (x, [a]) := by
  induction as with
  | nil =>
    rw [List.nil_append, firstOk]
    cases init a <;> rfl
  | cons b rest ih =>
    rw [firstOk] at h
    rw [List.cons_append, firstOk]
    split at h
    case h_1 => cases h
    case h_2 => exact ih h

/-- What is set comes from the first action to return, after actions that all threw. -/
theorem firstOk_eq_some_iff : firstOk init as = some (x, uses) ↔
    ∃ before a rest, as = before ++ a :: rest ∧ uses = a :: rest ∧ init a = .ok x ∧
      ∀ b ∈ before, (init b).toOption = none := by
  induction as with
  | nil => simp [firstOk]
  | cons b rest ih =>
    rw [firstOk]
    split
    case h_1 y hy =>
      constructor
      · intro h
        cases h
        exact ⟨[], b, rest, rfl, rfl, hy, by simp⟩
      · intro h
        obtain ⟨before, a, tail, hsplit, rfl, ha, hbefore⟩ := h
        cases before with
        | nil =>
          cases hsplit
          rw [hy] at ha
          cases ha
          rfl
        | cons c before =>
          cases hsplit
          have hnone := hbefore b (List.mem_cons_self ..)
          rw [hy] at hnone
          cases hnone
    case h_2 e he =>
      rw [ih]
      constructor
      · intro h
        obtain ⟨before, a, tail, rfl, rfl, ha, hbefore⟩ := h
        refine ⟨b :: before, a, tail, rfl, rfl, ha, ?_⟩
        exact List.forall_mem_cons.mpr ⟨by rw [he]; rfl, hbefore⟩
      · intro h
        obtain ⟨before, a, tail, hsplit, rfl, ha, hbefore⟩ := h
        cases before with
        | nil =>
          cases hsplit
          rw [he] at ha
          cases ha
        | cons c before =>
          cases hsplit
          exact ⟨before, a, tail, rfl, rfl, ha, (List.forall_mem_cons.mp hbefore).2⟩

end History

end Foundation
