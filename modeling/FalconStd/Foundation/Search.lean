import Mathlib.Data.List.Basic

/-! Searching a list with a test that may fail.

`search` asks the test of one element after another and answers the first that passes;
a test that fails ends it. Where it stops is the first element on which the test does
not say no. -/
namespace Foundation

variable {α E : Type*}

def search (test : α → Except E Bool) : List α → Except E (Option α)
  | [] => .ok none
  | x :: l =>
    match test x with
    | .ok true => .ok (some x)
    | .ok false => search test l
    | .error failure => .error failure

/-- The element is in the list, and the test says no to all before it. -/
def ReachedIn (test : α → Except E Bool) (l : List α) (x : α) : Prop :=
  ∃ before after, l = before ++ x :: after ∧ ∀ y ∈ before, test y = .ok false

variable {test : α → Except E Bool} {l : List α} {x y : α} {failure : E}

theorem reachedIn_nil : ¬ ReachedIn test [] x := by
  intro h
  obtain ⟨before, after, hsplit, -⟩ := h
  exact List.append_ne_nil_of_right_ne_nil before (List.cons_ne_nil x after) hsplit.symm

theorem reachedIn_head (test : α → Except E Bool) (x : α) (l : List α) :
    ReachedIn test (x :: l) x := by
  refine ⟨[], l, rfl, ?_⟩
  intro y hy
  cases hy

/-- Past an element to which the test says no the search goes on. -/
theorem reachedIn_cons_of_false (hy : test y = .ok false) :
    ReachedIn test (y :: l) x ↔ x = y ∨ ReachedIn test l x := by
  constructor
  · intro h
    obtain ⟨before, after, hsplit, hbefore⟩ := h
    cases before with
    | nil =>
      cases hsplit
      exact .inl rfl
    | cons z before =>
      cases hsplit
      exact .inr ⟨before, after, rfl, fun b hb => hbefore b (List.mem_cons_of_mem y hb)⟩
  · intro h
    rcases h with rfl | ⟨before, after, rfl, hbefore⟩
    · exact reachedIn_head test x l
    · exact ⟨y :: before, after, rfl, List.forall_mem_cons.mpr ⟨hy, hbefore⟩⟩

/-- Past any other element it does not. -/
theorem reachedIn_cons_of_ne (hy : test y ≠ .ok false) : ReachedIn test (y :: l) x ↔ x = y := by
  constructor
  · intro h
    obtain ⟨before, after, hsplit, hbefore⟩ := h
    cases before with
    | nil =>
      cases hsplit
      rfl
    | cons z before =>
      cases hsplit
      exact absurd (hbefore y List.mem_cons_self) hy
  · intro h
    rw [h]
    exact reachedIn_head test y l

theorem search_eq_some_iff :
    search test l = .ok (some x) ↔ ReachedIn test l x ∧ test x = .ok true := by
  induction l with
  | nil => simp [search, reachedIn_nil]
  | cons y l ih =>
    rw [search]
    split
    case h_1 hy =>
      rw [reachedIn_cons_of_ne (by simp [hy])]
      constructor
      · intro h
        cases h
        exact ⟨rfl, hy⟩
      · intro h
        rw [h.1]
    case h_2 hy =>
      rw [ih, reachedIn_cons_of_false hy]
      constructor
      · intro h
        exact ⟨.inr h.1, h.2⟩
      · intro h
        rcases h with ⟨rfl | hx, htrue⟩
        · simp [hy] at htrue
        · exact ⟨hx, htrue⟩
    case h_3 e hy =>
      rw [reachedIn_cons_of_ne (by simp [hy])]
      constructor
      · intro h
        cases h
      · intro h
        rw [h.1, hy] at h
        cases h.2

theorem search_eq_error_iff :
    search test l = .error failure ↔ ∃ x, ReachedIn test l x ∧ test x = .error failure := by
  induction l with
  | nil => simp [search, reachedIn_nil]
  | cons y l ih =>
    rw [search]
    split
    case h_1 hy => simp [reachedIn_cons_of_ne, hy]
    case h_2 hy => simp [reachedIn_cons_of_false, hy, ih]
    case h_3 e hy => simp [reachedIn_cons_of_ne, hy]

/-- A failure that no pass comes before ends the search, or another one does. -/
theorem search_fails {before : List α} (hbefore : ∀ y ∈ before, test y ≠ .ok true)
    (hx : test x = .error failure) (after : List α) :
    ∃ e, search test (before ++ x :: after) = .error e := by
  induction before with
  | nil => exact ⟨failure, by simp [search, hx]⟩
  | cons y before ih =>
    obtain ⟨hy, hrest⟩ := List.forall_mem_cons.mp hbefore
    rw [List.cons_append, search]
    split
    case h_1 htrue => exact absurd htrue hy
    case h_2 => exact ih hrest
    case h_3 e _ => exact ⟨e, rfl⟩

/-! ### The earliest element -/

/-- The first element of the list with the property. -/
def Earliest (P : α → Prop) (l : List α) (x : α) : Prop :=
  ∃ before after, l = before ++ x :: after ∧ P x ∧ ∀ y ∈ before, ¬ P y

/-- A test that decides a property finds the first element with it. -/
theorem search_eq_some_iff_earliest {P : α → Prop} (htrue : ∀ y ∈ l, test y = .ok true ↔ P y)
    (hfalse : ∀ y ∈ l, test y = .ok false ↔ ¬ P y) :
    search test l = .ok (some x) ↔ Earliest P l x := by
  rw [search_eq_some_iff]
  constructor
  · intro h
    obtain ⟨⟨before, after, rfl, hbefore⟩, hx⟩ := h
    refine ⟨before, after, rfl, (htrue x (by simp)).mp hx, ?_⟩
    intro y hy
    exact (hfalse y (List.mem_append_left _ hy)).mp (hbefore y hy)
  · intro h
    obtain ⟨before, after, rfl, hx, hbefore⟩ := h
    refine ⟨⟨before, after, rfl, ?_⟩, (htrue x (by simp)).mpr hx⟩
    intro y hy
    exact (hfalse y (List.mem_append_left _ hy)).mpr (hbefore y hy)

end Foundation
