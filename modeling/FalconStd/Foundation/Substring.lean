import Mathlib.Data.List.Infix

/-! First occurrences, and texts cut at them.

`find?` gives the first occurrence of a word in a text. `split` cuts a text at the
occurrences met from left to right, each search starting where the last one ended,
and `interleave` puts a text together again with other words between the pieces. -/
namespace Foundation.Substring

variable {α : Type*}

/-- The word stands in the text from position `i` on. -/
def OccursAt (w s : List α) (i : Nat) : Prop := i ≤ s.length ∧ w <+: s.drop i

/-- It stands there, and nowhere before. -/
def FirstAt (w s : List α) (i : Nat) : Prop := OccursAt w s i ∧ ∀ j < i, ¬ OccursAt w s j

variable {w s : List α} {i : Nat}

theorem occursAt_zero : OccursAt w s 0 ↔ w <+: s := by
  simp [OccursAt]

theorem occursAt_succ {x : α} : OccursAt w (x :: s) (i + 1) ↔ OccursAt w s i := by
  simp [OccursAt]

theorem firstAt_succ {x : α} :
    FirstAt w (x :: s) (i + 1) ↔ ¬ w <+: x :: s ∧ FirstAt w s i := by
  constructor
  · intro h
    refine ⟨fun hw => h.2 0 (Nat.succ_pos i) (occursAt_zero.mpr hw), occursAt_succ.mp h.1, ?_⟩
    intro j hj hat
    exact h.2 (j + 1) (Nat.succ_lt_succ hj) (occursAt_succ.mpr hat)
  · intro h
    refine ⟨occursAt_succ.mpr h.2.1, ?_⟩
    intro j hj hat
    cases j with
    | zero => exact h.1 (occursAt_zero.mp hat)
    | succ j => exact h.2.2 j (Nat.lt_of_succ_lt_succ hj) (occursAt_succ.mp hat)

/-- An occurrence ends in the text. -/
theorem OccursAt.le_length (h : OccursAt w s i) : i + w.length ≤ s.length := by
  have hlen := h.2.length_le
  rw [List.length_drop] at hlen
  have := h.1
  omega

/-- What an occurrence cuts a text into. -/
theorem OccursAt.eq_append (h : OccursAt w s i) :
    s = s.take i ++ (w ++ s.drop (i + w.length)) := by
  obtain ⟨rest, hrest⟩ := h.2
  have hdrop : s.drop (i + w.length) = rest := by
    rw [← List.drop_drop, ← hrest, List.drop_left]
  rw [hdrop, hrest, List.take_append_drop]

/-! ### The search -/

section Search
variable [DecidableEq α]

def find? (w : List α) : List α → Option Nat
  | [] => if w = [] then some 0 else none
  | x :: s => if w <+: x :: s then some 0 else (find? w s).map (· + 1)

theorem find?_eq_some_iff : find? w s = some i ↔ FirstAt w s i := by
  induction s generalizing i with
  | nil =>
    by_cases hw : w = []
    · simp only [find?, hw, if_true, Option.some.injEq, FirstAt, OccursAt, List.length_nil]
      constructor
      · intro heq
        subst heq
        simp
      · intro h
        exact (Nat.le_zero.mp h.1.1).symm
    · simp [find?, FirstAt, OccursAt, hw]
  | cons x s ih =>
    by_cases hw : w <+: x :: s
    · rw [find?, if_pos hw]
      cases i with
      | zero => simp [FirstAt, occursAt_zero, hw]
      | succ i => simp [firstAt_succ, hw]
    · rw [find?, if_neg hw]
      cases i with
      | zero => simp [FirstAt, occursAt_zero, hw]
      | succ i => simp [firstAt_succ, hw, ih]

theorem find?_eq_none_iff : find? w s = none ↔ ∀ i, ¬ OccursAt w s i := by
  induction s with
  | nil => simp [find?, OccursAt]
  | cons x s ih =>
    by_cases hw : w <+: x :: s
    · rw [find?, if_pos hw]
      simp only [reduceCtorEq, false_iff, not_forall, not_not]
      exact ⟨0, occursAt_zero.mpr hw⟩
    · rw [find?, if_neg hw, Option.map_eq_none_iff, ih]
      constructor
      · intro h i hat
        cases i with
        | zero => exact hw (occursAt_zero.mp hat)
        | succ i => exact h i (occursAt_succ.mp hat)
      · intro h i hat
        exact h (i + 1) (occursAt_succ.mpr hat)

/-- The first occurrence from a position on; there is none past the end. -/
def findFrom? (w s : List α) (pos : Nat) : Option Nat :=
  if pos ≤ s.length then (find? w (s.drop pos)).map (· + pos) else none

end Search

/-! ### Cutting and putting together -/

/-- The pieces, with the word `x i` after the `i`-th one. -/
def interleave : List (List α) → (Nat → List α) → List α
  | [], _ => []
  | [p], _ => p
  | p :: q :: rest, x => p ++ (x 0 ++ interleave (q :: rest) fun i => x (i + 1))

theorem interleave_cons {p : List α} {pieces : List (List α)} (h : pieces ≠ [])
    (x : Nat → List α) :
    interleave (p :: pieces) x = p ++ (x 0 ++ interleave pieces fun i => x (i + 1)) := by
  cases pieces with
  | nil => exact absurd rfl h
  | cons q rest => rfl

section Split
variable [DecidableEq α]

/-- At most as many cuts as `fuel`. -/
def splitAtMost (w : List α) : Nat → List α → List (List α)
  | 0, s => [s]
  | fuel + 1, s =>
    match find? w s with
    | none => [s]
    | some i => s.take i :: splitAtMost w fuel (s.drop (i + w.length))

/-- The pieces between the occurrences of a non-empty word, from left to right. -/
def split (w s : List α) : List (List α) := splitAtMost w s.length s

theorem splitAtMost_ne_nil (w : List α) (fuel : Nat) (s : List α) : splitAtMost w fuel s ≠ [] := by
  cases fuel with
  | zero => exact List.cons_ne_nil _ _
  | succ fuel =>
    rw [splitAtMost]
    split <;> exact List.cons_ne_nil _ _

theorem split_ne_nil (w s : List α) : split w s ≠ [] := splitAtMost_ne_nil w _ s

theorem length_drop_lt (hw : w ≠ []) (h : find? w s = some i) :
    (s.drop (i + w.length)).length < s.length := by
  have hend := (find?_eq_some_iff.mp h).1.le_length
  have hpos : 0 < w.length := List.length_pos_iff.mpr hw
  rw [List.length_drop]
  omega

/-- There are no more cuts than letters. -/
theorem splitAtMost_eq (hw : w ≠ []) {m n : Nat} (hm : s.length ≤ m) (hn : s.length ≤ n) :
    splitAtMost w m s = splitAtMost w n s := by
  induction m generalizing n s with
  | zero =>
    obtain rfl : s = [] := List.length_eq_zero_iff.mp (Nat.le_zero.mp hm)
    cases n with
    | zero => rfl
    | succ n => simp [splitAtMost, find?, hw]
  | succ m ih =>
    cases n with
    | zero =>
      obtain rfl : s = [] := List.length_eq_zero_iff.mp (Nat.le_zero.mp hn)
      simp [splitAtMost, find?, hw]
    | succ n =>
      rw [splitAtMost, splitAtMost]
      cases hfind : find? w s with
      | none => rfl
      | some i =>
        have hlt := length_drop_lt hw hfind
        have hrest := ih (s := s.drop (i + w.length)) (n := n) (by omega) (by omega)
        simp only [hrest]

theorem split_of_none (h : find? w s = none) : split w s = [s] := by
  rw [split]
  cases s with
  | nil => rfl
  | cons x s => rw [List.length_cons, splitAtMost, h]

theorem split_of_some (hw : w ≠ []) (h : find? w s = some i) :
    split w s = s.take i :: split w (s.drop (i + w.length)) := by
  have hlt := length_drop_lt hw h
  obtain ⟨n, hn⟩ : ∃ n, s.length = n + 1 := ⟨s.length - 1, by omega⟩
  have hrest : splitAtMost w n (s.drop (i + w.length)) = split w (s.drop (i + w.length)) :=
    splitAtMost_eq hw (by omega) le_rfl
  rw [split, hn, splitAtMost, h]
  simp only [hrest]

/-! A letter at a time: an occurrence at the front is a cut, any other letter is part
of the first piece. -/

theorem find?_append (w s : List α) : find? w (w ++ s) = some 0 := by
  refine find?_eq_some_iff.mpr ⟨occursAt_zero.mpr (List.prefix_append w s), ?_⟩
  intro j hj
  exact absurd hj (Nat.not_lt_zero j)

theorem interleave_split_append (hw : w ≠ []) (s : List α) (x : Nat → List α) :
    interleave (split w (w ++ s)) x = x 0 ++ interleave (split w s) fun i => x (i + 1) := by
  rw [split_of_some hw (find?_append w s), Nat.zero_add, List.drop_left, List.take_zero,
    interleave_cons (split_ne_nil w s), List.nil_append]

theorem find?_cons {a : α} (h : ¬ w <+: a :: s) : find? w (a :: s) = (find? w s).map (· + 1) := by
  rw [find?, if_neg h]

theorem interleave_split_cons {a : α} (hw : w ≠ []) (h : ¬ w <+: a :: s) (x : Nat → List α) :
    interleave (split w (a :: s)) x = a :: interleave (split w s) x := by
  have hfind := find?_cons h
  cases hs : find? w s with
  | none =>
    rw [hs] at hfind
    rw [split_of_none hs, split_of_none hfind]
    rfl
  | some i =>
    rw [hs] at hfind
    have hdrop : (a :: s).drop (i + 1 + w.length) = s.drop (i + w.length) := by
      rw [Nat.add_right_comm, List.drop_succ_cons]
    rw [split_of_some hw hs, split_of_some hw hfind, interleave_cons (split_ne_nil w _),
      interleave_cons (split_ne_nil w _), hdrop]
    rfl

/-- The pieces with the word between them are the text. -/
theorem interleave_split (hw : w ≠ []) (s : List α) : interleave (split w s) (fun _ => w) = s := by
  induction hn : s.length using Nat.strong_induction_on generalizing s with
  | _ n ih =>
    cases hs : find? w s with
    | none =>
      rw [split_of_none hs]
      rfl
    | some i =>
      have hlt := length_drop_lt hw hs
      rw [split_of_some hw hs, interleave_cons (split_ne_nil w _), ih _ (by omega) _ rfl]
      exact (find?_eq_some_iff.mp hs).1.eq_append.symm

end Split

end Foundation.Substring
