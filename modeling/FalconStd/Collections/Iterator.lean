import FalconStd.Foundation.Run
import FalconStd.Foundation.Loop
import FalconStd.Collections.Array

/-! `Iterator<T>` (`collections/iterator/iterator.fal`).

An iterator holds its array by reference: its `contents_` are the elements the
array has now. Its README promises that it never moves outside the valid bounds.
It does so exactly on the runs that do not send an empty array's iterator to its
`End` (`stays_in_bounds_iff`); and its two loops visit every element of a
non-empty array once, in order and in reverse (`traversals_complete`). -/
namespace FalconStd.Collections
open Foundation

variable {α : Type}

structure Iterator (α : Type) where
  index_ : Int
  contents_ : List α

namespace Iterator

def new (contents : List α) : Iterator α := ⟨0, contents⟩

def beginning (it : Iterator α) : Iterator α := {it with index_ := 0}

/-- `Size() - 1`, also when there is no last element. -/
def end_ (it : Iterator α) : Iterator α := {it with index_ := ArrayValue.size it.contents_ - 1}

def currentIndex (it : Iterator α) : Int := it.index_

def hasNext (it : Iterator α) : Bool := it.index_ < ArrayValue.size it.contents_ - 1

def hasPrevious (it : Iterator α) : Bool := it.index_ > 0

def increment (it : Iterator α) : Bool × Iterator α :=
  let success := it.hasNext
  (success, if success then {it with index_ := it.index_ + 1} else it)

def decrement (it : Iterator α) : Bool × Iterator α :=
  let success := it.hasPrevious
  (success, if success then {it with index_ := it.index_ - 1} else it)

def evaluate (it : Iterator α) : Except Failure α := ArrayValue.getIndex it.contents_ it.index_

/-! ### Bounds -/

theorem hasNext_iff (it : Iterator α) :
    it.hasNext = true ↔ it.index_ < (it.contents_.length : Int) - 1 :=
  decide_eq_true_iff

theorem hasPrevious_iff (it : Iterator α) : it.hasPrevious = true ↔ 0 < it.index_ :=
  decide_eq_true_iff

theorem evaluate_at {it : Iterator α} {i : Nat} {x : α} (hi : it.index_ = i)
    (hx : it.contents_[i]? = some x) : it.evaluate = .ok x := by
  rw [evaluate, hi]
  exact ArrayValue.getIndex_of_some hx

/-- The index is in `[0, max(Size-1, 0)]`. -/
def InBounds (it : Iterator α) : Prop :=
  0 ≤ it.index_ ∧ it.index_ ≤ max ((it.contents_.length : Int) - 1) 0

instance (it : Iterator α) : Decidable it.InBounds := inferInstanceAs (Decidable (_ ∧ _))

/-- The first position is in bounds, whether or not there is an element there. -/
theorem inBounds_beginning (it : Iterator α) : it.beginning.InBounds := by
  simp only [InBounds, beginning]
  omega

theorem inBounds_new (contents : List α) : (new contents).InBounds :=
  inBounds_beginning (new contents)

/-- `End` is the mover without a guard. -/
theorem inBounds_end_iff (it : Iterator α) : it.end_.InBounds ↔ it.contents_ ≠ [] := by
  rw [← List.length_pos_iff]
  simp only [InBounds, end_, ArrayValue.size]
  omega

theorem inBounds_increment {it : Iterator α} (h : it.InBounds) : it.increment.2.InBounds := by
  simp only [increment]
  split
  case isTrue hnext =>
    rw [hasNext_iff] at hnext
    simp only [InBounds] at h ⊢
    omega
  case isFalse => exact h

theorem inBounds_decrement {it : Iterator α} (h : it.InBounds) : it.decrement.2.InBounds := by
  simp only [decrement]
  split
  case isTrue hprevious =>
    rw [hasPrevious_iff] at hprevious
    simp only [InBounds] at h ⊢
    omega
  case isFalse => exact h

/-- In bounds of a non-empty array there is an element to read. -/
theorem evaluate_ok {it : Iterator α} (h : it.InBounds) (hne : it.contents_ ≠ []) :
    ∃ x, it.evaluate = .ok x := by
  have hpos := List.length_pos_iff.mpr hne
  simp only [InBounds] at h
  have hlt : it.index_.toNat < it.contents_.length := by omega
  exact ⟨it.contents_[it.index_.toNat],
    evaluate_at (by omega) (List.getElem?_eq_getElem hlt)⟩

/-- The answer of a guarded mover tells whether it moved, and by how much. -/
theorem increment_reports (it : Iterator α) :
    (it.increment.1 = true ↔ it.increment.2.index_ = it.index_ + 1) ∧
      (it.increment.1 = false → it.increment.2 = it) := by
  cases hnext : it.hasNext
  · have hstay : it.index_ ≠ it.index_ + 1 := by omega
    simp [increment, hnext, hstay]
  · simp [increment, hnext]

theorem decrement_reports (it : Iterator α) :
    (it.decrement.1 = true ↔ it.decrement.2.index_ = it.index_ - 1) ∧
      (it.decrement.1 = false → it.decrement.2 = it) := by
  cases hprevious : it.hasPrevious
  · have hstay : it.index_ ≠ it.index_ - 1 := by omega
    simp [decrement, hprevious, hstay]
  · simp [decrement, hprevious]

/-! ### Runs -/

/-- A mover, or the array's owner putting another element in place. -/
inductive Move (α : Type) where
  | beginning
  | end_
  | increment
  | decrement
  | setIndex (idx : Int) (value : α)

/-- The answer of a mover, where it gives one, and the iterator after it. -/
def move (it : Iterator α) : Move α → Option Bool × Iterator α
  | .beginning => (none, it.beginning)
  | .end_ => (none, it.end_)
  | .increment => let (success, it') := it.increment; (some success, it')
  | .decrement => let (success, it') := it.decrement; (some success, it')
  | .setIndex idx value =>
    (none, {it with contents_ := (ArrayValue.setIndex it.contents_ idx value).2})

/-- The iterator over `contents` after a sequence of moves. -/
def after (contents : List α) (moves : List (Move α)) : Iterator α :=
  run (next move) (new contents) moves

theorem setIndex_length (arr : List α) (idx : Int) (value : α) :
    (ArrayValue.setIndex arr idx value).2.length = arr.length := by
  rw [ArrayValue.setIndex]
  split <;> simp

theorem move_length (it : Iterator α) (a : Move α) :
    (it.move a).2.contents_.length = it.contents_.length := by
  cases a with
  | increment => simp only [move, increment]; split <;> rfl
  | decrement => simp only [move, decrement]; split <;> rfl
  | setIndex idx value => exact setIndex_length it.contents_ idx value
  | _ => rfl

/-- No move resizes the array. -/
theorem after_length (contents : List α) (moves : List (Move α)) :
    (after contents moves).contents_.length = contents.length :=
  run_invariant (J := fun it => it.contents_.length = contents.length)
    (fun it a h => (move_length it a).trans h) (new contents) rfl moves

theorem ne_nil_iff {arr arr' : List α} (h : arr.length = arr'.length) : arr ≠ [] ↔ arr' ≠ [] := by
  rw [← List.length_pos_iff, ← List.length_pos_iff, h]

/-- What a move owes: the iterator stays in bounds, so it can be read when there
is anything to read, and the guarded movers report what they did. -/
structure Sound (it : Iterator α) (a : Move α) : Prop where
  inBounds : (it.move a).2.InBounds
  evaluates : it.contents_ ≠ [] → ∃ x, (it.move a).2.evaluate = .ok x
  increments : a = .increment →
    ((it.move a).1 = some true ↔ (it.move a).2.index_ = it.index_ + 1)
  decrements : a = .decrement →
    ((it.move a).1 = some true ↔ (it.move a).2.index_ = it.index_ - 1)
  failed_keeps : (it.move a).1 = some false → (it.move a).2 = it

/-- In bounds a move is sound exactly when it leaves the iterator in bounds. -/
theorem sound_iff (it : Iterator α) (a : Move α) : it.Sound a ↔ (it.move a).2.InBounds := by
  refine ⟨Sound.inBounds, fun h => ?_⟩
  refine ⟨h, fun hne => ?_, ?_, ?_, ?_⟩
  · exact evaluate_ok h ((ne_nil_iff (move_length it a)).mpr hne)
  · intro heq
    subst heq
    simpa [move] using it.increment_reports.1
  · intro heq
    subst heq
    simpa [move] using it.decrement_reports.1
  · cases a with
    | increment => simpa [move] using it.increment_reports.2
    | decrement => simpa [move] using it.decrement_reports.2
    | _ => simp [move]

/-- In bounds only `End` can leave the bounds, and it does on the empty array. -/
theorem inBounds_move_iff {it : Iterator α} (h : it.InBounds) (a : Move α) :
    (it.move a).2.InBounds ↔ it.contents_ ≠ [] ∨ a ≠ .end_ := by
  cases a with
  | beginning => exact iff_of_true it.inBounds_beginning (.inr (by simp))
  | end_ => simpa [move] using it.inBounds_end_iff
  | increment => exact iff_of_true (inBounds_increment h) (.inr (by simp))
  | decrement => exact iff_of_true (inBounds_decrement h) (.inr (by simp))
  | setIndex idx value =>
    have hkeep : (it.move (.setIndex idx value)).2.InBounds := by
      simp only [InBounds, move, setIndex_length]
      exact h
    exact iff_of_true hkeep (.inr (by simp))

/-- **The iterator stays in bounds**, reads and reports as it should along a run
exactly when the array has an element or the run never goes to the `End`. -/
theorem stays_in_bounds_iff (contents : List α) (moves : List (Move α)) :
    ((new contents).InBounds ∧
        EveryStep (fun past a => (after contents past).Sound a) moves) ↔
      (contents ≠ [] ∨ ¬ Move.end_ ∈ moves) := by
  have hsteps : EveryStep (fun past a => (after contents past).Sound a) moves ↔
      EveryStep (fun _ a => contents ≠ [] ∨ a ≠ Move.end_) moves := by
    refine everyStep_iff (J := fun past => (after contents past).InBounds)
      (inBounds_new contents) (fun past a h => ?_) (fun past a h hc => ?_) moves
    · rw [sound_iff, inBounds_move_iff h, ne_nil_iff (after_length contents past)]
    · have hmove := (inBounds_move_iff h a).mpr (by rwa [ne_nil_iff (after_length contents past)])
      rw [after, run_concat]
      exact hmove
  rw [hsteps, and_iff_right (inBounds_new contents)]
  by_cases hne : contents = []
  · subst hne
    refine ⟨fun h => .inr fun hmem => ?_, fun h past a future hsplit => .inr ?_⟩
    · obtain ⟨past, future, hsplit⟩ := List.append_of_mem hmem
      simpa using h past _ future hsplit
    · intro heq
      subst heq
      simp [hsplit] at h
  · exact iff_of_true (fun _ _ _ _ => .inl hne) (.inl hne)

/-- `End` on a new array's iterator sends it to `-1`. -/
theorem end_leaves_bounds :
    ¬ ∀ (contents : List Int) (moves : List (Move Int)), (after contents moves).InBounds := by
  intro h
  exact absurd (h [] [.end_]).1 (by decide)

/-! ### Traversals -/

/-- A traversal under way: its iterator, and the positions and values visited. -/
structure Traversal (α : Type) where
  it : Iterator α
  visited : List (Int × α)

/-- `value = it.Evaluate()`, noted with the current index. -/
def Traversal.visit (t : Traversal α) : Except Failure (Traversal α) :=
  match t.it.evaluate with
  | .ok value => .ok {t with visited := t.visited ++ [(t.it.currentIndex, value)]}
  | .error failure => .error failure

def Traversal.forward (t : Traversal α) : Except Failure (Traversal α) :=
  Traversal.visit {t with it := t.it.increment.2}

def Traversal.backward (t : Traversal α) : Except Failure (Traversal α) :=
  Traversal.visit {t with it := t.it.decrement.2}

/-- `New`, `Evaluate`, and `while HasNext` increment and evaluate. -/
def traverseForward (fuel : Nat) (contents : List α) : Option (Except Failure (Traversal α)) :=
  match Traversal.visit ⟨new contents, []⟩ with
  | .ok t => loop (fun t => t.it.hasNext) Traversal.forward fuel t
  | .error failure => some (.error failure)

/-- `New`, `End`, `Evaluate`, and `while HasPrevious` decrement and evaluate. -/
def traverseBackward (fuel : Nat) (contents : List α) : Option (Except Failure (Traversal α)) :=
  match Traversal.visit ⟨(new contents).end_, []⟩ with
  | .ok t => loop (fun t => t.it.hasPrevious) Traversal.backward fuel t
  | .error failure => some (.error failure)

/-- The elements of an array with their positions. -/
def positions (contents : List α) : List (Int × α) := contents.mapIdx fun i x => ((i : Int), x)

theorem positions_length (contents : List α) : (positions contents).length = contents.length := by
  simp [positions]

theorem positions_at {contents : List α} {i : Nat} (h : i < contents.length)
    (hlen : i < (positions contents).length) :
    (positions contents)[i] = ((i : Int), contents[i]) := by
  simp [positions]

theorem visit_at {t : Traversal α} {i : Nat} (hi : t.it.index_ = i)
    (h : i < t.it.contents_.length) :
    t.visit = .ok {t with visited := t.visited ++ [((i : Int), t.it.contents_[i])]} := by
  rw [Traversal.visit, evaluate_at hi (List.getElem?_eq_getElem h), currentIndex, hi]

/-- Going forward, the first positions up to the current one are visited. -/
structure Advanced (contents : List α) (t : Traversal α) : Prop where
  same : t.it.contents_ = contents
  place : ∃ i : Nat, t.it.index_ = i ∧ i < contents.length ∧
    t.visited = (positions contents).take (i + 1)

/-- Going backward, the last positions down to the current one are. -/
structure Retreated (contents : List α) (t : Traversal α) : Prop where
  same : t.it.contents_ = contents
  place : ∃ i : Nat, t.it.index_ = i ∧ i < contents.length ∧
    t.visited = ((positions contents).drop i).reverse

theorem visited_next {contents : List α} {i : Nat} (h : i + 1 < contents.length) :
    (positions contents).take (i + 1) ++ [(((i + 1 : Nat) : Int), contents[i + 1])] =
      (positions contents).take (i + 1 + 1) := by
  have hlen : i + 1 < (positions contents).length := by rwa [positions_length]
  rw [← positions_at h hlen, List.take_append_getElem hlen]

theorem visited_previous {contents : List α} {i : Nat} (h : i < contents.length) :
    ((positions contents).drop (i + 1)).reverse ++ [((i : Int), contents[i])] =
      ((positions contents).drop i).reverse := by
  have hlen : i < (positions contents).length := by rwa [positions_length]
  rw [← positions_at h hlen, ← List.getElem_cons_drop hlen, List.reverse_cons]

theorem forward_advances {contents : List α} {t : Traversal α} (h : Advanced contents t)
    (hnext : t.it.hasNext = true) :
    ∃ t', t.forward = .ok t' ∧ Advanced contents t' ∧
      contents.length - t'.it.index_.toNat < contents.length - t.it.index_.toNat := by
  obtain ⟨i, hi, hlt, hvisited⟩ := h.place
  have hbound : i + 1 < contents.length := by
    have := t.it.hasNext_iff.mp hnext
    rw [h.same, hi] at this
    omega
  have hmoved : t.it.increment.2 = ⟨((i + 1 : Nat) : Int), contents⟩ := by
    simp [increment, hnext, hi, h.same]
  refine ⟨⟨⟨((i + 1 : Nat) : Int), contents⟩, (positions contents).take (i + 1 + 1)⟩, ?_, ?_, ?_⟩
  · rw [Traversal.forward, hmoved, visit_at rfl hbound, hvisited, visited_next hbound]
  · exact ⟨rfl, i + 1, rfl, hbound, rfl⟩
  · show contents.length - ((i + 1 : Nat) : Int).toNat < _
    rw [hi]
    omega

theorem backward_retreats {contents : List α} {t : Traversal α} (h : Retreated contents t)
    (hprevious : t.it.hasPrevious = true) :
    ∃ t', t.backward = .ok t' ∧ Retreated contents t' ∧
      t'.it.index_.toNat < t.it.index_.toNat := by
  obtain ⟨i, hi, hlt, hvisited⟩ := h.place
  obtain ⟨j, rfl⟩ : ∃ j, i = j + 1 := by
    have := t.it.hasPrevious_iff.mp hprevious
    exact ⟨i - 1, by omega⟩
  have hbound : j < contents.length := by omega
  have hmoved : t.it.decrement.2 = ⟨(j : Int), contents⟩ := by
    simp [decrement, hprevious, hi, h.same]
  refine ⟨⟨⟨(j : Int), contents⟩, ((positions contents).drop j).reverse⟩, ?_, ?_, ?_⟩
  · rw [Traversal.backward, hmoved, visit_at rfl hbound, hvisited, visited_previous hbound]
  · exact ⟨rfl, j, rfl, hbound, rfl⟩
  · show ((j : Nat) : Int).toNat < _
    rw [hi]
    omega

theorem forward_visits {contents : List α} (h : contents ≠ []) (fuel : Nat)
    (hfuel : contents.length < fuel) :
    ∃ t, traverseForward fuel contents = some (.ok t) ∧ t.visited = positions contents := by
  have hpos := List.length_pos_iff.mpr h
  have hstart : Advanced contents ⟨new contents, (positions contents).take (0 + 1)⟩ :=
    ⟨rfl, 0, rfl, hpos, rfl⟩
  obtain ⟨t, hloop, hend, hstop⟩ := loop_returns (I := Advanced contents)
    (fun t => t.it.hasNext) (fun t => contents.length - t.it.index_.toNat)
    (fun t ht hg => forward_advances ht hg) _ hstart fuel (by simp; omega)
  refine ⟨t, ?_, ?_⟩
  · have hfirst : Traversal.visit ⟨new contents, []⟩ =
        .ok ⟨new contents, (positions contents).take (0 + 1)⟩ := by
      have hlen : 0 < (positions contents).length := by rwa [positions_length]
      have hvisit : Traversal.visit ⟨new contents, []⟩ =
          .ok ⟨new contents, [] ++ [(((0 : Nat) : Int), contents[0])]⟩ := visit_at rfl hpos
      rw [hvisit, ← positions_at hpos hlen, ← List.take_append_getElem hlen, List.take_zero]
    rw [traverseForward, hfirst]
    exact hloop
  · obtain ⟨i, hi, hlt, hvisited⟩ := hend.place
    have hlast : contents.length ≤ i + 1 := by
      have hno : ¬ t.it.index_ < (t.it.contents_.length : Int) - 1 := by
        rw [← hasNext_iff]
        simp [hstop]
      rw [hend.same, hi] at hno
      omega
    rw [hvisited, List.take_of_length_le (by rwa [positions_length])]

theorem backward_visits {contents : List α} (h : contents ≠ []) (fuel : Nat)
    (hfuel : contents.length < fuel) :
    ∃ t, traverseBackward fuel contents = some (.ok t) ∧
      t.visited = (positions contents).reverse := by
  have hpos := List.length_pos_iff.mpr h
  have hlast : contents.length - 1 < contents.length := by omega
  have hindex : (new contents).end_ = ⟨((contents.length - 1 : Nat) : Int), contents⟩ := by
    simp only [end_, new, ArrayValue.size, mk.injEq, and_true]
    omega
  have hstart : Retreated contents
      ⟨(new contents).end_, ((positions contents).drop (contents.length - 1)).reverse⟩ :=
    ⟨rfl, contents.length - 1, by rw [hindex], hlast, rfl⟩
  obtain ⟨t, hloop, hend, hstop⟩ := loop_returns (I := Retreated contents)
    (fun t => t.it.hasPrevious) (fun t => t.it.index_.toNat)
    (fun t ht hg => backward_retreats ht hg) _ hstart fuel (by rw [hindex]; simp; omega)
  refine ⟨t, ?_, ?_⟩
  · have hfirst : Traversal.visit ⟨(new contents).end_, []⟩ =
        .ok ⟨(new contents).end_, ((positions contents).drop (contents.length - 1)).reverse⟩ := by
      have hrest : (positions contents).drop (contents.length - 1 + 1) = [] := by
        rw [List.drop_eq_nil_iff, positions_length]
        omega
      rw [visit_at (i := contents.length - 1) (by rw [hindex]) hlast, ← visited_previous hlast,
        hrest]
      rfl
    rw [traverseBackward, hfirst]
    exact hloop
  · obtain ⟨i, hi, hlt, hvisited⟩ := hend.place
    have hzero : i = 0 := by
      have hno : ¬ 0 < t.it.index_ := by
        rw [← hasPrevious_iff]
        simp [hstop]
      omega
    rw [hvisited, hzero, List.drop_zero]

/-- **Both traversals are complete**: with fuel beyond the size they return, having
visited every position of the array once, in order and in reverse. -/
theorem traversals_complete (contents : List α) (h : contents ≠ []) (fuel : Nat)
    (hfuel : contents.length < fuel) :
    (∃ t, traverseForward fuel contents = some (.ok t) ∧ t.visited = positions contents) ∧
      ∃ t, traverseBackward fuel contents = some (.ok t) ∧
        t.visited = (positions contents).reverse :=
  ⟨forward_visits h fuel hfuel, backward_visits h fuel hfuel⟩

theorem traversals_complete_three :
    (∃ t, traverseForward 4 [(7 : Int), 5, 7] = some (.ok t) ∧ t.visited = positions [7, 5, 7]) ∧
      ∃ t, traverseBackward 4 [(7 : Int), 5, 7] = some (.ok t) ∧
        t.visited = (positions [7, 5, 7]).reverse :=
  traversals_complete [7, 5, 7] (by decide) 4 (by decide)

end Iterator

end FalconStd.Collections
