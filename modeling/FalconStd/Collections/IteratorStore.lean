import Mathlib.Logic.Function.Basic
import FalconStd.Foundation.Run
import FalconStd.Collections.ArrayRuns
import FalconStd.Collections.Iterator

/-! Iterators over arrays that change under them.

`New` stores the array itself (`iterator.fal`), so all iterators over an array and all who
hold it see the same elements, and no routine of `Array` knows of its iterators. An
iterator is left behind by four calls only: `End` on an empty array, `PopBack` and `Erase`
while it is on the last element of several, and `Clear` while it is past the first. A
program that avoids these has iterators in bounds, and readable, along its whole run, and
no other program has (`stays_valid_iff`). -/
namespace FalconStd.Collections
open Foundation

/-- The arrays and the iterators of a program, by the names of their objects: variables
that share an object are one name. -/
structure IteratorStore (A I α : Type) where
  array : A → List α
  index_ : I → Int
  contents_ : I → A

namespace IteratorStore
variable {A I α : Type}

/-- An iterator with the elements its array has now. -/
def view (s : IteratorStore A I α) (i : I) : Iterator α := ⟨s.index_ i, s.array (s.contents_ i)⟩

inductive Call (A I α : Type) where
  | onArray (a : A) (c : ArrayValue.Call α)
  | new (i : I) (contents : A)
  | beginning (i : I)
  | end_ (i : I)
  | currentIndex (i : I)
  | hasNext (i : I)
  | hasPrevious (i : I)
  | increment (i : I)
  | decrement (i : I)
  | evaluate (i : I)

section Calls
variable [DecidableEq A] [DecidableEq I]

/-- `this.index_ = ..`. -/
def place (s : IteratorStore A I α) (i : I) (index : Int) : IteratorStore A I α :=
  { s with index_ := Function.update s.index_ i index }

def write (s : IteratorStore A I α) (a : A) (elements : List α) : IteratorStore A I α :=
  { s with array := Function.update s.array a elements }

def call [BEq α] (s : IteratorStore A I α) :
    Call A I α → Except Failure (ArrayValue.Reply α) × IteratorStore A I α
  | .onArray a c =>
    let (outcome, elements) := ArrayValue.call (s.array a) c
    (outcome, s.write a elements)
  | .new i contents =>
    (.ok .none, { s with
      index_ := Function.update s.index_ i 0
      contents_ := Function.update s.contents_ i contents })
  | .beginning i => (.ok .none, s.place i (s.view i).beginning.index_)
  | .end_ i => (.ok .none, s.place i (s.view i).end_.index_)
  | .currentIndex i => (.ok (.count (s.view i).currentIndex), s)
  | .hasNext i => (.ok (.flag (s.view i).hasNext), s)
  | .hasPrevious i => (.ok (.flag (s.view i).hasPrevious), s)
  | .increment i =>
    let (success, it) := (s.view i).increment
    (.ok (.flag success), s.place i it.index_)
  | .decrement i =>
    let (success, it) := (s.view i).decrement
    (.ok (.flag success), s.place i it.index_)
  | .evaluate i => ((s.view i).evaluate.map .value, s)

def after [BEq α] (s : IteratorStore A I α) (calls : List (Call A I α)) : IteratorStore A I α :=
  run (next call) s calls

end Calls

/-! ### Iterators in bounds -/

/-- Every iterator is in bounds of its array as it is now. -/
def Valid (s : IteratorStore A I α) : Prop := ∀ i, (s.view i).InBounds

/-- Some iterator over the array is past the first element. -/
def PastFirst (s : IteratorStore A I α) (a : A) : Prop := ∃ i, s.contents_ i = a ∧ 0 < s.index_ i

/-- Some iterator over the array is past the first element, and on the last. -/
def OnLast (s : IteratorStore A I α) (a : A) : Prop :=
  ∃ i, s.contents_ i = a ∧ 0 < s.index_ i ∧ s.index_ i + 1 = (s.array a).length

/-- The calls that leave an iterator behind. -/
def Strands (s : IteratorStore A I α) : Call A I α → Prop
  | .end_ i => s.array (s.contents_ i) = []
  | .onArray a .popBack => s.OnLast a
  | .onArray a (.erase idx) => (0 ≤ idx.toInt ∧ idx.toInt < (s.array a).length) ∧ s.OnLast a
  | .onArray a .clear => s.PastFirst a
  | _ => False

/-- The movers change the index alone. -/
theorem increment_mk (s : IteratorStore A I α) (i : I) :
    (⟨(s.view i).increment.2.index_, s.array (s.contents_ i)⟩ : Iterator α) =
      (s.view i).increment.2 := by
  simp only [Iterator.increment]
  split <;> rfl

theorem decrement_mk (s : IteratorStore A I α) (i : I) :
    (⟨(s.view i).decrement.2.index_, s.array (s.contents_ i)⟩ : Iterator α) =
      (s.view i).decrement.2 := by
  simp only [Iterator.decrement]
  split <;> rfl

section Steps
variable [DecidableEq A] [DecidableEq I] {s : IteratorStore A I α}

omit [DecidableEq A] in
theorem view_place (s : IteratorStore A I α) (i j : I) (index : Int) :
    (s.place i index).view j =
      if j = i then ⟨index, s.array (s.contents_ i)⟩ else s.view j := by
  by_cases hj : j = i
  · subst hj
    simp [view, place]
  · simp [view, place, hj]

omit [DecidableEq I] in
theorem view_write (s : IteratorStore A I α) (a : A) (elements : List α) (j : I) :
    (s.write a elements).view j =
      if s.contents_ j = a then ⟨s.index_ j, elements⟩ else s.view j := by
  by_cases hj : s.contents_ j = a
  · simp [view, write, hj]
  · simp [view, write, hj]

omit [DecidableEq A] in
/-- Moving one iterator in bounds moves no other. -/
theorem valid_place_iff (h : s.Valid) (i : I) (index : Int) :
    (s.place i index).Valid ↔ (⟨index, s.array (s.contents_ i)⟩ : Iterator α).InBounds := by
  refine ⟨fun hplaced => ?_, fun hindex j => ?_⟩
  · have hi := hplaced i
    rwa [view_place, if_pos rfl] at hi
  · rw [view_place]
    split
    · exact hindex
    · exact h j

omit [DecidableEq I] in
/-- Other elements in an array matter to its own iterators only. -/
theorem valid_write_iff (h : s.Valid) (a : A) (elements : List α) :
    (s.write a elements).Valid ↔
      ∀ i, s.contents_ i = a → (⟨s.index_ i, elements⟩ : Iterator α).InBounds := by
  refine ⟨fun hwritten i hi => ?_, fun hall j => ?_⟩
  · have hview := hwritten i
    rwa [view_write, if_pos hi] at hview
  · rw [view_write]
    split
    case isTrue hj => exact hall j hj
    case isFalse => exact h j

omit [DecidableEq I] in
/-- With at least as many elements as before. -/
theorem valid_write_longer (h : s.Valid) {a : A} {elements : List α}
    (hlen : (s.array a).length ≤ elements.length) : (s.write a elements).Valid := by
  refine (valid_write_iff h a elements).mpr fun i hi => ?_
  have hbefore := h i
  subst hi
  simp only [Iterator.InBounds, view] at hbefore ⊢
  omega

omit [DecidableEq I] in
/-- With one element less, an iterator on the last of several is out of bounds. -/
theorem valid_write_shorter_iff (h : s.Valid) {a : A} {elements : List α}
    (hlen : elements.length + 1 = (s.array a).length) :
    (s.write a elements).Valid ↔ ¬ s.OnLast a := by
  rw [valid_write_iff h]
  refine ⟨fun hall hon => ?_, fun hnone i hi => ?_⟩
  · obtain ⟨i, hi, hpast, hlast⟩ := hon
    have hafter := hall i hi
    simp only [Iterator.InBounds] at hafter
    omega
  · have hbefore := h i
    have hnot : ¬ (0 < s.index_ i ∧ s.index_ i + 1 = (s.array a).length) :=
      fun hon => hnone ⟨i, hi, hon⟩
    subst hi
    simp only [Iterator.InBounds, view] at hbefore ⊢
    omega

omit [DecidableEq I] in
theorem valid_write_nil_iff (h : s.Valid) (a : A) :
    (s.write a []).Valid ↔ ¬ s.PastFirst a := by
  rw [valid_write_iff h]
  refine ⟨fun hall hpast => ?_, fun hnone i hi => ?_⟩
  · obtain ⟨i, hi, hpast⟩ := hpast
    have hafter := hall i hi
    simp only [Iterator.InBounds, List.length_nil] at hafter
    omega
  · have hbefore := h i
    have hnot : ¬ 0 < s.index_ i := fun hpast => hnone ⟨i, hi, hpast⟩
    simp only [Iterator.InBounds, view, List.length_nil] at hbefore ⊢
    omega

/-- One call on an array. -/
theorem valid_onArray_iff [BEq α] (h : s.Valid) (a : A) (c : ArrayValue.Call α) :
    (next call s (.onArray a c)).Valid ↔ ¬ s.Strands (.onArray a c) := by
  show (s.write a (ArrayValue.call (s.array a) c).2).Valid ↔ _
  have hkeeps : ArrayValue.KeepsSize (s.array a).length c →
      (s.write a (ArrayValue.call (s.array a) c).2).Valid := fun hk =>
    valid_write_longer h (Nat.le_of_eq ((ArrayValue.call_length_iff _ c).mpr hk).symm)
  cases c with
  | pushBack value =>
    have hlen : (s.array a).length ≤ (s.array a ++ [value]).length := by simp
    exact iff_of_true (valid_write_longer h hlen) id
  | popBack =>
    rcases List.eq_nil_or_concat (s.array a) with hnil | ⟨init, last, hconcat⟩
    · refine iff_of_true (hkeeps (by simp [hnil, ArrayValue.KeepsSize])) ?_
      intro hon
      obtain ⟨i, -, hpast, hlast⟩ := hon
      rw [hnil, List.length_nil] at hlast
      omega
    · have hpop : (ArrayValue.call (s.array a) .popBack).2 = init := by
        simp [ArrayValue.call, ArrayValue.popBack, hconcat]
      have hlen : init.length + 1 = (s.array a).length := by simp [hconcat]
      rw [hpop]
      exact valid_write_shorter_iff h hlen
  | insert idx value =>
    by_cases hin : 0 ≤ idx.toInt ∧ idx.toInt < (((s.array a).length + 1 : Nat) : Int)
    · have hlen : (s.array a).length ≤
          (ArrayValue.call (s.array a) (.insert idx value)).2.length := by
        rw [ArrayValue.call_eq, ArrayValue.reference, ArrayValue.position?_of_in hin]
        simp only [List.length_append, List.length_take, List.length_cons, List.length_drop]
        omega
      exact iff_of_true (valid_write_longer h hlen) id
    · have hout : ¬ (0 ≤ idx.toInt ∧ idx.toInt ≤ (s.array a).length) := by omega
      exact iff_of_true (hkeeps hout) id
  | erase idx =>
    by_cases hin : 0 ≤ idx.toInt ∧ idx.toInt < (s.array a).length
    · have hlen : (ArrayValue.call (s.array a) (.erase idx)).2.length + 1 = (s.array a).length := by
        rw [ArrayValue.call_eq, ArrayValue.reference, ArrayValue.position?_of_in hin]
        simp only [List.length_append, List.length_take, List.length_drop]
        omega
      rw [valid_write_shorter_iff h hlen]
      exact not_congr ⟨fun hon => ⟨hin, hon⟩, And.right⟩
    · exact iff_of_true (hkeeps hin) fun hstrands => hin hstrands.1
  | clear => exact valid_write_nil_iff h a
  | _ => exact iff_of_true (hkeeps trivial) id

/-- One call. -/
theorem valid_next_iff [BEq α] (h : s.Valid) (c : Call A I α) :
    (next call s c).Valid ↔ ¬ s.Strands c := by
  cases c with
  | onArray a c => exact valid_onArray_iff h a c
  | new i contents =>
    refine iff_of_true (fun j => ?_) id
    by_cases hj : j = i
    · subst hj
      have hview : (next call s (.new j contents)).view j = Iterator.new (s.array contents) := by
        simp [next, call, view, Iterator.new]
      rw [hview]
      exact Iterator.inBounds_new _
    · have hview : (next call s (.new i contents)).view j = s.view j := by
        simp [next, call, view, hj]
      rw [hview]
      exact h j
  | beginning i =>
    exact iff_of_true ((valid_place_iff h i _).mpr (s.view i).inBounds_beginning) id
  | end_ i => exact (valid_place_iff h i _).trans (s.view i).inBounds_end_iff
  | increment i =>
    have hmoved : Iterator.InBounds
        ⟨(s.view i).increment.2.index_, s.array (s.contents_ i)⟩ := by
      rw [increment_mk]
      exact Iterator.inBounds_increment (h i)
    exact iff_of_true ((valid_place_iff h i _).mpr hmoved) id
  | decrement i =>
    have hmoved : Iterator.InBounds
        ⟨(s.view i).decrement.2.index_, s.array (s.contents_ i)⟩ := by
      rw [decrement_mk]
      exact Iterator.inBounds_decrement (h i)
    exact iff_of_true ((valid_place_iff h i _).mpr hmoved) id
  | _ => exact iff_of_true h id

end Steps

/-! ### Every run -/

section Runs
variable [DecidableEq A] [DecidableEq I] [BEq α]

/-- A call leaves every iterator in bounds, so that it evaluates wherever its array has
an element. -/
structure Kept (s : IteratorStore A I α) (c : Call A I α) : Prop where
  valid : (next call s c).Valid
  evaluates : ∀ i, (next call s c).array ((next call s c).contents_ i) ≠ [] →
    ∃ x, ((next call s c).view i).evaluate = .ok x

theorem kept_iff {s : IteratorStore A I α} (h : s.Valid) (c : Call A I α) :
    Kept s c ↔ ¬ s.Strands c := by
  rw [← valid_next_iff h c]
  exact ⟨Kept.valid, fun hvalid => ⟨hvalid, fun i => Iterator.evaluate_ok (hvalid i)⟩⟩

/-- **When iterators stay valid**: along a run of calls on any number of arrays and of
iterators over them, every call leaves all iterators in bounds and readable exactly when
no `End` meets an empty array, no `PopBack` or `Erase` takes an element while an iterator
is on the last of several, and no `Clear` meets an iterator past the first. -/
theorem stays_valid_iff (s : IteratorStore A I α) (h : s.Valid) (calls : List (Call A I α)) :
    EveryStep (fun past c => Kept (s.after past) c) calls ↔
      EveryStep (fun past c => ¬ (s.after past).Strands c) calls := by
  refine everyStep_iff (J := fun past => (s.after past).Valid) h ?_ ?_ calls
  · intro past c hpast
    exact kept_iff hpast c
  · intro past c hpast hc
    rw [after, run_concat]
    exact (valid_next_iff hpast c).mpr hc

/-- One of two iterators goes to the last element, which the program then takes. -/
theorem stays_valid_two :
    ¬ EveryStep (fun past c => Kept
        (after (⟨fun _ => [5, 6, 7], fun _ => 0, id⟩ : IteratorStore Bool Bool Int) past) c)
      [.end_ true, .onArray true .popBack] := by
  intro h
  have hvalid : (⟨fun _ => [5, 6, 7], fun _ => 0, id⟩ : IteratorStore Bool Bool Int).Valid := by
    intro i
    cases i <;> decide
  exact (stays_valid_iff _ hvalid _).mp h [.end_ true] _ [] rfl
    ⟨true, rfl, by decide, by decide⟩

end Runs

end IteratorStore

end FalconStd.Collections
