import FalconStd.Foundation.Run
import FalconStd.Collections.Array

/-! What an `Array` is for: a list with checked positions.

The wrappers take their index as an `int64_t`, test its sign, and only then cast
it to the unsigned size type of the vector. `ArrayWrapper` keeps the two types
apart; `reference` is a list whose positions are integers, and the wrappers answer
as it does after every sequence of calls and for every index (`refines_list`). -/
namespace FalconStd.Collections
open Foundation

variable {α : Type}

/-! ### The index checks of the wrappers -/

namespace ArrayWrapper

/-- `idx < 0 || static_cast<size_t>(idx) >= size`. -/
def outside (idx : Int64) (size : Nat) : Bool := idx < 0 || size ≤ idx.toUInt64.toNat

/-- The same check in `Insert`, with `>` for `>=`. -/
def pastEnd (idx : Int64) (size : Nat) : Bool := idx < 0 || size < idx.toUInt64.toNat

def getIndex (arr : List α) (idx : Int64) : Except Failure α :=
  if outside idx arr.length then .error (ArrayValue.outOfBounds "GetIndex" idx.toInt arr.length)
  else unchecked arr idx.toUInt64.toNat

def setIndex (arr : List α) (idx : Int64) (value : α) : Except Failure Unit × List α :=
  if outside idx arr.length then
    (.error (ArrayValue.outOfBounds "SetIndex" idx.toInt arr.length), arr)
  else (.ok (), arr.set idx.toUInt64.toNat value)

/-- `begin() + idx` moves by the signed index. -/
def insert (arr : List α) (idx : Int64) (value : α) : Except Failure Unit × List α :=
  if pastEnd idx arr.length then
    (.error (ArrayValue.outOfBounds "Insert" idx.toInt arr.length), arr)
  else (.ok (), arr.insertIdx idx.toInt.toNat value)

def erase (arr : List α) (idx : Int64) : Except Failure Unit × List α :=
  if outside idx arr.length then
    (.error (ArrayValue.outOfBounds "Erase" idx.toInt arr.length), arr)
  else (.ok (), arr.eraseIdx idx.toInt.toNat)

theorem toUInt64_toNat {idx : Int64} (h : 0 ≤ idx.toInt) : idx.toUInt64.toNat = idx.toInt.toNat :=
  Int64.toNat_toUInt64_of_le (Int64.le_iff_toInt_le.mpr h)

theorem lt_zero_iff (idx : Int64) : idx < 0 ↔ idx.toInt < 0 := Int64.lt_iff_toInt_lt

/-- The cast is made on non-negative indices only, so it keeps the number. -/
theorem outside_iff (idx : Int64) (size : Nat) :
    outside idx size = true ↔ idx.toInt < 0 ∨ size ≤ idx.toInt.toNat := by
  rw [outside, Bool.or_eq_true, decide_eq_true_iff, decide_eq_true_iff, lt_zero_iff]
  by_cases hneg : idx.toInt < 0
  · simp [hneg]
  · rw [toUInt64_toNat (by omega)]

theorem pastEnd_iff (idx : Int64) (size : Nat) :
    pastEnd idx size = true ↔ idx.toInt < 0 ∨ size < idx.toInt.toNat := by
  rw [pastEnd, Bool.or_eq_true, decide_eq_true_iff, decide_eq_true_iff, lt_zero_iff]
  by_cases hneg : idx.toInt < 0
  · simp [hneg]
  · rw [toUInt64_toNat (by omega)]

theorem getIndex_eq (arr : List α) (idx : Int64) :
    getIndex arr idx = ArrayValue.getIndex arr idx.toInt := by
  simp only [getIndex, ArrayValue.getIndex, outside_iff]
  split
  · rfl
  · rw [toUInt64_toNat (by omega)]

theorem setIndex_eq (arr : List α) (idx : Int64) (value : α) :
    setIndex arr idx value = ArrayValue.setIndex arr idx.toInt value := by
  simp only [setIndex, ArrayValue.setIndex, outside_iff]
  split
  · rfl
  · rw [toUInt64_toNat (by omega)]

theorem insert_eq (arr : List α) (idx : Int64) (value : α) :
    insert arr idx value = ArrayValue.insert arr idx.toInt value := by
  simp only [insert, ArrayValue.insert, pastEnd_iff]

theorem erase_eq (arr : List α) (idx : Int64) :
    erase arr idx = ArrayValue.erase arr idx.toInt := by
  simp only [erase, ArrayValue.erase, outside_iff]

end ArrayWrapper

/-! ### Calls and the reference -/

namespace ArrayValue

/-- A call of one of the routines on an array. -/
inductive Call (α : Type) where
  | size
  | isEmpty
  | getIndex (idx : Int64)
  | setIndex (idx : Int64) (value : α)
  | pushBack (value : α)
  | popBack
  | insert (idx : Int64) (value : α)
  | erase (idx : Int64)
  | clear
  | contains (value : α)
  | indexOf (value : α)

inductive Reply (α : Type) where
  | none
  | value (v : α)
  | flag (b : Bool)
  | count (n : Int)
  deriving DecidableEq

def call [BEq α] (arr : List α) : Call α → Except Failure (Reply α) × List α
  | .size => (.ok (.count (size arr)), arr)
  | .isEmpty => (.ok (.flag (isEmpty arr)), arr)
  | .getIndex idx => ((ArrayWrapper.getIndex arr idx).map .value, arr)
  | .setIndex idx value =>
    let (outcome, arr') := ArrayWrapper.setIndex arr idx value; (outcome.map fun _ => .none, arr')
  | .pushBack value => (.ok .none, pushBack arr value)
  | .popBack => let (outcome, arr') := popBack arr; (outcome.map .value, arr')
  | .insert idx value =>
    let (outcome, arr') := ArrayWrapper.insert arr idx value; (outcome.map fun _ => .none, arr')
  | .erase idx =>
    let (outcome, arr') := ArrayWrapper.erase arr idx; (outcome.map fun _ => .none, arr')
  | .clear => (.ok .none, clear arr)
  | .contains value => (.ok (.flag (contains arr value)), arr)
  | .indexOf value => (.ok (.count (indexOf arr value)), arr)

/-- The place an index names among the first `bound`. -/
def position? (idx : Int64) (bound : Nat) : Option Nat :=
  if 0 ≤ idx.toInt ∧ idx.toInt < bound then some idx.toInt.toNat else none

/-- The reference: a list, cut and put together at a place. -/
def reference [BEq α] (l : List α) : Call α → Except Failure (Reply α) × List α
  | .size => (.ok (.count l.length), l)
  | .isEmpty => (.ok (.flag (l.length == 0)), l)
  | .getIndex idx =>
    match (position? idx l.length).bind (l[·]?) with
    | some v => (.ok (.value v), l)
    | none => (.error (outOfBounds "GetIndex" idx.toInt l.length), l)
  | .setIndex idx value =>
    match position? idx l.length with
    | some i => (.ok .none, l.take i ++ value :: l.drop (i + 1))
    | none => (.error (outOfBounds "SetIndex" idx.toInt l.length), l)
  | .pushBack value => (.ok .none, l ++ [value])
  | .popBack =>
    match l.reverse with
    | [] => (.error (.error "Array.PopBack: array is empty"), l)
    | v :: rest => (.ok (.value v), rest.reverse)
  | .insert idx value =>
    match position? idx (l.length + 1) with
    | some i => (.ok .none, l.take i ++ value :: l.drop i)
    | none => (.error (outOfBounds "Insert" idx.toInt l.length), l)
  | .erase idx =>
    match position? idx l.length with
    | some i => (.ok .none, l.take i ++ l.drop (i + 1))
    | none => (.error (outOfBounds "Erase" idx.toInt l.length), l)
  | .clear => (.ok .none, [])
  | .contains value => (.ok (.flag (l.findIdx (· == value) < l.length)), l)
  | .indexOf value =>
    if l.findIdx (· == value) < l.length then (.ok (.count (l.findIdx (· == value))), l)
    else (.ok (.count (-1)), l)

attribute [local simp] call reference

theorem position?_of_in {idx : Int64} {bound : Nat} (h : 0 ≤ idx.toInt ∧ idx.toInt < bound) :
    position? idx bound = some idx.toInt.toNat :=
  if_pos h

theorem position?_of_out {idx : Int64} {bound : Nat} (h : ¬ (0 ≤ idx.toInt ∧ idx.toInt < bound)) :
    position? idx bound = none :=
  if_neg h

/-! ### One call -/

theorem insertIdx_eq_append {l : List α} {i : Nat} (h : i ≤ l.length) (value : α) :
    l.insertIdx i value = l.take i ++ value :: l.drop i := by
  induction i generalizing l with
  | zero => rfl
  | succ i ih =>
    cases l with
    | nil => simp at h
    | cons x rest => simp [ih (Nat.le_of_succ_le_succ h)]

variable [BEq α]

theorem call_getIndex (arr : List α) (idx : Int64) :
    call arr (.getIndex idx) = reference arr (.getIndex idx) := by
  simp only [call, reference, ArrayWrapper.getIndex_eq, getIndex]
  by_cases hin : 0 ≤ idx.toInt ∧ idx.toInt < arr.length
  · have hlt : idx.toInt.toNat < arr.length := by omega
    rw [position?_of_in hin, if_neg (by omega)]
    simp only [Option.bind_some, List.getElem?_eq_getElem hlt, unchecked]
    rfl
  · rw [position?_of_out hin, if_pos (by omega)]
    rfl

theorem call_setIndex (arr : List α) (idx : Int64) (value : α) :
    call arr (.setIndex idx value) = reference arr (.setIndex idx value) := by
  simp only [call, reference, ArrayWrapper.setIndex_eq, setIndex]
  by_cases hin : 0 ≤ idx.toInt ∧ idx.toInt < arr.length
  · have hlt : idx.toInt.toNat < arr.length := by omega
    rw [position?_of_in hin, if_neg (by omega), List.set_eq_take_append_cons_drop, if_pos hlt]
    rfl
  · rw [position?_of_out hin, if_pos (by omega)]
    rfl

theorem call_popBack (arr : List α) : call arr .popBack = reference arr .popBack := by
  simp only [call, reference, popBack]
  rcases List.eq_nil_or_concat arr with rfl | ⟨init, last, rfl⟩
  · rfl
  · simp [Except.map]

theorem call_insert (arr : List α) (idx : Int64) (value : α) :
    call arr (.insert idx value) = reference arr (.insert idx value) := by
  simp only [call, reference, ArrayWrapper.insert_eq, insert]
  by_cases hin : 0 ≤ idx.toInt ∧ idx.toInt < ((arr.length + 1 : Nat) : Int)
  · have hle : idx.toInt.toNat ≤ arr.length := by omega
    rw [position?_of_in hin, if_neg (by omega), insertIdx_eq_append hle]
    rfl
  · rw [position?_of_out hin, if_pos (by omega)]
    rfl

theorem call_erase (arr : List α) (idx : Int64) :
    call arr (.erase idx) = reference arr (.erase idx) := by
  simp only [call, reference, ArrayWrapper.erase_eq, erase]
  by_cases hin : 0 ≤ idx.toInt ∧ idx.toInt < arr.length
  · rw [position?_of_in hin, if_neg (by omega), List.eraseIdx_eq_take_drop_succ]
    rfl
  · rw [position?_of_out hin, if_pos (by omega)]
    rfl

/-- Both search loops stop at the first element equal to the needle. -/
theorem indexOf_eq (arr : List α) (needle : α) :
    indexOf arr needle =
      if arr.findIdx (· == needle) < arr.length then (arr.findIdx (· == needle) : Int) else -1 := by
  rw [indexOf]
  cases hi : arr.findIdx? (· == needle) with
  | none =>
    have hend := List.findIdx?_eq_none_iff_findIdx_eq.mp hi
    rw [if_neg (by omega)]
  | some i =>
    obtain ⟨hlt, hfirst⟩ := List.findIdx?_eq_some_iff_findIdx_eq.mp hi
    rw [hfirst, if_pos hlt]

theorem call_search (arr : List α) (needle : α) :
    call arr (.contains needle) = reference arr (.contains needle) ∧
      call arr (.indexOf needle) = reference arr (.indexOf needle) := by
  have hindex := indexOf_eq arr needle
  by_cases hlt : arr.findIdx (· == needle) < arr.length
  · rw [if_pos hlt] at hindex
    have hne : (arr.findIdx (· == needle) : Int) ≠ -1 := by omega
    simp [contains_eq_indexOf, hindex, hlt, hne]
  · rw [if_neg hlt] at hindex
    simp [contains_eq_indexOf, hindex, hlt]

/-- One call on an array is that call on the list of its elements. -/
theorem call_eq (arr : List α) (c : Call α) : call arr c = reference arr c := by
  cases c with
  | getIndex idx => exact call_getIndex arr idx
  | setIndex idx value => exact call_setIndex arr idx value
  | popBack => exact call_popBack arr
  | insert idx value => exact call_insert arr idx value
  | erase idx => exact call_erase arr idx
  | contains value => exact (call_search arr value).1
  | indexOf value => exact (call_search arr value).2
  | isEmpty =>
    have hempty : isEmpty arr = (arr.length == 0) := by cases arr <;> rfl
    simp only [call, hempty, reference]
  | _ => rfl

/-! ### Which calls raise -/

/-- The calls an array of this size refuses. -/
def Refuses (size : Nat) : Call α → Prop
  | .getIndex idx | .setIndex idx _ | .erase idx => ¬ (0 ≤ idx.toInt ∧ idx.toInt < size)
  | .insert idx _ => ¬ (0 ≤ idx.toInt ∧ idx.toInt ≤ size)
  | .popBack => size = 0
  | _ => False

def Raises (arr : List α) (c : Call α) : Prop := ∃ failure, (call arr c).1 = .error failure

theorem call_refused {arr : List α} {c : Call α} (h : Refuses arr.length c) :
    ∃ failure, call arr c = (.error failure, arr) := by
  rw [call_eq]
  cases c with
  | getIndex idx => exact ⟨_, by rw [reference, position?_of_out h]; rfl⟩
  | setIndex idx value | erase idx => exact ⟨_, by rw [reference, position?_of_out h]⟩
  | insert idx value =>
    have hout : ¬ (0 ≤ idx.toInt ∧ idx.toInt < ((arr.length + 1 : Nat) : Int)) := by
      simp only [Refuses] at h
      omega
    exact ⟨_, by rw [reference, position?_of_out hout]⟩
  | popBack =>
    obtain rfl : arr = [] := List.length_eq_zero_iff.mp h
    exact ⟨_, rfl⟩
  | _ => exact absurd h id

theorem call_granted {arr : List α} {c : Call α} (h : ¬ Refuses arr.length c) :
    ∃ reply, (call arr c).1 = .ok reply := by
  rw [call_eq]
  cases c with
  | getIndex idx =>
    have hin := not_not.mp h
    have hlt : idx.toInt.toNat < arr.length := by omega
    refine ⟨.value arr[idx.toInt.toNat], ?_⟩
    rw [reference, position?_of_in hin, Option.bind_some, List.getElem?_eq_getElem hlt]
  | setIndex idx value | erase idx =>
    exact ⟨.none, by rw [reference, position?_of_in (not_not.mp h)]⟩
  | insert idx value =>
    have hin : 0 ≤ idx.toInt ∧ idx.toInt < ((arr.length + 1 : Nat) : Int) := by
      simp only [Refuses] at h
      omega
    exact ⟨.none, by rw [reference, position?_of_in hin]⟩
  | popBack =>
    rcases List.eq_nil_or_concat arr with rfl | ⟨init, last, rfl⟩
    · exact absurd rfl h
    · exact ⟨.value last, by simp⟩
  | indexOf value =>
    rw [reference]
    split
    · exact ⟨_, rfl⟩
    · exact ⟨_, rfl⟩
  | _ => exact ⟨_, rfl⟩

theorem raises_iff (arr : List α) (c : Call α) : Raises arr c ↔ Refuses arr.length c := by
  refine ⟨fun ⟨failure, hf⟩ => ?_, fun h => ?_⟩
  · by_contra hgranted
    obtain ⟨reply, hr⟩ := call_granted hgranted
    rw [hr] at hf
    cases hf
  · obtain ⟨failure, hf⟩ := call_refused h
    exact ⟨failure, by rw [hf]⟩

theorem raises_keeps {arr : List α} {c : Call α} (h : Raises arr c) : (call arr c).2 = arr := by
  obtain ⟨failure, hf⟩ := call_refused ((raises_iff arr c).mp h)
  rw [hf]

/-! ### Calls that keep the size -/

/-- The calls that keep the size of an array of this size. -/
def KeepsSize (size : Nat) : Call α → Prop
  | .pushBack _ => False
  | .popBack | .clear => size = 0
  | .insert idx _ => ¬ (0 ≤ idx.toInt ∧ idx.toInt ≤ size)
  | .erase idx => ¬ (0 ≤ idx.toInt ∧ idx.toInt < size)
  | _ => True

theorem call_length_iff (arr : List α) (c : Call α) :
    (call arr c).2.length = arr.length ↔ KeepsSize arr.length c := by
  rw [call_eq]
  cases c with
  | pushBack value => simp [KeepsSize]
  | popBack =>
    rcases List.eq_nil_or_concat arr with rfl | ⟨init, last, rfl⟩ <;> simp [KeepsSize]
  | clear => simp [KeepsSize, eq_comm]
  | insert idx value =>
    by_cases hin : 0 ≤ idx.toInt ∧ idx.toInt < ((arr.length + 1 : Nat) : Int)
    · have hle : idx.toInt.toNat ≤ arr.length := by omega
      simp only [reference, KeepsSize, position?_of_in hin, List.length_append, List.length_take,
        List.length_cons, List.length_drop]
      omega
    · have hout : ¬ (0 ≤ idx.toInt ∧ idx.toInt ≤ arr.length) := by omega
      simp only [reference, KeepsSize, position?_of_out hin, hout, not_false_eq_true]
  | erase idx =>
    by_cases hin : 0 ≤ idx.toInt ∧ idx.toInt < arr.length
    · have hlt : idx.toInt.toNat < arr.length := by omega
      simp only [reference, KeepsSize, position?_of_in hin, List.length_append, List.length_take,
        List.length_drop]
      omega
    · simp [KeepsSize, position?_of_out hin, hin]
  | setIndex idx value =>
    by_cases hin : 0 ≤ idx.toInt ∧ idx.toInt < arr.length
    · have hlt : idx.toInt.toNat < arr.length := by omega
      simp only [reference, KeepsSize, position?_of_in hin, List.length_append, List.length_take,
        List.length_cons, List.length_drop, iff_true]
      omega
    · simp [KeepsSize, position?_of_out hin]
  | getIndex idx =>
    simp only [reference, KeepsSize]
    split <;> simp
  | indexOf value =>
    simp only [reference, KeepsSize]
    split <;> simp
  | _ => simp [KeepsSize]

theorem call_setIndex_in {arr : List α} {idx : Int64} (value : α)
    (hin : 0 ≤ idx.toInt ∧ idx.toInt < arr.length) :
    (call arr (.setIndex idx value)).2 = arr.set idx.toInt.toNat value := by
  have hlt : idx.toInt.toNat < arr.length := by omega
  rw [call_eq, reference, position?_of_in hin, List.set_eq_take_append_cons_drop, if_pos hlt]

/-- What keeps the size either changes nothing or puts one element in place. -/
theorem call_keepsSize {arr : List α} {c : Call α} (h : KeepsSize arr.length c) :
    (call arr c).2 = arr ∨ ∃ idx value, c = .setIndex idx value ∧
      (0 ≤ idx.toInt ∧ idx.toInt < arr.length) ∧ (call arr c).2 = arr.set idx.toInt.toNat value := by
  by_cases hr : Raises arr c
  · exact .inl (raises_keeps hr)
  rw [raises_iff] at hr
  cases c with
  | setIndex idx value =>
    have hin := not_not.mp hr
    exact .inr ⟨idx, value, rfl, hin, call_setIndex_in value hin⟩
  | pushBack value => exact absurd h id
  | popBack => exact absurd h hr
  | clear => exact .inl (List.length_eq_zero_iff.mp h).symm
  | insert idx value => exact absurd h hr
  | erase idx => exact absurd h hr
  | _ => exact .inl rfl

/-! ### Every sequence of calls -/

/-- The array after a sequence of calls on a new one. -/
def after (calls : List (Call α)) : List α := run (next call) new calls

def referenceAfter (calls : List (Call α)) : List α := run (next reference) [] calls

/-- **An `Array` is a list with checked positions**: along any sequence of calls
from `New` every call answers as the list does and leaves what the list leaves;
what raises is exactly an index out of place or `PopBack` on nothing, and raising
changes nothing. -/
theorem refines_list (calls : List (Call α)) :
    outputs call (new : List α) calls = outputs reference [] calls ∧
      (after calls : List α) = referenceAfter calls ∧
      ∀ c : Call α,
        (Raises (after calls) c ↔ Refuses (after calls).length c) ∧
          (Raises (after calls) c → (call (after calls) c).2 = after calls) := by
  have hcall : (call : List α → Call α → _) = reference := by
    funext arr c
    exact call_eq arr c
  refine ⟨by rw [hcall]; rfl, by rw [after, hcall]; rfl, fun c => ⟨raises_iff _ c, raises_keeps⟩⟩

/-- A negative and a huge index between calls that go through. -/
example : outputs call (new : List Int)
    [.pushBack 4, .insert 1 7, .getIndex (-1), .erase 9223372036854775807, .getIndex 1] =
      [.ok .none, .ok .none, .error (outOfBounds "GetIndex" (-1) 2),
        .error (outOfBounds "Erase" 9223372036854775807 2), .ok (.value 7)] := by
  decide

end ArrayValue

end FalconStd.Collections
