import Mathlib.Algebra.Group.Int.Defs
import Mathlib.Data.List.InsertIdx
import FalconStd.Foundation.Heap
import FalconStd.Collections.Array

/-! The transforms of a `Waveform` by index
(`falconCore/instrumentInterfaces/waveform/waveform-wrapper.cpp`).

The list of falcon_core holds pointers, and the constructors of the wrapper put in the
pointers of the array they are given, so two positions may hold one object. An index is
cast to `int32_t` and an iterator advanced by it, unchecked: to leave the list, or to
dereference its end, is undefined. -/
namespace FalconStd.FalconCore
open Foundation

/-- A waveform, with the objects its list points to. -/
structure Waveform (T : Type) where
  heap : Heap T
  transforms : List Handle
  allocated : ∀ r ∈ transforms, r < heap.next

namespace Waveform
variable {T : Type}

/-- What the list holds, position by position. -/
def values (w : Waveform T) : List T := w.transforms.map w.heap.cell

/-- `static_cast<int32_t>(index)`. -/
def truncated (index : Int64) : Int := index.toInt32.toInt

/-- `*it`, after `it` was advanced from `begin()` by the index. -/
def deref (w : Waveform T) (index : Int64) : Except NativeFault Handle :=
  if truncated index < 0 then .error .undefined
  else
    match w.transforms[(truncated index).toNat]? with
    | some r => .ok r
    | none => .error .undefined

/-- A copy of the object. -/
def getIndex (w : Waveform T) (index : Int64) : Except NativeFault T := do
  let r ← w.deref index
  .ok (w.heap.cell r)

/-- `**it = *val`. -/
def setIndex (w : Waveform T) (index : Int64) (value : T) : Except NativeFault (Waveform T) := do
  let r ← w.deref index
  .ok { w with heap := w.heap.write r value }

theorem allocated_insert (w : Waveform T) (value : T) (i : Nat) :
    ∀ r ∈ w.transforms.insertIdx i (w.heap.alloc value).1, r < (w.heap.alloc value).2.next := by
  intro r hr
  rcases List.eq_or_mem_of_mem_insertIdx hr with rfl | hr
  · exact Nat.lt_succ_self _
  · exact Nat.lt_succ_of_lt (w.allocated r hr)

/-- A new object with the value goes before `begin() + idx`. -/
def insert (w : Waveform T) (index : Int64) (value : T) : Except NativeFault (Waveform T) :=
  if truncated index < 0 ∨ (w.transforms.length : Int) < truncated index then .error .undefined
  else
    .ok ⟨(w.heap.alloc value).2,
      w.transforms.insertIdx (truncated index).toNat (w.heap.alloc value).1,
      allocated_insert w value _⟩

/-! ### The cast -/

theorem truncated_of_lt {index : Int64} (hnonneg : 0 ≤ index.toInt) (hlt : index.toInt < 2 ^ 31) :
    truncated index = (index.toInt.toNat : Nat) := by
  rw [truncated, Int64.toInt_toInt32, Int.toNat_of_nonneg hnonneg]
  exact Int.bmod_eq_of_le (by omega) (by omega)

theorem truncated_lt (index : Int64) : truncated index < 2 ^ 31 := Int32.toInt_lt _

/-! ### What a call can end with -/

section Calls
variable {w : Waveform T} {index : Int64} {value : T}

theorem deref_of_some {i : Nat} {r : Handle} (hi : truncated index = i)
    (hr : w.transforms[i]? = some r) : w.deref index = .ok r := by
  rw [deref, if_neg (by omega), hi, Int.toNat_natCast, hr]

/-- An object at a position, or undefined behaviour; never an error. -/
theorem deref_cases (w : Waveform T) (index : Int64) :
    (∃ (i : Nat) (r : Handle), truncated index = i ∧ w.transforms[i]? = some r ∧
        w.deref index = .ok r) ∨
      w.deref index = .error .undefined := by
  by_cases hneg : truncated index < 0
  · exact .inr (by rw [deref, if_pos hneg])
  · obtain ⟨i, hi⟩ := Int.eq_ofNat_of_zero_le (Int.not_lt.mp hneg)
    cases hr : w.transforms[i]? with
    | some r => exact .inl ⟨i, r, hi, hr, deref_of_some hi hr⟩
    | none =>
      refine .inr ?_
      rw [deref, if_neg hneg, hi, Int.toNat_natCast, hr]

/-- What is done with the object afterwards raises no error either. -/
theorem deref_bind_ne_raised {α : Type} (w : Waveform T) (index : Int64) (f : Handle → α)
    (message : String) :
    (do let r ← w.deref index; .ok (f r) : Except NativeFault α) ≠ .error (.raised message) := by
  rcases deref_cases w index with ⟨i, r, -, -, heq⟩ | heq
  · simp [heq, bind, Except.bind]
  · simp [heq, bind, Except.bind]

theorem values_getElem? (w : Waveform T) (i : Nat) :
    w.values[i]? = w.transforms[i]?.map w.heap.cell := by
  rw [values, List.getElem?_map]

/-- A write shows at every position of the object. -/
theorem values_write_getElem? (w : Waveform T) (r : Handle) (value : T) (i : Nat) :
    ({ w with heap := w.heap.write r value } : Waveform T).values[i]? =
      w.transforms[i]?.map fun s => if s = r then value else w.heap.cell s := by
  rw [values_getElem?]
  congr 1
  funext s
  by_cases hs : s = r
  · rw [if_pos hs, hs, Heap.write_cell_same]
  · rw [if_neg hs, Heap.write_cell_ne _ _ hs]

/-- A new object shows at its own position only. -/
theorem values_insert (w : Waveform T) (value : T) (i : Nat) :
    (⟨(w.heap.alloc value).2, w.transforms.insertIdx i (w.heap.alloc value).1,
        allocated_insert w value i⟩ : Waveform T).values = w.values.insertIdx i value := by
  have hold : w.transforms.map (w.heap.alloc value).2.cell = w.transforms.map w.heap.cell :=
    List.map_congr_left fun r hr => Heap.alloc_cell_old w.heap value (w.allocated r hr)
  simp only [values, List.map_insertIdx, hold, Heap.alloc_fst, Heap.alloc_cell_new]

end Calls

/-! ### Checked indices -/

/-- The index is a position below the bound. -/
def Inside (index : Int64) (bound : Nat) : Prop := 0 ≤ index.toInt ∧ index.toInt < bound

instance (index : Int64) (bound : Nat) : Decidable (Inside index bound) :=
  inferInstanceAs (Decidable (_ ∧ _))

/-- A routine that is called with an index and a value. -/
abbrev Routine (R : Type → Type) := ∀ T : Type, Waveform T → Int64 → T → Except NativeFault (R T)

/-- On every waveform with these pointers, whatever they point to, the routine meets its
postcondition at an index inside of the bound, and raises an error at any other. -/
structure Checked {R : Type → Type} (call : Routine R)
    (post : ∀ T : Type, Waveform T → Nat → T → R T → Prop) (transforms : List Handle)
    (bound : Nat) (index : Int64) : Prop where
  inside : Inside index bound → ∀ (T : Type) (w : Waveform T) (value : T),
    w.transforms = transforms → ∃ r, call T w index value = .ok r ∧
      post T w index.toInt.toNat value r
  outside : ¬ Inside index bound → ∀ (T : Type) (w : Waveform T) (value : T),
    w.transforms = transforms → ∃ message, call T w index value = .error (.raised message)

/-- `GetIndex` returns what the element at the index holds. -/
def GetChecked (transforms : List Handle) : Int64 → Prop :=
  Checked (R := id) (fun _ w index _ => w.getIndex index)
    (fun _ w i _ x => w.values[i]? = some x) transforms transforms.length

/-- `SetIndex` changes the element at the index, and no other. -/
def SetChecked (transforms : List Handle) : Int64 → Prop :=
  Checked (R := Waveform) (fun _ w index value => w.setIndex index value)
    (fun _ w i value w' => w'.values = w.values.set i value) transforms transforms.length

/-- `Insert` inserts before the index, which may be the end. -/
def InsertChecked (transforms : List Handle) : Int64 → Prop :=
  Checked (R := Waveform) (fun _ w index value => w.insert index value)
    (fun _ w i value w' => w'.values = w.values.insertIdx i value) transforms
    (transforms.length + 1)

theorem exists_bound (transforms : List Handle) : ∃ next, ∀ r ∈ transforms, r < next := by
  induction transforms with
  | nil => exact ⟨0, by simp⟩
  | cons r rest ih =>
    obtain ⟨next, hnext⟩ := ih
    refine ⟨max (r + 1) next, ?_⟩
    intro s hs
    rcases List.mem_cons.mp hs with rfl | hs
    · exact Nat.lt_of_lt_of_le (Nat.lt_succ_self _) (Nat.le_max_left _ _)
    · exact Nat.lt_of_lt_of_le (hnext s hs) (Nat.le_max_right _ _)

/-- There is a waveform with any pointers, holding anything. -/
theorem exists_waveform (transforms : List Handle) (cell : Handle → T) :
    ∃ w : Waveform T, w.transforms = transforms ∧ w.heap.cell = cell := by
  obtain ⟨next, hnext⟩ := exists_bound transforms
  exact ⟨⟨⟨cell, next⟩, transforms, hnext⟩, rfl, rfl⟩

/-- A routine that never raises is checked only where the index is inside. -/
theorem Checked.isInside {R : Type → Type} {call : Routine R}
    {post : ∀ T : Type, Waveform T → Nat → T → R T → Prop} {transforms : List Handle}
    {bound : Nat} {index : Int64} (h : Checked call post transforms bound index)
    (hcall : ∀ (w : Waveform Nat) value message,
      call Nat w index value ≠ .error (.raised message)) : Inside index bound := by
  by_contra hno
  obtain ⟨w, hw, -⟩ := exists_waveform transforms fun _ => 0
  obtain ⟨message, hraised⟩ := h.outside hno Nat w 0 hw
  exact hcall w 0 message hraised

/-! ### Reading -/

section Read
variable {transforms : List Handle} {index : Int64}

theorem getElem_inside (h : Inside index transforms.length) :
    ∃ r, transforms[index.toInt.toNat]? = some r := by
  have hlt : index.toInt.toNat < transforms.length := by
    have := h.1
    have := h.2
    omega
  exact ⟨_, List.getElem?_eq_getElem hlt⟩

theorem getIndex_ne_raised (w : Waveform T) (index : Int64) (message : String) :
    w.getIndex index ≠ .error (.raised message) :=
  deref_bind_ne_raised w index _ message

theorem getChecked_iff :
    GetChecked transforms index ↔ Inside index transforms.length ∧
      ∃ i : Nat, truncated index = i ∧ transforms[i]? = transforms[index.toInt.toNat]? := by
  constructor
  · intro h
    have hin := h.isInside fun w _ => getIndex_ne_raised w index
    refine ⟨hin, ?_⟩
    -- objects that hold their own addresses
    obtain ⟨w, hw, hcell⟩ := exists_waveform transforms id
    obtain ⟨x, hx, hvalue⟩ := h.inside hin Handle w 0 hw
    rcases deref_cases w index with ⟨i, r, hi, hr, heq⟩ | heq
    · simp only [getIndex, heq, bind, Except.bind, hcell] at hx
      cases hx
      rw [values_getElem?, hcell, hw, Option.map_id] at hvalue
      rw [hw] at hr
      exact ⟨i, hi, hr.trans hvalue.symm⟩
    · simp [getIndex, heq, bind, Except.bind] at hx
  · intro h
    obtain ⟨hin, i, hi, hsame⟩ := h
    obtain ⟨r, hr⟩ := getElem_inside hin
    refine ⟨?_, fun hno => absurd hin hno⟩
    intro _ T w value hw
    have hderef : w.deref index = .ok r := deref_of_some hi (by rw [hw, hsame, hr])
    refine ⟨w.heap.cell r, ?_, ?_⟩
    · simp only [getIndex, hderef]
      rfl
    · rw [values_getElem?, hw, hr]
      rfl

end Read

/-! ### Writing -/

section Write
variable {transforms : List Handle} {index : Int64}

theorem setIndex_ne_raised (w : Waveform T) (index : Int64) (value : T) (message : String) :
    w.setIndex index value ≠ .error (.raised message) :=
  deref_bind_ne_raised w index _ message

/-- The position that was marked is the one that is marked. -/
theorem mark_eq {l : List Nat} (hzero : ∀ x ∈ l, x = 0) {i j : Nat}
    (h : (l.set i 1)[j]? = some 1) : i = j := by
  by_contra hne
  rw [List.getElem?_set_ne hne] at h
  exact absurd (hzero 1 (List.mem_of_getElem? h)) Nat.one_ne_zero

theorem values_zero {w : Waveform Nat} (hcell : w.heap.cell = fun _ => 0) :
    ∀ x ∈ w.values, x = 0 := by
  intro x hx
  rw [values, hcell] at hx
  obtain ⟨r, -, rfl⟩ := List.mem_map.mp hx
  rfl

theorem setChecked_iff :
    SetChecked transforms index ↔ Inside index transforms.length ∧ index.toInt < 2 ^ 31 ∧
      ∀ j, transforms[j]? = transforms[index.toInt.toNat]? → j = index.toInt.toNat := by
  constructor
  · intro h
    have hin := h.isInside fun w value => setIndex_ne_raised w index value
    -- a one is written among zeros
    obtain ⟨w, hw, hcell⟩ := exists_waveform transforms fun _ => 0
    obtain ⟨w', hset, hvalues⟩ := h.inside hin Nat w 1 hw
    rcases deref_cases w index with ⟨i, r, hi, hr, heq⟩ | heq
    · simp only [setIndex, heq, bind, Except.bind] at hset
      cases hset
      have hmarked : ∀ j, transforms[j]? = some r → index.toInt.toNat = j := by
        intro j hj
        refine mark_eq (values_zero hcell) ?_
        rw [← hvalues, values_write_getElem?, hw, hj, Option.map_some, if_pos rfl]
      have hi' := hmarked i (hw ▸ hr)
      have hlt := truncated_lt index
      have hnonneg := hin.1
      refine ⟨hin, by omega, ?_⟩
      intro j hj
      rw [hi', ← hw, hr] at hj
      exact (hmarked j (hw ▸ hj)).symm
    · simp [setIndex, heq, bind, Except.bind] at hset
  · intro h
    obtain ⟨hin, hlt, hunique⟩ := h
    obtain ⟨r, hr⟩ := getElem_inside hin
    refine ⟨?_, fun hno => absurd hin hno⟩
    intro _ T w value hw
    have htrunc := truncated_of_lt hin.1 hlt
    have hderef : w.deref index = .ok r := deref_of_some htrunc (by rw [hw, hr])
    refine ⟨{ w with heap := w.heap.write r value }, ?_, ?_⟩
    · simp only [setIndex, hderef]
      rfl
    · refine List.ext_getElem? fun j => ?_
      rw [values_write_getElem?, hw, List.getElem?_set]
      split
      case isTrue hj =>
        have hlen : index.toInt.toNat < w.values.length := by
          rw [values, List.length_map, hw]
          exact (List.getElem?_eq_some_iff.mp hr).1
        rw [if_pos hlen, ← hj, hr, Option.map_some, if_pos rfl]
      case isFalse hj =>
        rw [values_getElem?, hw]
        cases hs : transforms[j]? with
        | none => rfl
        | some s =>
          have hne : s ≠ r := fun hsr => hj (hunique j (by rw [hs, hr, hsr])).symm
          rw [Option.map_some, Option.map_some, if_neg hne]

theorem insert_ne_raised (w : Waveform T) (index : Int64) (value : T) (message : String) :
    w.insert index value ≠ .error (.raised message) := by
  rw [insert]
  split <;> simp

theorem insert_of_le (w : Waveform T) {i : Nat} (hi : truncated index = i)
    (hle : i ≤ w.transforms.length) (value : T) :
    ∃ w', w.insert index value = .ok w' ∧ w'.values = w.values.insertIdx i value := by
  rw [insert, if_neg (by omega)]
  refine ⟨_, rfl, ?_⟩
  rw [values_insert, hi, Int.toNat_natCast]

theorem insert_mark_eq {l : List Nat} (hzero : ∀ x ∈ l, x = 0) {i j : Nat}
    (h : (l.insertIdx i 1)[j]? = some 1) : i = j := by
  have hno : ∀ k, l[k]? ≠ some 1 :=
    fun k hk => Nat.one_ne_zero (hzero 1 (List.mem_of_getElem? hk))
  rcases Nat.lt_trichotomy j i with hlt | heq | hgt
  · rw [List.getElem?_insertIdx_of_lt hlt] at h
    exact absurd h (hno j)
  · exact heq.symm
  · rw [List.getElem?_insertIdx_of_gt hgt] at h
    exact absurd h (hno (j - 1))

theorem insertChecked_iff :
    InsertChecked transforms index ↔
      Inside index (transforms.length + 1) ∧ index.toInt < 2 ^ 31 := by
  constructor
  · intro h
    have hin := h.isInside fun w value => insert_ne_raised w index value
    obtain ⟨w, hw, hcell⟩ := exists_waveform transforms fun _ => 0
    obtain ⟨w', hinsert, hvalues⟩ := h.inside hin Nat w 1 hw
    by_cases hpast : truncated index < 0 ∨ (w.transforms.length : Int) < truncated index
    · rw [insert, if_pos hpast] at hinsert
      cases hinsert
    · obtain ⟨hnonneg, hle⟩ := not_or.mp hpast
      obtain ⟨i, hi⟩ := Int.eq_ofNat_of_zero_le (Int.not_lt.mp hnonneg)
      obtain ⟨w'', hinsert', hvalues'⟩ := insert_of_le w hi (by omega) 1
      rw [hinsert] at hinsert'
      cases hinsert'
      have hmark : (w.values.insertIdx i 1)[i]? = some 1 := by
        rw [List.getElem?_insertIdx_self, if_pos]
        rw [values, List.length_map]
        omega
      rw [← hvalues', hvalues] at hmark
      have hi' := insert_mark_eq (values_zero hcell) hmark
      have hlt := truncated_lt index
      have := hin.1
      exact ⟨hin, by omega⟩
  · intro h
    obtain ⟨hin, hlt⟩ := h
    refine ⟨?_, fun hno => absurd hin hno⟩
    intro _ T w value hw
    have htrunc := truncated_of_lt hin.1 hlt
    have hle : index.toInt.toNat ≤ w.transforms.length := by
      have := hin.1
      have := hin.2
      rw [hw]
      omega
    exact insert_of_le w htrunc hle value

end Write

/-- **The three routines act at the index inside of the list, and raise an error at any
other, exactly where the index is inside and the cast reaches the same object**: for
`SetIndex` no other position may hold that object. -/
theorem indices_checked_iff (transforms : List Handle) (index : Int64) :
    (GetChecked transforms index ↔ Inside index transforms.length ∧
        ∃ i : Nat, truncated index = i ∧ transforms[i]? = transforms[index.toInt.toNat]?) ∧
      (SetChecked transforms index ↔ Inside index transforms.length ∧ index.toInt < 2 ^ 31 ∧
        ∀ j, transforms[j]? = transforms[index.toInt.toNat]? → j = index.toInt.toNat) ∧
      (InsertChecked transforms index ↔
        Inside index (transforms.length + 1) ∧ index.toInt < 2 ^ 31) :=
  ⟨getChecked_iff, setChecked_iff, insertChecked_iff⟩

/-- An index of `2 ^ 32` reads the first element. -/
theorem not_getChecked_wrapped : ¬ GetChecked [0] 4294967296 := by
  intro h
  obtain ⟨message, hraised⟩ := h.outside (by decide) Nat ⟨⟨fun _ => 7, 1⟩, [0], by simp⟩ 0 rfl
  exact getIndex_ne_raised _ _ _ hraised

end Waveform

end FalconStd.FalconCore
