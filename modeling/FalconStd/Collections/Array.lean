import Mathlib.Data.List.Basic

/-! The engine's calls, and `Array<T>` (`collections/array/array-wrapper.cpp`).

An array is the vector of elements its native handle carries. A routine that
mutates the array returns its outcome and the array it leaves, also when it
raises. The search loops compare with `==`, which stands for their three-way
comparison of an element with the needle. -/
namespace FalconStd

/-- How a call ends without a result: by an exception of its own, by reading a
field its argument does not have, or by an unchecked read past the end of a vector. -/
inductive Failure where
  | error (message : String)
  | missingField (name : String)
  | outOfRange (index size : Nat)
  deriving DecidableEq, Repr

/-- How a call into falcon_core ends without a result: by an exception, or with
undefined behaviour. -/
inductive NativeFault where
  | raised (message : String)
  | undefined
  deriving DecidableEq

/-- `elements[i]` where the source does not check `i`. -/
def unchecked {α : Type} (elements : List α) (i : Nat) : Except Failure α :=
  match elements[i]? with
  | some x => .ok x
  | none => .error (.outOfRange i elements.length)

/-- Calls one after another return when each of them does. -/
theorem bind_ok_iff {E α β : Type} {x : Except E α} {f : α → Except E β} {b : β} :
    (x >>= f) = .ok b ↔ ∃ a, x = .ok a ∧ f a = .ok b := by
  cases x <;> simp [bind, Except.bind]

/-- What follows a call matters only where the call returns. -/
theorem bind_congr_ok {E α β : Type} {x : Except E α} {f g : α → Except E β}
    (h : ∀ a, x = .ok a → f a = g a) : (x >>= f) = (x >>= g) := by
  cases x with
  | error e => rfl
  | ok a => exact h a rfl

/-- Calls that all return. -/
theorem mapM_returns {E α β : Type} {f : α → Except E β} {l : List α}
    (hf : ∀ e ∈ l, ∃ b, f e = .ok b) : ∃ bs, l.mapM f = .ok bs ∧ bs.length = l.length := by
  induction l with
  | nil => exact ⟨[], rfl, rfl⟩
  | cons e rest ih =>
    obtain ⟨b, hb⟩ := hf e List.mem_cons_self
    obtain ⟨bs, hbs, hlen⟩ := ih fun e he => hf e (List.mem_cons_of_mem _ he)
    refine ⟨b :: bs, ?_, congrArg (· + 1) hlen⟩
    rw [List.mapM_cons, hb, hbs]
    rfl

/-- They give the same results only if each does. -/
theorem mapM_eq_iff {E α β : Type} {f g : α → Except E β} {l : List α}
    (hf : ∀ e ∈ l, ∃ b, f e = .ok b) (hg : ∀ e ∈ l, ∃ b, g e = .ok b) :
    l.mapM f = l.mapM g ↔ ∀ e ∈ l, f e = g e := by
  induction l with
  | nil => simp
  | cons e rest ih =>
    have hf' : ∀ e ∈ rest, ∃ b, f e = .ok b := fun e he => hf e (List.mem_cons_of_mem _ he)
    have hg' : ∀ e ∈ rest, ∃ b, g e = .ok b := fun e he => hg e (List.mem_cons_of_mem _ he)
    obtain ⟨b, hb⟩ := hf e List.mem_cons_self
    obtain ⟨c, hc⟩ := hg e List.mem_cons_self
    obtain ⟨bs, hbs, _⟩ := mapM_returns hf'
    obtain ⟨cs, hcs, _⟩ := mapM_returns hg'
    have hrest : rest.mapM f = rest.mapM g ↔ ∀ e ∈ rest, f e = g e := ih hf' hg'
    rw [List.forall_mem_cons, ← hrest, List.mapM_cons, List.mapM_cons, hb, hc, hbs, hcs]
    simp [bind, Except.bind, pure, Except.pure]

theorem mapM_const {E α β : Type} {f : α → Except E β} {c : β} {l : List α}
    (hf : ∀ e ∈ l, f e = .ok c) : l.mapM f = .ok (l.map fun _ => c) := by
  induction l with
  | nil => rfl
  | cons e rest ih =>
    rw [List.mapM_cons, hf e List.mem_cons_self, ih fun e he => hf e (List.mem_cons_of_mem _ he)]
    rfl

namespace Collections.ArrayValue

variable {α : Type}

def outOfBounds (routine : String) (idx : Int) (size : Nat) : Failure :=
  .error ("Array." ++ routine ++ ": index out of bounds: " ++ toString idx ++
    " (size=" ++ toString size ++ ")")

def new : List α := []

def size (arr : List α) : Int := arr.length

def isEmpty (arr : List α) : Bool := arr.isEmpty

def getIndex (arr : List α) (idx : Int) : Except Failure α :=
  if idx < 0 ∨ arr.length ≤ idx.toNat then .error (outOfBounds "GetIndex" idx arr.length)
  else unchecked arr idx.toNat

def setIndex (arr : List α) (idx : Int) (value : α) : Except Failure Unit × List α :=
  if idx < 0 ∨ arr.length ≤ idx.toNat then (.error (outOfBounds "SetIndex" idx arr.length), arr)
  else (.ok (), arr.set idx.toNat value)

def pushBack (arr : List α) (value : α) : List α := arr ++ [value]

def popBack (arr : List α) : Except Failure α × List α :=
  match arr.getLast? with
  | none => (.error (.error "Array.PopBack: array is empty"), arr)
  | some val => (.ok val, arr.dropLast)

/-- Unlike the other index checks this one admits the size itself. -/
def insert (arr : List α) (idx : Int) (value : α) : Except Failure Unit × List α :=
  if idx < 0 ∨ arr.length < idx.toNat then (.error (outOfBounds "Insert" idx arr.length), arr)
  else (.ok (), arr.insertIdx idx.toNat value)

def erase (arr : List α) (idx : Int) : Except Failure Unit × List α :=
  if idx < 0 ∨ arr.length ≤ idx.toNat then (.error (outOfBounds "Erase" idx arr.length), arr)
  else (.ok (), arr.eraseIdx idx.toNat)

def clear (_arr : List α) : List α := []

def contains [BEq α] (arr : List α) (needle : α) : Bool := arr.any fun elem => elem == needle

def indexOf [BEq α] (arr : List α) (needle : α) : Int :=
  match arr.findIdx? fun elem => elem == needle with
  | some i => i
  | none => -1

/-! ### In and out of bounds -/

theorem unchecked_of_lt {arr : List α} {i : Nat} {x : α} (h : arr[i]? = some x) :
    unchecked arr i = .ok x := by
  simp [unchecked, h]

/-- An index that is a position reads the element there. -/
theorem getIndex_of_some {arr : List α} {i : Nat} {x : α} (h : arr[i]? = some x) :
    getIndex arr i = .ok x := by
  have hlt : i < arr.length := (List.getElem?_eq_some_iff.mp h).1
  have hin : ¬ ((i : Int) < 0 ∨ arr.length ≤ (i : Int).toNat) := by omega
  rw [getIndex, if_neg hin]
  exact unchecked_of_lt h

theorem getIndex_negative (arr : List α) :
    getIndex arr (-1) = .error (outOfBounds "GetIndex" (-1) arr.length) :=
  if_pos (.inl (by decide))

theorem setIndex_of_lt {arr : List α} {i : Nat} (h : i < arr.length) (value : α) :
    setIndex arr i value = (.ok (), arr.set i value) := by
  have hin : ¬ ((i : Int) < 0 ∨ arr.length ≤ (i : Int).toNat) := by omega
  rw [setIndex, if_neg hin]
  rfl

theorem erase_of_lt {arr : List α} {i : Nat} (h : i < arr.length) :
    erase arr i = (.ok (), arr.eraseIdx i) := by
  have hin : ¬ ((i : Int) < 0 ∨ arr.length ≤ (i : Int).toNat) := by omega
  rw [erase, if_neg hin]
  rfl

/-- The two search loops take the same decision. -/
theorem contains_eq_indexOf [BEq α] (arr : List α) (needle : α) :
    contains arr needle = (indexOf arr needle != -1) := by
  cases hi : arr.findIdx? (fun elem => elem == needle) with
  | none =>
    have hnone := List.findIdx?_eq_none_iff.mp hi
    have hc : contains arr needle = false := by
      simpa [contains] using hnone
    simp [hc, indexOf, hi]
  | some i =>
    obtain ⟨hlt, hp, _⟩ := List.findIdx?_eq_some_iff_getElem.mp hi
    have hc : contains arr needle = true := List.any_eq_true.mpr ⟨arr[i], List.getElem_mem hlt, hp⟩
    have hne : ((i : Int) != -1) = true := by
      simp only [bne_iff_ne, ne_eq]
      omega
    simp [hc, indexOf, hi, hne]

end Collections.ArrayValue

end FalconStd
