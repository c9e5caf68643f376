import Mathlib.Logic.Function.Basic

/-! A heap of cells of one type: handles are numbers, `alloc` hands out the next
one, and a write changes the cell it names and no other. -/
namespace Foundation

abbrev Handle := Nat

structure Heap (α : Type*) where
  cell : Handle → α
  next : Handle

namespace Heap
variable {α : Type*}

def alloc (h : Heap α) (x : α) : Handle × Heap α :=
  (h.next, ⟨Function.update h.cell h.next x, h.next + 1⟩)

def write (h : Heap α) (r : Handle) (x : α) : Heap α :=
  ⟨Function.update h.cell r x, h.next⟩

@[simp] theorem alloc_fst (h : Heap α) (x : α) : (h.alloc x).1 = h.next := rfl

@[simp] theorem alloc_next (h : Heap α) (x : α) : (h.alloc x).2.next = h.next + 1 := rfl

@[simp] theorem write_next (h : Heap α) (r : Handle) (x : α) : (h.write r x).next = h.next := rfl

@[simp] theorem alloc_cell_new (h : Heap α) (x : α) : (h.alloc x).2.cell h.next = x := by
  simp [alloc]

/-- A fresh cell is none of the cells handed out before. -/
theorem alloc_cell_old (h : Heap α) (x : α) {r : Handle} (hr : r < h.next) :
    (h.alloc x).2.cell r = h.cell r := by
  simp [alloc, Function.update_of_ne (Nat.ne_of_lt hr)]

@[simp] theorem write_cell_same (h : Heap α) (r : Handle) (x : α) : (h.write r x).cell r = x := by
  simp [write]

theorem write_cell_ne (h : Heap α) {r r' : Handle} (x : α) (hne : r' ≠ r) :
    (h.write r x).cell r' = h.cell r' := by
  simp [write, Function.update_of_ne hne]

/-- Writing a cell's own contents back changes nothing. -/
@[simp] theorem write_self (h : Heap α) (r : Handle) : h.write r (h.cell r) = h := by
  simp [write]

@[simp] theorem write_write (h : Heap α) (r : Handle) (x y : α) :
    (h.write r x).write r y = h.write r y := by
  simp [write]

/-- A cell for each element, in order. -/
def allocAll (h : Heap α) : List α → List Handle × Heap α
  | [] => ([], h)
  | x :: rest =>
    let (handles, h') := (h.alloc x).2.allocAll rest
    (h.next :: handles, h')

theorem allocAll_next (h : Heap α) (xs : List α) :
    (h.allocAll xs).2.next = h.next + xs.length := by
  induction xs generalizing h with
  | nil => rfl
  | cons x rest ih =>
    rw [allocAll, List.length_cons]
    refine (ih _).trans ?_
    rw [alloc_next, Nat.add_assoc, Nat.add_comm 1]

theorem allocAll_fst (h : Heap α) (xs : List α) :
    (h.allocAll xs).1 = List.range' h.next xs.length := by
  induction xs generalizing h with
  | nil => rfl
  | cons x rest ih =>
    rw [allocAll, List.length_cons, List.range'_succ]
    exact congrArg (h.next :: ·) (ih _)

theorem allocAll_cell_old (h : Heap α) (xs : List α) {r : Handle} (hr : r < h.next) :
    (h.allocAll xs).2.cell r = h.cell r := by
  induction xs generalizing h with
  | nil => rfl
  | cons x rest ih =>
    rw [allocAll]
    exact (ih _ (Nat.lt_succ_of_lt hr)).trans (alloc_cell_old h x hr)

/-- The new cells hold the elements. -/
theorem allocAll_cells (h : Heap α) (xs : List α) :
    (h.allocAll xs).1.map (h.allocAll xs).2.cell = xs := by
  induction xs generalizing h with
  | nil => rfl
  | cons x rest ih =>
    rw [allocAll]
    refine congrArg₂ List.cons ?_ (ih _)
    exact (allocAll_cell_old _ rest (Nat.lt_succ_self _)).trans (alloc_cell_new h x)

end Heap

end Foundation
