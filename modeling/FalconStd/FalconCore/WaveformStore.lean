import FalconStd.Foundation.Run
import FalconStd.FalconCore.Waveform

/-! Waveforms and transforms in a store, and the program that holds them
(`waveform-wrapper.cpp`, `port-transforms-wrapper.cpp`).

A variable of a transform and a position of a list both point to an object.
Constructors put the program's own objects into the list and `PopBack` gives the list's
object away; `PushBack`, `Insert` and `GetIndex` copy. `SetIndex` alone writes an object,
in place, so the lists are lists of values as long as nobody else holds what it writes. -/
namespace FalconStd.FalconCore
open Foundation

/-- The program's variables of type `PortTransform` by name, and its waveforms. A
`PortTransforms` has the same routines, `PopBack` excepted, and is a waveform here. -/
structure WaveformStore (X W T : Type) where
  heap : Heap T
  transform : X → Handle
  waveform : W → List Handle
  bound : ∀ x, transform x < heap.next
  allocated : ∀ w, ∀ r ∈ waveform w, r < heap.next

namespace WaveformStore
variable {X W T : Type}

/-! ### What the routines do to the store -/

def view (s : WaveformStore X W T) (w : W) : Waveform T := ⟨s.heap, s.waveform w, s.allocated w⟩

def value (s : WaveformStore X W T) (x : X) : T := s.heap.cell (s.transform x)

def write (s : WaveformStore X W T) (r : Handle) (value : T) : WaveformStore X W T :=
  { s with heap := s.heap.write r value }

section Named
variable [DecidableEq X] [DecidableEq W]

def hold (s : WaveformStore X W T) (x : X) (r : Handle) (hr : r < s.heap.next) :
    WaveformStore X W T where
  heap := s.heap
  transform := Function.update s.transform x r
  waveform := s.waveform
  bound := by
    intro y
    by_cases hy : y = x
    · simpa [hy] using hr
    · simpa [hy] using s.bound y
  allocated := s.allocated

def put (s : WaveformStore X W T) (w : W) (handles : List Handle)
    (hhandles : ∀ r ∈ handles, r < s.heap.next) : WaveformStore X W T where
  heap := s.heap
  transform := s.transform
  waveform := Function.update s.waveform w handles
  bound := s.bound
  allocated := by
    intro v
    by_cases hv : v = w
    · simpa [hv] using hhandles
    · simpa [hv] using s.allocated v

omit [DecidableEq X] in
theorem lt_put (s : WaveformStore X W T) {w : W} {handles : List Handle}
    (hhandles : ∀ r ∈ handles, r < s.heap.next) {r : Handle} (hr : r < s.heap.next) :
    r < (s.put w handles hhandles).heap.next :=
  hr

end Named

/-- `std::make_shared<PortTransform>(value)`. -/
def alloc (s : WaveformStore X W T) (value : T) : WaveformStore X W T where
  heap := (s.heap.alloc value).2
  transform := s.transform
  waveform := s.waveform
  bound := fun x => Nat.lt_succ_of_lt (s.bound x)
  allocated := fun w r hr => Nat.lt_succ_of_lt (s.allocated w r hr)

theorem lt_alloc (s : WaveformStore X W T) (value : T) : s.heap.next < (s.alloc value).heap.next :=
  Nat.lt_succ_self _

theorem lt_allocAll (s : WaveformStore X W T) (values : List T) {r : Handle}
    (hr : r < s.heap.next) : r < (s.heap.allocAll values).2.next := by
  rw [Heap.allocAll_next]
  exact Nat.lt_of_lt_of_le hr (Nat.le_add_right _ _)

def allocAll (s : WaveformStore X W T) (values : List T) : WaveformStore X W T where
  heap := (s.heap.allocAll values).2
  transform := s.transform
  waveform := s.waveform
  bound := fun x => lt_allocAll s values (s.bound x)
  allocated := fun w r hr => lt_allocAll s values (s.allocated w r hr)

theorem mem_allocAll (s : WaveformStore X W T) (values : List T) :
    ∀ r ∈ (s.heap.allocAll values).1, r < (s.allocAll values).heap.next := by
  intro r hr
  rw [Heap.allocAll_fst, List.mem_range'_1] at hr
  rw [allocAll, Heap.allocAll_next]
  exact hr.2

/-- A list with a new object in it. -/
theorem mem_insertIdx (s : WaveformStore X W T) (w : W) (value : T) (i : Nat) :
    ∀ r ∈ (s.waveform w).insertIdx i s.heap.next, r < (s.alloc value).heap.next := by
  intro r hr
  rcases List.eq_or_mem_of_mem_insertIdx hr with rfl | hr
  · exact Nat.lt_succ_self _
  · exact Nat.lt_succ_of_lt (s.allocated w r hr)

theorem mem_push (s : WaveformStore X W T) (w : W) (value : T) :
    ∀ r ∈ s.waveform w ++ [s.heap.next], r < (s.alloc value).heap.next := by
  intro r hr
  rcases List.mem_append.mp hr with hr | hr
  · exact Nat.lt_succ_of_lt (s.allocated w r hr)
  · rw [List.mem_singleton.mp hr]
    exact Nat.lt_succ_self _

theorem mem_map (s : WaveformStore X W T) (transforms : List X) :
    ∀ r ∈ transforms.map s.transform, r < s.heap.next := by
  intro r hr
  obtain ⟨x, -, rfl⟩ := List.mem_map.mp hr
  exact s.bound x

theorem mem_dropLast (s : WaveformStore X W T) (w : W) :
    ∀ r ∈ (s.waveform w).dropLast, r < s.heap.next :=
  fun r hr => s.allocated w r ((List.dropLast_sublist _).subset hr)

theorem mem_eraseIdx (s : WaveformStore X W T) (w : W) (i : Nat) :
    ∀ r ∈ (s.waveform w).eraseIdx i, r < s.heap.next :=
  fun r hr => s.allocated w r (List.mem_of_mem_eraseIdx hr)

/-! ### Calls -/

inductive Call (X W T : Type) where
  /-- `x = PortTransform.New(..)`, or another constructor of a transform. -/
  | construct (x : X) (value : T)
  | assign (x y : X)
  /-- A constructor that is given an array of transforms. -/
  | new (w : W) (transforms : List X)
  /-- A constructor whose transforms are made by falcon_core. -/
  | newIdentity (w : W) (values : List T)
  | getIndex (x : X) (w : W) (index : Int64)
  | setIndex (w : W) (index : Int64) (x : X)
  | pushBack (w : W) (x : X)
  | popBack (x : X) (w : W)
  | insert (w : W) (index : Int64) (x : X)
  | erase (w : W) (index : Int64)
  | clear (w : W)

variable [DecidableEq X] [DecidableEq W]

def call (s : WaveformStore X W T) : Call X W T → Except NativeFault (WaveformStore X W T)
  | .construct x value => .ok ((s.alloc value).hold x s.heap.next (s.lt_alloc value))
  | .assign x y => .ok (s.hold x (s.transform y) (s.bound y))
  | .new w transforms =>
    .ok (s.put w (transforms.map s.transform) (s.mem_map transforms))
  | .newIdentity w values =>
    .ok ((s.allocAll values).put w (s.heap.allocAll values).1 (s.mem_allocAll values))
  | .getIndex x w index => do
    let value ← (s.view w).getIndex index
    .ok ((s.alloc value).hold x s.heap.next (s.lt_alloc value))
  | .setIndex w index x => do
    let r ← (s.view w).deref index
    .ok (s.write r (s.value x))
  | .pushBack w x =>
    .ok ((s.alloc (s.value x)).put w (s.waveform w ++ [s.heap.next]) (s.mem_push w _))
  | .popBack x w =>
    match h : (s.waveform w).getLast? with
    | none => .error (.raised "STRUCTWaveformPopBack: container is empty")
    | some last =>
      .ok ((s.put w (s.waveform w).dropLast (s.mem_dropLast w)).hold x last
        (s.lt_put _ (s.allocated w last (List.mem_of_getLast? h))))
  | .insert w index x =>
    if Waveform.truncated index < 0 ∨ ((s.waveform w).length : Int) < Waveform.truncated index then
      .error .undefined
    else
      .ok ((s.alloc (s.value x)).put w
        ((s.waveform w).insertIdx (Waveform.truncated index).toNat s.heap.next)
        (s.mem_insertIdx w _ _))
  | .erase w index =>
    if Waveform.truncated index < 0 ∨ ((s.waveform w).length : Int) ≤ Waveform.truncated index then
      .error .undefined
    else
      .ok (s.put w ((s.waveform w).eraseIdx (Waveform.truncated index).toNat)
        (s.mem_eraseIdx w _))
  | .clear w => .ok (s.put w [] (by simp))

/-- A call that does not return leaves the store. -/
def next (s : WaveformStore X W T) (c : Call X W T) : WaveformStore X W T :=
  match s.call c with
  | .ok s' => s'
  | .error _ => s

def after (s : WaveformStore X W T) (calls : List (Call X W T)) : WaveformStore X W T :=
  run next s calls

end WaveformStore

end FalconStd.FalconCore
