import FalconStd.Control.Direction

/-! Voltages, points and control axes (`control/controlAxis/controlAxis.fal`,
`control-axis-wrapper.cpp`), on the contents of their arrays.

Gates are compared by contents throughout, in the `Map` and by the wrapper's
`runtime_equal`, so a gate here is its contents. The wrapper's `clone_struct`
copies the arrays, and so is `Clone` taken to do: an axis owns what it holds, and
routines that write in place return the axis they leave. -/
namespace FalconStd.Control
open Collections Foundation

structure Voltage (R : Type) where
  value_ : R
  deriving DecidableEq, Repr

def Voltage.add {R : Type} [Field R] (voltage other : Voltage R) : Voltage R :=
  ⟨voltage.value_ + other.value_⟩

structure Point (G R : Type) where
  location_ : Map G (Voltage R)
  deriving DecidableEq, Repr

namespace Point
variable {G R : Type}

def new : Point G R := ⟨Map.new⟩

def gates (point : Point G R) : List G := point.location_.keys

def domainSize (point : Point G R) : Int := point.location_.size

variable [DecidableEq G]

def get (point : Point G R) (gate : G) : Except Failure (Voltage R) := point.location_.get gate

def set (point : Point G R) (gate : G) (voltage : Voltage R) : Except Failure Unit × Point G R :=
  let (outcome, location) := point.location_.set gate voltage
  (outcome, ⟨location⟩)

def containsGate (point : Point G R) (gate : G) : Bool := point.location_.contains gate

def removeGate (point : Point G R) (gate : G) : Except Failure Unit × Point G R :=
  let (outcome, location) := point.location_.remove gate
  (outcome.map fun _ => (), ⟨location⟩)

def WellFormed (point : Point G R) : Prop := point.location_.WellFormed

end Point

structure ControlAxis (G R : Type) where
  offset_ : Point G R
  direction_ : Direction G R
  deriving DecidableEq, Repr

namespace ControlAxis
variable {G R : Type}

/-! ### Construction -/

def new : ControlAxis G R := ⟨Point.new, Direction.new⟩

def newFromPointAndDirection (offset : Point G R) (direction : Direction G R) : ControlAxis G R :=
  ⟨offset, direction⟩

section Construction
variable [Field R]

/-- The loop of `NewFromPoints` from index `i` on: the second point is read at the
same index, unchecked. -/
def differences (pointValues : List (Voltage R)) : Nat → List (Voltage R) → Except Failure (List R)
  | _, [] => .ok []
  | i, off :: rest => do
    let pt ← unchecked pointValues i
    let values ← differences pointValues (i + 1) rest
    .ok ((pt.value_ - off.value_) :: values)

def newFromPoints (offset point : Point G R) : Except Failure (ControlAxis G R) := do
  let values ← differences point.location_.values_ 0 offset.location_.values_
  .ok ⟨offset, ⟨⟨offset.location_.keys_, values⟩⟩⟩

variable [DecidableEq G]

def rescale (axis : ControlAxis G R) (scale : R) : ControlAxis G R :=
  { axis with direction_ := axis.direction_.scale scale }

def scaled (axis : ControlAxis G R) (factor : R) : ControlAxis G R :=
  (newFromPointAndDirection axis.offset_ axis.direction_).rescale factor

/-- One pass of the outer loop of `Shifted`. -/
def shiftEntry (offset : Map G (Voltage R)) (gate : G) (delta : R) : Map G (Voltage R) :=
  match offset.keys_.findIdx? fun key => gate == key with
  | some j =>
    { offset with values_ := offset.values_.modify j fun voltage => ⟨voltage.value_ + delta⟩ }
  | none => offset

/-- The first offset is read at the end, unchecked, for nothing. -/
def shifted (axis : ControlAxis G R) (dir : Direction G R) : Except Failure (ControlAxis G R) := do
  let offset := dir.dir_.entries.foldl (fun m e => shiftEntry m e.1 e.2) axis.offset_.location_
  let _debug_voltage ← unchecked offset.values_ 0
  .ok { axis with offset_ := ⟨offset⟩ }

end Construction

/-! ### Modifiers -/

section Modifiers
variable [DecidableEq G]

def extendDomain (axis : ControlAxis G R) (gate : G) (offset amp : Voltage R) :
    Except Failure Unit × ControlAxis G R :=
  match axis.direction_.setCoefficient gate amp.value_ with
  | (.error e, direction) => (.error e, { axis with direction_ := direction })
  | (.ok _, direction) =>
    let (outcome, point) := axis.offset_.set gate offset
    (outcome, ⟨point, direction⟩)

def setOffset (axis : ControlAxis G R) (gate : G) (offset : Voltage R) :
    Except Failure Unit × ControlAxis G R :=
  let (outcome, point) := axis.offset_.set gate offset
  (outcome, { axis with offset_ := point })

def setAmplitude (axis : ControlAxis G R) (gate : G) (amplitude : Voltage R) :
    Except Failure Unit × ControlAxis G R :=
  let (outcome, direction) := axis.direction_.setCoefficient gate amplitude.value_
  (outcome, { axis with direction_ := direction })

def removeGate (axis : ControlAxis G R) (gate : G) : Except Failure Unit × ControlAxis G R :=
  match axis.offset_.removeGate gate with
  | (.error e, point) => (.error e, { axis with offset_ := point })
  | (.ok _, point) =>
    let (outcome, direction) := axis.direction_.removeGate gate
    (outcome, ⟨point, direction⟩)

variable [Field R]

def shiftOffset (axis : ControlAxis G R) (gate : G) (delta : Voltage R) :
    Except Failure Unit × ControlAxis G R :=
  match axis.offset_.get gate with
  | .error e => (.error e, axis)
  | .ok voltage =>
    let (outcome, point) := axis.offset_.set gate (voltage.add delta)
    (outcome, { axis with offset_ := point })

def shiftAmplitude (axis : ControlAxis G R) (gate : G) (delta : Voltage R) :
    Except Failure Unit × ControlAxis G R :=
  match axis.direction_.getCoefficient gate with
  | .error e => (.error e, axis)
  | .ok coeff =>
    let (outcome, direction) := axis.direction_.setCoefficient gate (coeff + delta.value_)
    (outcome, { axis with direction_ := direction })

def zeroOffsets (axis : ControlAxis G R) : ControlAxis G R :=
  { axis with offset_ := ⟨{ axis.offset_.location_ with
      values_ := axis.offset_.location_.values_.map fun _ => ⟨0⟩ }⟩ }

end Modifiers

/-! ### Access -/

section Access
variable [DecidableEq G]

def getOffset (axis : ControlAxis G R) (gate : G) : Except Failure (Voltage R) :=
  axis.offset_.get gate

def getAmplitude (axis : ControlAxis G R) (gate : G) : Except Failure (Voltage R) :=
  (axis.direction_.getCoefficient gate).map Voltage.mk

def containsGate (axis : ControlAxis G R) (gate : G) : Bool := axis.offset_.containsGate gate

def gates (axis : ControlAxis G R) : List G := axis.offset_.gates

def domainSize (axis : ControlAxis G R) : Int := axis.offset_.domainSize

def isEmpty (axis : ControlAxis G R) : Bool := axis.domainSize == 0

/-! ### Evaluation -/

variable [Field R]

/-- The search of `ToPoint` for the `i`-th gate. What it compares with the keys of
the direction is the direction's own `i`-th key, read unchecked. -/
def coefficientFor (dir : Direction G R) (i : Nat) : List (G × R) → Except Failure R
  | [] => .ok 0
  | (key, coeff) :: rest => do
    let gate ← unchecked dir.dir_.keys_ i
    if gate == key then .ok coeff else coefficientFor dir i rest

/-- The loop of `ToPoint` from index `i` on. -/
def evaluate (dir : Direction G R) (coord : R) : Nat → List (Voltage R) →
    Except Failure (List (Voltage R))
  | _, [] => .ok []
  | i, voltage :: rest => do
    let coeff ← coefficientFor dir i dir.dir_.entries
    let values ← evaluate dir coord (i + 1) rest
    .ok (⟨voltage.value_ + coord * coeff⟩ :: values)

/-- The first voltage is read at the end, unchecked, for nothing. -/
def toPoint (axis : ControlAxis G R) (coordinate : Voltage R) : Except Failure (Point G R) := do
  let values ← evaluate axis.direction_ coordinate.value_ 0 axis.offset_.location_.values_
  let _debug_voltage ← unchecked values 0
  .ok ⟨{ axis.offset_.location_ with values_ := values }⟩

end Access

end ControlAxis

end FalconStd.Control
