import Mathlib.Algebra.Field.Basic
import FalconStd.Control.Objects

/-! Gates, voltages, points and control axes as objects: the wrapper's routines and
those of `controlAxis.fal` on a heap, where what a routine stores it shares.

A routine that returns gives the objects it leaves. `same` is the comparison of
values, which belongs to the engine. -/
namespace FalconStd.Control
open Collections Foundation

variable {R : Type}

/-- `Gate.New`. -/
def Object.gate (name : String) : Object R := .inst ⟨"Gate", none, [("name_", .string name)]⟩

/-- `Voltage.New`. -/
def Object.voltage (value : R) : Object R := .inst ⟨"Voltage", none, [("value_", .float value)]⟩

@[simp] theorem Object.refs_gate (name : String) : (Object.gate name : Object R).refs = [] := rfl

@[simp] theorem Object.refs_voltage (value : R) : (Object.voltage value).refs = [] := rfl

namespace Objects

/-! ### Helpers of the wrapper -/

def directionKeys (H : Objects R) (direction : Handle) : Except Fault Handle := do
  let map ← H.getStructField direction "dir_"
  H.getArrayField map "keys_"

def directionValues (H : Objects R) (direction : Handle) : Except Fault Handle := do
  let map ← H.getStructField direction "dir_"
  H.getArrayField map "values_"

def axisOffset (H : Objects R) (axis : Handle) : Except Fault Handle :=
  H.getStructField axis "offset_"

def axisDirection (H : Objects R) (axis : Handle) : Except Fault Handle :=
  H.getStructField axis "direction_"

def pointKeys (H : Objects R) (point : Handle) : Except Fault Handle := do
  let map ← H.getStructField point "location_"
  H.getArrayField map "keys_"

def pointValues (H : Objects R) (point : Handle) : Except Fault Handle := do
  let map ← H.getStructField point "location_"
  H.getArrayField map "values_"

def voltageValue (H : Objects R) (voltage : Handle) : Except Fault R := do
  let value ← H.getField voltage "value_"
  value.asFloat

def setVoltageValue (H : Objects R) (voltage : Handle) (value : R) : Except Fault (Objects R) :=
  H.setField voltage "value_" (.float value)

def makeArrayStruct (H : Objects R) : Handle × Objects R :=
  let (items, H) := H.makeShared (.array "" [])
  H.makeShared (.inst ⟨"Array", some (.array isArrayType_array items), []⟩)

/-- `elements[i]` as a struct, unchecked. -/
def structAt (H : Objects R) (items : Handle) (i : Nat) : Except Fault Handle := do
  let value ← H.elementAt items i
  value.asStruct

/-! ### Arrays and maps -/

def getIndex (H : Objects R) (items : Handle) (idx : Int) : Except Fault (RuntimeValue R) := do
  let elements ← H.elements items
  (ArrayValue.getIndex elements idx).mapError .raised

def setIndex (H : Objects R) (items : Handle) (idx : Int) (value : RuntimeValue R) :
    Except Fault (Objects R) := do
  let elements ← H.elements items
  match ArrayValue.setIndex elements idx value with
  | (.ok _, elements) => H.setElements items elements
  | (.error failure, _) => .error (.raised failure)

def pushBack (H : Objects R) (items : Handle) (value : RuntimeValue R) :
    Except Fault (Objects R) := do
  let elements ← H.elements items
  H.setElements items (ArrayValue.pushBack elements value)

def erase (H : Objects R) (items : Handle) (idx : Int) : Except Fault (Objects R) := do
  let elements ← H.elements items
  match ArrayValue.erase elements idx with
  | (.ok _, elements) => H.setElements items elements
  | (.error failure, _) => .error (.raised failure)

/-- `Map.New`: the map, with the structs of its two arrays. -/
def makeMap (H : Objects R) : (Handle × Handle × Handle) × Objects R :=
  let (keys, H) := H.makeArrayStruct
  let (values, H) := H.makeArrayStruct
  let (map, H) := H.makeShared (.inst ⟨"Map", none,
    [("keys_", .struct keys), ("values_", .struct values)]⟩)
  ((map, keys, values), H)

section Compared
variable (same : Objects R → RuntimeValue R → RuntimeValue R → Bool)

def indexOf (H : Objects R) (items : Handle) (needle : RuntimeValue R) : Except Fault Int := do
  let elements ← H.elements items
  .ok (@ArrayValue.indexOf _ ⟨same H⟩ elements needle)

def contains (H : Objects R) (items : Handle) (needle : RuntimeValue R) : Except Fault Bool := do
  let elements ← H.elements items
  .ok (@ArrayValue.contains _ ⟨same H⟩ elements needle)

def mapGet (H : Objects R) (map : Handle) (key : RuntimeValue R) :
    Except Fault (RuntimeValue R) := do
  let keys ← H.getArrayField map "keys_"
  let values ← H.getArrayField map "values_"
  let index ← H.indexOf same keys key
  H.getIndex values index

def mapSet (H : Objects R) (map : Handle) (key value : RuntimeValue R) :
    Except Fault (Objects R) := do
  let keys ← H.getArrayField map "keys_"
  let values ← H.getArrayField map "values_"
  let found ← H.contains same keys key
  if found then
    let index ← H.indexOf same keys key
    H.setIndex values index value
  else
    let H ← H.pushBack keys key
    H.pushBack values value

def mapRemove (H : Objects R) (map : Handle) (key : RuntimeValue R) : Except Fault (Objects R) := do
  let keys ← H.getArrayField map "keys_"
  let values ← H.getArrayField map "values_"
  let index ← H.indexOf same keys key
  if index != -1 then
    let H ← H.erase keys index
    H.erase values index
  else .ok H

/-! ### Points and axes -/

def newVoltage (H : Objects R) (value : R) : Handle × Objects R := H.makeShared (.voltage value)

def newPoint (H : Objects R) : Handle × Objects R :=
  let ((map, _), H) := H.makeMap
  H.makeShared (.inst ⟨"Point", none, [("location_", .struct map)]⟩)

def newDirection (H : Objects R) : Handle × Objects R :=
  let ((map, _), H) := H.makeMap
  H.makeShared (.inst ⟨"Direction", none, [("dir_", .struct map)]⟩)

def newAxis (H : Objects R) : Handle × Objects R :=
  let (point, H) := H.newPoint
  let (direction, H) := H.newDirection
  H.makeShared (.inst ⟨"ControlAxis", none,
    [("offset_", .struct point), ("direction_", .struct direction)]⟩)

def pointGet (H : Objects R) (point gate : Handle) : Except Fault Handle := do
  let location ← H.getStructField point "location_"
  let value ← H.mapGet same location (.struct gate)
  value.asStruct

def pointSet (H : Objects R) (point gate voltage : Handle) : Except Fault (Objects R) := do
  let location ← H.getStructField point "location_"
  H.mapSet same location (.struct gate) (.struct voltage)

def pointRemoveGate (H : Objects R) (point gate : Handle) : Except Fault (Objects R) := do
  let location ← H.getStructField point "location_"
  H.mapRemove same location (.struct gate)

def setCoefficient (H : Objects R) (direction gate : Handle) (coefficient : R) :
    Except Fault (Objects R) := do
  let dir ← H.getStructField direction "dir_"
  H.mapSet same dir (.struct gate) (.float coefficient)

def directionRemoveGate (H : Objects R) (direction gate : Handle) : Except Fault (Objects R) := do
  let dir ← H.getStructField direction "dir_"
  H.mapRemove same dir (.struct gate)

def extendDomain (H : Objects R) (axis gate offset amp : Handle) : Except Fault (Objects R) := do
  let direction ← H.axisDirection axis
  let coefficient ← H.voltageValue amp
  let H ← H.setCoefficient same direction gate coefficient
  let point ← H.axisOffset axis
  H.pointSet same point gate offset

def setOffset (H : Objects R) (axis gate offset : Handle) : Except Fault (Objects R) := do
  let point ← H.axisOffset axis
  H.pointSet same point gate offset

def setAmplitude (H : Objects R) (axis gate amplitude : Handle) : Except Fault (Objects R) := do
  let direction ← H.axisDirection axis
  let coefficient ← H.voltageValue amplitude
  H.setCoefficient same direction gate coefficient

def removeGate (H : Objects R) (axis gate : Handle) : Except Fault (Objects R) := do
  let point ← H.axisOffset axis
  let H ← H.pointRemoveGate same point gate
  let direction ← H.axisDirection axis
  H.directionRemoveGate same direction gate

def shiftOffset [Field R] (H : Objects R) (axis gate delta : Handle) : Except Fault (Objects R) := do
  let point ← H.axisOffset axis
  let offset ← H.pointGet same point gate
  let current ← H.voltageValue offset
  let change ← H.voltageValue delta
  let (sum, H) := H.newVoltage (current + change)
  H.pointSet same point gate sum

/-- One pass of the loop of `ZeroOffsets`. -/
def zeroEntry [Field R] (H : Objects R) (entry : RuntimeValue R) : Except Fault (Objects R) := do
  let voltage ← entry.asStruct
  H.setVoltageValue voltage 0

/-- Writes the voltages the axis holds, where the other modifiers replace them. -/
def zeroOffsets [Field R] (H : Objects R) (axis : Handle) : Except Fault (Objects R) := do
  let point ← H.axisOffset axis
  let values ← H.pointValues point
  let entries ← H.elements values
  entries.foldlM zeroEntry H

end Compared

/-- A comparison for examples: structs compare by their names. -/
def sameName (H : Objects R) : RuntimeValue R → RuntimeValue R → Bool
  | .struct a, .struct b =>
    match H.getField a "name_", H.getField b "name_" with
    | .ok (.string s), .ok (.string t) => s == t
    | _, _ => false
  | _, _ => false

/-! ### Derived axes and points -/

/-- One pass of the loop of `NewFromPoints`. -/
def difference [Field R] (offsetKeys offsetValues pointValues keyItems valueItems : Handle)
    (H : Objects R) (i : Nat) : Except Fault (Objects R) := do
  let gate ← H.elementAt offsetKeys i
  let off_voltage ← H.structAt offsetValues i
  let point_voltage ← H.structAt pointValues i
  let off ← H.voltageValue off_voltage
  let pt ← H.voltageValue point_voltage
  let H ← H.pushBack keyItems gate
  H.pushBack valueItems (.float (pt - off))

def newFromPoints [Field R] (depth : Nat) (H : Objects R) (offset point : Handle) :
    Except Fault (Handle × Objects R) := do
  let (offset_, H) ← cloneStruct depth offset H
  let ((map, keys, values), H) := H.makeMap
  let (direction, H) := H.makeShared (.inst ⟨"Direction", none, [("dir_", .struct map)]⟩)
  let keyItems ← H.arrayItems keys
  let valueItems ← H.arrayItems values
  let offsetKeys ← H.pointKeys offset
  let offsetValues ← H.pointValues offset
  let pointValues ← H.pointValues point
  let gates ← H.elements offsetKeys
  let H ← forRange (difference offsetKeys offsetValues pointValues keyItems valueItems)
    gates.length H
  .ok (H.makeShared (.inst ⟨"ControlAxis", none,
    [("offset_", .struct offset_), ("direction_", .struct direction)]⟩))

section Compared
variable (same : Objects R → RuntimeValue R → RuntimeValue R → Bool)

/-- One pass of the outer loop of `Shifted`; the inner one stops at the first gate
that compares equal. -/
def shiftGate [Field R] (shiftKeys shiftValues offsetKeys offsetValues : Handle) (H : Objects R)
    (i : Nat) : Except Fault (Objects R) := do
  let gate ← H.elementAt shiftKeys i
  let keys ← H.elements offsetKeys
  match keys.findIdx? (same H gate) with
  | some j =>
    let voltage ← H.structAt offsetValues j
    let current ← H.voltageValue voltage
    let shift ← H.elementAt shiftValues i
    let delta ← shift.asFloat
    H.setVoltageValue voltage (current + delta)
  | none => .ok H

def shifted [Field R] (depth : Nat) (H : Objects R) (self shift : Handle) :
    Except Fault (Handle × Objects R) := do
  let (axis, H) ← cloneStruct depth self H
  let offset ← H.axisOffset axis
  let offsetKeys ← H.pointKeys offset
  let offsetValues ← H.pointValues offset
  let shiftKeys ← H.directionKeys shift
  let shiftValues ← H.directionValues shift
  let gates ← H.elements shiftKeys
  let H ← forRange (shiftGate same shiftKeys shiftValues offsetKeys offsetValues) gates.length H
  let _debug_voltage ← H.structAt offsetValues 0
  .ok (axis, H)

/-- The inner loop of `ToPoint`, which reads the `i`-th gate of the direction. -/
def coefficient [Field R] (dirKeys dirValues : Handle) (H : Objects R) (i : Nat) :
    Except Fault R := do
  let keys ← H.elements dirKeys
  if keys.isEmpty then .ok 0
  else
    let gate ← H.elementAt dirKeys i
    match keys.findIdx? (same H gate) with
    | some j =>
      let coeff ← H.elementAt dirValues j
      coeff.asFloat
    | none => .ok 0

/-- One pass of the outer loop of `ToPoint`. -/
def evaluateAt [Field R] (dirKeys dirValues values : Handle) (coord : R)
    (H : Objects R) (i : Nat) : Except Fault (Objects R) := do
  let voltage ← H.structAt values i
  let offset ← H.voltageValue voltage
  let coeff ← coefficient same dirKeys dirValues H i
  H.setVoltageValue voltage (offset + coord * coeff)

def toPoint [Field R] (depth : Nat) (H : Objects R) (self coordinate : Handle) :
    Except Fault (Handle × Objects R) := do
  let coord ← H.voltageValue coordinate
  let offset ← H.axisOffset self
  let (point, H) ← cloneStruct depth offset H
  let keys ← H.pointKeys point
  let values ← H.pointValues point
  let dir ← H.axisDirection self
  let dirKeys ← H.directionKeys dir
  let dirValues ← H.directionValues dir
  let gates ← H.elements keys
  let H ← forRange (evaluateAt same dirKeys dirValues values coord) gates.length H
  let _debug_voltage ← H.structAt values 0
  .ok (point, H)

end Compared

end Objects

end FalconStd.Control
