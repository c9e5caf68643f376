import FalconStd.FalconCore.Operands

/-! The arithmetic of the arrays of falcon_core (`falconCore/math/arrays`,
`falconCore/generic/farray`).

Each of the nine classes has a wrapper of its own, and an array operand comes as a DSL
struct: `Add` and `Minus` look at its type name and cast the `void` pointer of its native
handle to the class that they take it for. The cast is unchecked, so another class than
the one the handle was made as is undefined. falcon_core is a parameter, `Core`. -/
namespace FalconStd.FalconCore.ArrayArithmetic

inductive ArrayClass where
  | fArray
  | controlArray
  | controlArray1D
  | labelledControlArray
  | labelledControlArray1D
  | measuredArray
  | measuredArray1D
  | labelledMeasuredArray
  | labelledMeasuredArray1D
  deriving DecidableEq

/-- The name that the `pack` helpers give the results of a class. -/
def ArrayClass.type_name : ArrayClass → String
  | .fArray => "FArray"
  | .controlArray => "ControlArray"
  | .controlArray1D => "ControlArray1D"
  | .labelledControlArray => "LabelledControlArray"
  | .labelledControlArray1D => "LabelledControlArray1D"
  | .measuredArray => "MeasuredArray"
  | .measuredArray1D => "MeasuredArray1D"
  | .labelledMeasuredArray => "LabelledMeasuredArray"
  | .labelledMeasuredArray1D => "LabelledMeasuredArray1D"

/-- `+` or `-` of a class, with the overloads for numbers, for an object of the class and
for an `FArray`. -/
structure Overloads (T F : Type) where
  number : Operator T
  same : T → T → Except NativeFault T
  byFArray : T → F → Except NativeFault T

/-- falcon_core. -/
structure Core where
  Obj : ArrayClass → Type
  /-- The constructor of a class from an `FArray`, with the default port of the labelled
  ones. -/
  make : ∀ c, Obj .fArray → Except NativeFault (Obj c)
  controlArray1D : Obj .controlArray → Except NativeFault (Obj .controlArray1D)
  measuredArray1D : Obj .measuredArray → Except NativeFault (Obj .measuredArray1D)
  /-- The `FArray` that an object is. -/
  base : ∀ c, Obj c → Obj .fArray
  plus : ∀ c, Overloads (Obj c) (Obj .fArray)
  minus : ∀ c, Overloads (Obj c) (Obj .fArray)
  times : ∀ c, Operator (Obj c)
  divides : ∀ c, Operator (Obj c)
  power : ∀ c, Operator (Obj c)
  negate : ∀ c, Obj c → Except NativeFault (Obj c)
  abs : ∀ c, Obj c → Except NativeFault (Obj c)
  reshape : ∀ c, Obj c → List UInt64 → Except NativeFault (Obj c)
  flip : ∀ c, Obj c → UInt64 → Except NativeFault (Obj c)
  gradient : ∀ c, Obj c → UInt64 → Except NativeFault (Obj .fArray)

section Values
variable (core : Core)

/-- A native handle is the object with the class that it was made as. -/
structure StructInstance where
  type_name : String
  native_handle : Option (Σ c, core.Obj c)

inductive RuntimeValue where
  | float (x : ℚ)
  | int (n : Int64)
  | struct (inst : Option (StructInstance core))
  | foreign

variable {core}

/-- `std::static_pointer_cast<D>(inst->native_handle.value())`. -/
def StructInstance.castTo (inst : StructInstance core) (d : ArrayClass) :
    Except NativeFault (core.Obj d) :=
  match inst.native_handle with
  | none => .error (.raised "std::bad_optional_access")
  | some ⟨c, object⟩ => if h : c = d then .ok (h ▸ object) else .error .undefined

/-- What the `pack` helpers make of an object. -/
def pack (c : ArrayClass) (object : core.Obj c) : StructInstance core :=
  ⟨c.type_name, some ⟨c, object⟩⟩

/-- A factor, a divisor or an exponent, as a `double`. -/
def toDouble : RuntimeValue core → Except NativeFault ℚ
  | .float x => .ok x
  | .int n => .ok (castDouble n)
  | _ => .error badVariantAccess

end Values

/-! ### `Add` and `Minus` -/

section Additive
variable {core : Core} {c : ArrayClass} (op : Overloads (core.Obj c) (core.Obj .fArray))
  (self : core.Obj c)

/-- What a wrapper does with `other`; `branch` is what it does with a struct. -/
def additive (branch : StructInstance core → Except NativeFault (core.Obj c))
    (unsupported : String) : RuntimeValue core → Except NativeFault (core.Obj c)
  | .float x => op.number.byDouble self x
  | .int n => op.number.byInt self n.toInt32
  | .struct (some inst) => branch inst
  | .struct none => .error .undefined
  | .foreign => .error (.raised unsupported)

def asOwn (inst : StructInstance core) : Except NativeFault (core.Obj c) := do
  let other ← inst.castTo c
  op.same self other

def asFArray (inst : StructInstance core) : Except NativeFault (core.Obj c) := do
  let other ← inst.castTo .fArray
  op.byFArray self other

/-- The cast to the class of the handle comes first, then the one to its base. -/
def asMeasuredArray (inst : StructInstance core) : Except NativeFault (core.Obj c) := do
  let other ← inst.castTo .measuredArray
  op.byFArray self (core.base .measuredArray other)

/-- The operand of a one-dimensional class is wrapped first. -/
def wrapped {d : ArrayClass} (wrap : core.Obj d → Except NativeFault (core.Obj c))
    (inst : StructInstance core) : Except NativeFault (core.Obj c) := do
  let other ← inst.castTo d
  let other_1d ← wrap other
  op.same self other_1d

end Additive

section Wrappers
variable (core : Core)

namespace ControlArray

def branch (op : Overloads (core.Obj .controlArray) (core.Obj .fArray))
    (self : core.Obj .controlArray) (inst : StructInstance core) :
    Except NativeFault (core.Obj .controlArray) :=
  if inst.type_name = "ControlArray" then asOwn op self inst else asFArray op self inst

def add (self : core.Obj .controlArray) :
    RuntimeValue core → Except NativeFault (core.Obj .controlArray) :=
  additive (core.plus _) self (branch core (core.plus _) self)
    "ControlArray.Add: unsupported type for 'other'"

def minus (self : core.Obj .controlArray) :
    RuntimeValue core → Except NativeFault (core.Obj .controlArray) :=
  additive (core.minus _) self (branch core (core.minus _) self)
    "ControlArray.Minus: unsupported type for 'other'"

end ControlArray

namespace ControlArray1D

/-- The sum wraps a `ControlArray`, and takes an object of its own class for one; the
difference takes its own class. -/
def add (self : core.Obj .controlArray1D) :
    RuntimeValue core → Except NativeFault (core.Obj .controlArray1D) :=
  additive (core.plus _) self
    (fun inst =>
      if inst.type_name = "ControlArray" ∨ inst.type_name = "ControlArray1D" then
        wrapped (core.plus _) self core.controlArray1D inst
      else asFArray (core.plus _) self inst)
    "ControlArray1D.Add: unsupported type for 'other'"

def minus (self : core.Obj .controlArray1D) :
    RuntimeValue core → Except NativeFault (core.Obj .controlArray1D) :=
  additive (core.minus _) self
    (fun inst =>
      if inst.type_name = "ControlArray1D" then asOwn (core.minus _) self inst
      else asFArray (core.minus _) self inst)
    "ControlArray1D.Minus: unsupported type for 'other'"

end ControlArray1D

namespace LabelledControlArray

def branch (op : Overloads (core.Obj .labelledControlArray) (core.Obj .fArray))
    (self : core.Obj .labelledControlArray) (inst : StructInstance core) :
    Except NativeFault (core.Obj .labelledControlArray) :=
  if inst.type_name = "LabelledControlArray" then asOwn op self inst else asFArray op self inst

def add (self : core.Obj .labelledControlArray) :
    RuntimeValue core → Except NativeFault (core.Obj .labelledControlArray) :=
  additive (core.plus _) self (branch core (core.plus _) self)
    "LabelledControlArray.Add: unsupported type"

def minus (self : core.Obj .labelledControlArray) :
    RuntimeValue core → Except NativeFault (core.Obj .labelledControlArray) :=
  additive (core.minus _) self (branch core (core.minus _) self)
    "LabelledControlArray.Minus: unsupported type"

end LabelledControlArray

namespace LabelledControlArray1D

def branch (op : Overloads (core.Obj .labelledControlArray1D) (core.Obj .fArray))
    (self : core.Obj .labelledControlArray1D) (inst : StructInstance core) :
    Except NativeFault (core.Obj .labelledControlArray1D) :=
  if inst.type_name = "LabelledControlArray1D" then asOwn op self inst else asFArray op self inst

def add (self : core.Obj .labelledControlArray1D) :
    RuntimeValue core → Except NativeFault (core.Obj .labelledControlArray1D) :=
  additive (core.plus _) self (branch core (core.plus _) self)
    "LabelledControlArray1D.Add: unsupported type"

def minus (self : core.Obj .labelledControlArray1D) :
    RuntimeValue core → Except NativeFault (core.Obj .labelledControlArray1D) :=
  additive (core.minus _) self (branch core (core.minus _) self)
    "LabelledControlArray1D.Minus: unsupported type"

end LabelledControlArray1D

namespace MeasuredArray

def branch (op : Overloads (core.Obj .measuredArray) (core.Obj .fArray))
    (self : core.Obj .measuredArray) (inst : StructInstance core) :
    Except NativeFault (core.Obj .measuredArray) :=
  if inst.type_name = "MeasuredArray" then asOwn op self inst else asFArray op self inst

def add (self : core.Obj .measuredArray) :
    RuntimeValue core → Except NativeFault (core.Obj .measuredArray) :=
  additive (core.plus _) self (branch core (core.plus _) self)
    "MeasuredArray.Add: unsupported type for 'other'"

def minus (self : core.Obj .measuredArray) :
    RuntimeValue core → Except NativeFault (core.Obj .measuredArray) :=
  additive (core.minus _) self (branch core (core.minus _) self)
    "MeasuredArray.Minus: unsupported type for 'other'"

end MeasuredArray

namespace MeasuredArray1D

def branch (op : Overloads (core.Obj .measuredArray1D) (core.Obj .fArray))
    (self : core.Obj .measuredArray1D) (inst : StructInstance core) :
    Except NativeFault (core.Obj .measuredArray1D) :=
  if inst.type_name = "MeasuredArray" ∨ inst.type_name = "MeasuredArray1D" then
    wrapped op self core.measuredArray1D inst
  else asFArray op self inst

def add (self : core.Obj .measuredArray1D) :
    RuntimeValue core → Except NativeFault (core.Obj .measuredArray1D) :=
  additive (core.plus _) self (branch core (core.plus _) self)
    "MeasuredArray1D.Add: unsupported type for 'other'"

def minus (self : core.Obj .measuredArray1D) :
    RuntimeValue core → Except NativeFault (core.Obj .measuredArray1D) :=
  additive (core.minus _) self (branch core (core.minus _) self)
    "MeasuredArray1D.Minus: unsupported type for 'other'"

end MeasuredArray1D

namespace LabelledMeasuredArray

def branch (op : Overloads (core.Obj .labelledMeasuredArray) (core.Obj .fArray))
    (self : core.Obj .labelledMeasuredArray) (inst : StructInstance core) :
    Except NativeFault (core.Obj .labelledMeasuredArray) :=
  if inst.type_name = "LabelledMeasuredArray" then asOwn op self inst
  else if inst.type_name = "MeasuredArray" then asMeasuredArray op self inst
  else asFArray op self inst

def add (self : core.Obj .labelledMeasuredArray) :
    RuntimeValue core → Except NativeFault (core.Obj .labelledMeasuredArray) :=
  additive (core.plus _) self (branch core (core.plus _) self)
    "LabelledMeasuredArray.Add: unsupported type"

def minus (self : core.Obj .labelledMeasuredArray) :
    RuntimeValue core → Except NativeFault (core.Obj .labelledMeasuredArray) :=
  additive (core.minus _) self (branch core (core.minus _) self)
    "LabelledMeasuredArray.Minus: unsupported type"

end LabelledMeasuredArray

namespace LabelledMeasuredArray1D

def branch (op : Overloads (core.Obj .labelledMeasuredArray1D) (core.Obj .fArray))
    (self : core.Obj .labelledMeasuredArray1D) (inst : StructInstance core) :
    Except NativeFault (core.Obj .labelledMeasuredArray1D) :=
  if inst.type_name = "LabelledMeasuredArray1D" then asOwn op self inst
  else if inst.type_name = "MeasuredArray" then asMeasuredArray op self inst
  else asFArray op self inst

def add (self : core.Obj .labelledMeasuredArray1D) :
    RuntimeValue core → Except NativeFault (core.Obj .labelledMeasuredArray1D) :=
  additive (core.plus _) self (branch core (core.plus _) self)
    "LabelledMeasuredArray1D.Add: unsupported type"

def minus (self : core.Obj .labelledMeasuredArray1D) :
    RuntimeValue core → Except NativeFault (core.Obj .labelledMeasuredArray1D) :=
  additive (core.minus _) self (branch core (core.minus _) self)
    "LabelledMeasuredArray1D.Minus: unsupported type"

end LabelledMeasuredArray1D

namespace FArray

/-- The object is what `get_opaque` makes of the operand, possibly none. -/
def additive (op : Overloads (core.Obj .fArray) (core.Obj .fArray)) (self : core.Obj .fArray) :
    Operand (Option (core.Obj .fArray)) → Except NativeFault (core.Obj .fArray)
  | .float val => op.number.byDouble self val
  | .int val => op.number.byDouble self (castDouble val)
  | .object (some other) => op.byFArray self other
  | .object none => .error (.raised "other must be FArray, int, or float")

def add (self : core.Obj .fArray) :
    Operand (Option (core.Obj .fArray)) → Except NativeFault (core.Obj .fArray) :=
  additive core (core.plus _) self

def subtract (self : core.Obj .fArray) :
    Operand (Option (core.Obj .fArray)) → Except NativeFault (core.Obj .fArray) :=
  additive core (core.minus _) self

/-- The exponent is declared a float, and read as an int. -/
def power (self : core.Obj .fArray) : RuntimeValue core → Except NativeFault (core.Obj .fArray)
  | .int exp => (core.power _).byInt self exp.toInt32
  | _ => .error badVariantAccess

end FArray

/-! ### The other routines

They are alike in the eight wrappers of `math/arrays`. -/

section Alike
variable {core} {c : ArrayClass} (self : core.Obj c)

def times (factor : RuntimeValue core) : Except NativeFault (core.Obj c) := do
  let fac ← toDouble factor
  (core.times c).byDouble self fac

def divides (factor : RuntimeValue core) : Except NativeFault (core.Obj c) := do
  let div ← toDouble factor
  (core.divides c).byDouble self div

def power (exponent : RuntimeValue core) : Except NativeFault (core.Obj c) := do
  let exp ← toDouble exponent
  (core.power c).byDouble self exp

/-- `static_cast<size_t>(std::get<int64_t>(value))`. -/
def getSize : RuntimeValue core → Except NativeFault UInt64
  | .int n => .ok n.toUInt64
  | _ => .error badVariantAccess

def reshape (shape : List (RuntimeValue core)) : Except NativeFault (core.Obj c) := do
  let sizes ← shape.mapM getSize
  core.reshape c self sizes

def flip (axis : RuntimeValue core) : Except NativeFault (core.Obj c) := do
  let size ← getSize axis
  core.flip c self size

def gradient (axis : RuntimeValue core) : Except NativeFault (core.Obj .fArray) := do
  let size ← getSize axis
  core.gradient c self size

end Alike

end Wrappers

end FalconStd.FalconCore.ArrayArithmetic
