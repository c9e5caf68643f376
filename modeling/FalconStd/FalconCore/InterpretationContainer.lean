import FalconStd.Foundation.Rounding
import FalconStd.Foundation.Loop
import FalconStd.Collections.ArraySearch
import FalconStd.Testing.TestContext
import FalconStd.FalconCore.Operands

/-! `InterpretationContainer.New`
(`falconCore/autotunerInterfaces/interpretations/interpretationContainer`), and its
sibling `Point.NewFromRaw` (`falconCore/math/point`).

Both build a map of falcon_core from the two arrays of a DSL `Map`. The map and what is
made of it are a parameter, `Core`, which may throw; an element is a `RuntimeValue`, and
the structs it points to are looked up by address. -/
namespace FalconStd.FalconCore.InterpretationContainer
open Foundation Testing

abbrev Value := Collections.RuntimeValue Double

/-- What the `shared_ptr<void>` of a native handle points to: the elements of an array, an
object of the class of the keys, or one of another class. -/
inductive NativeObject (K : Type) where
  | array (elements : List Value)
  | key (k : K)
  | foreign

structure Instance (K : Type) where
  native_handle : Option (NativeObject K)
  fields : Option (List (String × Value))

abbrev Instances (K : Type) := Handle → Instance K

/-- `falcon_core::generic::Map<K, double>`, and the class that is built from it. -/
structure Core (K M C : Type) where
  empty : M
  insert : M → K → Double → Except String M
  container : M → Except String C

/-! ### The accesses of the wrappers -/

section Accesses
variable {K : Type}

/-- `std::get<std::shared_ptr<StructInstance>>`. -/
def getStruct : Value → Except NativeFault (Option Handle)
  | .struct inst => .ok inst
  | _ => .error badVariantAccess

/-- `std::get<double>`. -/
def getDouble : Value → Except NativeFault Double
  | .float x => .ok x
  | _ => .error badVariantAccess

def deref (objects : Instances K) : Option Handle → Except NativeFault (Instance K)
  | some inst => .ok (objects inst)
  | none => .error .undefined

/-- `fields->at(name)`. -/
def Instance.field (inst : Instance K) (name : String) : Except NativeFault Value :=
  match inst.fields with
  | none => .error .undefined
  | some fields =>
    match fields.lookup name with
    | some v => .ok v
    | none => .error (.raised "std::out_of_range")

/-- `native_handle.value()`. -/
def Instance.handle (inst : Instance K) : Except NativeFault (NativeObject K) :=
  match inst.native_handle with
  | some handle => .ok handle
  | none => .error (.raised "std::bad_optional_access")

/-! A `static_pointer_cast` to a class that the object does not have is not checked. -/

def NativeObject.asArray : NativeObject K → Except NativeFault (List Value)
  | .array elements => .ok elements
  | _ => .error .undefined

def NativeObject.asKey : NativeObject K → Except NativeFault K
  | .key k => .ok k
  | _ => .error .undefined

/-- `elements[i]`, unchecked. -/
def element (elements : List Value) (i : Nat) : Except NativeFault Value :=
  match elements[i]? with
  | some v => .ok v
  | none => .error .undefined

end Accesses

section Wrappers
variable {K M C : Type} (core : Core K M C)

/-- A call into falcon_core. -/
def call {α : Type} : Except String α → Except NativeFault α
  | .ok x => .ok x
  | .error message => .error (.raised message)

/-- One pass of the loop of a constructor. -/
def body (keyOf : Value → Except NativeFault K) (valueOf : Value → Except NativeFault Double)
    (keys values : List Value) (m : M) (i : Nat) : Except NativeFault M := do
  let k ← element keys i
  let key ← keyOf k
  let v ← element values i
  let val ← valueOf v
  call (core.insert m key val)

/-! ### `InterpretationContainer.New` -/

def contextOf (objects : Instances K) (k : Value) : Except NativeFault K := do
  let k_inst ← getStruct k
  let inst ← deref objects k_inst
  let handle ← inst.handle
  handle.asKey

/-- An int is rounded to the nearest float, and what is neither counts as zero. -/
def numberOf : Value → Double
  | .float x => x
  | .int n => .finite (roundInt 53 n.toInt)
  | _ => .finite 0

/-- The arrays `keys_` and `values_` of a map. -/
def arraysOf (objects : Instances K) (map : Value) :
    Except NativeFault (List Value × List Value) := do
  let map_inst ← getStruct map
  let inst ← deref objects map_inst
  let keys_field ← inst.field "keys_"
  let vals_field ← inst.field "values_"
  let keys_inst ← getStruct keys_field
  let vals_inst ← getStruct vals_field
  let keys_handle ← (← deref objects keys_inst).handle
  let keys_arr ← keys_handle.asArray
  let vals_handle ← (← deref objects vals_inst).handle
  let vals_arr ← vals_handle.asArray
  .ok (keys_arr, vals_arr)

def new (objects : Instances K) (map : Value) : Except NativeFault C := do
  let (keys_arr, vals_arr) ← arraysOf objects map
  let map_sp ← forRange (body core (contextOf objects) (fun v => .ok (numberOf v)) keys_arr vals_arr)
    keys_arr.length core.empty
  call (core.container map_sp)

/-! ### `Point.NewFromRaw` -/

def get_struct_field_array (objects : Instances K) (inst : Option Handle) (field_name : String) :
    Except NativeFault (List Value) :=
  match inst with
  | none =>
    .error (.raised
      ("get_struct_field_array: null StructInstance for field '" ++ field_name ++ "'"))
  | some inst =>
    match (objects inst).fields with
    | none => .error .undefined
    | some fields =>
      match fields.lookup field_name with
      | none =>
        .error (.raised ("get_struct_field_array: field '" ++ field_name ++ "' not found"))
      | some fv =>
        let wrongKind : NativeFault := .raised ("get_struct_field_array: field '" ++ field_name ++
          "' is not a StructInstance with native_handle")
        match fv with
        | .struct (some farr_inst) =>
          match (objects farr_inst).native_handle with
          | some handle => handle.asArray
          | none => .error wrongKind
        | _ => .error wrongKind

def connectionOf (objects : Instances K) : Value → Except NativeFault K
  | .struct (some k_inst) =>
    match (objects k_inst).native_handle with
    | some handle => handle.asKey
    | none => .error (.raised "NewFromRaw: Map key StructInstance has no native_handle")
  | .struct none => .error (.raised "NewFromRaw: Map key StructInstance has no native_handle")
  | _ => .error (.raised "NewFromRaw: Map key is not a StructInstance")

/-- The unit of the point goes into `core.container`. -/
def newFromRaw (objects : Instances K) (map_inst : Option Handle) : Except NativeFault C := do
  let keys_arr ← get_struct_field_array objects map_inst "keys_"
  let vals_arr ← get_struct_field_array objects map_inst "values_"
  if keys_arr.length ≠ vals_arr.length then
    .error (.raised "NewFromRaw: Map keys_ and values_ have different sizes")
  else
    let core_map ← forRange (body core (connectionOf objects) getDouble keys_arr vals_arr)
      keys_arr.length core.empty
    call (core.container core_map)

end Wrappers

end FalconStd.FalconCore.InterpretationContainer
