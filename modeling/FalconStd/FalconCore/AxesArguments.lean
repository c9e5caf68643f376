import FalconStd.FalconCore.SettingMessages
import FalconStd.FalconCore.ContainerPairs

/-! The axes that constructors are given (`discrete-space-wrapper.cpp`,
`waveform-wrapper.cpp`, `interpretation-context-wrapper.cpp`).

An argument is an `Axes` struct, whose field `arr_` is an array, or the array itself. Its
elements are ints, structs with an object of falcon_core, or DSL `Map`s from strings to
bools. The three wrappers have a reader each, and `DiscreteSpace.Increasing` packs the maps
of falcon_core for the DSL again. -/
namespace FalconStd.FalconCore.AxesArguments
open Foundation InterpretationContainer

/-- What the pointer of a parameter is to. -/
inductive Pointee where
  | array (elements : List Value)
  | struct (inst : Option Handle)
  | foreign

/-- An entry of the parameter list, with an OPAQUE tag or another one. -/
inductive Param where
  | scalar (tag : Int32)
  | pointer (type_name : String) (pointee : Pointee)

abbrev Params := List (String × Param)

/-- What `unpack_params` makes of the parameter list. -/
abbrev ParameterMap := List (String × Value)

/-- `StructInstance::get_field` gives the field if there is one. -/
structure FieldAccess (K : Type) where
  get_field : Instance K → String → Except NativeFault Value
  get_field_ok_iff : ∀ inst name v, get_field inst name = .ok v ↔
    ∃ fields, inst.fields = some fields ∧ fields.lookup name = some v

/-! ### The accesses -/

def Pointee.asArray : Pointee → Except NativeFault (List Value)
  | .array elements => .ok elements
  | _ => .error .undefined

def Pointee.asStruct : Pointee → Except NativeFault (Option Handle)
  | .struct inst => .ok inst
  | _ => .error .undefined

/-- `std::get<std::string>`. -/
def getString : Value → Except NativeFault String
  | .string s => .ok s
  | _ => .error badVariantAccess

/-- `std::get<bool>`. -/
def getBool : Value → Except NativeFault Bool
  | .bool b => .ok b
  | _ => .error badVariantAccess

/-- `std::get<int64_t>`, and the cast to `int`. -/
def getDivision : Value → Except NativeFault Int32
  | .int n => .ok n.toInt32
  | _ => .error badVariantAccess

/-- `pm.at(key)`. -/
def ParameterMap.at (pm : ParameterMap) (key : String) : Except NativeFault Value :=
  match pm.lookup key with
  | some v => .ok v
  | none => .error (.raised "std::out_of_range")

section Readers
variable {K M : Type} (objects : Instances K)

/-- `std::static_pointer_cast<ArrayValue>(inst->native_handle.value())`, unchecked. -/
def arrayOf (inst : Option Handle) : Except NativeFault (List Value) := do
  let i ← deref objects inst
  let handle ← i.handle
  handle.asArray

/-- The native object of an element; the faults are those of a value that is no struct,
and of a struct without a handle. -/
def nativeOf (notStruct noHandle : NativeFault) : Value → Except NativeFault K
  | .struct (some inst) =>
    match (objects inst).native_handle with
    | some handle => handle.asKey
    | none => .error noHandle
  | .struct none => .error noHandle
  | _ => .error notStruct

/-! ### Maps from strings to bools -/

section Maps
variable (core : CoreMap String Bool M)

/-- One pass of the loop of a converter. -/
def insertPair (keys values : List Value) (m : M) (i : Nat) : Except NativeFault M := do
  let k ← element keys i
  let key ← getString k
  let v ← element values i
  let val ← getBool v
  .ok (core.insert m key val)

def convert (keys values : List Value) : Except NativeFault M :=
  forRange (insertPair core keys values) keys.length core.empty

end Maps

/-! ### `DiscreteSpace` -/

section DiscreteSpace
variable (core : CoreMap String Bool M)

def get_struct_field_array (inst : Option Handle) (field_name : String) :
    Except NativeFault (List Value) :=
  match inst with
  | none =>
    .error (.raised
      ("get_struct_field_array: null StructInstance for field '" ++ field_name ++ "'"))
  | some inst =>
    match (objects inst).fields with
    | none => .error .undefined
    | some fields =>
      match fields.lookup field_name with
      | none =>
        .error (.raised ("get_struct_field_array: field '" ++ field_name ++
          "' not found in StructInstance"))
      | some fv =>
        let wrongKind : NativeFault := .raised ("get_struct_field_array: field '" ++ field_name ++
          "' is not a StructInstance with a native_handle")
        match fv with
        | .struct (some farr_inst) =>
          match (objects farr_inst).native_handle with
          | some handle => handle.asArray
          | none => .error wrongKind
        | _ => .error wrongKind

/-- `inst->fields && inst->fields->count("arr_")`. -/
def hasArr (inst : Handle) : Bool :=
  match (objects inst).fields with
  | some fields => (fields.lookup "arr_").isSome
  | none => false

def get_array_from_params (params : Params) (key : String) : Except NativeFault (List Value) :=
  match params.lookup key with
  | none => .error (.raised ("get_array_from_params: parameter '" ++ key ++ "' not found"))
  | some (.scalar tag) =>
    .error (.raised ("get_array_from_params: parameter '" ++ key ++ "' is not OPAQUE (tag=" ++
      toString tag ++ ")"))
  | some (.pointer tn pointee) =>
    let unexpected : NativeFault := .raised ("get_array_from_params: parameter '" ++ key ++
      "' has unexpected opaque type_name='" ++ tn ++ "'")
    if tn = "Array" ∨ tn = "ArrayValue" then pointee.asArray
    else if tn = "StructInstance" ∨ tn = "Axes" then do
      match ← pointee.asStruct with
      | none => .error .undefined
      | some inst =>
        if hasArr objects inst then get_struct_field_array objects (some inst) "arr_"
        else
          -- a struct that is an array itself
          match (objects inst).native_handle with
          | some handle => handle.asArray
          | none => .error unexpected
    else .error unexpected

def dsl_map_to_bool_map (inst : Option Handle) : Except NativeFault M := do
  let keys_arr ← get_struct_field_array objects inst "keys_"
  let values_arr ← get_struct_field_array objects inst "values_"
  if keys_arr.length ≠ values_arr.length then
    .error (.raised "dsl_map_to_bool_map: keys_ and values_ have different sizes")
  else convert core keys_arr values_arr

/-- `build_cld_axes` and `build_ip_axes` differ in the class and in their name. -/
def build_native_axes (routine : String) (params : Params) (key : String) :
    Except NativeFault (List K) := do
  let arr ← get_array_from_params objects params key
  let notStruct := .raised (routine ++ ": element in '" ++ key ++ "' is not a StructInstance")
  let noHandle := .raised (routine ++ ": element in '" ++ key ++
    "' StructInstance has no native_handle")
  arr.mapM (nativeOf objects notStruct noHandle)

def build_cld_axes (params : Params) (key : String) : Except NativeFault (List K) :=
  build_native_axes objects "build_cld_axes" params key

def build_ip_axes (params : Params) (key : String) : Except NativeFault (List K) :=
  build_native_axes objects "build_ip_axes" params key

/-- An element of `Axes<Map<string,bool>>`. -/
def mapOf (key : String) : Value → Except NativeFault M
  | .struct inst => dsl_map_to_bool_map objects core inst
  | _ => .error (.raised ("build_map_axes: element in '" ++ key ++ "' is not a StructInstance"))

def build_map_axes (params : Params) (key : String) : Except NativeFault (List M) := do
  let arr ← get_array_from_params objects params key
  arr.mapM (mapOf objects core key)

def build_int_axes (params : Params) (key : String) : Except NativeFault (List Int32) := do
  let arr ← get_array_from_params objects params key
  arr.mapM getDivision

end DiscreteSpace

/-! ### `Waveform` -/

section Waveform
variable (core : CoreMap String Bool M) (access : FieldAccess K)

/-- The array of an `Axes` parameter, as `get_int_axes` and
`get_coupled_labelled_domain_axes` read it. -/
def checkedArray (routine : String) (pm : ParameterMap) (key : String) :
    Except NativeFault (List Value) := do
  let inst ← getStruct (← pm.at key)
  match inst with
  | none => .error (.raised (routine ++ ": null StructInstance for '" ++ key ++ "'"))
  | some inst =>
    match (objects inst).fields with
    | none => .error .undefined
    | some fields =>
      match fields.lookup "arr_" with
      | none => .error (.raised (routine ++ ": missing arr_ field for '" ++ key ++ "'"))
      | some arr =>
        match ← getStruct arr with
        | none => .error (.raised (routine ++ ": arr_ is null for '" ++ key ++ "'"))
        | some arr_inst =>
          match (objects arr_inst).native_handle with
          | none =>
            .error (.raised (routine ++ ": Array has no native_handle for '" ++ key ++ "'"))
          | some handle => handle.asArray

def get_int_axes (pm : ParameterMap) (key : String) : Except NativeFault (List Int32) := do
  let arr ← checkedArray objects "get_int_axes" pm key
  arr.mapM getDivision

def get_coupled_labelled_domain_axes (pm : ParameterMap) (key : String) :
    Except NativeFault (List K) := do
  let arr ← checkedArray objects "get_coupled_labelled_domain_axes" pm key
  let invalid := .raised "get_coupled_labelled_domain_axes: invalid element"
  arr.mapM (nativeOf objects badVariantAccess invalid)

/-- `std::get<std::shared_ptr<StructInstance>>(inst->get_field(name))`. -/
def structField (inst : Instance K) (name : String) : Except NativeFault (Option Handle) := do
  let field ← access.get_field inst name
  getStruct field

def build_native_string_bool_map (map_inst : Option Handle) : Except NativeFault M := do
  let inst ← deref objects map_inst
  let keys_inst ← structField access inst "keys_"
  let values_inst ← structField access inst "values_"
  let keys ← arrayOf objects keys_inst
  let values ← arrayOf objects values_inst
  if keys.length ≠ values.length then
    .error (.raised "build_native_string_bool_map: key/value size mismatch")
  else convert core keys values

/-- `static_pointer_cast<ArrayValue>` after a check for null and for a handle. -/
def validArray (name : String) : Option Handle → Except NativeFault (List Value)
  | none => .error (.raised ("get_map_string_bool: " ++ name ++ " array invalid"))
  | some inst =>
    match (objects inst).native_handle with
    | none => .error (.raised ("get_map_string_bool: " ++ name ++ " array invalid"))
    | some handle => handle.asArray

def get_map_string_bool : Option Handle → Except NativeFault M
  | none => .error (.raised "get_map_string_bool: null StructInstance")
  | some inst => do
    let keys_inst ← structField access (objects inst) "keys_"
    let values_inst ← structField access (objects inst) "values_"
    let keys ← validArray objects "keys_" keys_inst
    let values ← validArray objects "values_" values_inst
    if keys.length ≠ values.length then
      .error (.raised "get_map_string_bool: key/value size mismatch")
    else convert core keys values

/-- The field `arr_`, cast and dereferenced without a check. -/
def uncheckedArray (inst : Option Handle) : Except NativeFault (List Value) := do
  let i ← deref objects inst
  let arr_inst ← structField access i "arr_"
  arrayOf objects arr_inst

def get_map_bool_axes (pm : ParameterMap) (key : String) : Except NativeFault (List M) := do
  let inst ← getStruct (← pm.at key)
  let arr ← uncheckedArray objects access inst
  arr.mapM fun elem => do
    let map_inst ← getStruct elem
    build_native_string_bool_map objects core access map_inst

end Waveform

/-! ### `InterpretationContext` -/

section InterpretationContext
variable (access : FieldAccess K)

def extract_array_value (params : Params) (key : String) : Except NativeFault (List Value) :=
  match params.lookup key with
  | none => .error (.raised ("param '" ++ key ++ "' not found"))
  | some (.scalar tag) =>
    .error (.raised ("param '" ++ key ++ "' is not opaque (tag=" ++ toString tag ++ ")"))
  | some (.pointer tn pointee) =>
    if tn = "Array" then pointee.asArray
    else if tn = "StructInstance" then do
      let inst ← pointee.asStruct
      uncheckedArray objects access inst
    else .error (.raised ("param '" ++ key ++ "' has unexpected opaque type: " ++ tn))

/-- An element is read as a key of `InterpretationContainer.New`. -/
def array_value_to_mc_vector (arr : List Value) : Except NativeFault (List K) :=
  arr.mapM (contextOf objects)

end InterpretationContext

end Readers

/-! ### Packing -/

section Packing
variable {K M : Type}

/-- A struct for each object. -/
def pack_mc_array (h : Heap (Instance K)) : List K → List Value × Heap (Instance K)
  | [] => ([], h)
  | mc :: rest =>
    let (inst, h') := h.alloc ⟨some (.key mc), some []⟩
    let (elements, h'') := pack_mc_array h' rest
    (.struct (some inst) :: elements, h'')

/-- The structs of one map: its two arrays, and the map that has them. -/
def packMap (h : Heap (Instance K)) (items : List (String × Bool)) :
    Handle × Heap (Instance K) :=
  let (keys_inst, h) := h.alloc ⟨some (.array (items.map fun kv => .string kv.1)), some []⟩
  let (vals_inst, h) := h.alloc ⟨some (.array (items.map fun kv => .bool kv.2)), some []⟩
  h.alloc ⟨none,
    some [("keys_", .struct (some keys_inst)), ("values_", .struct (some vals_inst))]⟩

/-- The loop of `DiscreteSpace.Increasing`. -/
def increasing (core : CoreMap String Bool M) (h : Heap (Instance K)) :
    List M → List Value × Heap (Instance K)
  | [] => ([], h)
  | m :: rest =>
    let (map_inst, h') := packMap h (core.items m)
    let (elements, h'') := increasing core h' rest
    (.struct (some map_inst) :: elements, h'')

end Packing

end FalconStd.FalconCore.AxesArguments
