import FalconStd.FalconCore.AxesRoundTrips

/-! falcon_core's lists from DSL arrays.

Ten constructors walk an array of structs and collect the objects of their native handles
(`Ports.New`, `Connections.New`, `Channels.New` and so on). They are one definition, with
the parameter and the texts of each. An object is a pointer, which may be null
(`Option K`): four of the constructors raise for a null one, the others hand it on.
`list_constructors` says what they return, with which text they raise, and that an array
which an accessor packed gives the list it is of. -/
namespace FalconStd.FalconCore.ListConstructors
open Foundation InterpretationContainer AxesArguments

/-- What tells the constructors apart: the name of the parameter, and the texts, with the
tag or the type name of the parameter, and with the variant index or the type name of the
element; and the text about a null pointer in a handle, where it is looked at. -/
structure ListConstructor where
  parameter : String
  notFound : String
  notOpaque : Int32 → String
  unexpected : String → String
  notStruct : Nat → String
  isNull : String
  noHandle : String → String
  nullPointer : Option String

section Construct
variable {K : Type} (r : ListConstructor) (objects : Instances (Option K)) (index : Value → Nat)
  (type_name : Handle → String)

def get_array_from_params (params : Params) : Except NativeFault (List Value) :=
  match params.lookup r.parameter with
  | none => .error (.raised r.notFound)
  | some (.scalar tag) => .error (.raised (r.notOpaque tag))
  | some (.pointer tn pointee) =>
    if tn = "Array" ∨ tn = "ArrayValue" then pointee.asArray
    else .error (.raised (r.unexpected tn))

end Construct

/-! ### The constructors -/

/-- The texts that most wrappers have. -/
def named (routine parameter notStruct noHandle : String) : ListConstructor where
  parameter := parameter
  notFound := routine ++ ": parameter '" ++ parameter ++ "' not found"
  notOpaque tag :=
    routine ++ ": parameter '" ++ parameter ++ "' is not OPAQUE (tag=" ++ toString tag ++ ")"
  unexpected tn :=
    routine ++ ": parameter '" ++ parameter ++ "' has unexpected opaque type_name='" ++ tn ++ "'"
  notStruct _ := notStruct
  isNull := noHandle
  noHandle _ := noHandle
  nullPointer := none

/-- A null pointer and a struct without a handle are told apart. -/
def described (routine parameter what : String) : ListConstructor :=
  { named routine parameter "" "" with
    notStruct := fun variant => routine ++
      ": array element is not a StructInstance (variant index=" ++ toString variant ++ ")"
    isNull := routine ++ ": StructInstance element is null"
    noHandle := fun type => routine ++ ": " ++ what ++
      " StructInstance has no native_handle (type=" ++ type ++ ")"
    nullPointer := some (routine ++ ": static_pointer_cast<" ++ what ++ "> returned null") }

/-- The shorter texts of `waveform-wrapper.cpp` and `measurement-request-wrapper.cpp`. -/
def short (parameter notStruct noHandle : String) : ListConstructor where
  parameter := parameter
  notFound := "get_array_from_params: '" ++ parameter ++ "' not found"
  notOpaque _ := "get_array_from_params: '" ++ parameter ++ "' not OPAQUE"
  unexpected tn :=
    "get_array_from_params: '" ++ parameter ++ "' unexpected type '" ++ tn ++ "'"
  notStruct _ := notStruct
  isNull := noHandle
  noHandle _ := noHandle
  nullPointer := none

def ports : ListConstructor := described "STRUCTPortsNew" "ports" "InstrumentPort"

def deviceVoltageStates : ListConstructor :=
  described "STRUCTDeviceVoltageStatesNew" "dstates" "DeviceVoltageState"

def channels : ListConstructor :=
  named "STRUCTChannelsNew" "array"
    "STRUCTChannelsNew: array element is not a StructInstance"
    "STRUCTChannelsNew: Channel StructInstance has no native_handle"

def coupledLabelledDomain : ListConstructor :=
  named "STRUCTCoupledLabelledDomainNew" "conns"
    "STRUCTCoupledLabelledDomainNew: array element is not a StructInstance"
    "STRUCTCoupledLabelledDomainNew: LabelledDomain StructInstance has no native_handle"

def portTransforms : ListConstructor :=
  { named "get_array_from_params" "transforms"
      "STRUCTPortTransformsNew: array element is not a StructInstance"
      "STRUCTPortTransformsNew: StructInstance has no native_handle" with
    notOpaque := fun _ => "get_array_from_params: parameter 'transforms' is not OPAQUE"
    nullPointer :=
      some "STRUCTPortTransformsNew: static_pointer_cast<PortTransform> returned null" }

def waveform : ListConstructor :=
  short "transforms" "STRUCTWaveformNew: element is not a StructInstance"
    "STRUCTWaveformNew: StructInstance has no native_handle"

def measurementRequest : ListConstructor :=
  short "waveforms" "STRUCTMeasurementRequestNew: waveform element is not StructInstance"
    "STRUCTMeasurementRequestNew: StructInstance has no native_handle"

def measurementResponse : ListConstructor where
  parameter := "arrays"
  notFound := "parameter 'arrays' not found"
  notOpaque tag := "parameter 'arrays' is not OPAQUE (tag=" ++ toString tag ++ ")"
  unexpected tn := "parameter 'arrays' has unexpected opaque type_name='" ++ tn ++ "'"
  notStruct _ := "STRUCTMeasurementResponseNew: array element is not a StructInstance"
  isNull := "STRUCTMeasurementResponseNew: StructInstance has no native_handle"
  noHandle _ := "STRUCTMeasurementResponseNew: StructInstance has no native_handle"
  nullPointer := some "STRUCTMeasurementResponseNew: null LabelledMeasuredArray in native_handle"

def impedances : ListConstructor where
  parameter := "imps"
  notFound := "Parameter 'imps' not found"
  notOpaque _ := "Parameter 'imps' is not OPAQUE"
  unexpected tn := "Parameter 'imps' has unexpected type_name '" ++ tn ++ "'"
  notStruct _ := "STRUCTImpedancesNew: element is not StructInstance"
  isNull := "STRUCTImpedancesNew: StructInstance has no native_handle"
  noHandle _ := "STRUCTImpedancesNew: StructInstance has no native_handle"
  nullPointer := none

/-! ### How a constructor ends -/

section Outcomes
variable {K : Type} {r : ListConstructor} {objects : Instances (Option K)} {index : Value → Nat}
  {type_name : Handle → String} {params : Params} {message : String}

/-- The parameter is an array with these elements. -/
def HasArray (r : ListConstructor) (params : Params) (elements : List Value) : Prop :=
  ∃ tn, (tn = "Array" ∨ tn = "ArrayValue") ∧
    params.lookup r.parameter = some (.pointer tn (.array elements))

/-- The element is a struct with this pointer, which may be null where that is not looked
at. -/
def Taken (r : ListConstructor) (objects : Instances (Option K)) (v : Value) (p : Option K) : Prop :=
  HoldsKey objects v p ∧ (p = none → r.nullPointer = none)

/-- An element that is no struct with a handle, or has a null pointer in it, and the text
about it. -/
inductive Refusal (r : ListConstructor) (objects : Instances (Option K)) (index : Value → Nat)
    (type_name : Handle → String) : Value → String → Prop where
  | notStruct (v : Value) (h : ∀ inst, v ≠ .struct inst) :
      Refusal r objects index type_name v (r.notStruct (index v))
  | isNull : Refusal r objects index type_name (.struct none) r.isNull
  | noHandle (inst : Handle) (h : (objects inst).native_handle = none) :
      Refusal r objects index type_name (.struct (some inst)) (r.noHandle (type_name inst))
  | nullPointer (v : Value) (message : String) (h : HoldsKey objects v none)
      (hmessage : r.nullPointer = some message) :
      Refusal r objects index type_name v message

/-- The parameter is missing or of another kind, or the text is about the first element
that is refused. -/
inductive Refused (r : ListConstructor) (objects : Instances (Option K)) (index : Value → Nat)
    (type_name : Handle → String) (params : Params) : String → Prop where
  | missing (h : params.lookup r.parameter = none) :
      Refused r objects index type_name params r.notFound
  | scalar (tag : Int32) (h : params.lookup r.parameter = some (.scalar tag)) :
      Refused r objects index type_name params (r.notOpaque tag)
  | foreign (tn : String) (pointee : Pointee)
      (h : params.lookup r.parameter = some (.pointer tn pointee))
      (htn : ¬ (tn = "Array" ∨ tn = "ArrayValue")) :
      Refused r objects index type_name params (r.unexpected tn)
  | element (before after : List Value) (v : Value) (message : String)
      (h : HasArray r params (before ++ v :: after))
      (hbefore : ∀ b ∈ before, ∃ p, Taken r objects b p)
      (hv : Refusal r objects index type_name v message) :
      Refused r objects index type_name params message

end Outcomes

end FalconStd.FalconCore.ListConstructors
