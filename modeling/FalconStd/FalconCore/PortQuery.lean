import FalconStd.Foundation.Search
import FalconStd.Collections.Array

/-! `PortQuery`, and the searches of `Ports`
(`falconCore/instrumentInterfaces/names/ports/ports-wrapper.cpp`).

The ports and their parts belong to falcon_core. A port has what the queries read of
it; the connection is a pointer, which is null in a port that was constructed without
one. Every constructor is given units. -/
namespace FalconStd.FalconCore
open Foundation

/-- The types of falcon_core that a port has parts of, with their `==`. -/
structure Core where
  Connection : Type
  SymbolUnit : Type
  Instrument : Type
  Scope : Type
  Access : Type
  Characteristic : Type
  connectionEq : BEq Connection
  symbolUnitEq : BEq SymbolUnit
  instrumentEq : BEq Instrument
  scopeEq : BEq Scope
  accessEq : BEq Access
  characteristicEq : BEq Characteristic

attribute [instance] Core.connectionEq Core.symbolUnitEq Core.instrumentEq Core.scopeEq
  Core.accessEq Core.characteristicEq

structure InstrumentPort (K : Core) where
  default_name : String
  instrument_name : String
  instrument_type : K.Instrument
  scope : K.Scope
  access : K.Access
  characteristic : K.Characteristic
  pseudo_name : Option K.Connection
  units : K.SymbolUnit

structure PortQuery (K : Core) where
  default_name : Option String
  connection : Option K.Connection
  unit : Option K.SymbolUnit
  instrument_name : Option String
  access : Option K.Access
  scope : Option K.Scope
  instrument : Option K.Instrument
  characteristic : Option K.Characteristic

/-- `ErrorObject{message, fatal}`. -/
structure ErrorObject where
  message : String
  fatal : Bool
  deriving DecidableEq

variable {K : Core}

namespace PortQuery

def new : PortQuery K := ⟨none, none, none, none, none, none, none, none⟩

/-! ### Setters -/

inductive Setter (K : Core) where
  | setDefaultName (defaultName : String)
  | setConnection (conn : K.Connection)
  | setUnit (unit : K.SymbolUnit)
  | setInstrumentName (instrumentName : String)
  | setAccess (access : K.Access)
  | setScope (scope : K.Scope)
  | setInstrument (inst : K.Instrument)
  | setCharacteristic (characteristic : K.Characteristic)

def set (query : PortQuery K) : Setter K → PortQuery K
  | .setDefaultName defaultName => { query with default_name := some defaultName }
  | .setConnection conn => { query with connection := some conn }
  | .setUnit unit => { query with unit := some unit }
  | .setInstrumentName instrumentName => { query with instrument_name := some instrumentName }
  | .setAccess access => { query with access := some access }
  | .setScope scope => { query with scope := some scope }
  | .setInstrument inst => { query with instrument := some inst }
  | .setCharacteristic characteristic => { query with characteristic := some characteristic }

/-- A new query, after setters. -/
def built (setters : List (Setter K)) : PortQuery K := setters.foldl set new

/-! ### Matching -/

/-- `constraint && value != *constraint`. -/
def differs {α : Type} [BEq α] (constraint : Option α) (value : α) : Bool :=
  match constraint with
  | some c => value != c
  | none => false

/-- `connection && *pseudo_name != *connection`, undefined where the pointer is null. -/
def connectionDiffers {α : Type} [BEq α] (constraint pseudo_name : Option α) :
    Except NativeFault Bool :=
  match constraint, pseudo_name with
  | none, _ => .ok false
  | some _, none => .error .undefined
  | some c, some value => .ok (value != c)

def matches_query (query : PortQuery K) (port : InstrumentPort K) : Except NativeFault Bool :=
  if differs query.default_name port.default_name then .ok false
  else if differs query.instrument_name port.instrument_name then .ok false
  else if differs query.instrument port.instrument_type then .ok false
  else if differs query.scope port.scope then .ok false
  else if differs query.access port.access then .ok false
  else if differs query.characteristic port.characteristic then .ok false
  else do
    if ← connectionDiffers query.connection port.pseudo_name then .ok false
    else if differs query.unit port.units then .ok false
    else .ok true

end PortQuery

/-! ### Searches -/

namespace Ports
open PortQuery

/-- The loop of `IsQueryMatch`. -/
def found (query : PortQuery K) : List (InstrumentPort K) → Except NativeFault Bool
  | [] => .ok false
  | port :: rest => do
    if ← matches_query query port then .ok true else found query rest

/-- No error is nil. -/
def isQueryMatch (ports : List (InstrumentPort K)) (query : PortQuery K) :
    Except NativeFault (Option ErrorObject) :=
  match found query ports with
  | .ok true => .ok none
  | .ok false => .ok (some ⟨"No InstrumentPort matches query", false⟩)
  | .error (.raised what) => .ok (some ⟨what, false⟩)
  | .error .undefined => .error .undefined

def findQueryMatch (query : PortQuery K) :
    List (InstrumentPort K) → Except NativeFault (InstrumentPort K)
  | [] => .error (.raised "No InstrumentPort matched PortQuery")
  | port :: rest => do
    if ← matches_query query port then .ok port else findQueryMatch query rest

end Ports

end FalconStd.FalconCore
