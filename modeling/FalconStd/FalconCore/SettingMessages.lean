import Mathlib.Data.List.Perm.Basic
import FalconStd.Foundation.Assoc

/-! The maps of setting messages (`falconCore/communications/messages`).

`SettingRequest` and `SettingResponse` carry a `falcon_core` map from ports to
quantities. `New` builds it from a DSL `Map`, whose two arrays hold structs with
native handles, and a reader packs it into a DSL `Map` again. The map of
`falcon_core` is a parameter, `CoreMap`, and the round trip rests on two laws of
it (`CoreMap.Lawful`). -/
namespace FalconStd.FalconCore
open Foundation

/-! ### Values of the engine -/

mutual

/-- A struct is held by a shared pointer, which may be null. -/
inductive RuntimeValue (P Q : Type) where
  | nil
  | int (n : Int)
  | string (s : String)
  | struct (inst : Option (StructInstance P Q))

structure StructInstance (P Q : Type) where
  type_name : String
  native_handle : Option (NativeObject P Q)
  fields : Option (List (String × RuntimeValue P Q))

/-- What a `shared_ptr<void>` of the wrappers points to. -/
inductive NativeObject (P Q : Type) where
  | array (element_type_name : String) (elements : List (RuntimeValue P Q))
  | port (p : P)
  | quantity (q : Q)

end

/-- An exception, or a static cast of a handle to a type it does not have. -/
inductive Fault where
  | raised (message : String)
  | wrongCast (type_name : String)
  deriving DecidableEq, Repr

/-- A parameter of a wrapper. -/
inductive Param (P Q : Type) where
  | string (s : String)
  | object (inst : Option (StructInstance P Q))

variable {P Q : Type}

def NativeObject.asArray : NativeObject P Q → Except Fault (List (RuntimeValue P Q))
  | .array _ elements => .ok elements
  | _ => .error (.wrongCast "ArrayValue")

def NativeObject.asPort : NativeObject P Q → Except Fault P
  | .port p => .ok p
  | _ => .error (.wrongCast "InstrumentPort")

def NativeObject.asQuantity : NativeObject P Q → Except Fault Q
  | .quantity q => .ok q
  | _ => .error (.wrongCast "Quantity")

/-! ### The helpers of the wrappers -/

def get_map_param (params : List (String × Param P Q)) (key : String) :
    Except Fault (Option (StructInstance P Q)) :=
  match params.lookup key with
  | some (.object inst) => .ok inst
  | some _ => .error (.raised ("get_map_param: parameter '" ++ key ++ "' is not OPAQUE"))
  | none => .error (.raised ("get_map_param: parameter '" ++ key ++ "' not found"))

def get_struct_field_array (inst : Option (StructInstance P Q)) (field_name : String) :
    Except Fault (List (RuntimeValue P Q)) :=
  match inst.bind StructInstance.fields with
  | none => .error (.raised "get_struct_field_array: null struct instance or fields")
  | some fields =>
    match fields.lookup field_name with
    | none => .error (.raised ("get_struct_field_array: field '" ++ field_name ++ "' not found"))
    | some (.struct (some ⟨_, some handle, _⟩)) => handle.asArray
    | some (.struct _) =>
      .error (.raised ("get_struct_field_array: field '" ++ field_name ++ "' has no native_handle"))
    | some _ =>
      .error (.raised
        ("get_struct_field_array: field '" ++ field_name ++ "' is not a StructInstance"))

/-- The native handle of an element; `what` is `key` or `value`. -/
def nativeHandle (routine what : String) : RuntimeValue P Q → Except Fault (NativeObject P Q)
  | .struct (some ⟨_, some handle, _⟩) => .ok handle
  | .struct _ =>
    .error (.raised (routine ++ ": Map " ++ what ++ " StructInstance has no native_handle"))
  | _ => .error (.raised (routine ++ ": Map " ++ what ++ " is not a StructInstance"))

/-- `falcon_core::generic::Map<InstrumentPort, Quantity>`: `same` is its equality of
keys, and `items` what iterating over it gives. -/
structure CoreMap (P Q M : Type) where
  same : P → P → Prop
  empty : M
  insert : M → P → Q → M
  items : M → List (P × Q)

/-- What the wrappers rely on: a map starts empty, and inserting a key it does not
have adds one item. -/
structure CoreMap.Lawful {M : Type} (core : CoreMap P Q M) : Prop where
  items_empty : core.items core.empty = []
  items_insert : ∀ m p q, (∀ e ∈ core.items m, ¬ core.same e.1 p) →
    (core.items (core.insert m p q)).Perm ((p, q) :: core.items m)

section Messages
variable {M : Type} (core : CoreMap P Q M)

/-- One pass of the loop of `New`. -/
def insertElement (routine : String) (m : M) (e : RuntimeValue P Q × RuntimeValue P Q) :
    Except Fault M := do
  let k_handle ← nativeHandle routine "key" e.1
  let port ← k_handle.asPort
  let v_handle ← nativeHandle routine "value" e.2
  let qty ← v_handle.asQuantity
  .ok (core.insert m port qty)

/-- The part of `New` that builds the native map of the parameter `param`. -/
def buildMap (routine param : String) (params : List (String × Param P Q)) : Except Fault M := do
  let map_inst ← get_map_param params param
  let keys_arr ← get_struct_field_array map_inst "keys_"
  let vals_arr ← get_struct_field_array map_inst "values_"
  if keys_arr.length ≠ vals_arr.length then
    .error (.raised (routine ++ ": Map keys_ and values_ have different sizes"))
  else (keys_arr.zip vals_arr).foldlM (insertElement core routine) core.empty

def portInstance (p : P) : RuntimeValue P Q :=
  .struct (some ⟨"InstrumentPort", some (.port p), some []⟩)

def quantityInstance (q : Q) : RuntimeValue P Q :=
  .struct (some ⟨"Quantity", some (.quantity q), some []⟩)

def arrayInstance (element_type_name : String) (elements : List (RuntimeValue P Q)) :
    RuntimeValue P Q :=
  .struct (some ⟨"Array", some (.array element_type_name elements), some []⟩)

/-- The DSL `Map` that a reader packs. -/
def packMap (m : M) : StructInstance P Q :=
  let items := core.items m
  { type_name := "Map"
    native_handle := none
    fields := some
      [("keys_", arrayInstance "InstrumentPort" (items.map fun e => portInstance e.1)),
        ("values_", arrayInstance "Quantity" (items.map fun e => quantityInstance e.2))] }

end Messages

/-! ### The two messages -/

structure SettingRequest (Ports M : Type) where
  message : String
  getters : Ports
  setters : M

structure SettingResponse (M : Type) where
  message : String
  getters : M

namespace SettingRequest
variable {Ports M : Type} (core : CoreMap P Q M)

/-- The message and the ports are read by the engine's own helpers. -/
def new (message : String) (getters : Ports) (params : List (String × Param P Q)) :
    Except Fault (SettingRequest Ports M) := do
  let setters ← buildMap core "STRUCTSettingRequestNew" "setters" params
  .ok ⟨message, getters, setters⟩

def readSetters (request : SettingRequest Ports M) : StructInstance P Q :=
  packMap core request.setters

end SettingRequest

namespace SettingResponse
variable {M : Type} (core : CoreMap P Q M)

def new (message : String) (params : List (String × Param P Q)) :
    Except Fault (SettingResponse M) := do
  let getters ← buildMap core "STRUCTSettingResponseNew" "getters" params
  .ok ⟨message, getters⟩

def readGetters (response : SettingResponse M) : StructInstance P Q :=
  packMap core response.getters

end SettingResponse

/-! ### What a DSL map holds -/

def portOf : RuntimeValue P Q → Option P
  | .struct (some ⟨_, some (.port p), _⟩) => some p
  | _ => none

def quantityOf : RuntimeValue P Q → Option Q
  | .struct (some ⟨_, some (.quantity q), _⟩) => some q
  | _ => none

/-- The two arrays of a DSL `Map`. -/
structure HasArrays (inst : StructInstance P Q) (keys values : List (RuntimeValue P Q)) : Prop where
  keys_ : get_struct_field_array (some inst) "keys_" = .ok keys
  values_ : get_struct_field_array (some inst) "values_" = .ok values

/-- A DSL `Map` from these port structs to these quantity structs, in step. -/
def Holds (inst : StructInstance P Q) (ports : List P) (quantities : List Q) : Prop :=
  ∃ keys values, HasArrays inst keys values ∧ keys.map portOf = ports.map some ∧
    values.map quantityOf = quantities.map some

theorem packMap_holds {M : Type} (core : CoreMap P Q M) (m : M) :
    Holds (packMap core m) ((core.items m).map Prod.fst) ((core.items m).map Prod.snd) := by
  refine ⟨_, _, ⟨rfl, rfl⟩, ?_, ?_⟩
  · simp [portInstance, portOf]
  · simp [quantityInstance, quantityOf]

/-! ### Building the native map -/

section Build
variable {M : Type} {core : CoreMap P Q M} (routine : String)

theorem insertElement_ok {e : RuntimeValue P Q × RuntimeValue P Q} {p : P} {q : Q}
    (hp : portOf e.1 = some p) (hq : quantityOf e.2 = some q) (m : M) :
    insertElement core routine m e = .ok (core.insert m p q) := by
  obtain ⟨k, v⟩ := e
  simp only [portOf] at hp
  split at hp
  case h_2 => cases hp
  case h_1 =>
    cases hp
    simp only [quantityOf] at hq
    split at hq
    case h_2 => cases hq
    case h_1 =>
      cases hq
      rfl

/-- The loop inserts the pairs one by one. -/
theorem foldlM_insertElement {keys values : List (RuntimeValue P Q)} {ports : List P}
    {quantities : List Q} (hports : keys.map portOf = ports.map some)
    (hquantities : values.map quantityOf = quantities.map some) (m : M) :
    (keys.zip values).foldlM (insertElement core routine) m =
      .ok ((ports.zip quantities).foldl (fun m e => core.insert m e.1 e.2) m) := by
  induction keys generalizing values ports quantities m with
  | nil =>
    obtain rfl : ports = [] := by simpa using hports.symm
    rfl
  | cons k keys ih =>
    obtain ⟨p, ports, rfl⟩ : ∃ p ps, ports = p :: ps := by
      cases ports with
      | nil => simp at hports
      | cons p ps => exact ⟨p, ps, rfl⟩
    obtain ⟨hp, hports⟩ := List.cons.inj hports
    cases values with
    | nil =>
      obtain rfl : quantities = [] := by simpa using hquantities.symm
      rfl
    | cons v values =>
      obtain ⟨q, quantities, rfl⟩ : ∃ q qs, quantities = q :: qs := by
        cases quantities with
        | nil => simp at hquantities
        | cons q qs => exact ⟨q, qs, rfl⟩
      obtain ⟨hq, hquantities⟩ := List.cons.inj hquantities
      have hfirst : insertElement core routine m (k, v) = .ok (core.insert m p q) :=
        insertElement_ok routine hp hq m
      rw [List.zip_cons_cons, List.foldlM_cons, hfirst]
      exact ih hports hquantities (core.insert m p q)

/-- Fresh keys with their values are what they add to the items. -/
theorem items_foldl (hcore : core.Lawful) (l : List (P × Q)) (m : M)
    (hfresh : ∀ e ∈ core.items m, ∀ e' ∈ l, ¬ core.same e.1 e'.1)
    (hdistinct : l.Pairwise fun a b => ¬ core.same a.1 b.1) :
    (core.items (l.foldl (fun m e => core.insert m e.1 e.2) m)).Perm (core.items m ++ l) := by
  induction l generalizing m with
  | nil => simp
  | cons e rest ih =>
    obtain ⟨hhead, htail⟩ := List.pairwise_cons.mp hdistinct
    have hinsert := hcore.items_insert m e.1 e.2 fun e' he' => hfresh e' he' e (List.mem_cons_self ..)
    have hfresh' : ∀ e' ∈ core.items (core.insert m e.1 e.2), ∀ e'' ∈ rest,
        ¬ core.same e'.1 e''.1 := by
      intro e' he' e'' he''
      rcases List.mem_cons.mp (hinsert.mem_iff.mp he') with rfl | hold
      · exact hhead e'' he''
      · exact hfresh e' hold e'' (List.mem_cons_of_mem e he'')
    refine (ih (core.insert m e.1 e.2) hfresh' htail).trans ?_
    exact (hinsert.append_right rest).trans List.perm_middle.symm

theorem buildMap_holds (hcore : core.Lawful) {inst : StructInstance P Q} {ports : List P}
    {quantities : List Q} (hinst : Holds inst ports quantities)
    (haligned : ports.length = quantities.length)
    (hdistinct : ports.Pairwise fun a b => ¬ core.same a b) {params : List (String × Param P Q)}
    {param : String} (hparam : get_map_param params param = .ok (some inst)) :
    ∃ m, buildMap core routine param params = .ok m ∧
      (core.items m).Perm (ports.zip quantities) := by
  obtain ⟨keys, values, harrays, hports, hquantities⟩ := hinst
  have hkeys : keys.length = ports.length := by simpa using congrArg List.length hports
  have hvalues : values.length = quantities.length := by simpa using congrArg List.length hquantities
  have hpairs : (ports.zip quantities).Pairwise fun a b => ¬ core.same a.1 b.1 := by
    have hfst : (ports.zip quantities).map Prod.fst = ports :=
      List.map_fst_zip (Nat.le_of_eq haligned)
    rw [← hfst, List.pairwise_map] at hdistinct
    exact hdistinct
  have hitems := items_foldl hcore (ports.zip quantities) core.empty
    (by simp [hcore.items_empty]) hpairs
  rw [hcore.items_empty, List.nil_append] at hitems
  refine ⟨_, ?_, hitems⟩
  rw [buildMap, hparam]
  simp only [bind, Except.bind, harrays.keys_, harrays.values_]
  rw [if_neg (by omega), foldlM_insertElement routine hports hquantities]

/-! ### Refusing what is no such map -/

/-- The native handle of a struct; no other value has one. -/
def handleOf : RuntimeValue P Q → Option (NativeObject P Q)
  | .struct (some inst) => inst.native_handle
  | _ => none

theorem nativeHandle_of_some (what : String) {e : RuntimeValue P Q} {handle : NativeObject P Q}
    (h : handleOf e = some handle) : nativeHandle routine what e = .ok handle := by
  rcases e with _ | _ | _ | (_ | ⟨type_name, native_handle, fields⟩)
  case struct.some =>
    obtain rfl : native_handle = some handle := h
    rfl
  all_goals cases h

theorem nativeHandle_of_none (what : String) {e : RuntimeValue P Q} (h : handleOf e = none) :
    ∃ message, nativeHandle routine what e = .error (.raised message) := by
  rcases e with _ | _ | _ | (_ | ⟨type_name, native_handle, fields⟩)
  case struct.some =>
    obtain rfl : native_handle = none := h
    exact ⟨_, rfl⟩
  all_goals exact ⟨_, rfl⟩

/-- What the DSL's types promise of the elements: a handle among the keys is a
port's, and one among the values a quantity's. -/
def Typed (e : RuntimeValue P Q × RuntimeValue P Q) : Prop :=
  (∀ handle, handleOf e.1 = some handle → ∃ p, handle = .port p) ∧
    ∀ handle, handleOf e.2 = some handle → ∃ q, handle = .quantity q

variable (core) in
theorem insertElement_typed {e : RuntimeValue P Q × RuntimeValue P Q} (he : Typed e) (m : M) :
    (∃ message, insertElement core routine m e = .error (.raised message)) ∨
      (handleOf e.1 ≠ none ∧ handleOf e.2 ≠ none ∧
        ∃ m', insertElement core routine m e = .ok m') := by
  cases hk : handleOf e.1 with
  | none =>
    obtain ⟨message, hraise⟩ := nativeHandle_of_none routine "key" hk
    exact .inl ⟨message, by rw [insertElement, hraise]; rfl⟩
  | some k_handle =>
    obtain ⟨p, rfl⟩ := he.1 k_handle hk
    have hkey := nativeHandle_of_some routine "key" hk
    cases hv : handleOf e.2 with
    | none =>
      obtain ⟨message, hraise⟩ := nativeHandle_of_none routine "value" hv
      exact .inl ⟨message, by rw [insertElement, hkey, hraise]; rfl⟩
    | some v_handle =>
      obtain ⟨q, rfl⟩ := he.2 v_handle hv
      have hvalue := nativeHandle_of_some routine "value" hv
      exact .inr ⟨nofun, nofun, core.insert m p q, by rw [insertElement, hkey, hvalue]; rfl⟩

variable (core) in
/-- One element without a native handle makes the loop raise. -/
theorem foldlM_raises {l : List (RuntimeValue P Q × RuntimeValue P Q)} (htyped : ∀ e ∈ l, Typed e)
    (hbad : ∃ e ∈ l, handleOf e.1 = none ∨ handleOf e.2 = none) (m : M) :
    ∃ message, l.foldlM (insertElement core routine) m = .error (.raised message) := by
  induction l generalizing m with
  | nil => simp at hbad
  | cons e rest ih =>
    rw [List.foldlM_cons]
    rcases insertElement_typed core routine (htyped e (List.mem_cons_self ..)) m with
      ⟨message, hraise⟩ | ⟨hk, hv, m', hok⟩
    · exact ⟨message, by rw [hraise]; rfl⟩
    · rw [hok]
      refine ih (fun e' he' => htyped e' (List.mem_cons_of_mem e he')) ?_ m'
      obtain ⟨e', he', hnone⟩ := hbad
      rcases List.mem_cons.mp he' with rfl | hrest
      · exact absurd hnone (not_or.mpr ⟨hk, hv⟩)
      · exact ⟨e', hrest, hnone⟩

/-- Arrays of different lengths, or an element that is no struct with a native handle. -/
def Malformed (keys values : List (RuntimeValue P Q)) : Prop :=
  keys.length ≠ values.length ∨ (∃ k ∈ keys, handleOf k = none) ∨ ∃ v ∈ values, handleOf v = none

variable (core) in
theorem buildMap_raises {inst : StructInstance P Q} {keys values : List (RuntimeValue P Q)}
    (harrays : HasArrays inst keys values) (htyped : ∀ e ∈ keys.zip values, Typed e)
    (hbad : Malformed keys values) {params : List (String × Param P Q)} {param : String}
    (hparam : get_map_param params param = .ok (some inst)) :
    ∃ message, buildMap core routine param params = .error (.raised message) := by
  rw [buildMap, hparam]
  simp only [bind, Except.bind, harrays.keys_, harrays.values_]
  by_cases hlen : keys.length = values.length
  · rw [if_neg (not_not.mpr hlen)]
    refine foldlM_raises core routine htyped ?_ core.empty
    rcases hbad with hne | ⟨k, hk, hnone⟩ | ⟨v, hv, hnone⟩
    · exact absurd hlen hne
    · rw [← List.map_fst_zip (Nat.le_of_eq hlen)] at hk
      obtain ⟨e, he, rfl⟩ := List.mem_map.mp hk
      exact ⟨e, he, .inl hnone⟩
    · rw [← List.map_snd_zip (Nat.le_of_eq hlen.symm)] at hv
      obtain ⟨e, he, rfl⟩ := List.mem_map.mp hv
      exact ⟨e, he, .inr hnone⟩
  · rw [if_pos hlen]
    exact ⟨_, rfl⟩

end Build

/-! ### Round trip -/

section RoundTrip
variable {M : Type} (core : CoreMap P Q M)

/-- A DSL `Map` of equal-length arrays with these pairs, in some order. -/
def HoldsPairs (inst : StructInstance P Q) (pairs : List (P × Q)) : Prop :=
  ∃ ports quantities, Holds inst ports quantities ∧ ports.length = quantities.length ∧
    (ports.zip quantities).Perm pairs

theorem packMap_holdsPairs {m : M} {pairs : List (P × Q)} (h : (core.items m).Perm pairs) :
    HoldsPairs (packMap core m) pairs := by
  refine ⟨_, _, packMap_holds core m, by simp, ?_⟩
  have hzip : ((core.items m).map Prod.fst).zip ((core.items m).map Prod.snd) = core.items m := by
    rw [List.zip_map']
    simp
  rwa [hzip]

/-- Both messages return, and reading the map back gives the same pairs. -/
def RoundTrips (inst : StructInstance P Q) (pairs : List (P × Q)) : Prop :=
  ∀ (Ports : Type) (message : String) (ports : Ports) (params : List (String × Param P Q)),
    (get_map_param params "setters" = .ok (some inst) →
      ∃ request, SettingRequest.new core message ports params = .ok request ∧
        HoldsPairs (request.readSetters core) pairs) ∧
    (get_map_param params "getters" = .ok (some inst) →
      ∃ response, SettingResponse.new core message params = .ok response ∧
        HoldsPairs (response.readGetters core) pairs)

/-- Neither message is built. -/
def Refuses (inst : StructInstance P Q) : Prop :=
  ∀ (Ports : Type) (message : String) (ports : Ports) (params : List (String × Param P Q)),
    (get_map_param params "setters" = .ok (some inst) →
      ∃ text, SettingRequest.new core message ports params = .error (.raised text)) ∧
    (get_map_param params "getters" = .ok (some inst) →
      ∃ text, SettingResponse.new core message params = .error (.raised text))

/-- **The maps of setting messages round-trip**: an aligned DSL `Map` with distinct
ports is read back with the same pairs, and a malformed one raises. -/
theorem setting_messages (hcore : core.Lawful) :
    (∀ (inst : StructInstance P Q) (ports : List P) (quantities : List Q),
      Holds inst ports quantities → ports.length = quantities.length →
        (ports.Pairwise fun a b => ¬ core.same a b) →
          RoundTrips core inst (ports.zip quantities)) ∧
      ∀ (inst : StructInstance P Q) (keys values : List (RuntimeValue P Q)),
        HasArrays inst keys values → (∀ e ∈ keys.zip values, Typed e) → Malformed keys values →
          Refuses core inst := by
  refine ⟨fun inst ports quantities hinst haligned hdistinct Ports message getters params => ?_,
    fun inst keys values harrays htyped hbad Ports message getters params => ?_⟩
  · refine ⟨fun hparam => ?_, fun hparam => ?_⟩
    · obtain ⟨m, hbuild, hitems⟩ := buildMap_holds "STRUCTSettingRequestNew" hcore hinst haligned
        hdistinct hparam
      refine ⟨⟨message, getters, m⟩, ?_, packMap_holdsPairs core hitems⟩
      rw [SettingRequest.new, hbuild]
      rfl
    · obtain ⟨m, hbuild, hitems⟩ := buildMap_holds "STRUCTSettingResponseNew" hcore hinst haligned
        hdistinct hparam
      refine ⟨⟨message, m⟩, ?_, packMap_holdsPairs core hitems⟩
      rw [SettingResponse.new, hbuild]
      rfl
  · refine ⟨fun hparam => ?_, fun hparam => ?_⟩
    · obtain ⟨text, hraise⟩ := buildMap_raises core "STRUCTSettingRequestNew" harrays htyped hbad hparam
      exact ⟨text, by rw [SettingRequest.new, hraise]; rfl⟩
    · obtain ⟨text, hraise⟩ := buildMap_raises core "STRUCTSettingResponseNew" harrays htyped hbad hparam
      exact ⟨text, by rw [SettingResponse.new, hraise]; rfl⟩

end RoundTrip

/-! ### A native map as a list -/

/-- Ports compared as they are, in the order of insertion. -/
def listMap : CoreMap String Int (List (String × Int)) where
  same := (· = ·)
  empty := []
  insert m p q := Assoc.set p q m
  items m := m

theorem listMap_lawful : listMap.Lawful where
  items_empty := rfl
  items_insert m p q hfresh := by
    have hnone : Assoc.get? p m = none :=
      (Assoc.get?_eq_none_iff p m).mpr fun e he => beq_false_of_ne (hfresh e he)
    show (Assoc.set p q m).Perm _
    rw [Assoc.set_of_get?_none q hnone]
    exact List.perm_append_singleton (p, q) m

/-- A key that is no struct. -/
def malformedMap : StructInstance String Int where
  type_name := "Map"
  native_handle := none
  fields := some [("keys_", arrayInstance "" [.int 3]),
    ("values_", arrayInstance "" [quantityInstance 1])]

theorem setting_messages_two :
    RoundTrips listMap (packMap listMap [("P1", 1), ("P2", 2)]) [("P1", 1), ("P2", 2)] ∧
      Refuses listMap malformedMap := by
  refine ⟨(setting_messages listMap listMap_lawful).1 _ ["P1", "P2"] [1, 2]
    (packMap_holds listMap [("P1", 1), ("P2", 2)]) rfl ?_, ?_⟩
  · simp [listMap]
  · refine (setting_messages listMap listMap_lawful).2 malformedMap _ _ ⟨rfl, rfl⟩ ?_
      (.inr (.inl ⟨.int 3, List.mem_singleton_self _, rfl⟩))
    intro e he
    obtain rfl : e = (.int 3, quantityInstance 1) := by simpa using he
    exact ⟨nofun, fun handle hhandle => ⟨1, by cases hhandle; rfl⟩⟩

end FalconStd.FalconCore
