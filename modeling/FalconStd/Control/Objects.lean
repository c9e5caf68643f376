import FalconStd.Foundation.Assoc
import FalconStd.Foundation.Returns
import FalconStd.Foundation.Separation
import FalconStd.Collections.Array

/-! The objects behind the values of the DSL, and the deep clone of
`control-axis-wrapper.cpp`.

Structs and the vectors behind arrays are shared objects on a heap; variables,
fields and elements hold pointers to them. A null pointer is a value without an
object, like the primitives. -/
namespace FalconStd.Control
open Collections Foundation

/-- How a call on objects ends without a result. -/
inductive Fault where
  | raised (failure : Failure)
  | badVariantAccess
  | badOptionalAccess
  | badCast
  | stackOverflow
  deriving DecidableEq, Repr

inductive RuntimeValue (R : Type) where
  | nil
  | bool (b : Bool)
  | int (n : Int)
  | float (x : R)
  | string (s : String)
  | struct (inst : Handle)
  | array (items : Handle)
  | tuple (values : Handle)

def isArrayType (type_name : String) : Bool :=
  type_name == "Array" || "Array<".toList.isPrefixOf type_name.toList

theorem isArrayType_array : isArrayType "Array" = true := rfl

/-- What a struct of a type carries: the arrays an `ArrayValue`, and no other type. -/
inductive NativeObject (type_name : String) where
  | array (typed : isArrayType type_name = true) (items : Handle)
  | foreign (typed : isArrayType type_name = false) (object : Nat)

structure StructInstance (R : Type) where
  type_name : String
  native_handle : Option (NativeObject type_name)
  fields : List (String × RuntimeValue R)

inductive Object (R : Type) where
  | inst (s : StructInstance R)
  | array (element_type_name : String) (elements : List (RuntimeValue R))
  | tuple (values : List (RuntimeValue R))

abbrev Objects (R : Type) := Heap (Object R)

variable {R : Type}

namespace RuntimeValue

/-- `std::get<std::shared_ptr<StructInstance>>`, to be dereferenced. -/
def asStruct : RuntimeValue R → Except Fault Handle
  | .struct inst => .ok inst
  | _ => .error .badVariantAccess

/-- `std::get<double>`. -/
def asFloat : RuntimeValue R → Except Fault R
  | .float x => .ok x
  | _ => .error .badVariantAccess

def refs : RuntimeValue R → List Handle
  | .struct inst => [inst]
  | .array items => [items]
  | .tuple values => [values]
  | _ => []

theorem returns_asStruct (v : RuntimeValue R) : Returns v.asStruct fun inst => v = .struct inst := by
  constructor
  intro inst h
  cases v <;> cases h
  rfl

end RuntimeValue

def NativeObject.refs {type_name : String} : NativeObject type_name → List Handle
  | .array _ items => [items]
  | .foreign _ _ => []

def StructInstance.refs (s : StructInstance R) : List Handle :=
  (s.native_handle.map NativeObject.refs).getD [] ++ s.fields.flatMap fun field => field.2.refs

def Object.refs : Object R → List Handle
  | .inst s => s.refs
  | .array _ elements => elements.flatMap RuntimeValue.refs
  | .tuple values => values.flatMap RuntimeValue.refs

/-- Objects that nobody mutates: they hold no pointers, and vectors are not among them. -/
structure Immutable (R : Type) where
  Holds : Object R → Prop
  leaf : ∀ {o : Object R}, Holds o → o.refs = []
  not_array : ∀ {ty : String} {elements : List (RuntimeValue R)}, ¬ Holds (.array ty elements)

def Immutable.layout (I : Immutable R) : Layout (Object R) := ⟨Object.refs, I.Holds, I.leaf⟩

namespace Objects

/-! ### Fields, elements and native handles -/

def makeShared (H : Objects R) (o : Object R) : Handle × Objects R := H.alloc o

def getField (H : Objects R) (obj : Handle) (name : String) : Except Fault (RuntimeValue R) :=
  match H.cell obj with
  | .inst s =>
    match Assoc.get? name s.fields with
    | some v => .ok v
    | none => .error (.raised (.missingField name))
  | _ => .error .badCast

def setField (H : Objects R) (obj : Handle) (name : String) (value : RuntimeValue R) :
    Except Fault (Objects R) :=
  match H.cell obj with
  | .inst s => .ok (H.write obj (.inst { s with fields := Assoc.set name value s.fields }))
  | _ => .error .badCast

def arrayItems (H : Objects R) (arr : Handle) : Except Fault Handle :=
  match H.cell arr with
  | .inst s =>
    match s.native_handle with
    | some (.array _ items) => .ok items
    | some (.foreign _ _) => .error .badCast
    | none => .error .badOptionalAccess
  | _ => .error .badCast

def elements (H : Objects R) (items : Handle) : Except Fault (List (RuntimeValue R)) :=
  match H.cell items with
  | .array _ elements => .ok elements
  | _ => .error .badCast

def setElements (H : Objects R) (items : Handle) (elements : List (RuntimeValue R)) :
    Except Fault (Objects R) :=
  match H.cell items with
  | .array ty _ => .ok (H.write items (.array ty elements))
  | _ => .error .badCast

/-- `elements[i]`, unchecked. -/
def elementAt (H : Objects R) (items : Handle) (i : Nat) : Except Fault (RuntimeValue R) := do
  let elements ← H.elements items
  (unchecked elements i).mapError .raised

def getStructField (H : Objects R) (obj : Handle) (field_name : String) : Except Fault Handle := do
  let field ← H.getField obj field_name
  field.asStruct

def getArrayField (H : Objects R) (obj : Handle) (field_name : String) : Except Fault Handle := do
  let arr_struct ← H.getStructField obj field_name
  H.arrayItems arr_struct

/-! ### Deep clone -/

/-- A way to clone a value, and the objects it leaves. -/
abbrev Clone (R : Type) := RuntimeValue R → Objects R → Except Fault (RuntimeValue R × Objects R)

def cloneAll (clone : Clone R) :
    List (RuntimeValue R) → Objects R → Except Fault (List (RuntimeValue R) × Objects R)
  | [], H => .ok ([], H)
  | value :: rest, H => do
    let (value, H) ← clone value H
    let (rest, H) ← cloneAll clone rest H
    .ok (value :: rest, H)

def cloneArray (clone : Clone R) (src : Handle) (H : Objects R) :
    Except Fault (Handle × Objects R) :=
  match H.cell src with
  | .array ty elements => do
    let (elements, H) ← cloneAll clone elements H
    .ok (H.makeShared (.array ty elements))
  | _ => .error .badCast

/-- The native handle of the clone: an array's is cloned, any other shared. -/
def cloneNative (clone : Clone R) {type_name : String} :
    Option (NativeObject type_name) → Objects R →
      Except Fault (Option (NativeObject type_name) × Objects R)
  | some (.array typed items), H => do
    let (items, H) ← cloneArray clone items H
    .ok (some (.array typed items), H)
  | some (.foreign typed object), H => .ok (some (.foreign typed object), H)
  | none, H => .ok (none, H)

def cloneStructWith (clone : Clone R) (src : Handle) (H : Objects R) :
    Except Fault (Handle × Objects R) :=
  match H.cell src with
  | .inst s => do
    let (native_handle, H) ← cloneNative clone s.native_handle H
    let (values, H) ← cloneAll clone (s.fields.map Prod.snd) H
    .ok (H.makeShared (.inst ⟨s.type_name, native_handle, (s.fields.map Prod.fst).zip values⟩))
  | _ => .error .badCast

def cloneTuple (clone : Clone R) (src : Handle) (H : Objects R) :
    Except Fault (Handle × Objects R) :=
  match H.cell src with
  | .tuple values => do
    let (values, H) ← cloneAll clone values H
    .ok (H.makeShared (.tuple values))
  | _ => .error .badCast

/-- The recursion goes as deep as the stack allows. -/
def cloneRuntimeValue : Nat → Clone R
  | 0, _, _ => .error .stackOverflow
  | depth + 1, .struct src, H => do
    let (inst, H) ← cloneStructWith (cloneRuntimeValue depth) src H
    .ok (.struct inst, H)
  | depth + 1, .array src, H => do
    let (items, H) ← cloneArray (cloneRuntimeValue depth) src H
    .ok (.array items, H)
  | depth + 1, .tuple src, H => do
    let (values, H) ← cloneTuple (cloneRuntimeValue depth) src H
    .ok (.tuple values, H)
  | _ + 1, value, H => .ok (value, H)

def cloneStruct (depth : Nat) (src : Handle) (H : Objects R) : Except Fault (Handle × Objects R) :=
  cloneStructWith (cloneRuntimeValue depth) src H

/-! ### What the reads lead to -/

section Reads
variable {H H' : Objects R} {obj arr items r : Handle} {name : String} {v : RuntimeValue R}

theorem getField_ok (h : H.getField obj name = .ok v) :
    ∃ s, H.cell obj = .inst s ∧ Assoc.get? name s.fields = some v := by
  rw [getField] at h
  split at h
  case h_2 => cases h
  case h_1 s hs =>
    refine ⟨s, hs, ?_⟩
    split at h
    case h_2 => cases h
    case h_1 v' hv =>
      cases h
      exact hv

theorem returns_getField (H : Objects R) (obj : Handle) (name : String) :
    Returns (H.getField obj name) fun v => ∀ r ∈ v.refs, H.Points Object.refs obj r := by
  constructor
  intro v h r hr
  obtain ⟨s, hs, hv⟩ := getField_ok h
  obtain ⟨k, hmem⟩ := Assoc.mem_of_get? hv
  rw [Heap.Points, hs]
  exact List.mem_append_right _ (List.mem_flatMap.mpr ⟨(k, v), hmem, hr⟩)

theorem returns_arrayItems (H : Objects R) (arr : Handle) :
    Returns (H.arrayItems arr) (H.Points Object.refs arr) := by
  constructor
  intro items h
  rw [arrayItems] at h
  split at h
  case h_2 => cases h
  case h_1 s hs =>
    split at h
    case h_2 => cases h
    case h_3 => cases h
    case h_1 typed items' hn =>
      cases h
      rw [Heap.Points, hs]
      simp [Object.refs, StructInstance.refs, hn, NativeObject.refs]

theorem returns_elements (H : Objects R) (items : Handle) :
    Returns (H.elements items) fun elements =>
      ∀ v ∈ elements, ∀ r ∈ v.refs, H.Points Object.refs items r := by
  constructor
  intro elements h v hv r hr
  rw [Objects.elements] at h
  split at h
  case h_2 => cases h
  case h_1 ty elements' hcell =>
    cases h
    rw [Heap.Points, hcell]
    exact List.mem_flatMap.mpr ⟨v, hv, hr⟩

theorem returns_unchecked {α : Type} (elements : List α) (i : Nat) :
    Returns (unchecked elements i) (· ∈ elements) := by
  rw [unchecked]
  split
  case h_1 x hx => exact .ok (List.mem_of_getElem? hx)
  case h_2 => exact .error

/-- What holds of all elements holds of one that is read. -/
theorem returns_elementAt {Q : RuntimeValue R → Prop}
    (h : Returns (H.elements items) fun elements => ∀ v ∈ elements, Q v) (i : Nat) :
    Returns (H.elementAt items i) Q := by
  apply Returns.bind h
  intro elements helements
  exact ((returns_unchecked elements i).mono helements).mapError

theorem returns_getStructField (H : Objects R) (obj : Handle) (name : String) :
    Returns (H.getStructField obj name) (H.Points Object.refs obj) := by
  apply Returns.bind (returns_getField H obj name)
  intro field hfield
  apply (RuntimeValue.returns_asStruct field).mono
  intro r heq
  subst heq
  exact hfield r List.mem_cons_self

theorem returns_getArrayField (H : Objects R) (obj : Handle) (name : String) :
    Returns (H.getArrayField obj name) (H.Reaches Object.refs obj) := by
  apply Returns.bind (returns_getStructField H obj name)
  intro arr harr
  apply (returns_arrayItems H arr).mono
  intro items hitems
  exact .tail (.single harr) hitems

/-! A read depends on the objects on its way. -/

theorem getStructField_same (hobj : H'.cell obj = H.cell obj) (name : String) :
    H'.getStructField obj name = H.getStructField obj name := by
  rw [getStructField, getStructField, getField, getField, hobj]

theorem arrayItems_same (harr : H'.cell arr = H.cell arr) :
    H'.arrayItems arr = H.arrayItems arr := by
  rw [arrayItems, arrayItems, harr]

theorem elements_same (hitems : H'.cell items = H.cell items) :
    H'.elements items = H.elements items := by
  rw [elements, elements, hitems]

theorem getArrayField_same (hsame : ∀ x, H.Reaches Object.refs obj x → H'.cell x = H.cell x)
    (name : String) : H'.getArrayField obj name = H.getArrayField obj name := by
  rw [getArrayField, getArrayField, getStructField_same (hsame obj .refl)]
  refine bind_congr_ok fun arr harr => arrayItems_same (hsame arr ?_)
  exact .single ((returns_getStructField H obj name).of_ok arr harr)

end Reads

/-! ### Sides of the objects -/

section Sides
variable {I : Immutable R} {side : Set Handle} {H H' : Objects R} {obj arr items r : Handle}
  {name : String} {v : RuntimeValue R}

/-- A value that an object of `side` may hold. -/
def MayHold (I : Immutable R) (side : Set Handle) (H : Objects R) (v : RuntimeValue R) : Prop :=
  ∀ r ∈ v.refs, H.Within I.layout side r

theorem MayHold.acts (hv : MayHold I side H v) (ha : Heap.Acts I.layout side H H') :
    MayHold I side H' v := fun r hr => ha.within (hv r hr)

theorem mayHold_struct : MayHold I side H (.struct obj) ↔ H.Within I.layout side obj := by
  simp [MayHold, RuntimeValue.refs]

theorem mayHold_float (x : R) : MayHold I side H (.float x) := by
  simp [MayHold, RuntimeValue.refs]

theorem within_getStructField (ho : H.Owns I.layout side) (hobj : H.Within I.layout side obj)
    (name : String) : Returns (H.getStructField obj name) (H.Within I.layout side) :=
  (returns_getStructField H obj name).mono fun _ hr => ho.within_ref hobj hr

theorem within_arrayItems (ho : H.Owns I.layout side) (harr : H.Within I.layout side arr) :
    Returns (H.arrayItems arr) (H.Within I.layout side) :=
  (returns_arrayItems H arr).mono fun _ hr => ho.within_ref harr hr

theorem within_getArrayField (ho : H.Owns I.layout side) (hobj : H.Within I.layout side obj)
    (name : String) : Returns (H.getArrayField obj name) (H.Within I.layout side) := by
  apply Returns.bind (within_getStructField ho hobj name)
  intro arr harr
  exact within_arrayItems ho harr

theorem mayHold_elements (ho : H.Owns I.layout side) (hitems : H.Within I.layout side items) :
    Returns (H.elements items) fun elements => ∀ v ∈ elements, MayHold I side H v :=
  (returns_elements H items).mono fun _ h v hv r hr => ho.within_ref hitems (h v hv r hr)

theorem mayHold_elementAt (ho : H.Owns I.layout side) (hitems : H.Within I.layout side items)
    (i : Nat) : Returns (H.elementAt items i) (MayHold I side H) :=
  returns_elementAt (mayHold_elements ho hitems) i

/-- Calls that act one after another. -/
theorem acts_after {H₁ : Objects R} {call : Except Fault (Objects R)}
    (hacts : Heap.Acts I.layout side H H₁) (h : Returns call (Heap.Acts I.layout side H₁)) :
    Returns call (Heap.Acts I.layout side H) := h.mono fun _ => hacts.trans

theorem acts_forRange {body : Objects R → Nat → Except Fault (Objects R)} {n : Nat}
    (ho : H.Owns I.layout side) (hbody : ∀ i H', Heap.Acts I.layout side H H' →
      Returns (body H' i) (Heap.Acts I.layout side H')) :
    Returns (forRange body n H) (Heap.Acts I.layout side H) :=
  Returns.forRange (fun i _ H' hacts => acts_after hacts (hbody i H' hacts)) (.refl ho)

theorem acts_setElements (ho : H.Owns I.layout side) (hitems : H.Within I.layout side items)
    {elements : List (RuntimeValue R)} (helements : ∀ v ∈ elements, MayHold I side H v) :
    Returns (H.setElements items elements) (Heap.Acts I.layout side H) := by
  rw [setElements]
  split
  case h_2 => exact .error
  case h_1 ty old hcell =>
    apply Returns.ok
    apply Heap.acts_write ho hitems
    · rw [hcell]
      exact I.not_array
    · intro r hr
      obtain ⟨v, hv, hmem⟩ := List.mem_flatMap.mp hr
      exact helements v hv r hmem

theorem acts_setField (ho : H.Owns I.layout side) (hobj : H.Within I.layout side obj)
    (hmutable : ¬ I.Holds (H.cell obj)) (hv : MayHold I side H v) (name : String) :
    Returns (H.setField obj name v) (Heap.Acts I.layout side H) := by
  rw [setField]
  split
  case h_2 => exact .error
  case h_1 s hs =>
    have hold : ∀ r ∈ s.refs, H.Within I.layout side r := by
      intro r hr
      apply ho.within_ref hobj
      rw [hs]
      exact hr
    apply Returns.ok
    apply Heap.acts_write ho hobj hmutable
    intro r hr
    rcases List.mem_append.mp hr with hnative | hfield
    · exact hold r (List.mem_append_left _ hnative)
    · obtain ⟨field, hmem, hr⟩ := List.mem_flatMap.mp hfield
      rcases Assoc.mem_set hmem with hmem | hnew
      · exact hold r (List.mem_append_right _ (List.mem_flatMap.mpr ⟨field, hmem, hr⟩))
      · rw [hnew] at hr
        exact hv r hr

/-! ### The clone is new

Cloning acts on the side that makes the clone, and the clone is of that side: it
shares no object with what was there. -/

/-- What a call leaves that made a new object on `side`. -/
def Made (I : Immutable R) (side : Set Handle) (H : Objects R) (made : Handle × Objects R) : Prop :=
  Heap.Acts I.layout side H made.2 ∧ made.2.Has side made.1

def ClonesAnew (I : Immutable R) (clone : Clone R) : Prop :=
  ∀ side (v : RuntimeValue R) (H : Objects R), H.Owns I.layout side →
    Returns (clone v H) fun made =>
      Heap.Acts I.layout side H made.2 ∧ ∀ r ∈ made.1.refs, made.2.Has side r

/-- An object made of what `side` owns. -/
theorem made_makeShared (ho : H.Owns I.layout side) {o : Object R}
    (hrefs : ∀ r ∈ o.refs, H.Has side r) : Made I side H (H.makeShared o) :=
  ⟨Heap.acts_alloc ho fun r hr => (hrefs r hr).within, Heap.has_alloc ho o⟩

/-- The same after other changes on `side`. -/
theorem made_after {H₁ : Objects R} (hacts : Heap.Acts I.layout side H H₁) {o : Object R}
    (hrefs : ∀ r ∈ o.refs, H₁.Has side r) : Made I side H (H₁.makeShared o) :=
  (made_makeShared hacts.owns hrefs).imp_left hacts.trans

variable {clone : Clone R}

theorem cloneAll_new (hclone : ClonesAnew I clone) (values : List (RuntimeValue R))
    (ho : H.Owns I.layout side) :
    Returns (cloneAll clone values H) fun made =>
      Heap.Acts I.layout side H made.2 ∧ ∀ v ∈ made.1, ∀ r ∈ v.refs, made.2.Has side r := by
  induction values generalizing H with
  | nil => exact .ok ⟨.refl ho, by simp⟩
  | cons value rest ih =>
    apply Returns.bind (hclone side value H ho)
    intro result h
    obtain ⟨value', H₁⟩ := result
    obtain ⟨hacts, hnew⟩ := h
    apply Returns.bind (ih hacts.owns)
    intro result h
    obtain ⟨rest', H₂⟩ := result
    obtain ⟨hacts', hnew'⟩ := h
    refine .ok ⟨hacts.trans hacts', ?_⟩
    intro v hv r hr
    rcases List.mem_cons.mp hv with rfl | hv
    · exact hacts'.has (hnew r hr)
    · exact hnew' v hv r hr

theorem cloneArray_new (hclone : ClonesAnew I clone) (src : Handle) (ho : H.Owns I.layout side) :
    Returns (cloneArray clone src H) (Made I side H) := by
  rw [cloneArray]
  split
  case h_2 => exact .error
  case h_1 ty elements _ =>
    apply Returns.bind (cloneAll_new hclone elements ho)
    intro result h
    obtain ⟨elements', H₁⟩ := result
    obtain ⟨hacts, hnew⟩ := h
    apply Returns.ok
    apply made_after hacts
    intro r hr
    obtain ⟨v, hv, hr⟩ := List.mem_flatMap.mp hr
    exact hnew v hv r hr

theorem cloneTuple_new (hclone : ClonesAnew I clone) (src : Handle) (ho : H.Owns I.layout side) :
    Returns (cloneTuple clone src H) (Made I side H) := by
  rw [cloneTuple]
  split
  case h_2 => exact .error
  case h_1 values _ =>
    apply Returns.bind (cloneAll_new hclone values ho)
    intro result h
    obtain ⟨values', H₁⟩ := result
    obtain ⟨hacts, hnew⟩ := h
    apply Returns.ok
    apply made_after hacts
    intro r hr
    obtain ⟨v, hv, hr⟩ := List.mem_flatMap.mp hr
    exact hnew v hv r hr

theorem cloneNative_new (hclone : ClonesAnew I clone) {type_name : String}
    (native : Option (NativeObject type_name)) (ho : H.Owns I.layout side) :
    Returns (cloneNative clone native H) fun made => Heap.Acts I.layout side H made.2 ∧
      ∀ r ∈ (made.1.map NativeObject.refs).getD [], made.2.Has side r := by
  match native with
  | none | some (.foreign _ _) => exact .ok ⟨.refl ho, by simp [NativeObject.refs]⟩
  | some (.array typed src) =>
    apply Returns.bind (cloneArray_new hclone src ho)
    intro result h
    obtain ⟨items, H₁⟩ := result
    obtain ⟨hacts, hnew⟩ := h
    refine .ok ⟨hacts, ?_⟩
    intro r hr
    cases List.mem_singleton.mp hr
    exact hnew

theorem cloneStructWith_new (hclone : ClonesAnew I clone) (src : Handle)
    (ho : H.Owns I.layout side) : Returns (cloneStructWith clone src H) (Made I side H) := by
  rw [cloneStructWith]
  split
  case h_2 => exact .error
  case h_1 s _ =>
    apply Returns.bind (cloneNative_new hclone s.native_handle ho)
    intro result h
    obtain ⟨native, H₁⟩ := result
    obtain ⟨hacts, hnew⟩ := h
    apply Returns.bind (cloneAll_new hclone _ hacts.owns)
    intro result h
    obtain ⟨values, H₂⟩ := result
    obtain ⟨hacts', hnew'⟩ := h
    apply Returns.ok
    apply made_after (hacts.trans hacts')
    intro r hr
    rcases List.mem_append.mp hr with hr | hr
    · exact hacts'.has (hnew r hr)
    · obtain ⟨field, hfield, hr⟩ := List.mem_flatMap.mp hr
      exact hnew' field.2 (List.of_mem_zip hfield).2 r hr

/-- By induction on the depth of the recursion. -/
theorem cloneRuntimeValue_new (I : Immutable R) (depth : Nat) :
    ClonesAnew I (cloneRuntimeValue depth) := by
  induction depth with
  | zero => exact fun _ _ _ _ => .error
  | succ depth ih =>
    intro side v H ho
    match v with
    | .struct src =>
      apply Returns.bind (cloneStructWith_new ih src ho)
      intro result h
      obtain ⟨inst, H₁⟩ := result
      obtain ⟨hacts, hnew⟩ := h
      exact .ok ⟨hacts, by simpa [RuntimeValue.refs] using hnew⟩
    | .array src =>
      apply Returns.bind (cloneArray_new ih src ho)
      intro result h
      obtain ⟨items, H₁⟩ := result
      obtain ⟨hacts, hnew⟩ := h
      exact .ok ⟨hacts, by simpa [RuntimeValue.refs] using hnew⟩
    | .tuple src =>
      apply Returns.bind (cloneTuple_new ih src ho)
      intro result h
      obtain ⟨values, H₁⟩ := result
      obtain ⟨hacts, hnew⟩ := h
      exact .ok ⟨hacts, by simpa [RuntimeValue.refs] using hnew⟩
    | .nil | .bool _ | .int _ | .float _ | .string _ =>
      exact .ok ⟨.refl ho, by simp [RuntimeValue.refs]⟩

theorem cloneStruct_new (depth : Nat) (src : Handle) (ho : H.Owns I.layout side) :
    Returns (cloneStruct depth src H) (Made I side H) :=
  cloneStructWith_new (cloneRuntimeValue_new I depth) src ho

end Sides

end Objects

end FalconStd.Control
