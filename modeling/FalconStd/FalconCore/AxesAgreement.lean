import FalconStd.Foundation.Traverse
import FalconStd.Collections.Map
import FalconStd.FalconCore.AxesArguments

/-! The readers of one argument agree.

Each converter of a DSL `Map` returns exactly on the structs that hold one, and gives
falcon_core its entries (`bool_maps_agree`). The readers of `Waveform` and
`InterpretationContext` return what those of `DiscreteSpace` return, on the structs that
have a field `arr_` (`axes_readers_agree`). -/
namespace FalconStd.FalconCore.AxesArguments
open Foundation InterpretationContainer

variable {K M : Type} {objects : Instances K}

/-! ### Arrays in fields -/

/-- The field of the struct is an array with these elements. -/
def HoldsArray (objects : Instances K) (inst : Handle) (name : String) (elements : List Value) :
    Prop :=
  ∃ fields arr, (objects inst).fields = some fields ∧
    fields.lookup name = some (.struct (some arr)) ∧
    (objects arr).native_handle = some (.array elements)

theorem asArray_eq_ok_iff {handle : InterpretationContainer.NativeObject K}
    {elements : List Value} :
    handle.asArray = .ok elements ↔ handle = .array elements := by
  cases handle <;> simp [InterpretationContainer.NativeObject.asArray]

theorem getStruct_eq_ok_iff {v : Value} {inst : Option Handle} :
    getStruct v = .ok inst ↔ v = .struct inst := by
  cases v <;> simp [getStruct]

theorem structField_eq_ok_iff {access : FieldAccess K} {inst : Instance K} {name : String}
    {p : Option Handle} :
    structField access inst name = .ok p ↔
      ∃ fields, inst.fields = some fields ∧ fields.lookup name = some (.struct p) := by
  rw [structField, bind_ok_iff]
  simp only [access.get_field_ok_iff, getStruct_eq_ok_iff]
  refine ⟨fun h => ?_, fun h => ?_⟩
  · obtain ⟨v, ⟨fields, hfields, hlookup⟩, rfl⟩ := h
    exact ⟨fields, hfields, hlookup⟩
  · obtain ⟨fields, hfields, hlookup⟩ := h
    exact ⟨_, ⟨fields, hfields, hlookup⟩, rfl⟩

theorem arrayOf_eq_ok_iff {p : Option Handle} {elements : List Value} :
    arrayOf objects p = .ok elements ↔
      ∃ arr, p = some arr ∧ (objects arr).native_handle = some (.array elements) := by
  cases p with
  | none => simp [arrayOf, deref, bind, Except.bind]
  | some arr =>
    show ((objects arr).handle >>= InterpretationContainer.NativeObject.asArray) = _ ↔ _
    rw [bind_ok_iff]
    simp only [asArray_eq_ok_iff, Instance.handle]
    cases hhandle : (objects arr).native_handle <;> simp [hhandle]

theorem validArray_eq_ok_iff {name : String} {p : Option Handle} {elements : List Value} :
    validArray objects name p = .ok elements ↔
      ∃ arr, p = some arr ∧ (objects arr).native_handle = some (.array elements) := by
  cases p with
  | none => simp [validArray]
  | some arr =>
    rw [validArray]
    cases hhandle : (objects arr).native_handle <;> simp [asArray_eq_ok_iff, hhandle]

theorem get_struct_field_array_eq_ok_iff {inst : Option Handle} {name : String}
    {elements : List Value} :
    get_struct_field_array objects inst name = .ok elements ↔
      ∃ i, inst = some i ∧ HoldsArray objects i name elements := by
  cases inst with
  | none => simp [get_struct_field_array]
  | some i =>
    simp only [get_struct_field_array, HoldsArray, Option.some.injEq, exists_eq_left']
    cases hfields : (objects i).fields with
    | none => simp
    | some fields =>
      cases hlookup : fields.lookup name with
      | none => simp [hlookup]
      | some fv =>
        cases fv with
        | struct p =>
          cases p with
          | none => simp [hlookup]
          | some arr =>
            cases hhandle : (objects arr).native_handle <;>
              simp [hlookup, hhandle, asArray_eq_ok_iff]
        | _ => simp [hlookup]

theorem checkedArray_eq_ok_iff {routine key : String} {pm : ParameterMap} {elements : List Value} :
    checkedArray objects routine pm key = .ok elements ↔
      ∃ i, pm.lookup key = some (.struct (some i)) ∧ HoldsArray objects i "arr_" elements := by
  rw [checkedArray, ParameterMap.at]
  cases hparam : pm.lookup key with
  | none => simp [bind, Except.bind]
  | some v =>
    cases v with
    | struct inst =>
      cases inst with
      | none => simp [bind, Except.bind, getStruct]
      | some i =>
        simp only [bind, Except.bind, getStruct, HoldsArray]
        cases hfields : (objects i).fields with
        | none => simp [hfields]
        | some fields =>
          cases hlookup : fields.lookup "arr_" with
          | none => simp [hfields, hlookup]
          | some arr =>
            cases arr with
            | struct p =>
              cases p with
              | none => simp [hfields, hlookup]
              | some arr =>
                cases hhandle : (objects arr).native_handle <;>
                  simp [hfields, hlookup, hhandle, asArray_eq_ok_iff]
            | _ => simp [hfields, hlookup]
    | _ => simp [bind, Except.bind, getStruct]

/-- `inst->get_field(name)`, cast and dereferenced without a check. -/
theorem field_array_eq_ok_iff (access : FieldAccess K) {i : Handle} {name : String}
    {elements : List Value} :
    (∃ p, structField access (objects i) name = .ok p ∧ arrayOf objects p = .ok elements) ↔
      HoldsArray objects i name elements := by
  simp only [structField_eq_ok_iff, arrayOf_eq_ok_iff]
  refine ⟨fun h => ?_, fun h => ?_⟩
  · obtain ⟨p, ⟨fields, hfields, hlookup⟩, arr, rfl, harr⟩ := h
    exact ⟨fields, arr, hfields, hlookup, harr⟩
  · obtain ⟨fields, arr, hfields, hlookup, harr⟩ := h
    exact ⟨some arr, ⟨fields, hfields, hlookup⟩, arr, rfl, harr⟩

/-! ### The loop of a converter -/

section Convert
variable (core : CoreMap String Bool M)

/-- The native map of these entries, inserted one after another. -/
def nativeMap (entries : List (String × Bool)) : M :=
  entries.foldl (fun m e => core.insert m e.1 e.2) core.empty

theorem getString_eq_ok_iff {v : Value} {s : String} : getString v = .ok s ↔ v = .string s := by
  cases v <;> simp [getString]

theorem getBool_eq_ok_iff {v : Value} {b : Bool} : getBool v = .ok b ↔ v = .bool b := by
  cases v <;> simp [getBool]

/-- The first pass of the loop, and the others as a loop of their own. -/
theorem insertPair_loop (k v : Value) (keys values : List Value) (m : M) :
    forRange (insertPair core (k :: keys) (v :: values)) (keys.length + 1) m =
      getString k >>= fun key => getBool v >>= fun val =>
        forRange (insertPair core keys values) keys.length (core.insert m key val) := by
  have hshift : (fun m i => insertPair core (k :: keys) (v :: values) m (i + 1)) =
      insertPair core keys values := rfl
  rw [forRange_succ, hshift]
  show (getString k >>= fun key => getBool v >>= fun val => .ok (core.insert m key val)) >>= _ = _
  simp only [bind_assoc]
  rfl

theorem convert_loop_eq_ok_iff {keys values : List Value} (hlen : keys.length = values.length)
    {m m' : M} :
    forRange (insertPair core keys values) keys.length m = .ok m' ↔
      ∃ entries : List (String × Bool), keys = entries.map (fun e => .string e.1) ∧
        values = entries.map (fun e => .bool e.2) ∧
        entries.foldl (fun m e => core.insert m e.1 e.2) m = m' := by
  induction keys generalizing values m with
  | nil =>
    obtain rfl : values = [] := List.length_eq_zero_iff.mp hlen.symm
    refine ⟨fun h => ?_, fun h => ?_⟩
    · cases h
      exact ⟨[], rfl, rfl, rfl⟩
    · obtain ⟨entries, hkeys, -, rfl⟩ := h
      obtain rfl : entries = [] := List.map_eq_nil_iff.mp hkeys.symm
      rfl
  | cons k keys ih =>
    cases values with
    | nil => simp at hlen
    | cons v values =>
      rw [List.length_cons, insertPair_loop, bind_ok_iff]
      simp only [bind_ok_iff, getString_eq_ok_iff, getBool_eq_ok_iff, ih (Nat.succ.inj hlen)]
      refine ⟨fun h => ?_, fun h => ?_⟩
      · obtain ⟨key, rfl, val, rfl, entries, rfl, rfl, rfl⟩ := h
        exact ⟨(key, val) :: entries, rfl, rfl, rfl⟩
      · obtain ⟨entries, hkeys, hvalues, hm⟩ := h
        cases entries with
        | nil => cases hkeys
        | cons e entries =>
          obtain ⟨rfl, rfl⟩ := List.cons.inj hkeys
          obtain ⟨rfl, rfl⟩ := List.cons.inj hvalues
          exact ⟨e.1, rfl, e.2, rfl, entries, rfl, rfl, hm⟩

/-- A converter returns the map of the entries that its two arrays hold. -/
theorem convert_eq_ok_iff {message : String} {keys values : List Value} {m : M} :
    (if keys.length ≠ values.length then .error (.raised message) else convert core keys values) =
        .ok m ↔
      ∃ entries : List (String × Bool), keys = entries.map (fun e => .string e.1) ∧
        values = entries.map (fun e => .bool e.2) ∧ nativeMap core entries = m := by
  by_cases hlen : keys.length = values.length
  · rw [if_neg (not_not.mpr hlen)]
    exact convert_loop_eq_ok_iff core hlen
  · rw [if_pos hlen]
    refine ⟨fun h => ?_, fun h => ?_⟩
    · cases h
    · obtain ⟨entries, rfl, rfl, -⟩ := h
      simp at hlen

end Convert

/-! ### The three converters -/

section Converters
variable {core : CoreMap String Bool M} {access : FieldAccess K} {inst : Option Handle} {m : M}

/-- The struct holds the DSL map. -/
structure HoldsMap (objects : Instances K) (inst : Handle) (dsl : Collections.Map String Bool) :
    Prop where
  keys_ : HoldsArray objects inst "keys_" (dsl.keys_.map .string)
  values_ : HoldsArray objects inst "values_" (dsl.values_.map .bool)

/-- The struct holds a DSL map of which this is the native one. -/
def Converts (core : CoreMap String Bool M) (objects : Instances K) (inst : Option Handle) (m : M) :
    Prop :=
  ∃ i entries, inst = some i ∧ HoldsMap objects i (.ofEntries entries) ∧ nativeMap core entries = m

theorem converts_iff :
    Converts core objects inst m ↔
      ∃ i keys values, inst = some i ∧ HoldsArray objects i "keys_" keys ∧
        HoldsArray objects i "values_" values ∧
        ∃ entries : List (String × Bool), keys = entries.map (fun e => .string e.1) ∧
          values = entries.map (fun e => .bool e.2) ∧ nativeMap core entries = m := by
  have hkeys : ∀ entries : List (String × Bool),
      (Collections.Map.ofEntries entries).keys_.map (.string : String → Value) =
        entries.map fun e => .string e.1 := fun entries => List.map_map
  have hvalues : ∀ entries : List (String × Bool),
      (Collections.Map.ofEntries entries).values_.map (.bool : Bool → Value) =
        entries.map fun e => .bool e.2 := fun entries => List.map_map
  refine ⟨fun h => ?_, fun h => ?_⟩
  · obtain ⟨i, entries, rfl, hmap, hm⟩ := h
    exact ⟨i, _, _, rfl, hmap.keys_, hmap.values_, entries, hkeys entries, hvalues entries, hm⟩
  · obtain ⟨i, _, _, rfl, hk, hv, entries, rfl, rfl, hm⟩ := h
    rw [← hkeys] at hk
    rw [← hvalues] at hv
    exact ⟨i, entries, rfl, ⟨hk, hv⟩, hm⟩

theorem dsl_map_to_bool_map_eq_ok_iff :
    dsl_map_to_bool_map objects core inst = .ok m ↔ Converts core objects inst m := by
  rw [dsl_map_to_bool_map, converts_iff]
  simp only [bind_ok_iff, get_struct_field_array_eq_ok_iff, convert_eq_ok_iff]
  refine ⟨fun h => ?_, fun h => ?_⟩
  · obtain ⟨keys, ⟨i, rfl, hkeys⟩, values, ⟨j, hj, hvalues⟩, hentries⟩ := h
    cases hj
    exact ⟨i, keys, values, rfl, hkeys, hvalues, hentries⟩
  · obtain ⟨i, keys, values, rfl, hkeys, hvalues, hentries⟩ := h
    exact ⟨keys, ⟨i, rfl, hkeys⟩, values, ⟨i, rfl, hvalues⟩, hentries⟩

/-- Two fields, then their arrays. -/
theorem fields_arrays_iff {i : Handle}
    {read : String → Option Handle → Except NativeFault (List Value)}
    (hread : ∀ name p elements, read name p = .ok elements ↔ arrayOf objects p = .ok elements)
    {P : List Value → List Value → Prop} :
    (∃ keys_inst, structField access (objects i) "keys_" = .ok keys_inst ∧
      ∃ values_inst, structField access (objects i) "values_" = .ok values_inst ∧
        ∃ keys, read "keys_" keys_inst = .ok keys ∧
          ∃ values, read "values_" values_inst = .ok values ∧ P keys values) ↔
      ∃ keys values, HoldsArray objects i "keys_" keys ∧ HoldsArray objects i "values_" values ∧
        P keys values := by
  simp only [hread, ← field_array_eq_ok_iff access]
  refine ⟨fun h => ?_, fun h => ?_⟩
  · obtain ⟨p, hp, q, hq, keys, hkeys, values, hvalues, hP⟩ := h
    exact ⟨keys, values, ⟨p, hp, hkeys⟩, ⟨q, hq, hvalues⟩, hP⟩
  · obtain ⟨keys, values, ⟨p, hp, hkeys⟩, ⟨q, hq, hvalues⟩, hP⟩ := h
    exact ⟨p, hp, q, hq, keys, hkeys, values, hvalues, hP⟩

theorem get_map_string_bool_eq_ok_iff :
    get_map_string_bool objects core access inst = .ok m ↔ Converts core objects inst m := by
  rw [converts_iff]
  cases inst with
  | none => simp [get_map_string_bool]
  | some i =>
    have hread : ∀ name p elements,
        validArray objects name p = .ok elements ↔ arrayOf objects p = .ok elements :=
      fun name p elements => validArray_eq_ok_iff.trans arrayOf_eq_ok_iff.symm
    simp only [get_map_string_bool, bind_ok_iff, convert_eq_ok_iff]
    rw [fields_arrays_iff hread]
    simp

theorem build_native_string_bool_map_eq_ok_iff :
    build_native_string_bool_map objects core access inst = .ok m ↔
      Converts core objects inst m := by
  rw [converts_iff]
  cases inst with
  | none => simp [build_native_string_bool_map, deref, bind, Except.bind]
  | some i =>
    have hderef : deref objects (some i) = .ok (objects i) := rfl
    simp only [build_native_string_bool_map, bind_ok_iff, hderef, convert_eq_ok_iff,
      Except.ok.injEq, exists_eq_left']
    have hread : ∀ (_ : String) p elements,
        arrayOf objects p = .ok elements ↔ arrayOf objects p = .ok elements :=
      fun _ _ _ => Iff.rfl
    rw [fields_arrays_iff hread]
    simp

/-- The keys of a well-formed map are fresh one after another. -/
theorem nativeMap_items (hcore : core.Lawful) (hsame : ∀ a b, core.same a b ↔ a = b)
    {entries : List (String × Bool)} (h : Assoc.Distinct entries) :
    (core.items (nativeMap core entries)).Perm entries := by
  have hdistinct : entries.Pairwise fun a b => ¬ core.same a.1 b.1 :=
    h.imp fun hne => fun heq => ne_of_beq_false hne ((hsame _ _).mp heq)
  have hitems := items_foldl hcore entries core.empty (by simp [hcore.items_empty]) hdistinct
  rwa [hcore.items_empty, List.nil_append] at hitems

/-- **The converters agree**: they return the same maps, exactly on the structs that hold
an aligned DSL map, and the entries of a well-formed one are what its `Get` answers. -/
theorem bool_maps_agree (core : CoreMap String Bool M) (hcore : core.Lawful)
    (hsame : ∀ a b, core.same a b ↔ a = b) (access : FieldAccess K) (objects : Instances K)
    (inst : Option Handle) :
    (∀ m, dsl_map_to_bool_map objects core inst = .ok m ↔
      get_map_string_bool objects core access inst = .ok m) ∧
    (∀ m, dsl_map_to_bool_map objects core inst = .ok m ↔
      build_native_string_bool_map objects core access inst = .ok m) ∧
    ((∃ m, dsl_map_to_bool_map objects core inst = .ok m) ↔
      ∃ i dsl, inst = some i ∧ HoldsMap objects i dsl ∧ dsl.keys_.length = dsl.values_.length) ∧
    ∀ i dsl, inst = some i → HoldsMap objects i dsl → dsl.WellFormed →
      ∃ m, dsl_map_to_bool_map objects core inst = .ok m ∧
        ∀ key value, (key, value) ∈ core.items m ↔ dsl.get key = .ok value := by
  refine ⟨fun m => dsl_map_to_bool_map_eq_ok_iff.trans get_map_string_bool_eq_ok_iff.symm,
    fun m => dsl_map_to_bool_map_eq_ok_iff.trans build_native_string_bool_map_eq_ok_iff.symm, ?_⟩
  simp only [dsl_map_to_bool_map_eq_ok_iff]
  refine ⟨⟨?_, ?_⟩, ?_⟩
  · intro h
    obtain ⟨m, i, entries, hinst, hmap, -⟩ := h
    exact ⟨i, _, hinst, hmap, by simp [Collections.Map.ofEntries]⟩
  · intro h
    obtain ⟨i, dsl, hinst, hmap, hlen⟩ := h
    rw [← Collections.Map.ofEntries_entries hlen] at hmap
    exact ⟨_, i, _, hinst, hmap, rfl⟩
  · intro i dsl hinst hmap hwell
    obtain ⟨entries, rfl, hdistinct⟩ := hwell.exists_entries
    refine ⟨_, ⟨i, entries, hinst, hmap, rfl⟩, fun key value => ?_⟩
    rw [(nativeMap_items hcore hsame hdistinct).mem_iff, Collections.Map.get_eq_ok_iff hwell,
      Collections.Map.lookup, Collections.Map.entries_ofEntries]
    exact Assoc.mem_iff_get? hdistinct key value

end Converters

/-! ### A store -/

/-- A native map as a list, in the order of insertion. -/
def boolMap : CoreMap String Bool (List (String × Bool)) where
  same := (· = ·)
  empty := []
  insert m key value := Assoc.set key value m
  items m := m

theorem boolMap_lawful : boolMap.Lawful where
  items_empty := rfl
  items_insert m key value hfresh := by
    have hnone : Assoc.get? key m = none :=
      (Assoc.get?_eq_none_iff key m).mpr fun e he => beq_false_of_ne (hfresh e he)
    show (Assoc.set key value m).Perm _
    rw [Assoc.set_of_get?_none value hnone]
    exact List.perm_append_singleton (key, value) m

def FieldAccess.direct : FieldAccess K where
  get_field inst name :=
    match inst.fields.bind (List.lookup name) with
    | some v => .ok v
    | none => .error (.raised ("no field '" ++ name ++ "'"))
  get_field_ok_iff inst name v := by
    cases hfields : inst.fields with
    | none => simp
    | some fields =>
      show (match fields.lookup name with | some v => _ | none => _) = _ ↔ _
      cases hlookup : fields.lookup name <;> simp [hlookup]

/-- An `Axes` struct at 0, and at 2 the map in its array. -/
def oneMap : Instances Nat
  | 0 => ⟨none, some [("arr_", .struct (some 1))]⟩
  | 1 => ⟨some (.array [.struct (some 2)]), none⟩
  | 2 => ⟨none, some [("keys_", .struct (some 3)), ("values_", .struct (some 4))]⟩
  | 3 => ⟨some (.array [.string "P1"]), none⟩
  | 4 => ⟨some (.array [.bool true]), none⟩
  | _ => ⟨none, none⟩

theorem oneMap_holds : HoldsMap oneMap 2 (.ofEntries [("P1", true)]) :=
  ⟨⟨_, 3, rfl, rfl, rfl⟩, ⟨_, 4, rfl, rfl, rfl⟩⟩

theorem bool_maps_agree_one :
    ∃ m, get_map_string_bool oneMap boolMap .direct (some 2) = .ok m ∧
      build_native_string_bool_map oneMap boolMap .direct (some 2) = .ok m ∧
      ("P1", true) ∈ boolMap.items m := by
  obtain ⟨hget, hbuild, -, hmaps⟩ := bool_maps_agree boolMap boolMap_lawful (fun _ _ => Iff.rfl)
    FieldAccess.direct oneMap (some 2)
  obtain ⟨m, hm, hitems⟩ := hmaps 2 (.ofEntries [("P1", true)]) rfl oneMap_holds
    ⟨rfl, List.pairwise_singleton _ _⟩
  exact ⟨m, (hget m).mp hm, (hbuild m).mp hm, (hitems "P1" true).mpr rfl⟩

/-! ### The three readers of an axes argument -/

section Axes
variable {core : CoreMap String Bool M} {access : FieldAccess K} {params : Params}
  {pm : ParameterMap} {key tn : String} {inst : Option Handle} {elements : List Value}

/-- The argument is a struct with the field `arr_`. -/
def HasArr (objects : Instances K) (inst : Option Handle) : Prop :=
  ∃ i, inst = some i ∧ hasArr objects i = true

theorem HoldsArray.hasArr {i : Handle} (h : HoldsArray objects i "arr_" elements) :
    hasArr objects i = true := by
  obtain ⟨fields, arr, hfields, hlookup, -⟩ := h
  simp [AxesArguments.hasArr, hfields, hlookup]

/-- What `DiscreteSpace` reads from a struct. -/
theorem get_array_from_params_struct (htn : tn = "StructInstance" ∨ tn = "Axes")
    (hparams : params.lookup key = some (.pointer tn (.struct inst))) :
    get_array_from_params objects params key = .ok elements ∧ HasArr objects inst ↔
      ∃ i, inst = some i ∧ HoldsArray objects i "arr_" elements := by
  have htn' : ¬ (tn = "Array" ∨ tn = "ArrayValue") := by
    rcases htn with rfl | rfl <;> simp
  simp only [get_array_from_params, hparams, if_neg htn', if_pos htn, Pointee.asStruct, HasArr]
  cases inst with
  | none => simp
  | some i =>
    simp only [bind, Except.bind, Option.some.injEq, exists_eq_left']
    by_cases harr : AxesArguments.hasArr objects i = true
    · rw [if_pos harr, get_struct_field_array_eq_ok_iff]
      simp [harr]
    · constructor
      · intro h
        exact absurd h.2 harr
      · intro h
        exact absurd h.hasArr harr

/-- What `Waveform` reads from it. -/
theorem checkedArray_struct (routine : String) (hpm : pm.lookup key = some (.struct inst)) :
    checkedArray objects routine pm key = .ok elements ↔
      ∃ i, inst = some i ∧ HoldsArray objects i "arr_" elements := by
  simp [checkedArray_eq_ok_iff, hpm]

theorem uncheckedArray_eq_ok_iff :
    uncheckedArray objects access inst = .ok elements ↔
      ∃ i, inst = some i ∧ HoldsArray objects i "arr_" elements := by
  cases inst with
  | none => simp [uncheckedArray, deref, bind, Except.bind]
  | some i =>
    have hread : uncheckedArray objects access (some i) =
        structField access (objects i) "arr_" >>= fun arr_inst => arrayOf objects arr_inst := rfl
    rw [hread, bind_ok_iff, field_array_eq_ok_iff]
    simp

theorem extract_array_value_struct
    (hparams : params.lookup key = some (.pointer tn (.struct inst)))
    (htn : tn = "StructInstance" ∨ tn = "Axes") :
    extract_array_value objects access params key = .ok elements ↔
      tn = "StructInstance" ∧ ∃ i, inst = some i ∧ HoldsArray objects i "arr_" elements := by
  rcases htn with rfl | rfl
  · have hread : extract_array_value objects access params key =
        uncheckedArray objects access inst := by
      simp only [extract_array_value, hparams]
      rfl
    rw [hread, uncheckedArray_eq_ok_iff]
    exact (and_iff_right rfl).symm
  · simp [extract_array_value, hparams]

theorem get_map_bool_axes_struct (hpm : pm.lookup key = some (.struct inst)) :
    get_map_bool_axes objects core access pm key =
      uncheckedArray objects access inst >>= fun arr => arr.mapM fun elem =>
        getStruct elem >>= fun p => build_native_string_bool_map objects core access p := by
  have hparam : pm.at key = .ok (.struct inst) := by rw [ParameterMap.at, hpm]
  rw [get_map_bool_axes, hparam]
  rfl

/-- The arrays and the elements are read alike, so the axes are. -/
theorem axes_eq_ok_iff {α : Type} {readA readB : Except NativeFault (List Value)}
    {f g : Value → Except NativeFault α} {Q : Prop}
    (hread : ∀ elements, readA = .ok elements ↔ readB = .ok elements ∧ Q)
    (hfg : ∀ v a, f v = .ok a ↔ g v = .ok a) (axes : List α) :
    (readA >>= fun arr => arr.mapM f) = .ok axes ↔
      (readB >>= fun arr => arr.mapM g) = .ok axes ∧ Q := by
  simp only [bind_ok_iff, mapM_eq_ok_iff, hread, hfg]
  refine ⟨fun h => ?_, fun h => ?_⟩
  · obtain ⟨elements, ⟨hB, hQ⟩, haxes⟩ := h
    exact ⟨⟨elements, hB, haxes⟩, hQ⟩
  · obtain ⟨⟨elements, hB, haxes⟩, hQ⟩ := h
    exact ⟨elements, ⟨hB, hQ⟩, haxes⟩

theorem nativeOf_eq_ok_iff {notStruct noHandle : NativeFault} {v : Value} {k : K} :
    nativeOf objects notStruct noHandle v = .ok k ↔ HoldsKey objects v k := by
  refine ⟨fun h => ?_, fun h => ?_⟩
  · cases v with
    | struct p =>
      cases p with
      | none => cases h
      | some i =>
        rw [nativeOf] at h
        refine ⟨i, rfl, ?_⟩
        cases hhandle : (objects i).native_handle with
        | none => simp [hhandle] at h
        | some handle =>
          rw [hhandle] at h
          cases handle with
          | key c =>
            cases h
            rfl
          | _ => cases h
    | _ => cases h
  · obtain ⟨i, rfl, hhandle⟩ := h
    rw [nativeOf, hhandle]
    rfl

/-- An element that holds a map is converted alike. -/
theorem mapOf_eq_ok_iff {v : Value} {m : M} :
    mapOf objects core key v = .ok m ↔
      (getStruct v >>= fun p => build_native_string_bool_map objects core access p) = .ok m := by
  simp only [bind_ok_iff, getStruct_eq_ok_iff, build_native_string_bool_map_eq_ok_iff]
  cases v with
  | struct p => simp [mapOf, dsl_map_to_bool_map_eq_ok_iff]
  | _ => simp [mapOf]

theorem getDivision_eq_ok_iff {v : Value} {d : Int32} :
    getDivision v = .ok d ↔ ∃ n, v = .int n ∧ d = n.toInt32 := by
  cases v <;> simp [getDivision, eq_comm]

theorem divisions_iff {elements : List Value} {ds : List Int32} :
    elements.mapM getDivision = .ok ds ↔
      ∃ ns : List Int64, elements = ns.map .int ∧ ds = ns.map Int64.toInt32 := by
  rw [mapM_eq_ok_iff]
  refine ⟨fun h => ?_, fun h => ?_⟩
  · induction h with
    | nil => exact ⟨[], rfl, rfl⟩
    | cons hd _ ih =>
      obtain ⟨n, rfl, rfl⟩ := getDivision_eq_ok_iff.mp hd
      obtain ⟨ns, rfl, rfl⟩ := ih
      exact ⟨n :: ns, rfl, rfl⟩
  · obtain ⟨ns, rfl, rfl⟩ := h
    induction ns with
    | nil => exact .nil
    | cons n ns ih => exact .cons rfl ih

/-- **The readers agree**: given the same struct, those of `Waveform` and
`InterpretationContext` return what those of `DiscreteSpace` return, if it has the field
`arr_`; and they return the ints and the objects of its array, in order. -/
theorem axes_readers_agree (core : CoreMap String Bool M) (access : FieldAccess K)
    (objects : Instances K) (inst : Option Handle) {params : Params} {pm : ParameterMap}
    {key tn : String} (htn : tn = "StructInstance" ∨ tn = "Axes")
    (hparams : params.lookup key = some (.pointer tn (.struct inst)))
    (hpm : pm.lookup key = some (.struct inst)) :
    (∀ ds, get_int_axes objects pm key = .ok ds ↔
      build_int_axes objects params key = .ok ds ∧ HasArr objects inst) ∧
    (∀ ks, get_coupled_labelled_domain_axes objects pm key = .ok ks ↔
      build_cld_axes objects params key = .ok ks ∧ HasArr objects inst) ∧
    (∀ ms, get_map_bool_axes objects core access pm key = .ok ms ↔
      build_map_axes objects core params key = .ok ms ∧ HasArr objects inst) ∧
    (∀ ks, extract_array_value objects access params key >>= array_value_to_mc_vector objects =
        .ok ks ↔
      tn = "StructInstance" ∧ build_cld_axes objects params key = .ok ks ∧ HasArr objects inst) ∧
    (∀ ds, get_int_axes objects pm key = .ok ds ↔
      ∃ i, ∃ ns : List Int64, inst = some i ∧ HoldsArray objects i "arr_" (ns.map .int) ∧
        ds = ns.map Int64.toInt32) ∧
    ∀ ks, get_coupled_labelled_domain_axes objects pm key = .ok ks ↔
      ∃ i elements, inst = some i ∧ HoldsArray objects i "arr_" elements ∧
        List.Forall₂ (HoldsKey objects) elements ks := by
  have hspace : ∀ elements,
      get_array_from_params objects params key = .ok elements ∧ HasArr objects inst ↔
        ∃ i, inst = some i ∧ HoldsArray objects i "arr_" elements :=
    fun elements => get_array_from_params_struct htn hparams
  have hchecked : ∀ routine elements, checkedArray objects routine pm key = .ok elements ↔
      ∃ i, inst = some i ∧ HoldsArray objects i "arr_" elements :=
    fun routine elements => checkedArray_struct routine hpm
  refine ⟨fun ds => ?_, fun ks => ?_, fun ms => ?_, fun ks => ?_, fun ds => ?_, fun ks => ?_⟩
  · exact axes_eq_ok_iff (fun elements => (hchecked _ elements).trans (hspace elements).symm)
      (fun v d => Iff.rfl) ds
  · refine axes_eq_ok_iff (fun elements => (hchecked _ elements).trans (hspace elements).symm)
      (fun v k => ?_) ks
    rw [nativeOf_eq_ok_iff, nativeOf_eq_ok_iff]
  · rw [get_map_bool_axes_struct hpm]
    refine axes_eq_ok_iff (fun elements => ?_) (fun v m => mapOf_eq_ok_iff.symm) ms
    rw [uncheckedArray_eq_ok_iff]
    exact (hspace elements).symm
  · have hread : ∀ elements, extract_array_value objects access params key = .ok elements ↔
        get_array_from_params objects params key = .ok elements ∧
          tn = "StructInstance" ∧ HasArr objects inst := by
      intro elements
      rw [extract_array_value_struct hparams htn, ← hspace elements]
      exact and_left_comm
    refine (axes_eq_ok_iff hread (fun v k => ?_) ks).trans and_left_comm
    rw [contextOf_eq_ok_iff, nativeOf_eq_ok_iff]
  · rw [get_int_axes, bind_ok_iff]
    simp only [hchecked, divisions_iff]
    refine ⟨fun h => ?_, fun h => ?_⟩
    · obtain ⟨elements, ⟨i, hinst, harr⟩, ns, rfl, rfl⟩ := h
      exact ⟨i, ns, hinst, harr, rfl⟩
    · obtain ⟨i, ns, hinst, harr, rfl⟩ := h
      exact ⟨_, ⟨i, hinst, harr⟩, ns, rfl, rfl⟩
  · rw [get_coupled_labelled_domain_axes, bind_ok_iff]
    simp only [hchecked, mapM_eq_ok_iff, nativeOf_eq_ok_iff]
    refine ⟨fun h => ?_, fun h => ?_⟩
    · obtain ⟨elements, ⟨i, hinst, harr⟩, hkeys⟩ := h
      exact ⟨i, elements, hinst, harr, hkeys⟩
    · obtain ⟨i, elements, hinst, harr, hkeys⟩ := h
      exact ⟨elements, ⟨i, hinst, harr⟩, hkeys⟩

/-- Both wrappers read the map of the `Axes`. -/
theorem axes_readers_agree_one :
    get_map_bool_axes oneMap boolMap .direct [("increasing", .struct (some 0))] "increasing" =
      .ok [[("P1", true)]] := by
  let params : Params := [("increasing", .pointer "Axes" (.struct (some 0)))]
  let pm : ParameterMap := [("increasing", .struct (some 0))]
  have hparams : params.lookup "increasing" = some (.pointer "Axes" (.struct (some 0))) := rfl
  have hpm : pm.lookup "increasing" = some (.struct (some 0)) := rfl
  have hread := axes_readers_agree boolMap FieldAccess.direct oneMap (some 0) (.inr rfl) hparams hpm
  exact (hread.2.2.1 _).mpr ⟨rfl, 0, rfl, rfl⟩

end Axes

end FalconStd.FalconCore.AxesArguments
