import FalconStd.Control.AxisStoreProofs

/-! Points and axes in place: which vectors a point stores its offsets in, what
survives a change to other objects, and what `Map.Set` leaves in them. -/
namespace FalconStd.Control
open Collections Foundation

variable {R : Type}

namespace Objects

variable {H H' : Objects R} {obj items point axis keys values r : Handle}

/-! ### Changes in place -/

/-- A vector becomes a vector and a voltage a voltage; nothing else changes. -/
def Alike (H H' : Objects R) : Prop :=
  ∀ r, H'.cell r = H.cell r ∨
    (∃ ty elements ty' elements', H.cell r = .array ty elements ∧
      H'.cell r = .array ty' elements') ∨
    ∃ x y, H.cell r = .voltage x ∧ H'.cell r = .voltage y

/-- Structs keep the structs they hold. -/
theorem Alike.getStructField (h : Alike H H') (obj : Handle) (name : String) :
    H'.getStructField obj name = H.getStructField obj name := by
  rw [Objects.getStructField, Objects.getStructField, getField, getField]
  rcases h obj with hsame | ⟨_, _, _, _, hold, hnew⟩ | ⟨x, y, hold, hnew⟩
  · rw [hsame]
  · rw [hold, hnew]
  · rw [hold, hnew, Object.voltage, Object.voltage]
    by_cases hname : "value_" = name
    · subst hname
      rfl
    · simp [Assoc.get?, hname]

theorem Alike.arrayItems (h : Alike H H') (arr : Handle) : H'.arrayItems arr = H.arrayItems arr := by
  rw [Objects.arrayItems, Objects.arrayItems]
  rcases h arr with hsame | ⟨_, _, _, _, hold, hnew⟩ | ⟨x, y, hold, hnew⟩
  · rw [hsame]
  · rw [hold, hnew]
  · rw [hold, hnew]
    rfl

theorem Alike.getArrayField (h : Alike H H') (obj : Handle) (name : String) :
    H'.getArrayField obj name = H.getArrayField obj name := by
  rw [Objects.getArrayField, Objects.getArrayField, h.getStructField]
  exact bind_congr fun arr => h.arrayItems arr

theorem Alike.arrayOf (h : Alike H H') (obj : Handle) (name field : String) :
    (do
      let map ← H'.getStructField obj name
      H'.getArrayField map field) =
    (do
      let map ← H.getStructField obj name
      H.getArrayField map field) := by
  rw [h.getStructField]
  exact bind_congr fun map => h.getArrayField map field

theorem Alike.voltage (h : Alike H H') {x : R} (hv : H.cell r = .voltage x) :
    ∃ y, H'.cell r = .voltage y := by
  rcases h r with hsame | ⟨_, _, _, _, hold, _⟩ | ⟨_, y, _, hnew⟩
  · exact ⟨x, hsame.trans hv⟩
  · rw [hv] at hold
    cases hold
  · exact ⟨y, hnew⟩

theorem Alike.voltages (h : Alike H H') {entries : List (RuntimeValue R)}
    (hv : H.Voltages entries) : H'.Voltages entries := by
  intro e he
  obtain ⟨voltage, x, heq, hcell⟩ := hv e he
  obtain ⟨y, hy⟩ := h.voltage hcell
  exact ⟨voltage, y, heq, hy⟩

theorem Alike.trans {H'' : Objects R} (h : Alike H H') (h' : Alike H' H'') : Alike H H'' := by
  intro r
  rcases h' r with hsame | ⟨ty, es, ty', es', hold, hnew⟩ | ⟨x, y, hold, hnew⟩
  · rw [hsame]
    exact h r
  · rcases h r with hsame | ⟨_, _, _, _, hold', _⟩ | ⟨_, _, _, hnew'⟩
    · exact .inr (.inl ⟨_, _, _, _, hsame ▸ hold, hnew⟩)
    · exact .inr (.inl ⟨_, _, _, _, hold', hnew⟩)
    · rw [hold] at hnew'
      cases hnew'
  · rcases h r with hsame | ⟨_, _, _, _, _, hnew'⟩ | ⟨_, _, hold', _⟩
    · exact .inr (.inr ⟨_, _, hsame ▸ hold, hnew⟩)
    · rw [hold] at hnew'
      cases hnew'
    · exact .inr (.inr ⟨_, _, hold', hnew⟩)

/-! ### What `Map.Set` does to two vectors -/

/-- Only the vectors of a map may have changed. -/
structure Rewrites (keys values : Handle) (H H' : Objects R) : Prop where
  alike : Alike H H'
  elsewhere : ∀ items, items ≠ keys → items ≠ values → H'.elements items = H.elements items

/-- The vector `items` holds what it held and `value`; the others are as they were. -/
structure Stores (items : Handle) (value : RuntimeValue R) (H H' : Objects R) : Prop where
  alike : Alike H H'
  stored : ∀ elements, H.elements items = .ok elements → ∃ elements',
    H'.elements items = .ok elements' ∧ ∀ e ∈ elements', e ∈ elements ∨ e = value
  elsewhere : ∀ other, other ≠ items → H'.elements other = H.elements other

theorem stores_setElements {old new : List (RuntimeValue R)} {value : RuntimeValue R}
    (hold : H.elements items = .ok old) (hnew : ∀ e ∈ new, e ∈ old ∨ e = value) :
    Returns (H.setElements items new) (Stores items value H) := by
  rw [setElements]
  split
  case h_2 => exact .error
  case h_1 ty elements hcell =>
    apply Returns.ok
    constructor
    case alike =>
      intro r
      by_cases hr : r = items
      · subst hr
        exact .inr (.inl ⟨_, _, _, _, hcell, Heap.write_cell_same H r _⟩)
      · exact .inl (Heap.write_cell_ne H _ hr)
    case stored =>
      intro elements' helements'
      cases hold.symm.trans helements'
      refine ⟨new, ?_, hnew⟩
      rw [Objects.elements, Heap.write_cell_same]
    case elsewhere =>
      intro other hne
      rw [Objects.elements, Objects.elements, Heap.write_cell_ne H _ hne]

variable {same : Objects R → RuntimeValue R → RuntimeValue R → Bool} {map : Handle}

theorem stores_setIndex (H : Objects R) (items : Handle) (idx : Int) (value : RuntimeValue R) :
    Returns (H.setIndex items idx value) (Stores items value H) := by
  apply Returns.bind_of
  intro elements helements
  rw [ArrayValue.setIndex]
  split_ifs with hout
  · exact .error
  · exact stores_setElements helements fun e he => List.mem_or_eq_of_mem_set he

theorem stores_pushBack (H : Objects R) (items : Handle) (value : RuntimeValue R) :
    Returns (H.pushBack items value) (Stores items value H) := by
  apply Returns.bind_of
  intro elements helements
  apply stores_setElements helements
  intro e he
  exact (List.mem_append.mp he).imp_right List.mem_singleton.mp

theorem mapSet_reads {key value : RuntimeValue R} (h : H.mapSet same map key value = .ok H') :
    ∃ keys values, H.getArrayField map "keys_" = .ok keys ∧
      H.getArrayField map "values_" = .ok values := by
  obtain ⟨keys, hkeys, h⟩ := bind_ok_iff.mp h
  obtain ⟨values, hvalues, _⟩ := bind_ok_iff.mp h
  exact ⟨keys, values, hkeys, hvalues⟩

/-- `Set` changes the two vectors, and adds nothing but the new value to the values. -/
theorem returns_mapSet (hkeys : H.getArrayField map "keys_" = .ok keys)
    (hvalues : H.getArrayField map "values_" = .ok values) (key value : RuntimeValue R) :
    Returns (H.mapSet same map key value) fun H' =>
      Rewrites keys values H H' ∧ (keys ≠ values → ∀ gates entries, H.elements keys = .ok gates →
        H.elements values = .ok entries → ∃ gates' entries', H'.elements keys = .ok gates' ∧
          H'.elements values = .ok entries' ∧ ∀ e ∈ entries', e ∈ entries ∨ e = value) := by
  apply Returns.bind_ok hkeys
  apply Returns.bind_ok hvalues
  apply Returns.bind_of
  intro found _
  split
  · apply Returns.bind_of
    intro index _
    apply (stores_setIndex H values index value).mono
    intro H' hset
    refine ⟨⟨hset.alike, fun items _ hne => hset.elsewhere items hne⟩, ?_⟩
    intro hne gates entries hgates hentries
    obtain ⟨entries', hentries', hmem⟩ := hset.stored entries hentries
    exact ⟨gates, entries', (hset.elsewhere keys hne).trans hgates, hentries', hmem⟩
  · apply Returns.bind (stores_pushBack H keys key)
    intro H₁ hkey
    apply (stores_pushBack H₁ values value).mono
    intro H' hvalue
    constructor
    · constructor
      case alike => exact hkey.alike.trans hvalue.alike
      case elsewhere =>
        intro items hk hv
        exact (hvalue.elsewhere items hv).trans (hkey.elsewhere items hk)
    · intro hne gates entries hgates hentries
      obtain ⟨gates', hgates', _⟩ := hkey.stored gates hgates
      have hentries := (hkey.elsewhere values hne.symm).trans hentries
      obtain ⟨entries', hentries', hmem⟩ := hvalue.stored entries hentries
      exact ⟨gates', entries', (hvalue.elsewhere keys hne).trans hgates', hentries', hmem⟩

/-! ### Where a point keeps its offsets -/

variable {gates gates' entries entries' : List (RuntimeValue R)} {gate voltage : Handle}

/-- The point stores `gates` in the vector `keys` and `entries` in `values`. -/
structure PointAt (H : Objects R) (point keys values : Handle)
    (gates entries : List (RuntimeValue R)) : Prop where
  keys_eq : H.pointKeys point = .ok keys
  values_eq : H.pointValues point = .ok values
  distinct : keys ≠ values
  gates_eq : H.elements keys = .ok gates
  entries_eq : H.elements values = .ok entries
  voltages : H.Voltages entries

/-- The axis has its offsets at `point`, and its amplitudes in other vectors. -/
structure AxisAt (H : Objects R) (axis point keys values : Handle)
    (gates entries : List (RuntimeValue R)) : Prop where
  offset_eq : H.axisOffset axis = .ok point
  at_point : PointAt H point keys values gates entries
  amplitudes : ∀ direction items, H.axisDirection axis = .ok direction →
    H.directionKeys direction = .ok items ∨ H.directionValues direction = .ok items →
    items ≠ keys ∧ items ≠ values

theorem PointAt.alike (hp : PointAt H point keys values gates entries) (h : Alike H H')
    (hgates : H'.elements keys = .ok gates') (hentries : H'.elements values = .ok entries')
    (hvoltages : H'.Voltages entries') : PointAt H' point keys values gates' entries' where
  keys_eq := (h.arrayOf point _ _).trans hp.keys_eq
  values_eq := (h.arrayOf point _ _).trans hp.values_eq
  distinct := hp.distinct
  gates_eq := hgates
  entries_eq := hentries
  voltages := hvoltages

theorem AxisAt.alike (ha : AxisAt H axis point keys values gates entries) (h : Alike H H')
    (hp : PointAt H' point keys values gates' entries') :
    AxisAt H' axis point keys values gates' entries' where
  offset_eq := (h.getStructField axis _).trans ha.offset_eq
  at_point := hp
  amplitudes := by
    intro direction items hdirection hitems
    refine ha.amplitudes direction items ((h.getStructField axis _).symm.trans hdirection) ?_
    exact hitems.imp (h.arrayOf direction _ _).symm.trans (h.arrayOf direction _ _).symm.trans

/-! Nothing changes for a point when the objects it leads to do not. -/

theorem Voltages.kept {root : Handle} (hsame : ∀ x, H.Reaches Object.refs root x → H'.cell x = H.cell x)
    (hitems : H.Reaches Object.refs root items) (helements : H.elements items = .ok entries)
    (hv : H.Voltages entries) : H'.Voltages entries := by
  intro e he
  obtain ⟨voltage, x, rfl, hcell⟩ := hv e he
  refine ⟨voltage, x, rfl, (hsame voltage ?_).trans hcell⟩
  have hpoints := (returns_elements H items).of_ok entries helements _ he
  exact hitems.tail (hpoints voltage List.mem_cons_self)

theorem PointAt.kept (hp : PointAt H point keys values gates entries)
    (hsame : ∀ x, H.Reaches Object.refs point x → H'.cell x = H.cell x) :
    PointAt H' point keys values gates entries where
  keys_eq := (arrayOf_same hsame _ _).trans hp.keys_eq
  values_eq := (arrayOf_same hsame _ _).trans hp.values_eq
  distinct := hp.distinct
  gates_eq := (elements_same (hsame keys (reaches_arrayOf hp.keys_eq))).trans hp.gates_eq
  entries_eq := (elements_same (hsame values (reaches_arrayOf hp.values_eq))).trans hp.entries_eq
  voltages := hp.voltages.kept hsame (reaches_arrayOf hp.values_eq) hp.entries_eq

theorem AxisAt.kept (ha : AxisAt H axis point keys values gates entries)
    (hsame : ∀ x, H.Reaches Object.refs axis x → H'.cell x = H.cell x) :
    AxisAt H' axis point keys values gates entries where
  offset_eq := (getStructField_same (hsame axis .refl) _).trans ha.offset_eq
  at_point := by
    refine ha.at_point.kept fun x hx => hsame x ?_
    exact .head ((returns_getStructField H axis _).of_ok point ha.offset_eq) hx
  amplitudes := by
    intro direction items hdirection hitems
    have hdirection : H.axisDirection axis = .ok direction :=
      (getStructField_same (hsame axis .refl) _).symm.trans hdirection
    have hpoints := (returns_getStructField H axis _).of_ok direction hdirection
    have hfrom : ∀ x, H.Reaches Object.refs direction x → H'.cell x = H.cell x :=
      fun x hx => hsame x (.head hpoints hx)
    refine ha.amplitudes direction items hdirection ?_
    exact hitems.imp (arrayOf_same hfrom _ _).symm.trans (arrayOf_same hfrom _ _).symm.trans

/-! ### Modifiers that replace -/

theorem PointAt.pointSet {x : R} (hp : PointAt H point keys values gates entries)
    (hv : H.cell voltage = .voltage x) (gate : Handle) :
    Returns (H.pointSet same point gate voltage) fun H' =>
      Alike H H' ∧ ∃ gates' entries', PointAt H' point keys values gates' entries' := by
  apply Returns.bind_of
  intro location hlocation
  have hmap : ∀ {field items}, (do
      let map ← H.getStructField point "location_"
      H.getArrayField map field) = .ok items → H.getArrayField location field = .ok items := by
    intro field items h
    rw [hlocation] at h
    exact h
  apply (returns_mapSet (hmap hp.keys_eq) (hmap hp.values_eq) _ _).mono
  intro H' h
  obtain ⟨hrewrites, hstored⟩ := h
  obtain ⟨gates', entries', hgates, hentries, hmem⟩ :=
    hstored hp.distinct gates entries hp.gates_eq hp.entries_eq
  refine ⟨hrewrites.alike, gates', entries', hp.alike hrewrites.alike hgates hentries ?_⟩
  intro e he
  rcases hmem e he with hold | rfl
  · exact hrewrites.alike.voltages hp.voltages e hold
  · obtain ⟨y, hy⟩ := hrewrites.alike.voltage hv
    exact ⟨voltage, y, rfl, hy⟩

theorem AxisAt.setOffset {x : R} (ha : AxisAt H axis point keys values gates entries)
    (hv : H.cell voltage = .voltage x) (gate : Handle) :
    Returns (H.setOffset same axis gate voltage) fun H' =>
      ∃ gates' entries', AxisAt H' axis point keys values gates' entries' := by
  apply Returns.bind_ok ha.offset_eq
  apply (ha.at_point.pointSet hv gate).mono
  intro H' h
  obtain ⟨halike, gates', entries', hp⟩ := h
  exact ⟨gates', entries', ha.alike halike hp⟩

/-- The amplitude goes to other vectors than the offset. -/
theorem AxisAt.setCoefficient {direction : Handle}
    (ha : AxisAt H axis point keys values gates entries)
    (hdirection : H.axisDirection axis = .ok direction) (gate : Handle) (x : R) :
    Returns (H.setCoefficient same direction gate x) fun H' =>
      Alike H H' ∧ AxisAt H' axis point keys values gates entries := by
  apply Returns.bind_of
  intro dir hdir
  constructor
  intro H' h
  obtain ⟨dirKeys, dirValues, hkeys, hvalues⟩ := mapSet_reads h
  obtain ⟨hrewrites, _⟩ := (returns_mapSet hkeys hvalues _ _).of_ok H' h
  have hk := ha.amplitudes direction dirKeys hdirection
    (.inl (bind_ok_iff.mpr ⟨dir, hdir, hkeys⟩))
  have hv := ha.amplitudes direction dirValues hdirection
    (.inr (bind_ok_iff.mpr ⟨dir, hdir, hvalues⟩))
  have hp := ha.at_point
  refine ⟨hrewrites.alike, ha.alike hrewrites.alike (hp.alike hrewrites.alike ?_ ?_ ?_)⟩
  · exact (hrewrites.elsewhere keys hk.1.symm hv.1.symm).trans hp.gates_eq
  · exact (hrewrites.elsewhere values hk.2.symm hv.2.symm).trans hp.entries_eq
  · exact hrewrites.alike.voltages hp.voltages

theorem AxisAt.extendDomain {offset : Handle} {x : R}
    (ha : AxisAt H axis point keys values gates entries) (hoffset : H.cell offset = .voltage x)
    (gate amp : Handle) :
    Returns (H.extendDomain same axis gate offset amp) fun H' =>
      ∃ gates' entries', AxisAt H' axis point keys values gates' entries' := by
  apply Returns.bind_of
  intro direction hdirection
  apply Returns.bind_of
  intro coefficient _
  apply Returns.bind (ha.setCoefficient hdirection gate coefficient)
  intro H₁ h
  obtain ⟨halike, ha₁⟩ := h
  obtain ⟨y, hy⟩ := halike.voltage hoffset
  exact ha₁.setOffset hy gate

/-- The sum is a new voltage, and setting it is setting an offset. -/
theorem AxisAt.shiftOffset [Field R] (hsound : H.Sound Object.refs) (haxis : axis < H.next)
    (ha : AxisAt H axis point keys values gates entries) (gate delta : Handle) :
    Returns (H.shiftOffset same axis gate delta) fun H' =>
      ∃ gates' entries', AxisAt H' axis point keys values gates' entries' := by
  apply Returns.bind_ok ha.offset_eq
  apply Returns.bind_of
  intro offset _
  apply Returns.bind_of
  intro current _
  apply Returns.bind_of
  intro change _
  have ha₁ : AxisAt (H.newVoltage (current + change)).2 axis point keys values gates entries := by
    apply ha.kept
    intro x hx
    exact Heap.alloc_cell_old H _ (hsound.reaches haxis hx)
  apply (ha₁.at_point.pointSet (Heap.alloc_cell_new H (.voltage (current + change))) gate).mono
  intro H' h
  obtain ⟨halike, gates', entries', hp⟩ := h
  exact ⟨gates', entries', ha₁.alike halike hp⟩

/-! ### New points and axes -/

theorem newPoint_at (H : Objects R) :
    PointAt H.newPoint.2 H.newPoint.1 H.next (H.next + 2) [] [] := by
  constructor <;>
    simp [newPoint, makeMap, makeArrayStruct, makeShared, Heap.alloc, pointKeys, pointValues,
      getArrayField, getStructField, getField, arrayItems, elements, RuntimeValue.asStruct,
      Assoc.get?, Function.update_apply, Nat.add_assoc, bind, Except.bind, Voltages]

theorem newAxis_at (H : Objects R) :
    AxisAt H.newAxis.2 H.newAxis.1 (H.next + 5) H.next (H.next + 2) [] [] := by
  constructor
  case offset_eq =>
    simp [newAxis, newPoint, newDirection, makeMap, makeArrayStruct, makeShared, Heap.alloc,
      axisOffset, getStructField, getField, RuntimeValue.asStruct, Assoc.get?, bind, Except.bind]
  case at_point =>
    constructor <;>
      simp [newAxis, newDirection, newPoint, makeMap, makeArrayStruct, makeShared, Heap.alloc,
        pointKeys, pointValues, getArrayField, getStructField, getField, arrayItems, elements,
        RuntimeValue.asStruct, Assoc.get?, Function.update_apply, Nat.add_assoc, bind, Except.bind,
        Voltages]
  case amplitudes =>
    intro direction items hdirection hitems
    have hat : H.newAxis.2.axisDirection H.newAxis.1 = .ok (H.next + 11) := by
      simp [newAxis, newDirection, newPoint, makeMap, makeArrayStruct, makeShared, Heap.alloc,
        axisDirection, getStructField, getField, RuntimeValue.asStruct, Assoc.get?, bind, Except.bind]
    have hkeys : H.newAxis.2.directionKeys (H.next + 11) = .ok (H.next + 6) := by
      simp [newAxis, newDirection, newPoint, makeMap, makeArrayStruct, makeShared, Heap.alloc,
        directionKeys, getArrayField, getStructField, getField, arrayItems, RuntimeValue.asStruct,
        Assoc.get?, Nat.add_assoc, bind, Except.bind]
    have hvalues : H.newAxis.2.directionValues (H.next + 11) = .ok (H.next + 8) := by
      simp [newAxis, newDirection, newPoint, makeMap, makeArrayStruct, makeShared, Heap.alloc,
        directionValues, getArrayField, getStructField, getField, arrayItems, RuntimeValue.asStruct,
        Assoc.get?, Nat.add_assoc, bind, Except.bind]
    obtain rfl := Except.ok.inj (hat.symm.trans hdirection)
    rcases hitems with hitems | hitems
    · obtain rfl := Except.ok.inj (hkeys.symm.trans hitems)
      simp
    · obtain rfl := Except.ok.inj (hvalues.symm.trans hitems)
      simp

end Objects

end FalconStd.Control
