import FalconStd.Control.AxisStore

/-! Every routine on points and axes acts on the side of its receiver.

The modifiers that replace what they store act so even when voltages are immutable;
`ZeroOffsets` writes voltages, and so do the loops of `Shifted` and `ToPoint` on
their clones. -/
namespace FalconStd.Control
open Collections Foundation

variable {R : Type}

namespace Immutable

/-- Gates are never mutated. -/
def gates : Immutable R where
  Holds o := ∃ name, o = Object.gate name
  leaf := by
    intro o h
    obtain ⟨name, rfl⟩ := h
    exact Object.refs_gate name
  not_array := by
    intro ty elements h
    obtain ⟨name, h⟩ := h
    cases h

end Immutable

namespace Objects

section Sides
variable {I : Immutable R} {side : Set Handle} {H H' : Objects R}
  {obj items map point direction axis gate voltage r : Handle} {key value v : RuntimeValue R}

/-! ### Reads -/

theorem reaches_arrayOf {name field : String}
    (h : (do
      let map ← H.getStructField obj name
      H.getArrayField map field) = .ok items) : H.Reaches Object.refs obj items := by
  obtain ⟨map, hmap, h⟩ := bind_ok_iff.mp h
  have hpoints := (returns_getStructField H obj name).of_ok map hmap
  exact .head hpoints ((returns_getArrayField H map field).of_ok items h)

theorem arrayOf_same (hsame : ∀ x, H.Reaches Object.refs obj x → H'.cell x = H.cell x)
    (name field : String) :
    (do
      let map ← H'.getStructField obj name
      H'.getArrayField map field) =
    (do
      let map ← H.getStructField obj name
      H.getArrayField map field) := by
  rw [getStructField_same (hsame obj .refl)]
  apply bind_congr_ok
  intro map hmap
  apply getArrayField_same
  intro x hx
  exact hsame x (.head ((returns_getStructField H obj name).of_ok map hmap) hx)

theorem within_arrayOf (ho : H.Owns I.layout side) (hobj : H.Within I.layout side obj)
    (name field : String) :
    Returns (do
      let map ← H.getStructField obj name
      H.getArrayField map field) (H.Within I.layout side) := by
  apply Returns.bind (within_getStructField ho hobj name)
  intro map hmap
  exact within_getArrayField ho hmap field

theorem within_structAt (ho : H.Owns I.layout side) (hitems : H.Within I.layout side items)
    (i : Nat) : Returns (H.structAt items i) (H.Within I.layout side) := by
  apply Returns.bind (mayHold_elementAt ho hitems i)
  intro v hv
  apply (RuntimeValue.returns_asStruct v).mono
  intro r heq
  subst heq
  exact mayHold_struct.mp hv

/-! ### Arrays -/

theorem acts_pushBack (ho : H.Owns I.layout side) (hitems : H.Within I.layout side items)
    (hv : MayHold I side H v) : Returns (H.pushBack items v) (Heap.Acts I.layout side H) := by
  apply Returns.bind (mayHold_elements ho hitems)
  intro elements helements
  apply acts_setElements ho hitems
  intro w hw
  rcases List.mem_append.mp hw with hold | hnew
  · exact helements w hold
  · cases List.mem_singleton.mp hnew
    exact hv

theorem acts_setIndex (ho : H.Owns I.layout side) (hitems : H.Within I.layout side items)
    (idx : Int) (hv : MayHold I side H v) :
    Returns (H.setIndex items idx v) (Heap.Acts I.layout side H) := by
  apply Returns.bind (mayHold_elements ho hitems)
  intro elements helements
  rw [ArrayValue.setIndex]
  split_ifs with hout
  · exact .error
  · apply acts_setElements ho hitems
    intro w hw
    rcases List.mem_or_eq_of_mem_set hw with hold | rfl
    · exact helements w hold
    · exact hv

theorem acts_erase (ho : H.Owns I.layout side) (hitems : H.Within I.layout side items)
    (idx : Int) : Returns (H.erase items idx) (Heap.Acts I.layout side H) := by
  apply Returns.bind (mayHold_elements ho hitems)
  intro elements helements
  rw [ArrayValue.erase]
  split_ifs with hout
  · exact .error
  · apply acts_setElements ho hitems
    intro w hw
    exact helements w (List.mem_of_mem_eraseIdx hw)

/-! ### Maps -/

variable {same : Objects R → RuntimeValue R → RuntimeValue R → Bool}

theorem acts_mapSet (ho : H.Owns I.layout side) (hmap : H.Within I.layout side map)
    (hkey : MayHold I side H key) (hvalue : MayHold I side H value) :
    Returns (H.mapSet same map key value) (Heap.Acts I.layout side H) := by
  apply Returns.bind (within_getArrayField ho hmap "keys_")
  intro keys hkeys
  apply Returns.bind (within_getArrayField ho hmap "values_")
  intro values hvalues
  apply Returns.bind_of
  intro found _
  split
  · apply Returns.bind_of
    intro index _
    exact acts_setIndex ho hvalues index hvalue
  · apply Returns.bind (acts_pushBack ho hkeys hkey)
    intro H₁ hacts
    apply acts_after hacts
    exact acts_pushBack hacts.owns (hacts.within hvalues) (hvalue.acts hacts)

theorem acts_mapRemove (ho : H.Owns I.layout side) (hmap : H.Within I.layout side map)
    (key : RuntimeValue R) : Returns (H.mapRemove same map key) (Heap.Acts I.layout side H) := by
  apply Returns.bind (within_getArrayField ho hmap "keys_")
  intro keys hkeys
  apply Returns.bind (within_getArrayField ho hmap "values_")
  intro values hvalues
  apply Returns.bind_of
  intro index _
  split
  · apply Returns.bind (acts_erase ho hkeys index)
    intro H₁ hacts
    apply acts_after hacts
    exact acts_erase hacts.owns (hacts.within hvalues) index
  · exact .ok (.refl ho)

/-! ### New objects -/

theorem newVoltage_new (ho : H.Owns I.layout side) (x : R) : Made I side H (H.newVoltage x) := by
  apply made_makeShared ho
  simp

theorem makeArrayStruct_new (ho : H.Owns I.layout side) : Made I side H H.makeArrayStruct := by
  obtain ⟨hacts, hitems⟩ := made_makeShared ho (o := .array "" []) (by simp [Object.refs])
  apply made_after hacts
  intro r hr
  cases List.mem_singleton.mp hr
  exact hitems

theorem makeMap_new (ho : H.Owns I.layout side) :
    Heap.Acts I.layout side H H.makeMap.2 ∧ H.makeMap.2.Has side H.makeMap.1.1 ∧
      H.makeMap.2.Has side H.makeMap.1.2.1 ∧ H.makeMap.2.Has side H.makeMap.1.2.2 := by
  obtain ⟨hacts, hkeys⟩ := makeArrayStruct_new ho
  obtain ⟨hacts', hvalues⟩ := makeArrayStruct_new hacts.owns
  have hboth : ∀ r ∈ [H.makeArrayStruct.1, H.makeArrayStruct.2.makeArrayStruct.1],
      H.makeArrayStruct.2.makeArrayStruct.2.Has side r := by
    intro r hr
    rcases List.mem_cons.mp hr with rfl | hr
    · exact hacts'.has hkeys
    · cases List.mem_singleton.mp hr
      exact hvalues
  have hwrap := Heap.acts_alloc hacts'.owns (c := .inst ⟨"Map", none,
    [("keys_", .struct H.makeArrayStruct.1),
      ("values_", .struct H.makeArrayStruct.2.makeArrayStruct.1)]⟩) fun r hr => (hboth r hr).within
  exact ⟨(hacts.trans hacts').trans hwrap, Heap.has_alloc hacts'.owns _,
    hwrap.has (hacts'.has hkeys), hwrap.has hvalues⟩

theorem newPoint_new (ho : H.Owns I.layout side) : Made I side H H.newPoint := by
  obtain ⟨hacts, hmap, _⟩ := makeMap_new ho
  apply made_after hacts
  intro r hr
  cases List.mem_singleton.mp hr
  exact hmap

theorem newDirection_new (ho : H.Owns I.layout side) : Made I side H H.newDirection := by
  obtain ⟨hacts, hmap, _⟩ := makeMap_new ho
  apply made_after hacts
  intro r hr
  cases List.mem_singleton.mp hr
  exact hmap

theorem newAxis_new (ho : H.Owns I.layout side) : Made I side H H.newAxis := by
  obtain ⟨hacts, hpoint⟩ := newPoint_new ho
  obtain ⟨hacts', hdirection⟩ := newDirection_new hacts.owns
  apply made_after (hacts.trans hacts')
  intro r hr
  rcases List.mem_cons.mp hr with rfl | hr
  · exact hacts'.has hpoint
  · cases List.mem_singleton.mp hr
    exact hdirection

/-! ### Points and axes -/

theorem acts_pointSet (ho : H.Owns I.layout side) (hpoint : H.Within I.layout side point)
    (hgate : H.Within I.layout side gate) (hvoltage : H.Within I.layout side voltage) :
    Returns (H.pointSet same point gate voltage) (Heap.Acts I.layout side H) := by
  apply Returns.bind (within_getStructField ho hpoint "location_")
  intro location hlocation
  exact acts_mapSet ho hlocation (mayHold_struct.mpr hgate) (mayHold_struct.mpr hvoltage)

theorem acts_pointRemoveGate (ho : H.Owns I.layout side) (hpoint : H.Within I.layout side point)
    (gate : Handle) :
    Returns (H.pointRemoveGate same point gate) (Heap.Acts I.layout side H) := by
  apply Returns.bind (within_getStructField ho hpoint "location_")
  intro location hlocation
  exact acts_mapRemove ho hlocation _

theorem acts_setCoefficient (ho : H.Owns I.layout side)
    (hdirection : H.Within I.layout side direction) (hgate : H.Within I.layout side gate) (x : R) :
    Returns (H.setCoefficient same direction gate x) (Heap.Acts I.layout side H) := by
  apply Returns.bind (within_getStructField ho hdirection "dir_")
  intro dir hdir
  exact acts_mapSet ho hdir (mayHold_struct.mpr hgate) (mayHold_float x)

theorem acts_directionRemoveGate (ho : H.Owns I.layout side)
    (hdirection : H.Within I.layout side direction) (gate : Handle) :
    Returns (H.directionRemoveGate same direction gate) (Heap.Acts I.layout side H) := by
  apply Returns.bind (within_getStructField ho hdirection "dir_")
  intro dir hdir
  exact acts_mapRemove ho hdir _

theorem acts_setOffset {offset : Handle} (ho : H.Owns I.layout side)
    (haxis : H.Within I.layout side axis) (hgate : H.Within I.layout side gate)
    (hoffset : H.Within I.layout side offset) :
    Returns (H.setOffset same axis gate offset) (Heap.Acts I.layout side H) := by
  apply Returns.bind (within_getStructField ho haxis "offset_")
  intro point hpoint
  exact acts_pointSet ho hpoint hgate hoffset

theorem acts_extendDomain {offset : Handle} (ho : H.Owns I.layout side)
    (haxis : H.Within I.layout side axis) (hgate : H.Within I.layout side gate)
    (hoffset : H.Within I.layout side offset) (amp : Handle) :
    Returns (H.extendDomain same axis gate offset amp) (Heap.Acts I.layout side H) := by
  apply Returns.bind (within_getStructField ho haxis "direction_")
  intro direction hdirection
  apply Returns.bind_of
  intro coefficient _
  apply Returns.bind (acts_setCoefficient ho hdirection hgate coefficient)
  intro H₁ hacts
  apply acts_after hacts
  exact acts_setOffset hacts.owns (hacts.within haxis) (hacts.within hgate) (hacts.within hoffset)

theorem acts_setAmplitude (ho : H.Owns I.layout side) (haxis : H.Within I.layout side axis)
    (hgate : H.Within I.layout side gate) (amplitude : Handle) :
    Returns (H.setAmplitude same axis gate amplitude) (Heap.Acts I.layout side H) := by
  apply Returns.bind (within_getStructField ho haxis "direction_")
  intro direction hdirection
  apply Returns.bind_of
  intro coefficient _
  exact acts_setCoefficient ho hdirection hgate coefficient

theorem acts_removeGate (ho : H.Owns I.layout side) (haxis : H.Within I.layout side axis)
    (gate : Handle) : Returns (H.removeGate same axis gate) (Heap.Acts I.layout side H) := by
  apply Returns.bind (within_getStructField ho haxis "offset_")
  intro point hpoint
  apply Returns.bind (acts_pointRemoveGate ho hpoint gate)
  intro H₁ hacts
  apply Returns.bind (within_getStructField hacts.owns (hacts.within haxis) "direction_")
  intro direction hdirection
  apply acts_after hacts
  exact acts_directionRemoveGate hacts.owns hdirection gate

/-- The sum is a new voltage. -/
theorem acts_shiftOffset [Field R] (ho : H.Owns I.layout side)
    (haxis : H.Within I.layout side axis) (hgate : H.Within I.layout side gate) (delta : Handle) :
    Returns (H.shiftOffset same axis gate delta) (Heap.Acts I.layout side H) := by
  apply Returns.bind (within_getStructField ho haxis "offset_")
  intro point hpoint
  apply Returns.bind_of
  intro offset _
  apply Returns.bind_of
  intro current _
  apply Returns.bind_of
  intro change _
  obtain ⟨hacts, hsum⟩ := newVoltage_new ho (current + change)
  apply acts_after hacts
  exact acts_pointSet hacts.owns (hacts.within hpoint) (hacts.within hgate) hsum.within

end Sides

/-! ### Voltages written in place -/

theorem setVoltageValue_voltage {H : Objects R} {voltage : Handle} {x : R}
    (h : H.cell voltage = .voltage x) (y : R) :
    H.setVoltageValue voltage y = .ok (H.write voltage (.voltage y)) := by
  simp [setVoltageValue, setField, h, Object.voltage, Assoc.set]

/-- What has a voltage value is not a gate. -/
theorem returns_voltageValue (H : Objects R) (voltage : Handle) :
    Returns (H.voltageValue voltage) fun _ => ¬ Immutable.gates.Holds (H.cell voltage) := by
  apply Returns.bind_of
  intro v hfield
  constructor
  intro x _ h
  obtain ⟨name, hgate⟩ := h
  obtain ⟨s, hs, hget⟩ := getField_ok hfield
  rw [hgate] at hs
  cases hs
  simp [Assoc.get?] at hget

section Gates
variable {side : Set Handle} {H H' : Objects R} {axis voltage : Handle}

/-- A voltage that has been read may be written. -/
theorem acts_setVoltageValue (ho : H.Owns Immutable.gates.layout side)
    (hvoltage : H.Within Immutable.gates.layout side voltage)
    (hgate : ¬ Immutable.gates.Holds (H.cell voltage)) (y : R) :
    Returns (H.setVoltageValue voltage y) (Heap.Acts Immutable.gates.layout side H) :=
  acts_setField ho hvoltage hgate (mayHold_float y) "value_"

/-- Every entry of a vector is a voltage. -/
def Voltages (H : Objects R) (entries : List (RuntimeValue R)) : Prop :=
  ∀ e ∈ entries, ∃ voltage x, e = .struct voltage ∧ H.cell voltage = .voltage x

theorem Voltages.write {entries : List (RuntimeValue R)} (hv : H.Voltages entries)
    (voltage : Handle) (y : R) : Objects.Voltages (H.write voltage (.voltage y)) entries := by
  intro e he
  obtain ⟨w, x, hw, hcell⟩ := hv e he
  by_cases hsame : w = voltage
  · subst hsame
    exact ⟨w, y, hw, Heap.write_cell_same H w _⟩
  · exact ⟨w, x, hw, (Heap.write_cell_ne H _ hsame).trans hcell⟩

theorem not_gate_of_voltage {x : R} (h : H.cell voltage = .voltage x) :
    ¬ Immutable.gates.Holds (H.cell voltage) := by
  intro h
  obtain ⟨name, hgate⟩ := h
  rw [h] at hgate
  simp [Object.voltage, Object.gate] at hgate

/-- The voltages stored in the offsets are voltages. -/
theorem acts_zeroOffsets [Field R] (ho : H.Owns Immutable.gates.layout side)
    (haxis : H.Within Immutable.gates.layout side axis)
    (hvoltages : ∀ point values entries, H.axisOffset axis = .ok point →
      H.pointValues point = .ok values → H.elements values = .ok entries → H.Voltages entries) :
    Returns (H.zeroOffsets axis) (Heap.Acts Immutable.gates.layout side H) := by
  apply Returns.bind_of
  intro point hpoint
  have hin := (within_getStructField ho haxis "offset_").of_ok point hpoint
  apply Returns.bind_of
  intro values hvalues
  have hin := (within_arrayOf ho hin _ _).of_ok values hvalues
  apply Returns.bind_of
  intro entries hentries
  have hin := (mayHold_elements ho hin).of_ok entries hentries
  have hv := hvoltages point values entries hpoint hvalues hentries
  have hloop : Returns (entries.foldlM zeroEntry H) fun H' =>
      Heap.Acts Immutable.gates.layout side H H' ∧ H'.Voltages entries := by
    apply Returns.foldlM
    · intro e he H₁ h
      obtain ⟨hacts, hv₁⟩ := h
      obtain ⟨voltage, x, rfl, hcell⟩ := hv₁ e he
      have hwithin := hacts.within (mayHold_struct.mp (hin _ he))
      have hwrite := acts_setVoltageValue hacts.owns hwithin (not_gate_of_voltage hcell) 0
      have hset := setVoltageValue_voltage hcell (0 : R)
      have hacts' := hacts.trans (hwrite.of_ok _ hset)
      apply Returns.bind_ok rfl
      rw [hset]
      exact .ok ⟨hacts', hv₁.write voltage 0⟩
    · exact ⟨.refl ho, hv⟩
  exact hloop.mono fun _ => And.left

end Gates

end Objects

end FalconStd.Control
