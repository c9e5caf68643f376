import Mathlib.Algebra.Field.Rat
import FalconStd.Control.AxisStoreProofs

/-! Independence of derived axes and points.

`Shifted`, `ToPoint` and `NewFromPoints` clone what they start from, so a result
shares only gates with the inputs (`derived_independent`): nothing called later on
one is seen from the other. -/
namespace FalconStd.Control
open Collections Foundation

variable {R : Type}

/-! ### Calls -/

/-- A call that derives an axis or a point, with its arguments. -/
inductive Derivation where
  | shifted (self dir : Handle)
  | toPoint (self coordinate : Handle)
  | newFromPoints (offset point : Handle)

namespace Derivation

def inputs : Derivation → Set Handle
  | shifted self dir => {self, dir}
  | toPoint self coordinate => {self, coordinate}
  | newFromPoints offset point => {offset, point}

def run [Field R]
    (same : Objects R → RuntimeValue R → RuntimeValue R → Bool) (depth : Nat) (H : Objects R) :
    Derivation → Except Fault (Handle × Objects R)
  | shifted self dir => H.shifted same depth self dir
  | toPoint self coordinate => H.toPoint same depth self coordinate
  | newFromPoints offset point => H.newFromPoints depth offset point

end Derivation

/-- A modifier of an axis or a point, with its other arguments; the voltages it is
given are new ones of these values. -/
inductive Mutation (R : Type) where
  | zeroOffsets
  | setOffset (gate : Handle) (offset : R)
  | shiftOffset (gate : Handle) (delta : R)
  | setAmplitude (gate : Handle) (amplitude : R)
  | extendDomain (gate : Handle) (offset amp : R)
  | removeGate (gate : Handle)
  | pointSet (gate : Handle) (voltage : R)

namespace Mutation

def apply [Field R] (same : Objects R → RuntimeValue R → RuntimeValue R → Bool)
    (H : Objects R) (receiver : Handle) : Mutation R → Except Fault (Objects R)
  | zeroOffsets => H.zeroOffsets receiver
  | setOffset gate offset =>
    let (offset, H) := H.newVoltage offset
    H.setOffset same receiver gate offset
  | shiftOffset gate delta =>
    let (delta, H) := H.newVoltage delta
    H.shiftOffset same receiver gate delta
  | setAmplitude gate amplitude =>
    let (amplitude, H) := H.newVoltage amplitude
    H.setAmplitude same receiver gate amplitude
  | extendDomain gate offset amp =>
    let (offset, H) := H.newVoltage offset
    let (amp, H) := H.newVoltage amp
    H.extendDomain same receiver gate offset amp
  | removeGate gate => H.removeGate same receiver gate
  | pointSet gate voltage =>
    let (voltage, H) := H.newVoltage voltage
    H.pointSet same receiver gate voltage

end Mutation

/-! ### What the types of the DSL promise -/

namespace Objects

def IsGate (H : Objects R) (gate : Handle) : Prop :=
  gate < H.next ∧ ∃ name, H.cell gate = .gate name

/-- A modifier is called with gates, and on a receiver whose offsets are voltages. -/
def MayMutate (H : Objects R) (receiver : Handle) : Mutation R → Prop
  | .zeroOffsets => ∀ point values entries, H.axisOffset receiver = .ok point →
      H.pointValues point = .ok values → H.elements values = .ok entries → H.Voltages entries
  | .setOffset gate _ | .shiftOffset gate _ | .setAmplitude gate _ | .extendDomain gate _ _
  | .pointSet gate _ => H.IsGate gate
  | .removeGate _ => True

/-- The keys of a point are gates. -/
def MayDerive (H : Objects R) : Derivation → Prop
  | .newFromPoints offset _ => ∀ keys entries, H.pointKeys offset = .ok keys →
      H.elements keys = .ok entries → ∀ e ∈ entries, ∃ gate name, e = .struct gate ∧
        H.cell gate = .gate name
  | _ => True

/-- A modifier is called on something that `root` leads to. -/
def Mutates [Field R] (same : Objects R → RuntimeValue R → RuntimeValue R → Bool)
    (root : Handle) (H H' : Objects R) : Prop :=
  ∃ receiver mutation, H.Reaches Object.refs root receiver ∧ H.MayMutate receiver mutation ∧
    mutation.apply same H receiver = .ok H'

section Calls
variable {side : Set Handle} {H H' : Objects R} {receiver result gate : Handle}
  {same : Objects R → RuntimeValue R → RuntimeValue R → Bool}

theorem IsGate.within (hg : H.IsGate gate) : H.Within Immutable.gates.layout side gate :=
  ⟨hg.1, .inr hg.2⟩

/-! ### Modifiers -/

theorem acts_mutation [Field R] {m : Mutation R} (ho : H.Owns Immutable.gates.layout side)
    (hreceiver : H.Within Immutable.gates.layout side receiver) (hmay : H.MayMutate receiver m) :
    Returns (m.apply same H receiver) (Heap.Acts Immutable.gates.layout side H) := by
  cases m with
  | zeroOffsets => exact acts_zeroOffsets ho hreceiver hmay
  | setOffset gate offset =>
    obtain ⟨hacts, hnew⟩ := newVoltage_new ho offset
    apply acts_after hacts
    exact acts_setOffset hacts.owns (hacts.within hreceiver) (hacts.within hmay.within) hnew.within
  | shiftOffset gate delta =>
    obtain ⟨hacts, _⟩ := newVoltage_new ho delta
    apply acts_after hacts
    exact acts_shiftOffset hacts.owns (hacts.within hreceiver) (hacts.within hmay.within) _
  | setAmplitude gate amplitude =>
    obtain ⟨hacts, _⟩ := newVoltage_new ho amplitude
    apply acts_after hacts
    exact acts_setAmplitude hacts.owns (hacts.within hreceiver) (hacts.within hmay.within) _
  | extendDomain gate offset amp =>
    obtain ⟨hacts, hnew⟩ := newVoltage_new ho offset
    obtain ⟨hacts', _⟩ := newVoltage_new hacts.owns amp
    have hboth := hacts.trans hacts'
    apply acts_after hboth
    exact acts_extendDomain hboth.owns (hboth.within hreceiver) (hboth.within hmay.within)
      (hacts'.has hnew).within _
  | removeGate gate => exact acts_removeGate ho hreceiver gate
  | pointSet gate voltage =>
    obtain ⟨hacts, hnew⟩ := newVoltage_new ho voltage
    apply acts_after hacts
    exact acts_pointSet hacts.owns (hacts.within hreceiver) (hacts.within hmay.within) hnew.within

theorem mutates_local [Field R] :
    Heap.Local Immutable.gates.layout (Mutates (R := R) same) := by
  intro root H H' side ho hroot hmutates
  obtain ⟨receiver, m, hreach, hmay, h⟩ := hmutates
  exact (acts_mutation ho (ho.reaches_within hroot hreach) hmay).of_ok H' h

/-! ### Derivations

The loops write voltages of a clone, or vectors that the call has made. -/

theorem acts_shiftGate [Field R] {shiftKeys shiftValues offsetKeys offsetValues : Handle}
    (ho : H.Owns Immutable.gates.layout side)
    (hvalues : H.Within Immutable.gates.layout side offsetValues) (i : Nat) :
    Returns (shiftGate same shiftKeys shiftValues offsetKeys offsetValues H i)
      (Heap.Acts Immutable.gates.layout side H) := by
  apply Returns.bind_of
  intro gate _
  apply Returns.bind_of
  intro keys _
  split
  case h_2 => exact .ok (.refl ho)
  case h_1 j _ =>
    apply Returns.bind (within_structAt ho hvalues j)
    intro voltage hvoltage
    apply Returns.bind (returns_voltageValue H voltage)
    intro current hgate
    apply Returns.bind_of
    intro shift _
    apply Returns.bind_of
    intro delta _
    exact acts_setVoltageValue ho hvoltage hgate _

theorem shifted_new [Field R] (depth : Nat) (self shift : Handle)
    (ho : H.Owns Immutable.gates.layout side) :
    Returns (H.shifted same depth self shift) (Made Immutable.gates side H) := by
  apply Returns.bind (cloneStruct_new depth self ho)
  intro result h
  obtain ⟨axis, H₁⟩ := result
  obtain ⟨hacts, hnew⟩ := h
  apply Returns.bind (within_getStructField hacts.owns hnew.within "offset_")
  intro offset hoffset
  apply Returns.bind_of
  intro offsetKeys _
  apply Returns.bind (within_arrayOf hacts.owns hoffset "location_" "values_")
  intro offsetValues hvalues
  apply Returns.bind_of
  intro shiftKeys _
  apply Returns.bind_of
  intro shiftValues _
  apply Returns.bind_of
  intro gates _
  apply Returns.bind (acts_forRange hacts.owns fun i H' hacts' =>
    acts_shiftGate hacts'.owns (hacts'.within hvalues) i)
  intro H₂ hacts'
  apply Returns.bind_of
  intro _ _
  exact .ok ⟨hacts.trans hacts', hacts'.has hnew⟩

theorem acts_evaluateAt [Field R] {dirKeys dirValues values : Handle} {coord : R}
    (ho : H.Owns Immutable.gates.layout side)
    (hvalues : H.Within Immutable.gates.layout side values) (i : Nat) :
    Returns (evaluateAt same dirKeys dirValues values coord H i)
      (Heap.Acts Immutable.gates.layout side H) := by
  apply Returns.bind (within_structAt ho hvalues i)
  intro voltage hvoltage
  apply Returns.bind (returns_voltageValue H voltage)
  intro offset hgate
  apply Returns.bind_of
  intro coeff _
  exact acts_setVoltageValue ho hvoltage hgate _

theorem toPoint_new [Field R] (depth : Nat) (self coordinate : Handle)
    (ho : H.Owns Immutable.gates.layout side) :
    Returns (H.toPoint same depth self coordinate) (Made Immutable.gates side H) := by
  apply Returns.bind_of
  intro coord _
  apply Returns.bind_of
  intro offset _
  apply Returns.bind (cloneStruct_new depth offset ho)
  intro result h
  obtain ⟨point, H₁⟩ := result
  obtain ⟨hacts, hnew⟩ := h
  apply Returns.bind_of
  intro keys _
  apply Returns.bind (within_arrayOf hacts.owns hnew.within "location_" "values_")
  intro values hvalues
  apply Returns.bind_of
  intro dir _
  apply Returns.bind_of
  intro dirKeys _
  apply Returns.bind_of
  intro dirValues _
  apply Returns.bind_of
  intro gates _
  apply Returns.bind (acts_forRange hacts.owns fun i H' hacts' =>
    acts_evaluateAt hacts'.owns (hacts'.within hvalues) i)
  intro H₂ hacts'
  apply Returns.bind_of
  intro _ _
  exact .ok ⟨hacts.trans hacts', hacts'.has hnew⟩

/-- A pass adds a key of the offset, and a number. -/
theorem acts_difference [Field R]
    {offsetKeys offsetValues pointValues keyItems valueItems : Handle}
    (ho : H.Owns Immutable.gates.layout side)
    (hkeyItems : H.Within Immutable.gates.layout side keyItems)
    (hvalueItems : H.Within Immutable.gates.layout side valueItems)
    (hkeys : Returns (H.elements offsetKeys) fun keys =>
      ∀ key ∈ keys, MayHold Immutable.gates side H key) (i : Nat) :
    Returns (difference offsetKeys offsetValues pointValues keyItems valueItems H i)
      (Heap.Acts Immutable.gates.layout side H) := by
  apply Returns.bind (returns_elementAt hkeys i)
  intro gate hgate
  apply Returns.bind_of
  intro off_voltage _
  apply Returns.bind_of
  intro point_voltage _
  apply Returns.bind_of
  intro off _
  apply Returns.bind_of
  intro pt _
  apply Returns.bind (acts_pushBack ho hkeyItems hgate)
  intro H₁ hacts
  apply acts_after hacts
  exact acts_pushBack hacts.owns (hacts.within hvalueItems) (mayHold_float _)

/-- Gates of old cells may be held by new ones. -/
theorem mayHold_oldGates {keys : Handle} (hlt : keys < H.next) (hsound : H.Sound Object.refs)
    (hgates : ∀ entries, H.elements keys = .ok entries → ∀ e ∈ entries,
      ∃ gate name, e = .struct gate ∧ H.cell gate = .gate name)
    (hacts : Heap.Acts Immutable.gates.layout {r | H.next ≤ r} H H') :
    Returns (H'.elements keys) fun entries =>
      ∀ e ∈ entries, MayHold Immutable.gates {r | H.next ≤ r} H' e := by
  rw [elements_same (hacts.frame keys hlt (.inl (Nat.not_le.mpr hlt)))]
  constructor
  intro entries hentries e he
  obtain ⟨gate, name, rfl, hcell⟩ := hgates entries hentries e he
  have hpoints := (returns_elements H keys).of_ok entries hentries _ he
  have hgate := hsound keys hlt gate (hpoints gate List.mem_cons_self)
  exact mayHold_struct.mpr (hacts.within ⟨hgate, .inr ⟨name, hcell⟩⟩)

theorem newFromPoints_new [Field R] (depth : Nat) {offset point : Handle}
    (hsound : H.Sound Object.refs) (hoffset : offset < H.next)
    (hmay : H.MayDerive (.newFromPoints offset point)) :
    Returns (H.newFromPoints depth offset point) (Made Immutable.gates {r | H.next ≤ r} H) := by
  apply Returns.bind (cloneStruct_new depth offset (Heap.Sound.owns hsound))
  intro result h
  obtain ⟨clone, H₁⟩ := result
  obtain ⟨hacts₁, hclone⟩ := h
  obtain ⟨hacts₂, hmap, hkeys, hvalues⟩ := makeMap_new hacts₁.owns
  dsimp only at hacts₂ hmap hkeys hvalues hclone ⊢
  generalize H₁.makeMap = made at hacts₂ hmap hkeys hvalues ⊢
  obtain ⟨⟨map, keys, values⟩, H₂⟩ := made
  obtain ⟨hacts₃, hdirection⟩ := made_makeShared hacts₂.owns
    (o := .inst ⟨"Direction", none, [("dir_", .struct map)]⟩) fun r hr => by
      cases List.mem_singleton.mp hr
      exact hmap
  dsimp only at hacts₃ hdirection ⊢
  generalize H₂.makeShared _ = made at hacts₃ hdirection ⊢
  obtain ⟨direction, H₃⟩ := made
  have hacts := hacts₁.trans (hacts₂.trans hacts₃)
  apply Returns.bind (within_arrayItems hacts.owns (hacts₃.has hkeys).within)
  intro keyItems hkeyItems
  apply Returns.bind (within_arrayItems hacts.owns (hacts₃.has hvalues).within)
  intro valueItems hvalueItems
  apply Returns.bind_of
  intro offsetKeys hoffsetKeys
  -- the old cells stay as they are, and so do the keys of `offset`
  have hoffsetKeys : H.pointKeys offset = .ok offsetKeys := by
    rw [← hoffsetKeys]
    apply (arrayOf_same _ _ _).symm
    intro x hx
    have hx := hsound.reaches hoffset hx
    exact hacts.frame x hx (.inl (Nat.not_le.mpr hx))
  have hlt := hsound.reaches hoffset (reaches_arrayOf hoffsetKeys)
  have hold : ∀ {H' : Objects R}, Heap.Acts Immutable.gates.layout {r | H.next ≤ r} H H' →
      Returns (H'.elements offsetKeys) fun entries =>
        ∀ e ∈ entries, MayHold Immutable.gates {r | H.next ≤ r} H' e :=
    mayHold_oldGates hlt hsound fun entries => hmay offsetKeys entries hoffsetKeys
  apply Returns.bind_of
  intro offsetValues _
  apply Returns.bind_of
  intro pointValues _
  apply Returns.bind_of
  intro gates _
  apply Returns.bind (acts_forRange hacts.owns fun i H' hacts' => acts_difference hacts'.owns
    (hacts'.within hkeyItems) (hacts'.within hvalueItems) (hold (hacts.trans hacts')) i)
  intro H₄ hacts₄
  apply Returns.ok
  apply made_after (hacts.trans hacts₄)
  intro r hr
  rcases List.mem_cons.mp hr with rfl | hr
  · exact hacts₄.has (hacts₃.has (hacts₂.has hclone))
  · cases List.mem_singleton.mp hr
    exact hacts₄.has hdirection

theorem derivation_new [Field R] (depth : Nat) {call : Derivation}
    (hsound : H.Sound Object.refs) (hinputs : ∀ i ∈ call.inputs, i < H.next)
    (hmay : H.MayDerive call) :
    Returns (call.run same depth H) (Made Immutable.gates {r | H.next ≤ r} H) := by
  have ho : H.Owns Immutable.gates.layout {r | H.next ≤ r} := Heap.Sound.owns hsound
  cases call with
  | shifted self dir => exact shifted_new depth self dir ho
  | toPoint self coordinate => exact toPoint_new depth self coordinate ho
  | newFromPoints offset point =>
    exact newFromPoints_new depth hsound (hinputs offset (.inl rfl)) hmay

end Calls

end Objects

/-! ### Independence -/

/-- Modifiers called, one after another, on what the handles of a set lead to. -/
def Modified [Field R] (same : Objects R → RuntimeValue R → RuntimeValue R → Bool)
    (roots : Set Handle) : Objects R → Objects R → Prop :=
  Relation.ReflTransGen (Heap.Calls (Objects.Mutates same) roots)

/-- `result`, derived from `inputs` by a call from `H` to `H₁`, and the inputs are
independent. Everything that can be observed of a handle is its graph. -/
structure Independent [Field R]
    (same : Objects R → RuntimeValue R → RuntimeValue R → Bool) (inputs : Set Handle)
    (H H₁ : Objects R) (result : Handle) : Prop where
  computed : ∀ i ∈ inputs, H₁.graph Object.refs i = H.graph Object.refs i
  shared_gates : ∀ i ∈ inputs, ∀ r, H₁.Reaches Object.refs result r → H₁.Reaches Object.refs i r →
    ∃ name, H₁.cell r = .gate name
  result_modified : ∀ H₂ H₃, Modified same (inputs ∪ {result}) H₁ H₂ →
    Modified same {result} H₂ H₃ → ∀ i ∈ inputs, H₃.graph Object.refs i = H₂.graph Object.refs i
  inputs_modified : ∀ H₂ H₃, Modified same (inputs ∪ {result}) H₁ H₂ →
    Modified same inputs H₂ H₃ → H₃.graph Object.refs result = H₂.graph Object.refs result

theorem derived_independent [Field R]
    (same : Objects R → RuntimeValue R → RuntimeValue R → Bool) {depth : Nat} {H H₁ : Objects R}
    {call : Derivation} {result : Handle} (hsound : H.Sound Object.refs)
    (hinputs : ∀ i ∈ call.inputs, i < H.next) (hmay : H.MayDerive call)
    (hcall : call.run same depth H = .ok (result, H₁)) :
    Independent same call.inputs H H₁ result := by
  have ho : H.Owns Immutable.gates.layout {r | H.next ≤ r} := Heap.Sound.owns hsound
  have hlocal : Heap.Local Immutable.gates.layout (Objects.Mutates same) := Objects.mutates_local
  have hold : ∀ i ∈ call.inputs, i ∉ {r | H.next ≤ r} := fun i hi => Nat.not_le.mpr (hinputs i hi)
  obtain ⟨hacts, hnew⟩ :=
    (Objects.derivation_new depth hsound hinputs hmay).of_ok (result, H₁) hcall
  have hapart : ∀ i ∈ call.inputs, ∀ r ∈ ({result} : Set Handle),
      Heap.Apart Immutable.gates.layout H₁ i r := by
    intro i hi r heq
    subst heq
    refine Heap.Apart.symm ⟨hnew.1, (hinputs i hi).trans_le hacts.next_le, _, hacts.owns, hnew.2, ?_⟩
    exact hold i hi
  have hlater : ∀ {H₂}, Modified same (call.inputs ∪ {result}) H₁ H₂ → ∀ i ∈ call.inputs,
      ∀ r ∈ ({result} : Set Handle), Heap.Apart Immutable.gates.layout H₂ i r := by
    intro H₂ hrun
    refine Heap.apart_run hlocal hapart ?_
    refine Relation.ReflTransGen.mono ?_ _ _ hrun
    intro H₃ H₄ h
    obtain ⟨root, hroot | hroot, hstep⟩ := h
    · exact .inl ⟨root, hroot, hstep⟩
    · exact .inr ⟨root, hroot, hstep⟩
  constructor
  case computed => exact fun i hi => hacts.graph_eq ho (hinputs i hi) (hold i hi)
  case shared_gates =>
    exact fun i hi r hresult hinput =>
      (hapart i hi result rfl).shared_frozen hinput hresult
  case result_modified =>
    intro H₂ H₃ hrun hthen i hi
    exact Heap.graph_run hlocal
      (fun r hr i hi => (hlater hrun i hi r hr).symm) hthen i hi
  case inputs_modified =>
    intro H₂ H₃ hrun hthen
    exact Heap.graph_run hlocal (hlater hrun) hthen result rfl

/-- An axis over one gate, at handle `14`; its direction is at `13`. -/
def sampleAxis : Objects ℚ where
  cell r := [.gate "P1", .voltage 5,
    .array "" [.struct 0], .inst ⟨"Array", some (.array isArrayType_array 2), []⟩,
    .array "" [.struct 1], .inst ⟨"Array", some (.array isArrayType_array 4), []⟩,
    .inst ⟨"Map", none, [("keys_", .struct 3), ("values_", .struct 5)]⟩,
    .inst ⟨"Point", none, [("location_", .struct 6)]⟩,
    .array "" [.struct 0], .inst ⟨"Array", some (.array isArrayType_array 8), []⟩,
    .array "" [.float 2], .inst ⟨"Array", some (.array isArrayType_array 10), []⟩,
    .inst ⟨"Map", none, [("keys_", .struct 9), ("values_", .struct 11)]⟩,
    .inst ⟨"Direction", none, [("dir_", .struct 12)]⟩,
    .inst ⟨"ControlAxis", none, [("offset_", .struct 7), ("direction_", .struct 13)]⟩].getD r
      (.tuple [])
  next := 15

/-- An axis shifted along its own direction. -/
theorem derived_independent_sample :
    ∃ result H₁, sampleAxis.shifted Objects.sameName 9 14 13 = .ok (result, H₁) ∧
      Independent Objects.sameName {14, 13} sampleAxis H₁ result := by
  obtain ⟨⟨result, H₁⟩, h⟩ : ∃ made, sampleAxis.shifted Objects.sameName 9 14 13 = .ok made := by
    have hok : (sampleAxis.shifted Objects.sameName 9 14 13).isOk = true := by decide
    cases hrun : sampleAxis.shifted Objects.sameName 9 14 13 with
    | ok made => exact ⟨made, rfl⟩
    | error fault =>
      rw [hrun] at hok
      cases hok
  have hsound : Heap.Sound Object.refs sampleAxis := by
    show ∀ r < 15, ∀ r' ∈ (sampleAxis.cell r).refs, r' < 15
    decide
  have hinputs : ∀ i ∈ (Derivation.shifted 14 13).inputs, i < sampleAxis.next := by
    intro i h
    rcases h with rfl | rfl <;> decide
  exact ⟨result, H₁, h, derived_independent Objects.sameName hsound hinputs trivial h⟩

end FalconStd.Control
