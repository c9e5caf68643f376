import FalconStd.Control.AxisIndexing
import FalconStd.Control.AxisLines

/-! The gates of a control axis, one by one.

To its user an axis is a line for every gate: `offset + coordinate * amplitude`. What it
stores for a gate is changed by the calls that name the gate and by those that are about
all gates, and by no other, so a run of calls is a run of every gate's own. As long as
the two maps list their gates in one order, `ToPoint` evaluates those lines
(`evaluates_lines`). -/
namespace FalconStd.Control
open Collections Foundation

variable {G R : Type} [DecidableEq G] [Field R]

/-- What is stored for a gate. -/
structure GateLine (R : Type) where
  offset : Option R
  amplitude : Option R
  deriving DecidableEq

def Point.voltage (point : Point G R) (g : G) : Option R :=
  (point.location_.lookup g).map Voltage.value_

def ControlAxis.lineOf (axis : ControlAxis G R) (g : G) : GateLine R :=
  ⟨axis.offset_.voltage g, axis.direction_.dir_.lookup g⟩

namespace GateLine

def none : GateLine R := ⟨.none, .none⟩

/-- The line through two voltages, at zero and at one. -/
def between (start finish : Option R) : GateLine R :=
  ⟨start, do
    let start ← start
    let finish ← finish
    some (finish - start)⟩

/-- The gate's part of a call. -/
def call (g : G) (line : GateLine R) : ControlAxis.Call G R → GateLine R
  | .new => none
  | .newFromPointAndDirection offset direction =>
    ⟨offset.1.voltage g, direction.1.dir_.lookup g⟩
  | .newFromPoints offset point => between (offset.1.voltage g) (point.1.voltage g)
  | .extendDomain gate offset amp =>
    if gate == g then ⟨some offset.value_, some amp.value_⟩ else line
  | .setOffset gate offset => if gate == g then { line with offset := some offset.value_ } else line
  | .setAmplitude gate amplitude =>
    if gate == g then { line with amplitude := some amplitude.value_ } else line
  | .shiftOffset gate delta =>
    if gate == g then { line with offset := line.offset.map (· + delta.value_) } else line
  | .shiftAmplitude gate delta =>
    if gate == g then { line with amplitude := line.amplitude.map (· + delta.value_) } else line
  | .rescale scale => { line with amplitude := line.amplitude.map (· * scale) }
  | .zeroOffsets => { line with offset := line.offset.map fun _ => 0 }
  | .shifted dir =>
    { line with offset := line.offset.map (· + ControlAxis.deltaAt dir.1.dir_.entries g) }
  | .scaled factor => { line with amplitude := line.amplitude.map (· * factor) }
  | .removeGate gate => if gate == g then none else line

def after (g : G) (calls : List (ControlAxis.Call G R)) : GateLine R := run (call g) none calls

/-- The voltage of the gate at a coordinate. -/
def evaluate (line : GateLine R) (c : R) : Option R := do
  let offset ← line.offset
  let amplitude ← line.amplitude
  some (offset + c * amplitude)

end GateLine

namespace ControlAxis

/-- The two maps list their gates in one order. -/
def SameOrder (axis : ControlAxis G R) : Prop := axis.gates = axis.direction_.gates

/-- A constructor is given two lists of gates that are equal; a gate is not set on one
side alone. -/
def InOrder (axis : ControlAxis G R) : Call G R → Prop
  | .newFromPointAndDirection offset direction => offset.1.gates = direction.1.gates
  | .newFromPoints offset point => offset.1.gates = point.1.gates
  | .setOffset gate _ => axis.direction_.containsGate gate = true
  | .setAmplitude gate _ => axis.containsGate gate = true
  | _ => True

end ControlAxis

/-! ### One call -/

namespace Point
variable {point : Point G R}

omit [Field R] in
theorem set_voltage (h : point.WellFormed) (gate : G) (voltage : Voltage R) (g : G) :
    (point.set gate voltage).2.voltage g =
      if gate == g then some voltage.value_ else point.voltage g := by
  obtain ⟨m, hset, -, hlookup⟩ := Map.set_spec h gate voltage
  have hpoint : (point.set gate voltage).2.location_ = m := congrArg Prod.snd hset
  rw [Point.voltage, hpoint, hlookup]
  cases gate == g <;> rfl

omit [Field R] in
theorem removeGate_voltage (h : point.WellFormed) (gate g : G) :
    (point.removeGate gate).2.voltage g = if gate == g then none else point.voltage g := by
  obtain ⟨m, hremove, -, hlookup⟩ := Map.remove_spec h gate
  have hpoint : (point.removeGate gate).2.location_ = m := congrArg Prod.snd hremove
  rw [Point.voltage, hpoint, hlookup]
  cases gate == g <;> rfl

end Point

namespace Direction
variable {d : Direction G R}

omit [Field R] in
theorem setCoefficient_lookup (h : d.WellFormed) (gate : G) (coefficient : R) (g : G) :
    (d.setCoefficient gate coefficient).2.dir_.lookup g =
      if gate == g then some coefficient else d.dir_.lookup g := by
  obtain ⟨m, hset, -, hlookup⟩ := Map.set_spec h gate coefficient
  have hdir : (d.setCoefficient gate coefficient).2.dir_ = m := congrArg Prod.snd hset
  rw [hdir, hlookup]

omit [Field R] in
theorem removeGate_lookup (h : d.WellFormed) (gate g : G) :
    (d.removeGate gate).2.dir_.lookup g = if gate == g then none else d.dir_.lookup g := by
  obtain ⟨m, hremove, -, hlookup⟩ := Map.remove_spec h gate
  have hdir : (d.removeGate gate).2.dir_ = m := congrArg Prod.snd hremove
  rw [hdir, hlookup]

theorem scale_lookup (d : Direction G R) (factor : R) (g : G) :
    (d.scale factor).dir_.lookup g = (d.dir_.lookup g).map (· * factor) := by
  rw [Map.lookup, ControlAxis.entries_scale, Assoc.get?_mapValues]
  rfl

end Direction

namespace ControlAxis
variable {axis result : ControlAxis G R}

omit [Field R] in
/-- What `Get` raises for, the map does not have. -/
theorem lookup_of_error {V : Type} {m : Map G V} (h : m.WellFormed) {gate : G} {e : Failure}
    (he : m.get gate = .error e) : m.lookup gate = none := by
  rw [← Map.get_lookup h, he]
  rfl

theorem shiftOffset_line (h : axis.WellFormed) (gate : G) (delta : Voltage R) (g : G) :
    (axis.shiftOffset gate delta).2.lineOf g =
      (axis.lineOf g).call g (.shiftOffset gate delta) := by
  have hamplitude : (axis.shiftOffset gate delta).2.direction_ = axis.direction_ := by
    unfold shiftOffset
    cases axis.offset_.get gate <;> rfl
  rw [lineOf, hamplitude]
  simp only [shiftOffset, GateLine.call]
  cases hget : axis.offset_.get gate with
  | error e =>
    have hnone : axis.offset_.location_.lookup gate = none := lookup_of_error h.offset hget
    by_cases hg : gate = g
    · subst hg
      simp [lineOf, Point.voltage, hnone]
    · simp [lineOf, hg]
  | ok voltage =>
    have hsome := (Map.get_eq_ok_iff h.offset gate voltage).mp hget
    rw [Point.set_voltage h.offset]
    by_cases hg : gate = g
    · subst hg
      simp [lineOf, Point.voltage, hsome, Voltage.add]
    · simp [lineOf, hg]

theorem shiftAmplitude_line (h : axis.WellFormed) (gate : G) (delta : Voltage R) (g : G) :
    (axis.shiftAmplitude gate delta).2.lineOf g =
      (axis.lineOf g).call g (.shiftAmplitude gate delta) := by
  have hoffset : (axis.shiftAmplitude gate delta).2.offset_ = axis.offset_ := by
    unfold shiftAmplitude
    cases axis.direction_.getCoefficient gate <;> rfl
  rw [lineOf, hoffset]
  simp only [shiftAmplitude, GateLine.call]
  cases hget : axis.direction_.getCoefficient gate with
  | error e =>
    have hnone : axis.direction_.dir_.lookup gate = none := lookup_of_error h.direction hget
    by_cases hg : gate = g
    · subst hg
      simp [lineOf, hnone]
    · simp [lineOf, hg]
  | ok coeff =>
    have hsome := (Map.get_eq_ok_iff h.direction gate coeff).mp hget
    rw [Direction.setCoefficient_lookup h.direction]
    by_cases hg : gate = g
    · subst hg
      simp [lineOf, hsome]
    · simp [lineOf, hg]

/-- A shift that raises finds no offset to move. -/
theorem shifted_line (h : axis.WellFormed) (dir : {d : Direction G R // d.WellFormed}) (g : G) :
    (axis.returned (axis.shifted dir.1)).lineOf g = (axis.lineOf g).call g (.shifted dir) := by
  cases hresult : axis.shifted dir.1 with
  | ok result =>
    rw [returned, shifted_eq h.offset dir.2 hresult, lineOf, Point.voltage, shiftedOffset_lookup,
      Option.map_map]
    simp only [GateLine.call, lineOf, Point.voltage, Option.map_map]
    rfl
  | error e =>
    have hgates : axis.gates = [] := by
      by_contra hne
      obtain ⟨result, hok⟩ := (shifted_ok_iff h dir.1).mpr hne
      cases hok.symm.trans hresult
    have hnone : axis.offset_.location_.lookup g = none := by
      refine Map.lookup_of_notMem ?_
      show g ∉ axis.gates
      rw [hgates]
      exact List.not_mem_nil
    simp [returned, lineOf, Point.voltage, GateLine.call, hnone]

theorem zeroOffsets_line (axis : ControlAxis G R) (g : G) :
    axis.zeroOffsets.lineOf g = (axis.lineOf g).call g .zeroOffsets := by
  have hentries : axis.zeroOffsets.offset_.location_.entries =
      Assoc.mapValues (fun _ => ⟨0⟩) axis.offset_.location_.entries := by
    rw [Map.entries, Map.entries, Assoc.mapValues]
    exact List.zip_map_right ..
  have hlookup : axis.zeroOffsets.offset_.location_.lookup g =
      (axis.offset_.location_.lookup g).map fun _ => ⟨0⟩ := by
    rw [Map.lookup, hentries, Assoc.get?_mapValues]
    rfl
  rw [lineOf, Point.voltage, hlookup, Option.map_map]
  simp only [GateLine.call, lineOf, Point.voltage, Option.map_map]
  rfl

theorem newFromPoints_line {offset point : Point G R} (hoffset : offset.WellFormed)
    (hpoint : point.WellFormed) (hgates : offset.gates = point.gates) (g : G) :
    (axis.returned (newFromPoints offset point)).lineOf g =
      GateLine.between (offset.voltage g) (point.voltage g) := by
  have hlen : offset.gates.length = point.location_.values_.length := by
    rw [hgates]
    exact hpoint.aligned
  obtain ⟨result, hresult⟩ := newFromPoints_ok (hoffset.aligned.symm.trans hlen)
  have hstart : result.offset_ = offset := by
    obtain ⟨values, -, rfl⟩ := newFromPoints_cases hresult
    rfl
  rw [hresult, returned, lineOf, hstart, GateLine.between]
  by_cases hg : g ∈ offset.gates
  · obtain ⟨i, hi⟩ := List.mem_iff_getElem?.mp hg
    obtain ⟨vp, vq, hvp, hvq, hamplitude, -⟩ := between_at hoffset hlen hresult hi
    have hplace : point.gates[i]? = some g := hgates ▸ hi
    have hfinish : point.location_.lookup g = some vq := (Map.lookup_at hpoint hplace).trans hvq
    rw [hamplitude, Point.voltage, Point.voltage, hvp, hfinish]
    rfl
  · have hnone : offset.location_.lookup g = none := Map.lookup_of_notMem hg
    have hamplitude : result.direction_.dir_.lookup g = none := by
      obtain ⟨values, -, rfl⟩ := newFromPoints_cases hresult
      exact Map.lookup_of_notMem hg
    rw [hamplitude, Point.voltage, hnone]
    rfl

/-- **Every call** in order changes a gate's line as the gate's part of it says. -/
theorem call_line (h : axis.WellFormed) (c : Call G R) (hc : axis.InOrder c) (g : G) :
    (axis.call c).lineOf g = (axis.lineOf g).call g c := by
  cases c with
  | new => rfl
  | newFromPointAndDirection offset direction => rfl
  | newFromPoints offset point => exact newFromPoints_line offset.2 point.2 hc g
  | extendDomain gate offset amp =>
    show (axis.extendDomain gate offset amp).2.lineOf g = _
    rw [extendDomain_eq h, lineOf, Point.set_voltage h.offset,
      Direction.setCoefficient_lookup h.direction]
    cases hg : gate == g <;> simp [GateLine.call, lineOf, hg]
  | setOffset gate offset =>
    show GateLine.mk ((axis.offset_.set gate offset).2.voltage g)
      (axis.direction_.dir_.lookup g) = _
    rw [Point.set_voltage h.offset]
    cases hg : gate == g <;> simp [GateLine.call, lineOf, hg]
  | setAmplitude gate amplitude =>
    show GateLine.mk (axis.offset_.voltage g)
      ((axis.direction_.setCoefficient gate amplitude.value_).2.dir_.lookup g) = _
    rw [Direction.setCoefficient_lookup h.direction]
    cases hg : gate == g <;> simp [GateLine.call, lineOf, hg]
  | shiftOffset gate delta => exact shiftOffset_line h gate delta g
  | shiftAmplitude gate delta => exact shiftAmplitude_line h gate delta g
  | rescale scale =>
    show GateLine.mk _ ((axis.direction_.scale scale).dir_.lookup g) = _
    rw [Direction.scale_lookup]
    rfl
  | zeroOffsets => exact zeroOffsets_line axis g
  | shifted dir => exact shifted_line h dir g
  | scaled factor =>
    show GateLine.mk _ ((axis.direction_.scale factor).dir_.lookup g) = _
    rw [Direction.scale_lookup]
    rfl
  | removeGate gate =>
    show (axis.removeGate gate).2.lineOf g = _
    rw [removeGate_eq h, lineOf, Point.removeGate_voltage h.offset,
      Direction.removeGate_lookup h.direction]
    cases hg : gate == g <;> simp [GateLine.call, GateLine.none, lineOf, hg]

/-! ### One order of the gates -/

omit [Field R] in
theorem SameOrder.contains (h : axis.SameOrder) (g : G) :
    axis.containsGate g = axis.direction_.containsGate g :=
  Map.contains_of_perm (List.Perm.of_eq h) g

omit [Field R] in
/-- A gate that is there is overwritten. -/
theorem setOffset_gates {gate : G} (hgate : axis.containsGate gate = true) (offset : Voltage R) :
    (axis.offset_.set gate offset).2.gates = axis.gates :=
  Map.set_keys_of_contains hgate offset

omit [Field R] in
theorem setAmplitude_gates {gate : G} (hgate : axis.direction_.containsGate gate = true)
    (coefficient : R) :
    (axis.direction_.setCoefficient gate coefficient).2.gates = axis.direction_.gates :=
  Map.set_keys_of_contains hgate coefficient

/-- **Every call** that is in order leaves the gates in one order. -/
theorem call_order (h : axis.WellFormed) (horder : axis.SameOrder) (c : Call G R)
    (hc : axis.InOrder c) : (axis.call c).SameOrder := by
  cases c with
  | new => rfl
  | newFromPointAndDirection offset direction => exact hc
  | newFromPoints offset point =>
    show (axis.returned (newFromPoints offset.1 point.1)).SameOrder
    cases hresult : newFromPoints offset.1 point.1 with
    | error e => exact horder
    | ok result =>
      obtain ⟨values, -, rfl⟩ := newFromPoints_cases hresult
      rfl
  | extendDomain gate offset amp =>
    show (axis.extendDomain gate offset amp).2.SameOrder
    rw [extendDomain_eq h]
    exact Map.set_keys horder gate offset amp.value_
  | setOffset gate offset =>
    have hgate : axis.containsGate gate = true := (horder.contains gate).trans hc
    exact (setOffset_gates hgate offset).trans horder
  | setAmplitude gate amplitude =>
    have hgate : axis.direction_.containsGate gate = true := (horder.contains gate).symm.trans hc
    exact horder.trans (setAmplitude_gates hgate amplitude.value_).symm
  | shiftOffset gate delta =>
    show (axis.shiftOffset gate delta).2.SameOrder
    unfold shiftOffset
    cases hget : axis.offset_.get gate with
    | error e => exact horder
    | ok voltage =>
      have hgate : axis.containsGate gate = true :=
        (Map.get_ok_iff h.offset gate).mp ⟨voltage, hget⟩
      exact (setOffset_gates hgate _).trans horder
  | shiftAmplitude gate delta =>
    show (axis.shiftAmplitude gate delta).2.SameOrder
    unfold shiftAmplitude
    cases hget : axis.direction_.getCoefficient gate with
    | error e => exact horder
    | ok coeff =>
      have hgate : axis.direction_.containsGate gate = true :=
        (Map.get_ok_iff h.direction gate).mp ⟨coeff, hget⟩
      exact horder.trans (setAmplitude_gates hgate _).symm
  | rescale scale => exact horder
  | zeroOffsets => exact horder
  | shifted dir =>
    show (axis.returned (axis.shifted dir.1)).SameOrder
    cases hresult : axis.shifted dir.1 with
    | error e => exact horder
    | ok result =>
      obtain ⟨hdirection, hkeys, -⟩ := shifted_keys hresult
      show result.gates = result.direction_.gates
      rw [hdirection]
      exact hkeys.trans horder
  | scaled factor => exact horder
  | removeGate gate =>
    show (axis.removeGate gate).2.SameOrder
    rw [removeGate_eq h]
    exact Map.remove_keys horder gate

/-- **Every run** of calls in order leaves the gates in one order, each with its line. -/
theorem after_lines (calls : List (Call G R))
    (h : EveryStep (fun past c => (after past).InOrder c) calls) :
    (after calls).SameOrder ∧ ∀ g, (after calls).lineOf g = GateLine.after g calls := by
  refine everyStep_invariant (J := fun past => (after past).SameOrder ∧
    ∀ g, (after past).lineOf g = GateLine.after g past) ⟨rfl, fun _ => rfl⟩ ?_ calls h
  intro past c hpast hc
  have hwf := after_wellFormed past
  refine ⟨?_, fun g => ?_⟩
  · rw [after, run_concat]
    exact call_order hwf hpast.1 c hc
  · rw [after, run_concat, GateLine.after, run_concat]
    exact (call_line hwf c hc g).trans (congrArg (GateLine.call g · c) (hpast.2 g))

/-! ### Evaluation -/

omit [DecidableEq G] [Field R] in
theorem evaluable_of_order (horder : axis.SameOrder) : axis.Evaluable ↔ axis.gates ≠ [] := by
  refine ⟨fun heval => heval.1, fun hne => ⟨hne, .inr ?_⟩⟩
  exact Nat.le_of_eq (congrArg List.length horder)

/-- At every gate the point has what its line says. -/
theorem pointAt_line (h : axis.WellFormed) (horder : axis.SameOrder) (c : R) (g : G) :
    (axis.pointAt c).location_.lookup g = ((axis.lineOf g).evaluate c).map Voltage.mk := by
  by_cases hg : g ∈ axis.gates
  · obtain ⟨i, hi⟩ := List.mem_iff_getElem?.mp hg
    have hdirection : axis.direction_.dir_.keys_[i]? = some g :=
      (congrArg (·[i]?) horder).symm.trans hi
    have hplace : i < axis.direction_.dir_.values_.length := by
      have := (List.getElem?_eq_some_iff.mp hdirection).1
      have := h.direction.aligned
      omega
    have hamplitude := Map.lookup_at h.direction hdirection
    obtain ⟨offset, hoffset⟩ := exists_offset h hi
    rw [pointAt_lookup h c hi, lineOf, Point.voltage, hamplitude, hoffset, positional,
      List.getElem?_eq_getElem hplace]
    rfl
  · have hnone : axis.offset_.location_.lookup g = none := Map.lookup_of_notMem hg
    have hout : (axis.pointAt c).location_.lookup g = none := Map.lookup_of_notMem hg
    rw [hout, lineOf, Point.voltage, hnone]
    rfl

/-- The axis is read gate by gate: `ToPoint` raises without gates, and else the point
has the line's voltage at every gate, and no other gates. -/
structure Evaluates (axis : ControlAxis G R) (line : G → GateLine R) : Prop where
  offset : ∀ g, (axis.getOffset g).toOption = (line g).offset.map Voltage.mk
  amplitude : ∀ g, (axis.getAmplitude g).toOption = (line g).amplitude.map Voltage.mk
  gates : ∀ g, g ∈ axis.gates ↔ (line g).offset ≠ none
  returns : ∀ c, (∃ point, axis.toPoint ⟨c⟩ = .ok point) ↔ ∃ g, (line g).offset ≠ none
  point : ∀ c point, axis.toPoint ⟨c⟩ = .ok point →
    ∀ g, (point.get g).toOption = ((line g).evaluate c).map Voltage.mk

theorem evaluates_of_order (h : axis.WellFormed) (horder : axis.SameOrder) :
    axis.Evaluates axis.lineOf := by
  have hgates : ∀ g, g ∈ axis.gates ↔ (axis.lineOf g).offset ≠ none := by
    intro g
    have hcontains : axis.containsGate g = (axis.offset_.location_.lookup g).isSome :=
      Map.contains_lookup h.offset g
    have hmem : g ∈ axis.gates ↔ axis.containsGate g = true := Map.mem_keys_iff _ g
    rw [hmem, hcontains, lineOf, Point.voltage]
    cases axis.offset_.location_.lookup g <;> simp
  constructor
  case offset =>
    intro g
    have hget : (axis.getOffset g).toOption = axis.offset_.location_.lookup g :=
      Map.get_lookup h.offset g
    rw [hget, lineOf, Point.voltage, Option.map_map]
    exact Option.map_id'.symm
  case amplitude =>
    intro g
    have hget : (axis.direction_.getCoefficient g).toOption = axis.direction_.dir_.lookup g :=
      Map.get_lookup h.direction g
    rw [lineOf, ← hget, getAmplitude]
    cases axis.direction_.getCoefficient g <;> rfl
  case gates => exact hgates
  case returns =>
    intro c
    refine ⟨fun hreturns => ?_, fun hsome => ?_⟩
    · obtain ⟨point, hpoint⟩ := hreturns
      obtain ⟨heval, -⟩ := evaluable_of_toPoint h hpoint
      obtain ⟨g, hg⟩ := List.exists_mem_of_ne_nil _ heval.1
      exact ⟨g, (hgates g).mp hg⟩
    · obtain ⟨g, hg⟩ := hsome
      have hne : axis.gates ≠ [] := List.ne_nil_of_mem ((hgates g).mpr hg)
      exact ⟨_, toPoint_eq h ((evaluable_of_order horder).mpr hne) c⟩
  case point =>
    intro c point hpoint g
    obtain ⟨-, rfl⟩ := evaluable_of_toPoint h hpoint
    rw [← pointAt_line h horder c g]
    exact Map.get_lookup (pointAt_wellFormed h c) g

/-- **An axis is its gates' lines** after every run of calls in order: each gate is read
and evaluated as the run of the calls on that gate alone leaves it. -/
theorem evaluates_lines (calls : List (Call G R))
    (h : EveryStep (fun past c => (after past).InOrder c) calls) :
    (after calls).Evaluates fun g => GateLine.after g calls := by
  obtain ⟨horder, hline⟩ := after_lines calls h
  have hlines := evaluates_of_order (after_wellFormed calls) horder
  rwa [funext hline] at hlines

/-- Two gates: the offset of one is set, the other is removed. -/
theorem evaluates_two_gates :
    (after ([.extendDomain "P1" ⟨1⟩ ⟨10⟩, .extendDomain "P2" ⟨2⟩ ⟨20⟩, .setOffset "P1" ⟨5⟩,
        .removeGate "P2"] : List (Call String ℚ))).Evaluates
      fun g => GateLine.after g [.extendDomain "P1" ⟨1⟩ ⟨10⟩, .extendDomain "P2" ⟨2⟩ ⟨20⟩,
        .setOffset "P1" ⟨5⟩, .removeGate "P2"] := by
  refine evaluates_lines _ ?_
  have hsplit : ([.extendDomain "P1" ⟨1⟩ ⟨10⟩, .extendDomain "P2" ⟨2⟩ ⟨20⟩, .setOffset "P1" ⟨5⟩,
      .removeGate "P2"] : List (Call String ℚ)) =
      ((([] ++ [.extendDomain "P1" ⟨1⟩ ⟨10⟩]) ++ [.extendDomain "P2" ⟨2⟩ ⟨20⟩]) ++
        [.setOffset "P1" ⟨5⟩]) ++ [.removeGate "P2"] := rfl
  rw [hsplit]
  simp only [everyStep_concat]
  have hset : (after ([.extendDomain "P1" ⟨1⟩ ⟨10⟩, .extendDomain "P2" ⟨2⟩ ⟨20⟩] :
      List (Call String ℚ))).direction_.containsGate "P1" = true := by decide +kernel
  exact ⟨⟨⟨⟨everyStep_nil _, trivial⟩, trivial⟩, hset⟩, trivial⟩

end ControlAxis

end FalconStd.Control
