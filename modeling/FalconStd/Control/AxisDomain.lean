import FalconStd.Foundation.Run
import FalconStd.Control.ControlAxis

/-! The domain of a control axis over a run of calls.

An axis is documented to have an offset and an amplitude for every gate of its
domain, but keeps them in two maps and answers for the domain from the offsets
alone. Most routines keep the two domains together; `SetOffset` and
`SetAmplitude` of a gate outside the domain, and a constructor given two domains,
do not, and `domains_agree_iff` says that these are the only ways apart. -/
namespace FalconStd.Control
open Collections Foundation

variable {G R : Type} [DecidableEq G]

namespace ControlAxis

structure WellFormed (axis : ControlAxis G R) : Prop where
  offset : axis.offset_.WellFormed
  direction : axis.direction_.WellFormed

/-! ### Calls -/

/-- Points and directions come from elsewhere, with distinct gates. -/
inductive Call (G R : Type) [DecidableEq G] where
  | new
  | newFromPointAndDirection (offset : {p : Point G R // p.WellFormed})
      (direction : {d : Direction G R // d.WellFormed})
  | newFromPoints (offset point : {p : Point G R // p.WellFormed})
  | extendDomain (gate : G) (offset amp : Voltage R)
  | setOffset (gate : G) (offset : Voltage R)
  | setAmplitude (gate : G) (amplitude : Voltage R)
  | shiftOffset (gate : G) (delta : Voltage R)
  | shiftAmplitude (gate : G) (delta : Voltage R)
  | rescale (scale : R)
  | zeroOffsets
  | shifted (dir : {d : Direction G R // d.WellFormed})
  | scaled (factor : R)
  | removeGate (gate : G)

/-- The axis of a routine that returns one; the old one if it raises. -/
def returned (axis : ControlAxis G R) : Except Failure (ControlAxis G R) → ControlAxis G R
  | .ok result => result
  | .error _ => axis

variable [Field R]

/-- The axis a call leaves. -/
def call (axis : ControlAxis G R) : Call G R → ControlAxis G R
  | .new => new
  | .newFromPointAndDirection offset direction =>
    newFromPointAndDirection offset.1 direction.1
  | .newFromPoints offset point => axis.returned (newFromPoints offset.1 point.1)
  | .extendDomain gate offset amp => (axis.extendDomain gate offset amp).2
  | .setOffset gate offset => (axis.setOffset gate offset).2
  | .setAmplitude gate amplitude => (axis.setAmplitude gate amplitude).2
  | .shiftOffset gate delta => (axis.shiftOffset gate delta).2
  | .shiftAmplitude gate delta => (axis.shiftAmplitude gate delta).2
  | .rescale scale => axis.rescale scale
  | .zeroOffsets => axis.zeroOffsets
  | .shifted dir => axis.returned (axis.shifted dir.1)
  | .scaled factor => axis.scaled factor
  | .removeGate gate => (axis.removeGate gate).2

def after (calls : List (Call G R)) : ControlAxis G R := run call new calls

end ControlAxis

/-! ### The routines on well-formed contents -/

namespace Point
variable {point : Point G R}

theorem set_outcome (h : point.WellFormed) (gate : G) (voltage : Voltage R) :
    (point.set gate voltage).1 = .ok () :=
  Map.set_outcome h gate voltage

theorem set_wellFormed (h : point.WellFormed) (gate : G) (voltage : Voltage R) :
    (point.set gate voltage).2.WellFormed :=
  Map.set_wellFormed h gate voltage

theorem set_containsGate (h : point.WellFormed) (gate : G) (voltage : Voltage R) (g : G) :
    (point.set gate voltage).2.containsGate g = (gate == g || point.containsGate g) :=
  Map.set_contains h gate voltage g

theorem removeGate_outcome (h : point.WellFormed) (gate : G) :
    (point.removeGate gate).1 = .ok () := by
  show (point.location_.remove gate).1.map _ = _
  rw [Map.remove_outcome h]
  rfl

theorem removeGate_wellFormed (h : point.WellFormed) (gate : G) :
    (point.removeGate gate).2.WellFormed :=
  Map.remove_wellFormed h gate

theorem removeGate_containsGate (h : point.WellFormed) (gate g : G) :
    (point.removeGate gate).2.containsGate g = (!(gate == g) && point.containsGate g) :=
  Map.remove_contains h gate g

end Point

namespace Direction
variable {d : Direction G R}

theorem setCoefficient_outcome (h : d.WellFormed) (gate : G) (coefficient : R) :
    (d.setCoefficient gate coefficient).1 = .ok () :=
  Map.set_outcome h gate coefficient

theorem setCoefficient_wellFormed (h : d.WellFormed) (gate : G) (coefficient : R) :
    (d.setCoefficient gate coefficient).2.WellFormed :=
  Map.set_wellFormed h gate coefficient

theorem setCoefficient_containsGate (h : d.WellFormed) (gate : G) (coefficient : R) (g : G) :
    (d.setCoefficient gate coefficient).2.containsGate g = (gate == g || d.containsGate g) :=
  Map.set_contains h gate coefficient g

theorem removeGate_wellFormed (h : d.WellFormed) (gate : G) : (d.removeGate gate).2.WellFormed :=
  Map.remove_wellFormed h gate

theorem removeGate_containsGate (h : d.WellFormed) (gate g : G) :
    (d.removeGate gate).2.containsGate g = (!(gate == g) && d.containsGate g) :=
  Map.remove_contains h gate g

end Direction

namespace ControlAxis
variable {axis : ControlAxis G R}

theorem extendDomain_eq (h : axis.WellFormed) (gate : G) (offset amp : Voltage R) :
    axis.extendDomain gate offset amp = (.ok (), ⟨(axis.offset_.set gate offset).2,
      (axis.direction_.setCoefficient gate amp.value_).2⟩) := by
  have hdirection : axis.direction_.setCoefficient gate amp.value_ =
      (.ok (), (axis.direction_.setCoefficient gate amp.value_).2) :=
    Prod.ext (Direction.setCoefficient_outcome h.direction gate amp.value_) rfl
  have hoffset := Point.set_outcome h.offset gate offset
  rw [extendDomain, hdirection]
  exact Prod.ext hoffset rfl

theorem removeGate_eq (h : axis.WellFormed) (gate : G) :
    (axis.removeGate gate).2 =
      ⟨(axis.offset_.removeGate gate).2, (axis.direction_.removeGate gate).2⟩ := by
  have hoffset : axis.offset_.removeGate gate = (.ok (), (axis.offset_.removeGate gate).2) :=
    Prod.ext (Point.removeGate_outcome h.offset gate) rfl
  rw [removeGate, hoffset]

/-! ### Routines that touch values only -/

section Values
variable [Field R]

omit [DecidableEq G] in
theorem differences_length {pointValues : List (Voltage R)} {i : Nat} {offsets : List (Voltage R)}
    {values : List R} (h : differences pointValues i offsets = .ok values) :
    values.length = offsets.length := by
  induction offsets generalizing i values with
  | nil =>
    cases h
    rfl
  | cons off rest ih =>
    rw [differences, bind_ok_iff] at h
    obtain ⟨pt, _, h⟩ := h
    obtain ⟨tail, htail, hvalues⟩ := bind_ok_iff.mp h
    cases hvalues
    rw [List.length_cons, List.length_cons, ih htail]

theorem shiftEntry_keys (offset : Map G (Voltage R)) (gate : G) (delta : R) :
    (shiftEntry offset gate delta).keys_ = offset.keys_ ∧
      (shiftEntry offset gate delta).values_.length = offset.values_.length := by
  unfold shiftEntry
  split
  · exact ⟨rfl, List.length_modify _ _ _⟩
  · exact ⟨rfl, rfl⟩

theorem shiftEntries_keys (shift : List (G × R)) (offset : Map G (Voltage R)) :
    (shift.foldl (fun m e => shiftEntry m e.1 e.2) offset).keys_ = offset.keys_ ∧
      (shift.foldl (fun m e => shiftEntry m e.1 e.2) offset).values_.length =
        offset.values_.length := by
  induction shift generalizing offset with
  | nil => exact ⟨rfl, rfl⟩
  | cons e rest ih =>
    obtain ⟨hkeys, hlen⟩ := ih (shiftEntry offset e.1 e.2)
    obtain ⟨hkeys₁, hlen₁⟩ := shiftEntry_keys offset e.1 e.2
    exact ⟨hkeys.trans hkeys₁, hlen.trans hlen₁⟩

/-- What `Shifted` returns has the direction and the offset gates of its receiver. -/
theorem shifted_keys {dir : Direction G R} {result : ControlAxis G R}
    (h : axis.shifted dir = .ok result) :
    result.direction_ = axis.direction_ ∧
      result.offset_.location_.keys_ = axis.offset_.location_.keys_ ∧
      result.offset_.location_.values_.length = axis.offset_.location_.values_.length := by
  have hkeys := shiftEntries_keys dir.dir_.entries axis.offset_.location_
  rw [shifted, bind_ok_iff] at h
  obtain ⟨_debug_voltage, _, hresult⟩ := h
  cases hresult
  exact ⟨rfl, hkeys⟩

omit [DecidableEq G] in
/-- The direction that `NewFromPoints` computes has the gates of the offset. -/
theorem newFromPoints_cases {offset point : Point G R} {result : ControlAxis G R}
    (h : newFromPoints offset point = .ok result) :
    ∃ values, differences point.location_.values_ 0 offset.location_.values_ = .ok values ∧
      result = ⟨offset, ⟨⟨offset.location_.keys_, values⟩⟩⟩ := by
  rw [newFromPoints, bind_ok_iff] at h
  obtain ⟨values, hvalues, hresult⟩ := h
  exact ⟨values, hvalues, (Except.ok.inj hresult).symm⟩

theorem newFromPoints_wellFormed {offset point : Point G R} {result : ControlAxis G R}
    (hoffset : offset.WellFormed) (h : newFromPoints offset point = .ok result) :
    result.WellFormed := by
  obtain ⟨values, hvalues, rfl⟩ := newFromPoints_cases h
  exact ⟨hoffset, Map.WellFormed.of_keys hoffset rfl (differences_length hvalues)⟩

end Values

/-! ### One call -/

variable [Field R]

omit [Field R] in
theorem wellFormed_new : (new : ControlAxis G R).WellFormed :=
  ⟨Map.wellFormed_new, Map.wellFormed_new⟩

/-- **Every call keeps** the arrays aligned and the gates distinct. -/
theorem call_wellFormed (h : axis.WellFormed) (c : Call G R) : (axis.call c).WellFormed := by
  cases c with
  | new => exact wellFormed_new
  | newFromPointAndDirection offset direction => exact ⟨offset.2, direction.2⟩
  | newFromPoints offset point =>
    show (axis.returned (newFromPoints offset.1 point.1)).WellFormed
    cases hresult : newFromPoints offset.1 point.1 with
    | error e => exact h
    | ok result => exact newFromPoints_wellFormed offset.2 hresult
  | extendDomain gate offset amp =>
    show (axis.extendDomain gate offset amp).2.WellFormed
    rw [extendDomain_eq h]
    exact ⟨Point.set_wellFormed h.offset _ _, Direction.setCoefficient_wellFormed h.direction _ _⟩
  | setOffset gate offset => exact ⟨Point.set_wellFormed h.offset _ _, h.direction⟩
  | setAmplitude gate amplitude =>
    exact ⟨h.offset, Direction.setCoefficient_wellFormed h.direction _ _⟩
  | shiftOffset gate delta =>
    show (axis.shiftOffset gate delta).2.WellFormed
    unfold shiftOffset
    cases axis.offset_.get gate with
    | error e => exact h
    | ok voltage => exact ⟨Point.set_wellFormed h.offset _ _, h.direction⟩
  | shiftAmplitude gate delta =>
    show (axis.shiftAmplitude gate delta).2.WellFormed
    unfold shiftAmplitude
    cases axis.direction_.getCoefficient gate with
    | error e => exact h
    | ok coeff => exact ⟨h.offset, Direction.setCoefficient_wellFormed h.direction _ _⟩
  | rescale scale => exact ⟨h.offset, Direction.scale_wellFormed h.direction scale⟩
  | zeroOffsets => exact ⟨Map.WellFormed.of_keys h.offset rfl (List.length_map _), h.direction⟩
  | shifted dir =>
    show (axis.returned (axis.shifted dir.1)).WellFormed
    cases hresult : axis.shifted dir.1 with
    | error e => exact h
    | ok result =>
      obtain ⟨hdirection, hkeys, hlen⟩ := shifted_keys hresult
      refine ⟨Map.WellFormed.of_keys h.offset hkeys hlen, ?_⟩
      show result.direction_.WellFormed
      rw [hdirection]
      exact h.direction
  | scaled factor => exact ⟨h.offset, Direction.scale_wellFormed h.direction factor⟩
  | removeGate gate =>
    show (axis.removeGate gate).2.WellFormed
    rw [removeGate_eq h]
    exact ⟨Point.removeGate_wellFormed h.offset gate, Direction.removeGate_wellFormed h.direction gate⟩

theorem after_wellFormed (calls : List (Call G R)) : (after calls).WellFormed :=
  run_invariant (J := WellFormed) (fun _ c h => call_wellFormed h c) new wellFormed_new calls

/-! ### Agreement of the two domains -/

/-- What is expected of the domain of an axis: the gates with an offset are those
with an amplitude, both can be read, and `Gates` and `DomainSize` describe both. -/
structure DomainsAgree (axis : ControlAxis G R) : Prop where
  same : ∀ g, axis.containsGate g = axis.direction_.containsGate g
  reads : ∀ g, axis.containsGate g = true →
    (∃ offset, axis.getOffset g = .ok offset) ∧ ∃ amplitude, axis.getAmplitude g = .ok amplitude
  gates : ∀ g, g ∈ axis.gates ↔ g ∈ axis.direction_.gates
  size : axis.domainSize = axis.direction_.domainSize

def SameDomain (axis : ControlAxis G R) : Prop :=
  ∀ g, axis.containsGate g = axis.direction_.containsGate g

omit [Field R] in
/-- Equal gate sets are all there is to it. -/
theorem domainsAgree_iff (h : axis.WellFormed) : DomainsAgree axis ↔ SameDomain axis := by
  refine ⟨fun hagree => hagree.same, fun hsame => ?_⟩
  have hperm : axis.gates.Perm axis.direction_.gates := Map.keys_perm h.offset h.direction hsame
  refine ⟨hsame, fun g hg => ⟨?_, ?_⟩, fun g => hperm.mem_iff, ?_⟩
  · exact (Map.get_ok_iff h.offset g).mpr hg
  · obtain ⟨coeff, hcoeff⟩ := (Map.get_ok_iff h.direction g).mpr ((hsame g).symm.trans hg)
    refine ⟨⟨coeff⟩, ?_⟩
    show (axis.direction_.dir_.get g).map Voltage.mk = _
    rw [hcoeff]
    rfl
  · exact congrArg Int.ofNat hperm.length_eq

/-- The condition of a call on an axis whose domains agree. -/
def Meets (axis : ControlAxis G R) : Call G R → Prop
  | .newFromPointAndDirection offset direction =>
    ∀ g, offset.1.containsGate g = direction.1.containsGate g
  | .setOffset gate _ => axis.direction_.containsGate gate = true
  | .setAmplitude gate _ => axis.containsGate gate = true
  | _ => True

/-- Adding a gate to one side only is harmless if the other side has it. -/
theorem adds_iff {contains : G → Bool} (gate : G) :
    (∀ g, (gate == g || contains g) = contains g) ↔ contains gate = true := by
  refine ⟨fun h => ?_, fun h g => ?_⟩
  · have hgate := h gate
    rwa [beq_self_eq_true, Bool.true_or, eq_comm] at hgate
  · by_cases hg : gate = g
    · subst hg
      rw [h, Bool.or_true]
    · rw [beq_false_of_ne hg, Bool.false_or]

/-- **One call** on an axis whose domains agree keeps them so exactly when it meets
its condition. -/
theorem call_same_iff (h : axis.WellFormed) (hsame : SameDomain axis) (c : Call G R) :
    SameDomain (axis.call c) ↔ axis.Meets c := by
  cases c with
  | new => exact iff_of_true (fun _ => rfl) trivial
  | newFromPointAndDirection offset direction => exact Iff.rfl
  | newFromPoints offset point =>
    refine iff_of_true ?_ trivial
    show SameDomain (axis.returned (newFromPoints offset.1 point.1))
    cases hresult : newFromPoints offset.1 point.1 with
    | error e => exact hsame
    | ok result =>
      obtain ⟨values, _, rfl⟩ := newFromPoints_cases hresult
      exact fun _ => rfl
  | extendDomain gate offset amp =>
    refine iff_of_true ?_ trivial
    show SameDomain (axis.extendDomain gate offset amp).2
    rw [extendDomain_eq h]
    intro g
    show (axis.offset_.set gate offset).2.containsGate g =
      (axis.direction_.setCoefficient gate amp.value_).2.containsGate g
    rw [Point.set_containsGate h.offset, Direction.setCoefficient_containsGate h.direction]
    exact congrArg _ (hsame g)
  | setOffset gate offset =>
    show (∀ g, (axis.offset_.set gate offset).2.containsGate g =
      axis.direction_.containsGate g) ↔ axis.direction_.containsGate gate = true
    rw [← adds_iff]
    refine forall_congr' fun g => ?_
    rw [Point.set_containsGate h.offset, ← hsame g]
    rfl
  | setAmplitude gate amplitude =>
    show (∀ g, axis.containsGate g =
      (axis.direction_.setCoefficient gate amplitude.value_).2.containsGate g) ↔
        axis.containsGate gate = true
    rw [← adds_iff]
    refine forall_congr' fun g => ?_
    rw [Direction.setCoefficient_containsGate h.direction, ← hsame g, eq_comm]
  | shiftOffset gate delta =>
    refine iff_of_true ?_ trivial
    show SameDomain (axis.shiftOffset gate delta).2
    unfold shiftOffset
    cases hget : axis.offset_.get gate with
    | error e => exact hsame
    | ok voltage =>
      have hin : axis.containsGate gate = true := (Map.get_ok_iff h.offset gate).mp ⟨voltage, hget⟩
      intro g
      show (axis.offset_.set gate (voltage.add delta)).2.containsGate g = _
      rw [Point.set_containsGate h.offset, ← hsame g]
      exact (adds_iff gate).mpr hin g
  | shiftAmplitude gate delta =>
    refine iff_of_true ?_ trivial
    show SameDomain (axis.shiftAmplitude gate delta).2
    unfold shiftAmplitude
    cases hget : axis.direction_.getCoefficient gate with
    | error e => exact hsame
    | ok coeff =>
      have hin : axis.direction_.containsGate gate = true :=
        (Map.get_ok_iff h.direction gate).mp ⟨coeff, hget⟩
      intro g
      show axis.containsGate g =
        (axis.direction_.setCoefficient gate (coeff + delta.value_)).2.containsGate g
      rw [Direction.setCoefficient_containsGate h.direction, hsame g]
      exact ((adds_iff gate).mpr hin g).symm
  | rescale scale => exact iff_of_true hsame trivial
  | zeroOffsets => exact iff_of_true hsame trivial
  | shifted dir =>
    refine iff_of_true ?_ trivial
    show SameDomain (axis.returned (axis.shifted dir.1))
    cases hresult : axis.shifted dir.1 with
    | error e => exact hsame
    | ok result =>
      obtain ⟨hdirection, hkeys, _⟩ := shifted_keys hresult
      intro g
      show result.offset_.location_.contains g = result.direction_.containsGate g
      rw [Map.contains_of_keys hkeys, hdirection]
      exact hsame g
  | scaled factor => exact iff_of_true hsame trivial
  | removeGate gate =>
    refine iff_of_true ?_ trivial
    show SameDomain (axis.removeGate gate).2
    rw [removeGate_eq h]
    intro g
    show (axis.offset_.removeGate gate).2.containsGate g =
      (axis.direction_.removeGate gate).2.containsGate g
    rw [Point.removeGate_containsGate h.offset, Direction.removeGate_containsGate h.direction]
    exact congrArg _ (hsame g)

/-- **The domains agree all along a run** exactly when every call meets its
condition: a constructor is given equal domains, and `SetOffset` and `SetAmplitude`
a gate of the domain. -/
theorem domains_agree_iff (calls : List (Call G R)) :
    EveryStep (fun past c => DomainsAgree (after (past ++ [c]))) calls ↔
      EveryStep (fun past c => Meets (after past) c) calls := by
  apply everyStep_iff (J := fun past => SameDomain (after past))
  · exact fun _ => rfl
  · intro past c hsame
    rw [domainsAgree_iff (after_wellFormed _), after, run_concat]
    exact call_same_iff (after_wellFormed past) hsame c
  · intro past c hsame hmeets
    rw [after, run_concat]
    exact (call_same_iff (after_wellFormed past) hsame c).mpr hmeets

/-- An offset set on a new axis has no amplitude beside it. -/
theorem setOffset_alone :
    ¬ EveryStep (fun past c => DomainsAgree (after (past ++ [c])))
      ([.setOffset "P1" ⟨1⟩] : List (Call String ℚ)) := by
  intro h
  have hagree := h [] (.setOffset "P1" ⟨1⟩) [] rfl
  exact absurd (hagree.same "P1") (by decide +kernel)

end ControlAxis

end FalconStd.Control
