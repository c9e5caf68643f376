import Mathlib.Data.List.Indexes
import FalconStd.Control.AxisDomain

/-! The points of a control axis: `ToPoint` and `NewFromPoints`.

`ToPoint` means to join the offsets and the amplitudes by gate, but looks the
direction's own `i`-th gate up in the direction, so what it joins to the `i`-th
offset is the `i`-th stored amplitude. `NewFromPoints` subtracts by position too.
Both are right exactly when the orders of insertion happen to fit. -/
namespace FalconStd.Control.ControlAxis
open Collections Foundation

variable {G R : Type} [DecidableEq G] [Field R] {axis : ControlAxis G R}

/-! ### The loop of `ToPoint` -/

/-- The amplitude that `ToPoint` joins to the `i`-th offset. -/
def positional (axis : ControlAxis G R) (i : Nat) : R :=
  (axis.direction_.dir_.values_[i]?).getD 0

/-- No loop of `ToPoint` reads past an end. -/
def InRange (dir : Direction G R) (size : Nat) : Prop :=
  dir.dir_.keys_ = [] ∨ size ≤ dir.dir_.keys_.length

omit [DecidableEq G] [Field R] in
/-- One pass reads at `i`, the others from `i + 1` on. -/
theorem InRange.cons {dir : Direction G R} {i n : Nat} (h : InRange dir (i + (n + 1))) :
    InRange dir (i + 1) ∧ InRange dir (i + 1 + n) := by
  rcases h with hnil | hle
  · exact ⟨.inl hnil, .inl hnil⟩
  · refine ⟨.inr ?_, .inr ?_⟩ <;> omega

theorem coefficientFor_search {dir : Direction G R} {i : Nat} {gate : G}
    (hgate : dir.dir_.keys_[i]? = some gate) (l : List (G × R)) :
    coefficientFor dir i l = .ok ((Assoc.get? gate l).getD 0) := by
  induction l with
  | nil => rfl
  | cons e rest ih =>
    obtain ⟨key, coeff⟩ := e
    have hread : unchecked dir.dir_.keys_ i = .ok gate := ArrayValue.unchecked_of_lt hgate
    rw [coefficientFor, hread, Assoc.get?]
    by_cases hkey : gate = key
    · subst hkey
      simp [bind, Except.bind]
    · have hne : ¬ key = gate := fun h => hkey h.symm
      simpa [bind, Except.bind, hkey, hne] using ih

/-- The search finds the direction's `i`-th gate at its own place. -/
theorem coefficientFor_eq {dir : Direction G R} (h : dir.WellFormed) {i : Nat}
    (hi : InRange dir (i + 1)) :
    coefficientFor dir i dir.dir_.entries = .ok ((dir.dir_.values_[i]?).getD 0) := by
  rcases hi with hnil | hlt
  · have hvalues : dir.dir_.values_ = [] := by
      have := h.aligned
      rw [hnil, List.length_nil] at this
      exact List.eq_nil_of_length_eq_zero this.symm
    rw [Map.entries, hnil, hvalues]
    rfl
  · have hgate := List.getElem?_eq_getElem hlt
    rw [coefficientFor_search hgate, ← Map.lookup_at h hgate]
    rfl

/-- Past the end of a direction that is not empty, the search reads out of range. -/
theorem coefficientFor_raises {dir : Direction G R} (h : dir.WellFormed) {i : Nat}
    (hne : dir.dir_.keys_ ≠ []) (hi : dir.dir_.keys_.length ≤ i) :
    coefficientFor dir i dir.dir_.entries =
      .error (.outOfRange i dir.dir_.keys_.length) := by
  have hread : unchecked dir.dir_.keys_ i = .error (.outOfRange i dir.dir_.keys_.length) := by
    rw [unchecked, List.getElem?_eq_none hi]
  cases hentries : dir.dir_.entries with
  | nil =>
    have hlen := congrArg (List.map Prod.fst) hentries
    rw [Map.entries, List.map_fst_zip (Nat.le_of_eq h.aligned)] at hlen
    exact absurd hlen hne
  | cons e rest =>
    obtain ⟨key, coeff⟩ := e
    rw [coefficientFor, hread]
    rfl

/-- The voltages that the loop leaves: each offset with the amplitude at its place. -/
theorem evaluate_eq {dir : Direction G R} (h : dir.WellFormed) (coord : R) (i : Nat)
    (voltages : List (Voltage R)) (hrange : InRange dir (i + voltages.length)) :
    evaluate dir coord i voltages = .ok (voltages.mapIdx fun j voltage =>
      ⟨voltage.value_ + coord * (dir.dir_.values_[i + j]?).getD 0⟩) := by
  induction voltages generalizing i with
  | nil => rfl
  | cons voltage rest ih =>
    obtain ⟨hi, hrest⟩ := hrange.cons
    have hindex : ∀ j, i + 1 + j = i + (j + 1) := by
      intro j
      omega
    rw [evaluate, coefficientFor_eq h hi, ih (i + 1) hrest, List.mapIdx_cons]
    simp only [bind, Except.bind, hindex, Nat.add_zero]

theorem evaluate_raises {dir : Direction G R} (h : dir.WellFormed) (coord : R) (i : Nat)
    (voltages : List (Voltage R)) (hi : i ≤ dir.dir_.keys_.length)
    (hrange : ¬ InRange dir (i + voltages.length)) :
    ∃ e, evaluate dir coord i voltages = .error e := by
  have hne : dir.dir_.keys_ ≠ [] := fun hnil => hrange (.inl hnil)
  induction voltages generalizing i with
  | nil => exact absurd (.inr hi) hrange
  | cons voltage rest ih =>
    rw [List.length_cons] at hrange
    by_cases hlt : i < dir.dir_.keys_.length
    · have hrest : ¬ InRange dir (i + 1 + rest.length) := by
        have hsum : i + 1 + rest.length = i + (rest.length + 1) := by omega
        rw [hsum]
        exact hrange
      obtain ⟨e, he⟩ := ih (i + 1) hlt hrest
      refine ⟨e, ?_⟩
      rw [evaluate, coefficientFor_eq h (.inr hlt), he]
      rfl
    · refine ⟨.outOfRange i dir.dir_.keys_.length, ?_⟩
      rw [evaluate, coefficientFor_raises h hne (by omega)]
      rfl

/-! ### When `ToPoint` returns, and what -/

/-- No read of `ToPoint` is out of range. -/
def Evaluable (axis : ControlAxis G R) : Prop :=
  axis.gates ≠ [] ∧ InRange axis.direction_ axis.gates.length

/-- The point that `ToPoint` builds: the amplitudes are joined by position. -/
def pointAt (axis : ControlAxis G R) (c : R) : Point G R :=
  ⟨{ axis.offset_.location_ with
      values_ := axis.offset_.location_.values_.mapIdx fun i voltage =>
        ⟨voltage.value_ + c * axis.positional i⟩ }⟩

theorem toPoint_eq (h : axis.WellFormed) (heval : axis.Evaluable) (c : R) :
    axis.toPoint ⟨c⟩ = .ok (axis.pointAt c) := by
  obtain ⟨hne, hrange⟩ := heval
  have hlen : axis.gates.length = axis.offset_.location_.values_.length := h.offset.aligned
  rw [hlen, ← Nat.zero_add (List.length _)] at hrange
  have hfirst : ∃ voltage, (axis.pointAt c).location_.values_[0]? = some voltage := by
    have hpos : 0 < (axis.pointAt c).location_.values_.length := by
      rw [pointAt, List.length_mapIdx, ← hlen]
      exact List.length_pos_of_ne_nil hne
    exact ⟨_, List.getElem?_eq_getElem hpos⟩
  obtain ⟨voltage, hvoltage⟩ := hfirst
  have hloop : evaluate axis.direction_ c 0 axis.offset_.location_.values_ =
      .ok (axis.pointAt c).location_.values_ := by
    rw [evaluate_eq h.direction c 0 _ hrange]
    simp only [Nat.zero_add]
    rfl
  unfold toPoint
  simp only [hloop, bind, Except.bind, ArrayValue.unchecked_of_lt hvoltage]
  rfl

theorem toPoint_raises (h : axis.WellFormed) (heval : ¬ axis.Evaluable) (c : R) :
    ∃ e, axis.toPoint ⟨c⟩ = .error e := by
  have hlen : axis.gates.length = axis.offset_.location_.values_.length := h.offset.aligned
  by_cases hrange : InRange axis.direction_ axis.gates.length
  · have hnil : axis.offset_.location_.values_ = [] := by
      by_contra hne
      refine heval ⟨fun hgates => hne ?_, hrange⟩
      rw [hgates, List.length_nil] at hlen
      exact List.eq_nil_of_length_eq_zero hlen.symm
    refine ⟨.outOfRange 0 0, ?_⟩
    unfold toPoint
    rw [hnil]
    rfl
  · rw [hlen, ← Nat.zero_add (List.length _)] at hrange
    obtain ⟨e, he⟩ := evaluate_raises h.direction c 0 _ (Nat.zero_le _) hrange
    refine ⟨e, ?_⟩
    unfold toPoint
    rw [he]
    rfl

theorem pointAt_wellFormed (h : axis.WellFormed) (c : R) : (axis.pointAt c).WellFormed :=
  Map.WellFormed.of_keys h.offset rfl List.length_mapIdx

/-- The voltage at the place of a gate. -/
theorem pointAt_lookup (h : axis.WellFormed) (c : R) {i : Nat} {g : G}
    (hg : axis.gates[i]? = some g) :
    (axis.pointAt c).location_.lookup g =
      (axis.offset_.location_.lookup g).map fun voltage =>
        ⟨voltage.value_ + c * axis.positional i⟩ := by
  have hg' : (axis.pointAt c).location_.keys_[i]? = some g := hg
  rw [Map.lookup_at (pointAt_wellFormed h c) hg', Map.lookup_at h.offset hg, pointAt,
    List.getElem?_mapIdx]

/-! ### Evaluation by gate -/

/-- The coefficient that the direction stores for the gate, zero for none. -/
def amplitude (axis : ControlAxis G R) (g : G) : R :=
  ((axis.direction_.getCoefficient g).toOption).getD 0

/-- What `ToPoint` is documented to return. -/
def EvaluatesAt (axis : ControlAxis G R) (c : R) : Prop :=
  ∀ point, axis.toPoint ⟨c⟩ = .ok point →
    point.gates = axis.gates ∧
    ∀ g offset, axis.getOffset g = .ok offset →
      point.get g = .ok ⟨offset.value_ + c * axis.amplitude g⟩

/-- Every gate's own amplitude is the one stored at the place of its offset. -/
def JoinedInOrder (axis : ControlAxis G R) : Prop :=
  ∀ i g, axis.gates[i]? = some g → axis.positional i = axis.amplitude g

omit [Field R] in
/-- A gate with an offset has a place among the gates. -/
theorem exists_place {g : G} {offset : Voltage R}
    (hoffset : axis.offset_.location_.lookup g = some offset) : ∃ i : Nat, axis.gates[i]? = some g := by
  apply List.mem_iff_getElem?.mp
  by_contra hg
  rw [Map.lookup_of_notMem hg] at hoffset
  cases hoffset

omit [Field R] in
theorem exists_offset (h : axis.WellFormed) {i : Nat} {g : G} (hg : axis.gates[i]? = some g) :
    ∃ offset, axis.offset_.location_.lookup g = some offset := by
  have hlt : i < axis.offset_.location_.values_.length := by
    have hplace := (List.getElem?_eq_some_iff.mp hg).1
    have hlen : axis.gates.length = axis.offset_.location_.values_.length := h.offset.aligned
    omega
  exact ⟨_, (Map.lookup_at h.offset hg).trans (List.getElem?_eq_getElem hlt)⟩

/-- Where `ToPoint` returns, it is right on a gate iff the products agree. -/
theorem evaluatesAt_iff (h : axis.WellFormed) (c : R) :
    axis.EvaluatesAt c ↔ c = 0 ∨ ¬ axis.Evaluable ∨ axis.JoinedInOrder := by
  by_cases heval : axis.Evaluable
  · have hpoint := toPoint_eq h heval c
    refine ⟨fun hright => ?_, fun hcond point hok => ?_⟩
    · obtain ⟨_, hvalues⟩ := hright _ hpoint
      by_cases hc : c = 0
      · exact .inl hc
      · refine .inr (.inr fun i g hg => ?_)
        obtain ⟨offset, hoffset⟩ := exists_offset h hg
        have hvalue := hvalues g offset ((Map.get_eq_ok_iff h.offset g offset).mpr hoffset)
        rw [Point.get, Map.get_eq_ok_iff (pointAt_wellFormed h c), pointAt_lookup h c hg,
          hoffset] at hvalue
        have hsum : offset.value_ + c * axis.positional i =
            offset.value_ + c * axis.amplitude g :=
          congrArg Voltage.value_ (Option.some.inj hvalue)
        exact mul_left_cancel₀ hc (add_left_cancel hsum)
    · obtain rfl : axis.pointAt c = point := Except.ok.inj (hpoint.symm.trans hok)
      refine ⟨rfl, fun g offset hoffset => ?_⟩
      rw [getOffset, Point.get, Map.get_eq_ok_iff h.offset] at hoffset
      obtain ⟨i, hg⟩ := exists_place hoffset
      have hproduct : c * axis.positional i = c * axis.amplitude g := by
        rcases hcond with hc | hnot | hjoined
        · rw [hc, zero_mul, zero_mul]
        · exact absurd heval hnot
        · rw [hjoined i g hg]
      rw [Point.get, Map.get_eq_ok_iff (pointAt_wellFormed h c), pointAt_lookup h c hg, hoffset,
        ← hproduct]
      rfl
  · obtain ⟨e, he⟩ := toPoint_raises h heval c
    refine iff_of_true (fun point hok => ?_) (.inr (.inl heval))
    rw [he] at hok
    cases hok

/-- **`ToPoint`** of any reachable axis is right at a coordinate exactly when the
coordinate is zero, or the call reads out of range, or every gate's own amplitude
is stored at the place of its offset. -/
theorem toPoint_correct_iff (calls : List (Call G R)) (c : R) :
    (after calls).EvaluatesAt c ↔
      c = 0 ∨ ¬ (after calls).Evaluable ∨ (after calls).JoinedInOrder :=
  evaluatesAt_iff (after_wellFormed calls) c

/-- The offset lists `P1` before `P2` and the direction `P2` before `P1`. -/
theorem toPoint_swaps_amplitudes :
    ¬ (after ([.setOffset "P1" ⟨1⟩, .setAmplitude "P2" ⟨10⟩, .setOffset "P2" ⟨2⟩,
        .setAmplitude "P1" ⟨20⟩] : List (Call String ℚ))).EvaluatesAt 1 := by
  intro h
  obtain ⟨_, hvalues⟩ := h ⟨⟨["P1", "P2"], [⟨11⟩, ⟨22⟩]⟩⟩ (by decide +kernel)
  exact absurd (hvalues "P1" ⟨1⟩ (by decide +kernel)) (by decide +kernel)

/-! ### Interpolating two points -/

/-- The modifiers of a point. -/
inductive PointCall (G R : Type) where
  | set (gate : G) (voltage : Voltage R)
  | removeGate (gate : G)

def pointCall (point : Point G R) : PointCall G R → Point G R
  | .set gate voltage => (point.set gate voltage).2
  | .removeGate gate => (point.removeGate gate).2

def pointAfter (calls : List (PointCall G R)) : Point G R := run pointCall Point.new calls

omit [Field R] in
theorem pointAfter_wellFormed (calls : List (PointCall G R)) : (pointAfter calls).WellFormed := by
  refine run_invariant (J := Point.WellFormed) (fun point c h => ?_) Point.new Map.wellFormed_new calls
  cases c with
  | set gate voltage => exact Point.set_wellFormed h gate voltage
  | removeGate gate => exact Point.removeGate_wellFormed h gate

/-- Two points that agree on every gate, stored or not. -/
def SameVoltages (p q : Point G R) : Prop := ∀ g, (p.get g).toOption = (q.get g).toOption

/-- What `NewFromPoints` is documented to build. -/
structure Interpolates (p q : Point G R) (axis : ControlAxis G R) : Prop where
  amplitudes : ∀ g vp vq, p.get g = .ok vp → q.get g = .ok vq →
    axis.getAmplitude g = .ok (⟨vq.value_ - vp.value_⟩ : Voltage R)
  start : ∃ point, axis.toPoint ⟨0⟩ = .ok point ∧ SameVoltages point p
  finish : ∃ point, axis.toPoint ⟨1⟩ = .ok point ∧ SameVoltages point q

/-- The voltages of `q` are stored at the places of `p`'s gates. -/
def StoredInStep (p q : Point G R) : Prop :=
  ∀ (i : Nat) g, p.gates[i]? = some g → (q.get g).toOption = q.location_.values_[i]?

omit [DecidableEq G] in
/-- The difference computed for a place is of the voltages at that place. -/
theorem differences_at {pointValues : List (Voltage R)} {i : Nat} {offsets : List (Voltage R)}
    {values : List R} (h : differences pointValues i offsets = .ok values) {j : Nat}
    {vp vq : Voltage R} (hp : offsets[j]? = some vp) (hq : pointValues[i + j]? = some vq) :
    values[j]? = some (vq.value_ - vp.value_) := by
  induction offsets generalizing i j values with
  | nil => cases hp
  | cons off rest ih =>
    rw [differences, bind_ok_iff] at h
    obtain ⟨pt, hpt, h⟩ := h
    obtain ⟨tail, htail, hvalues⟩ := bind_ok_iff.mp h
    cases hvalues
    cases j with
    | zero =>
      rw [Nat.add_zero] at hq
      cases hpt.symm.trans (ArrayValue.unchecked_of_lt hq)
      cases hp
      rfl
    | succ j =>
      have hindex : i + 1 + j = i + (j + 1) := by omega
      exact ih htail hp (hindex ▸ hq)

omit [DecidableEq G] in
theorem differences_ok (pointValues : List (Voltage R)) (i : Nat) (offsets : List (Voltage R))
    (hlen : i + offsets.length ≤ pointValues.length) :
    ∃ values, differences pointValues i offsets = .ok values := by
  induction offsets generalizing i with
  | nil => exact ⟨[], rfl⟩
  | cons off rest ih =>
    rw [List.length_cons] at hlen
    have hlt : i < pointValues.length := by omega
    obtain ⟨tail, htail⟩ := ih (i + 1) (by omega)
    refine ⟨(pointValues[i].value_ - off.value_) :: tail, ?_⟩
    rw [differences, ArrayValue.unchecked_of_lt (List.getElem?_eq_getElem hlt), htail]
    rfl

section Between
variable {p q : Point G R}

omit [DecidableEq G] in
theorem newFromPoints_ok (hlen : p.location_.values_.length = q.location_.values_.length) :
    ∃ axis, newFromPoints p q = .ok axis := by
  obtain ⟨values, hvalues⟩ :=
    differences_ok q.location_.values_ 0 p.location_.values_ (by omega)
  refine ⟨⟨p, ⟨⟨p.location_.keys_, values⟩⟩⟩, ?_⟩
  rw [newFromPoints, hvalues]
  rfl

/-- The amplitude at a place is the difference of the voltages stored there. -/
theorem between_at (hp : p.WellFormed) (hlen : p.gates.length = q.location_.values_.length)
    (h : newFromPoints p q = .ok axis) {i : Nat} {g : G} (hg : p.gates[i]? = some g) :
    ∃ vp vq, p.location_.lookup g = some vp ∧ q.location_.values_[i]? = some vq ∧
      axis.direction_.dir_.lookup g = some (vq.value_ - vp.value_) ∧
      axis.positional i = vq.value_ - vp.value_ := by
  have haxis := newFromPoints_wellFormed hp h
  obtain ⟨values, hvalues, rfl⟩ := newFromPoints_cases h
  have hplace := (List.getElem?_eq_some_iff.mp hg).1
  have haligned : p.gates.length = p.location_.values_.length := hp.aligned
  have hvp := List.getElem?_eq_getElem (haligned ▸ hplace)
  have hvq := List.getElem?_eq_getElem (hlen ▸ hplace)
  have hvalue := differences_at hvalues hvp (by rw [Nat.zero_add]; exact hvq)
  refine ⟨_, _, (Map.lookup_at hp hg).trans hvp, hvq, ?_, ?_⟩
  · exact (Map.lookup_at haxis.direction hg).trans hvalue
  · rw [positional, hvalue]
    rfl

/-- The points of the axis have the gates of the first point. -/
theorem pointAt_outside (h : newFromPoints p q = .ok axis) (c : R) {g : G} (hg : g ∉ p.gates) :
    (axis.pointAt c).location_.lookup g = none := by
  obtain ⟨values, _, rfl⟩ := newFromPoints_cases h
  exact Map.lookup_of_notMem hg

omit [DecidableEq G] in
theorem evaluable_iff (h : newFromPoints p q = .ok axis) :
    axis.Evaluable ↔ p.gates ≠ [] := by
  obtain ⟨values, _, rfl⟩ := newFromPoints_cases h
  exact ⟨fun heval => heval.1, fun hne => ⟨hne, .inr (Nat.le_refl _)⟩⟩

omit [Field R] in
theorem sameVoltages_iff {r s : Point G R} (hr : r.WellFormed) (hs : s.WellFormed) :
    SameVoltages r s ↔ ∀ g, r.location_.lookup g = s.location_.lookup g := by
  refine forall_congr' fun g => ?_
  rw [← Map.get_lookup hr, ← Map.get_lookup hs]
  rfl

/-- At zero the axis is at the first point. -/
theorem pointAt_zero (hp : p.WellFormed)
    (h : newFromPoints p q = .ok axis) : SameVoltages (axis.pointAt 0) p := by
  have haxis := newFromPoints_wellFormed hp h
  rw [sameVoltages_iff (pointAt_wellFormed haxis 0) hp]
  intro g
  by_cases hg : g ∈ p.gates
  · obtain ⟨i, hi⟩ := List.mem_iff_getElem?.mp hg
    obtain ⟨values, _, rfl⟩ := newFromPoints_cases h
    rw [pointAt_lookup haxis 0 hi]
    cases hv : p.location_.lookup g with
    | none => rfl
    | some v => simp
  · rw [pointAt_outside h 0 hg, Map.lookup_of_notMem hg]

/-- At one it has the second point's voltages, by position. -/
theorem pointAt_one (hp : p.WellFormed) (hlen : p.gates.length = q.location_.values_.length)
    (h : newFromPoints p q = .ok axis) {i : Nat} {g : G} (hg : p.gates[i]? = some g) :
    (axis.pointAt 1).location_.lookup g = q.location_.values_[i]? := by
  have haxis := newFromPoints_wellFormed hp h
  obtain ⟨vp, vq, hvp, hvq, _, hpositional⟩ := between_at hp hlen h hg
  have hoffset : axis.offset_.location_.lookup g = some vp := by
    obtain ⟨values, _, rfl⟩ := newFromPoints_cases h
    exact hvp
  have hgate : axis.gates[i]? = some g := by
    obtain ⟨values, _, rfl⟩ := newFromPoints_cases h
    exact hg
  rw [pointAt_lookup haxis 1 hgate, hoffset, hvq, hpositional]
  simp

theorem amplitude_between (hp : p.WellFormed) (hlen : p.gates.length = q.location_.values_.length)
    (h : newFromPoints p q = .ok axis) (hstep : StoredInStep p q) {g : G} {vp vq : Voltage R}
    (hvp : p.get g = .ok vp) (hvq : q.get g = .ok vq) :
    axis.getAmplitude g = .ok ⟨vq.value_ - vp.value_⟩ := by
  have haxis := newFromPoints_wellFormed hp h
  have hlookup := (Map.get_eq_ok_iff hp g vp).mp hvp
  have hg : g ∈ p.gates := by
    by_contra hout
    rw [Map.lookup_of_notMem hout] at hlookup
    cases hlookup
  obtain ⟨i, hi⟩ := List.mem_iff_getElem?.mp hg
  obtain ⟨vp', vq', hvp', hvq', hamplitude, _⟩ := between_at hp hlen h hi
  obtain rfl : vp = vp' := Option.some.inj (hlookup.symm.trans hvp')
  have hplace := hstep i g hi
  rw [hvq, hvq'] at hplace
  obtain rfl : vq = vq' := Option.some.inj hplace
  have hget : axis.direction_.getCoefficient g = .ok (vq.value_ - vp.value_) :=
    (Map.get_eq_ok_iff haxis.direction g _).mpr hamplitude
  rw [getAmplitude, hget]
  rfl

end Between

/-- **`NewFromPoints`** of two points with the same gates interpolates them exactly
when there is a gate and the second point stores its voltages in the order of the
first one's gates. -/
theorem interpolates_iff (ps qs : List (PointCall G R))
    (hsame : ∀ g, (pointAfter ps).containsGate g = (pointAfter qs).containsGate g) :
    (∃ axis, newFromPoints (pointAfter ps) (pointAfter qs) = .ok axis ∧
      Interpolates (pointAfter ps) (pointAfter qs) axis) ↔
    (pointAfter ps).gates ≠ [] ∧ StoredInStep (pointAfter ps) (pointAfter qs) := by
  have hp := pointAfter_wellFormed ps
  have hq := pointAfter_wellFormed qs
  have hlen : (pointAfter ps).gates.length = (pointAfter qs).location_.values_.length :=
    (Map.keys_perm hp hq hsame).length_eq.trans hq.aligned
  have hget : ∀ g, ((pointAfter qs).get g).toOption = (pointAfter qs).location_.lookup g :=
    Map.get_lookup hq
  refine ⟨fun ⟨axis, haxis, hinter⟩ => ?_, fun ⟨hne, hstep⟩ => ?_⟩
  · have hwf := newFromPoints_wellFormed hp haxis
    have heval : axis.Evaluable := by
      by_contra hnot
      obtain ⟨point, hpoint, _⟩ := hinter.start
      obtain ⟨e, he⟩ := toPoint_raises hwf hnot 0
      rw [he] at hpoint
      cases hpoint
    refine ⟨(evaluable_iff haxis).mp heval, fun i g hg => ?_⟩
    obtain ⟨point, hpoint, hfinish⟩ := hinter.finish
    obtain rfl : axis.pointAt 1 = point := Except.ok.inj ((toPoint_eq hwf heval 1).symm.trans hpoint)
    rw [sameVoltages_iff (pointAt_wellFormed hwf 1) hq] at hfinish
    rw [hget, ← hfinish g, pointAt_one hp hlen haxis hg]
  · obtain ⟨axis, haxis⟩ := newFromPoints_ok (hp.aligned.symm.trans hlen)
    have hwf := newFromPoints_wellFormed hp haxis
    have heval := (evaluable_iff haxis).mpr hne
    refine ⟨axis, haxis, fun g vp vq hvp hvq => ?_, ?_, ?_⟩
    · exact amplitude_between hp hlen haxis hstep hvp hvq
    · exact ⟨_, toPoint_eq hwf heval 0, pointAt_zero hp haxis⟩
    · refine ⟨_, toPoint_eq hwf heval 1, (sameVoltages_iff (pointAt_wellFormed hwf 1) hq).mpr ?_⟩
      intro g
      by_cases hg : g ∈ (pointAfter ps).gates
      · obtain ⟨i, hi⟩ := List.mem_iff_getElem?.mp hg
        rw [pointAt_one hp hlen haxis hi, ← hstep i g hi, hget]
      · have hg' : g ∉ (pointAfter qs).gates := fun hin =>
          hg ((Map.keys_perm hp hq hsame).mem_iff.mpr hin)
        rw [pointAt_outside haxis 1 hg, Map.lookup_of_notMem hg']

/-- Two points of two gates, set in the same order. -/
theorem interpolates_in_order :
    ∃ axis, newFromPoints (pointAfter [.set "P1" ⟨1⟩, .set "P2" ⟨2⟩] : Point String ℚ)
        (pointAfter [.set "P1" ⟨5⟩, .set "P2" ⟨7⟩]) = .ok axis ∧
      Interpolates (pointAfter [.set "P1" ⟨1⟩, .set "P2" ⟨2⟩])
        (pointAfter [.set "P1" ⟨5⟩, .set "P2" ⟨7⟩]) axis := by
  refine (interpolates_iff _ _ (Map.contains_of_perm (by decide +kernel))).mpr
    ⟨by decide +kernel, fun i g hg => ?_⟩
  have hgates : (pointAfter [.set "P1" ⟨1⟩, .set "P2" ⟨2⟩] : Point String ℚ).gates = ["P1", "P2"] := by
    decide +kernel
  rw [hgates] at hg
  match i with
  | 0 =>
    cases hg
    decide +kernel
  | 1 =>
    cases hg
    decide +kernel
  | n + 2 => cases hg

/-- The second point sets its gates the other way round: `P1` gets `7 - 1`. -/
theorem interpolates_out_of_order :
    (∀ g, (pointAfter [.set "P1" ⟨1⟩, .set "P2" ⟨2⟩] : Point String ℚ).containsGate g =
      (pointAfter [.set "P2" ⟨7⟩, .set "P1" ⟨5⟩] : Point String ℚ).containsGate g) ∧
    ¬ ∃ axis, newFromPoints (pointAfter [.set "P1" ⟨1⟩, .set "P2" ⟨2⟩] : Point String ℚ)
        (pointAfter [.set "P2" ⟨7⟩, .set "P1" ⟨5⟩]) = .ok axis ∧
      Interpolates (pointAfter [.set "P1" ⟨1⟩, .set "P2" ⟨2⟩])
        (pointAfter [.set "P2" ⟨7⟩, .set "P1" ⟨5⟩]) axis := by
  refine ⟨Map.contains_of_perm (by decide +kernel), ?_⟩
  intro h
  obtain ⟨axis, haxis, hinter⟩ := h
  have hright := hinter.amplitudes "P1" ⟨1⟩ ⟨5⟩ (by decide +kernel) (by decide +kernel)
  have hread : ((newFromPoints (pointAfter [.set "P1" ⟨1⟩, .set "P2" ⟨2⟩] : Point String ℚ)
      (pointAfter [.set "P2" ⟨7⟩, .set "P1" ⟨5⟩])).bind fun a => a.getAmplitude "P1") =
        .ok ⟨5 - 1⟩ := by
    rw [haxis]
    exact hright
  exact absurd hread (by decide +kernel)

end FalconStd.Control.ControlAxis
