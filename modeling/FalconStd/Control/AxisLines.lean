import FalconStd.Control.AxisPoints
import FalconStd.Control.ShiftLaws

/-! The points of a control axis lie on a line.

The amplitudes that `ToPoint` joins by position are the same at every coordinate. So
whatever order they stand in, two points of an axis span it again, another scale runs
through the same points at another pace, and a shift moves every point alike. -/
namespace FalconStd.Control.ControlAxis
open Collections Foundation

variable {G R : Type} [DecidableEq G] [Field R] {axis result : ControlAxis G R}

theorem evaluable_of_toPoint (h : axis.WellFormed) {c : R} {p : Point G R}
    (hp : axis.toPoint ⟨c⟩ = .ok p) : axis.Evaluable ∧ p = axis.pointAt c := by
  by_cases heval : axis.Evaluable
  · exact ⟨heval, Except.ok.inj (hp.symm.trans (toPoint_eq h heval c))⟩
  · obtain ⟨e, he⟩ := toPoint_raises h heval c
    rw [he] at hp
    cases hp

/-! ### Two points of the axis -/

omit [DecidableEq G] in
theorem pointAt_value (axis : ControlAxis G R) (c : R) (i : Nat) :
    (axis.pointAt c).location_.values_[i]? =
      axis.offset_.location_.values_[i]?.map fun voltage =>
        (⟨voltage.value_ + c * axis.positional i⟩ : Voltage R) := by
  rw [pointAt, List.getElem?_mapIdx]

omit [DecidableEq G] in
/-- The amplitude that `NewFromPoints` stores at a place. -/
theorem positional_between {s u : R} (h : newFromPoints (axis.pointAt s) (axis.pointAt u) = .ok result)
    {i : Nat} {voltage : Voltage R} (hi : axis.offset_.location_.values_[i]? = some voltage) :
    result.positional i = (u - s) * axis.positional i := by
  obtain ⟨values, hvalues, rfl⟩ := newFromPoints_cases h
  have hs : (axis.pointAt s).location_.values_[i]? = some ⟨voltage.value_ + s * axis.positional i⟩ := by
    rw [pointAt_value, hi]
    rfl
  have hu : (axis.pointAt u).location_.values_[0 + i]? =
      some ⟨voltage.value_ + u * axis.positional i⟩ := by
    rw [Nat.zero_add, pointAt_value, hi]
    rfl
  have hdiff := differences_at hvalues hs hu
  have hplace : ∀ offset : Point G R, positional ⟨offset, ⟨⟨(axis.pointAt s).location_.keys_, values⟩⟩⟩ i =
      (values[i]?).getD 0 := fun _ => rfl
  rw [hplace, hdiff]
  simp only [Option.getD_some]
  ring

omit [DecidableEq G] in
/-- Along the spanned axis the coordinate runs from the one point to the other. -/
theorem pointAt_between {s u : R}
    (h : newFromPoints (axis.pointAt s) (axis.pointAt u) = .ok result) (t : R) :
    result.pointAt t = axis.pointAt (s + t * (u - s)) := by
  have hoffset : result.offset_ = axis.pointAt s := by
    obtain ⟨values, _, rfl⟩ := newFromPoints_cases h
    rfl
  have hkeys : (result.pointAt t).location_.keys_ =
      (axis.pointAt (s + t * (u - s))).location_.keys_ := by
    rw [pointAt, hoffset]
    rfl
  have hvalues : (result.pointAt t).location_.values_ =
      (axis.pointAt (s + t * (u - s))).location_.values_ := by
    refine List.ext_getElem? fun i => ?_
    rw [pointAt_value, pointAt_value, hoffset, pointAt_value]
    cases hi : axis.offset_.location_.values_[i]? with
    | none => rfl
    | some voltage =>
      rw [positional_between h hi]
      simp only [Option.map_some, Option.some.injEq, Voltage.mk.injEq]
      ring
  exact congrArg Point.mk (congrArg₂ Map.mk hkeys hvalues)

theorem toPoint_between (h : axis.WellFormed) {s u : R} {p q : Point G R}
    (hp : axis.toPoint ⟨s⟩ = .ok p) (hq : axis.toPoint ⟨u⟩ = .ok q) :
    ∃ between, newFromPoints p q = .ok between ∧
      ∀ t, between.toPoint ⟨t⟩ = axis.toPoint ⟨s + t * (u - s)⟩ := by
  obtain ⟨heval, rfl⟩ := evaluable_of_toPoint h hp
  obtain ⟨-, rfl⟩ := evaluable_of_toPoint h hq
  have hlen : (axis.pointAt s).location_.values_.length = (axis.pointAt u).location_.values_.length := by
    rw [pointAt, pointAt, List.length_mapIdx, List.length_mapIdx]
  obtain ⟨between, hbetween⟩ := newFromPoints_ok hlen
  have hwf := newFromPoints_wellFormed (pointAt_wellFormed h s) hbetween
  refine ⟨between, hbetween, fun t => ?_⟩
  rw [toPoint_eq hwf ((evaluable_iff hbetween).mpr heval.1), toPoint_eq h heval,
    pointAt_between hbetween]

/-! ### Another scale -/

theorem coefficientFor_scale (dir : Direction G R) (k : R) (i : Nat) (l : List (G × R)) :
    coefficientFor (dir.scale k) i (Assoc.mapValues (fun coeff => coeff * k) l) =
      (coefficientFor dir i l).map (· * k) := by
  induction l with
  | nil => simp [coefficientFor, Assoc.mapValues, Except.map]
  | cons e rest ih =>
    obtain ⟨key, coeff⟩ := e
    have hcons : Assoc.mapValues (fun coeff => coeff * k) ((key, coeff) :: rest) =
        (key, coeff * k) :: Assoc.mapValues (fun coeff => coeff * k) rest := rfl
    have hkeys : (dir.scale k).dir_.keys_ = dir.dir_.keys_ := rfl
    rw [hcons, coefficientFor, coefficientFor, hkeys, ih]
    cases unchecked dir.dir_.keys_ i with
    | error e => rfl
    | ok gate =>
      by_cases hgate : gate == key
      · simp [bind, Except.bind, hgate, Except.map]
      · simp [bind, Except.bind, hgate]

omit [DecidableEq G] in
theorem entries_scale (dir : Direction G R) (k : R) :
    (dir.scale k).dir_.entries = Assoc.mapValues (fun coeff => coeff * k) dir.dir_.entries := by
  rw [Map.entries, Map.entries, Assoc.mapValues, Direction.scale, List.zip_map_right]
  rfl

theorem evaluate_scale (dir : Direction G R) (k coord : R) (i : Nat) (voltages : List (Voltage R)) :
    evaluate (dir.scale k) coord i voltages = evaluate dir (k * coord) i voltages := by
  induction voltages generalizing i with
  | nil => rfl
  | cons voltage rest ih =>
    rw [evaluate, evaluate, ih, entries_scale, coefficientFor_scale]
    cases coefficientFor dir i dir.dir_.entries with
    | error e => rfl
    | ok coeff =>
      have hproduct : coord * (coeff * k) = k * coord * coeff := by ring
      simp only [Except.map, bind, Except.bind, hproduct]

/-- `Scaled` runs through the same points, raising where they raise. -/
theorem toPoint_scaled (axis : ControlAxis G R) (k c : R) :
    (axis.scaled k).toPoint ⟨c⟩ = axis.toPoint ⟨k * c⟩ := by
  have hdir : (axis.scaled k).direction_ = axis.direction_.scale k := rfl
  have hoffset : (axis.scaled k).offset_ = axis.offset_ := rfl
  simp only [toPoint, hdir, hoffset, evaluate_scale]

/-! ### A shift -/

theorem toPoint_shifted (h : axis.WellFormed) {dir : Direction G R} (hdir : dir.WellFormed)
    (hresult : axis.shifted dir = .ok result) {c : R} {p : Point G R}
    (hp : axis.toPoint ⟨c⟩ = .ok p) :
    ∃ moved, result.toPoint ⟨c⟩ = .ok moved ∧ moved.gates = p.gates ∧
      ∀ g voltage, p.get g = .ok voltage →
        moved.get g = .ok ⟨voltage.value_ + deltaAt dir.dir_.entries g⟩ := by
  obtain ⟨heval, rfl⟩ := evaluable_of_toPoint h hp
  have hkeys := shiftedOffset_keys h.offset dir
  have hshift := shifted_eq h.offset hdir hresult
  have hwf : result.WellFormed := by
    rw [hshift]
    exact ⟨shiftedOffset_wellFormed h.offset dir, h.direction⟩
  have hgates : result.gates = axis.gates := by
    rw [hshift]
    exact hkeys
  have heval' : result.Evaluable := by
    refine ⟨hgates ▸ heval.1, ?_⟩
    rw [hgates, hshift]
    exact heval.2
  refine ⟨result.pointAt c, toPoint_eq hwf heval' c, hgates, ?_⟩
  intro g voltage hvoltage
  have hlookup := (Map.get_eq_ok_iff (pointAt_wellFormed h c) g voltage).mp hvoltage
  refine (Map.get_eq_ok_iff (pointAt_wellFormed hwf c) g _).mpr ?_
  by_cases hg : g ∈ axis.gates
  · obtain ⟨i, hi⟩ := List.mem_iff_getElem?.mp hg
    obtain ⟨offset, hoffset⟩ := exists_offset h hi
    have hmoved : result.offset_.location_.lookup g =
        some ⟨offset.value_ + deltaAt dir.dir_.entries g⟩ := by
      rw [hshift, shiftedOffset_lookup, hoffset]
      rfl
    have hsame : result.positional i = axis.positional i := by rw [hshift]; rfl
    rw [pointAt_lookup h c hi, hoffset] at hlookup
    rw [pointAt_lookup hwf c (hgates ▸ hi), hmoved, ← Option.some.inj hlookup, hsame]
    simp only [Option.map_some, Option.some.injEq, Voltage.mk.injEq]
    ring
  · have hnone : (axis.pointAt c).location_.lookup g = none := Map.lookup_of_notMem hg
    rw [hnone] at hlookup
    cases hlookup

/-! ### The laws -/

/-- What holds of the points of an axis, in whatever order its amplitudes stand. -/
structure Line (axis : ControlAxis G R) : Prop where
  spanned : ∀ (s u : R) p q, axis.toPoint ⟨s⟩ = .ok p → axis.toPoint ⟨u⟩ = .ok q →
    ∃ between, newFromPoints p q = .ok between ∧
      ∀ t, between.toPoint ⟨t⟩ = axis.toPoint ⟨s + t * (u - s)⟩
  paced : ∀ k c : R, (axis.scaled k).toPoint ⟨c⟩ = axis.toPoint ⟨k * c⟩
  moved : ∀ (dir : {d : Direction G R // d.WellFormed}) result, axis.shifted dir.1 = .ok result →
    ∀ (c : R) p, axis.toPoint ⟨c⟩ = .ok p → ∃ q, result.toPoint ⟨c⟩ = .ok q ∧ q.gates = p.gates ∧
      ∀ g voltage, p.get g = .ok voltage →
        q.get g = .ok ⟨voltage.value_ + ((dir.1.getCoefficient g).toOption).getD 0⟩

/-- **The points of every reachable axis lie on a line**: `NewFromPoints` of any two of
them is the axis itself under another coordinate, `Scaled` multiplies the coordinate, and
`Shifted` moves every point by the shift's own coefficients. -/
theorem points_on_line (calls : List (Call G R)) : Line (after calls) := by
  have h := after_wellFormed calls
  constructor
  case spanned =>
    intro s u p q hp hq
    exact toPoint_between h hp hq
  case paced => exact toPoint_scaled _
  case moved =>
    intro dir result hresult c p hp
    obtain ⟨q, hq, hgates, hvalues⟩ := toPoint_shifted h dir.2 hresult hp
    refine ⟨q, hq, hgates, fun g voltage hvoltage => ?_⟩
    have hdelta : (dir.1.getCoefficient g).toOption = Assoc.get? g dir.1.dir_.entries :=
      Map.get_lookup dir.2 g
    rw [hdelta]
    exact hvalues g voltage hvoltage

end FalconStd.Control.ControlAxis
