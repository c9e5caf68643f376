import FalconStd.Control.AxisDomain

/-! What `Shifted` computes: the sum of two functions on the gates of the axis.

Its nested loops look each gate of the shift up among the offsets and add in
place. With distinct gates on both sides every offset is met at most once
(`shiftEntries_ofEntries`), so shifts commute (`shifted_law`). -/
namespace FalconStd.Control.ControlAxis
open Collections Foundation

variable {G R : Type} [DecidableEq G] [Field R]

/-! ### The loops -/

/-- The inner loop changes the offset of the gate it finds, and no other. -/
theorem shiftEntry_ofEntries {l : List (G × Voltage R)} (h : Assoc.Distinct l) (gate : G)
    (delta : R) :
    shiftEntry (Map.ofEntries l) gate delta =
      Map.ofEntries (Assoc.mapEntries
        (fun key voltage => if key == gate then ⟨voltage.value_ + delta⟩ else voltage) l) := by
  have hindex : (Map.ofEntries l).keys_.findIdx? (fun key => gate == key) =
      Assoc.index? gate l := by
    rw [← Assoc.findIdx?_keys]
    congr 1
    funext key
    exact BEq.comm
  have hvalues := Assoc.modify_index h gate fun voltage => (⟨voltage.value_ + delta⟩ : Voltage R)
  rw [shiftEntry, hindex]
  cases hi : Assoc.index? gate l with
  | none =>
    rw [hi] at hvalues
    simp only [Map.ofEntries, Assoc.keys_mapEntries, ← hvalues]
  | some j =>
    rw [hi] at hvalues
    simp only [Map.ofEntries, Assoc.keys_mapEntries, ← hvalues]

/-- The coefficient of a gate in the entries of a shift, zero where it has none. -/
def deltaAt (shift : List (G × R)) (gate : G) : R := (Assoc.get? gate shift).getD 0

/-- The outer loop adds to every offset the coefficient of its gate. -/
theorem shiftEntries_ofEntries {shift : List (G × R)} (hshift : Assoc.Distinct shift)
    {l : List (G × Voltage R)} (h : Assoc.Distinct l) :
    shift.foldl (fun m e => shiftEntry m e.1 e.2) (Map.ofEntries l) =
      Map.ofEntries (Assoc.mapEntries
        (fun key voltage => ⟨voltage.value_ + deltaAt shift key⟩) l) := by
  induction shift generalizing l with
  | nil => simp [Assoc.mapEntries, deltaAt]
  | cons e rest ih =>
    have htail := (Assoc.distinct_cons.mp hshift).2
    rw [List.foldl_cons, shiftEntry_ofEntries h, ih htail (Assoc.distinct_mapEntries _ h),
      Assoc.mapEntries_mapEntries]
    congr 2
    funext key voltage
    by_cases hkey : key = e.1
    · -- the rest of the shift does not name this gate again
      subst hkey
      have hrest : Assoc.get? e.1 rest = none :=
        (Assoc.get?_eq_none_iff e.1 rest).mpr (Assoc.distinct_others hshift BEq.rfl)
      simp [deltaAt, Assoc.get?, hrest]
    · have hne : ¬ e.1 = key := fun heq => hkey heq.symm
      simp [deltaAt, Assoc.get?, hkey, hne]

/-! ### The law -/

/-- The offsets of an axis after a shift, as a function of the gate. -/
def shiftedOffset (axis : ControlAxis G R) (dir : Direction G R) : Map G (Voltage R) :=
  Map.ofEntries (Assoc.mapEntries
    (fun gate voltage => ⟨voltage.value_ + deltaAt dir.dir_.entries gate⟩)
    axis.offset_.location_.entries)

variable {axis result : ControlAxis G R} {dir : Direction G R}

theorem shifted_eq (h : axis.offset_.WellFormed) (hdir : dir.WellFormed)
    (hresult : axis.shifted dir = .ok result) :
    result = { axis with offset_ := ⟨axis.shiftedOffset dir⟩ } := by
  have hloop : dir.dir_.entries.foldl (fun m e => shiftEntry m e.1 e.2) axis.offset_.location_ =
      axis.shiftedOffset dir := by
    have hentries := shiftEntries_ofEntries (Map.WellFormed.distinct_entries hdir)
      (Map.WellFormed.distinct_entries h)
    rwa [Map.ofEntries_entries h.aligned] at hentries
  rw [shifted, hloop, bind_ok_iff] at hresult
  obtain ⟨_debug_voltage, _, hok⟩ := hresult
  exact (Except.ok.inj hok).symm

theorem shiftedOffset_wellFormed (h : axis.offset_.WellFormed) (dir : Direction G R) :
    (axis.shiftedOffset dir).WellFormed :=
  (Map.wellFormed_ofEntries _).mpr (Assoc.distinct_mapEntries _ h.distinct_entries)

theorem shiftedOffset_keys (h : axis.offset_.WellFormed) (dir : Direction G R) :
    (axis.shiftedOffset dir).keys_ = axis.offset_.location_.keys_ := by
  have hkeys : (axis.shiftedOffset dir).keys_ = axis.offset_.location_.entries.map Prod.fst :=
    Assoc.keys_mapEntries _ _
  rw [hkeys, Map.entries, List.map_fst_zip (Nat.le_of_eq h.aligned)]

theorem shiftedOffset_lookup (axis : ControlAxis G R) (dir : Direction G R) (gate : G) :
    (axis.shiftedOffset dir).lookup gate =
      (axis.offset_.location_.lookup gate).map fun voltage =>
        ⟨voltage.value_ + deltaAt dir.dir_.entries gate⟩ := by
  rw [shiftedOffset, Map.lookup, Map.entries_ofEntries, Assoc.get?_mapEntries]
  rfl

/-- What a shift owes: the gates in their order, the amplitudes, and each offset
moved by the shift's coefficient for its gate, if it has one. -/
structure ShiftsBy (axis result : ControlAxis G R) (dir : Direction G R) : Prop where
  gates : result.gates = axis.gates
  amplitudes : result.direction_ = axis.direction_
  moves : ∀ g voltage delta, axis.getOffset g = .ok voltage → dir.getCoefficient g = .ok delta →
    result.getOffset g = .ok ⟨voltage.value_ + delta⟩
  keeps : ∀ g voltage, axis.getOffset g = .ok voltage → dir.containsGate g = false →
    result.getOffset g = .ok voltage
  ignores : ∀ g, axis.containsGate g = false → result.containsGate g = false

theorem shiftsBy_of_shifted (h : axis.offset_.WellFormed) (hdir : dir.WellFormed)
    (hresult : axis.shifted dir = .ok result) : axis.ShiftsBy result dir := by
  rw [shifted_eq h hdir hresult]
  have hnew := shiftedOffset_wellFormed h dir
  constructor
  case gates => exact shiftedOffset_keys h dir
  case amplitudes => rfl
  case moves =>
    intro g voltage delta hvoltage hdelta
    have hv := (Map.get_eq_ok_iff h g voltage).mp hvoltage
    have hd : Assoc.get? g dir.dir_.entries = some delta :=
      (Map.get_eq_ok_iff hdir g delta).mp hdelta
    refine (Map.get_eq_ok_iff hnew g _).mpr ?_
    rw [shiftedOffset_lookup, hv, deltaAt, hd]
    rfl
  case keeps =>
    intro g voltage hvoltage hout
    have hv := (Map.get_eq_ok_iff h g voltage).mp hvoltage
    have hd : Assoc.get? g dir.dir_.entries = none := by
      have hlookup := Map.contains_lookup hdir g
      rw [show dir.dir_.contains g = false from hout] at hlookup
      simpa [Map.lookup] using hlookup.symm
    refine (Map.get_eq_ok_iff hnew g _).mpr ?_
    rw [shiftedOffset_lookup, hv, deltaAt, hd]
    simp
  case ignores =>
    intro g hout
    exact (Map.contains_of_keys (shiftedOffset_keys h dir) g).trans hout

theorem shiftedOffset_comm (axis : ControlAxis G R) (d e : Direction G R) :
    shiftedOffset { axis with offset_ := ⟨axis.shiftedOffset d⟩ } e =
      shiftedOffset { axis with offset_ := ⟨axis.shiftedOffset e⟩ } d := by
  simp only [shiftedOffset, Map.entries_ofEntries, Assoc.mapEntries_mapEntries, add_right_comm]

/-- **The law of `Shifted`**: a shift that returns moves each offset by its own
coefficient and nothing else, and two shifts leave the same offsets in either order. -/
theorem shifted_law (axis : ControlAxis G R) (d e : Direction G R) (h : axis.offset_.WellFormed)
    (hd : d.WellFormed) (he : e.WellFormed) :
    (∀ result, axis.shifted d = .ok result → axis.ShiftsBy result d) ∧
      ∀ first both first' both', axis.shifted d = .ok first → first.shifted e = .ok both →
        axis.shifted e = .ok first' → first'.shifted d = .ok both' →
          both.offset_ = both'.offset_ := by
  refine ⟨fun result => shiftsBy_of_shifted h hd, ?_⟩
  intro first both first' both' hfirst hboth hfirst' hboth'
  obtain rfl := shifted_eq h hd hfirst
  obtain rfl := shifted_eq h he hfirst'
  have hd' := shiftedOffset_wellFormed h d
  have he' := shiftedOffset_wellFormed h e
  rw [shifted_eq (by exact hd') he hboth, shifted_eq (by exact he') hd hboth']
  exact congrArg Point.mk (shiftedOffset_comm axis d e)

theorem shifted_law_two :
    ShiftsBy (⟨⟨⟨["P1", "P2"], [⟨1⟩, ⟨2⟩]⟩⟩, ⟨⟨["P2"], [3]⟩⟩⟩ : ControlAxis String ℚ)
      ⟨⟨⟨["P1", "P2"], [⟨1⟩, ⟨9⟩]⟩⟩, ⟨⟨["P2"], [3]⟩⟩⟩ ⟨⟨["B1", "P2"], [5, 7]⟩⟩ :=
  (shifted_law (⟨⟨⟨["P1", "P2"], [⟨1⟩, ⟨2⟩]⟩⟩, ⟨⟨["P2"], [3]⟩⟩⟩ : ControlAxis String ℚ)
    ⟨⟨["B1", "P2"], [5, 7]⟩⟩ ⟨⟨["P1"], [4]⟩⟩ ⟨rfl, by decide⟩ ⟨rfl, by decide⟩ ⟨rfl, by decide⟩).1 _ (by decide +kernel)

end FalconStd.Control.ControlAxis
