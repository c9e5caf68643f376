import FalconStd.Foundation.Loop
import FalconStd.Control.AxisPoints

/-! The vector indices of `control-axis-wrapper.cpp`.

The wrapper's loops index one vector by the size of another, and read the first
element of the offsets for nothing at the end. Here the loops keep their indices,
and every read is `unchecked`. On reachable axes they compute what the routines of
`ControlAxis` do, and `reads_in_range_iff` says on which of them every index is in
range. -/
namespace FalconStd.Control.ControlAxis
open Collections Foundation

variable {G R : Type}

/-- The call does not read past the end of a vector; it may raise. -/
def NeverOutOfRange {α : Type} (x : Except Failure α) : Prop :=
  ∀ i size, x ≠ .error (.outOfRange i size)

namespace Indexed

section Construction
variable [Field R]

/-- One pass of the loop of `NewFromPoints`, on the keys and values it builds. -/
def difference (offset point : Point G R) (built : List G × List R) (i : Nat) :
    Except Failure (List G × List R) := do
  let gate ← unchecked offset.location_.keys_ i
  let off_voltage ← unchecked offset.location_.values_ i
  let point_voltage ← unchecked point.location_.values_ i
  .ok (built.1 ++ [gate], built.2 ++ [point_voltage.value_ - off_voltage.value_])

def newFromPoints (offset point : Point G R) : Except Failure (ControlAxis G R) := do
  let built ← forRange (difference offset point) offset.location_.keys_.length ([], [])
  .ok ⟨offset, ⟨⟨built.1, built.2⟩⟩⟩

variable [DecidableEq G]

/-- The inner loop of `Shifted`, over the `j` still to come. -/
def shiftGate (dir : Direction G R) (i : Nat) (offset : Map G (Voltage R)) :
    List Nat → Except Failure (Map G (Voltage R))
  | [] => .ok offset
  | j :: rest => do
    let shift_key ← unchecked dir.dir_.keys_ i
    let offset_key ← unchecked offset.keys_ j
    if shift_key == offset_key then
      let voltage ← unchecked offset.values_ j
      let delta ← unchecked dir.dir_.values_ i
      .ok { offset with values_ := offset.values_.set j ⟨voltage.value_ + delta⟩ }
    else shiftGate dir i offset rest

def shifted (axis : ControlAxis G R) (dir : Direction G R) : Except Failure (ControlAxis G R) := do
  let offset ← forRange (fun offset i => shiftGate dir i offset (List.range offset.keys_.length))
    dir.dir_.keys_.length axis.offset_.location_
  let _debug_voltage ← unchecked offset.values_ 0
  .ok { axis with offset_ := ⟨offset⟩ }

/-- The inner loop of `ToPoint`, over the `j` still to come. -/
def coefficient (dir : Direction G R) (i : Nat) : List Nat → Except Failure R
  | [] => .ok 0
  | j :: rest => do
    let gate ← unchecked dir.dir_.keys_ i
    let key ← unchecked dir.dir_.keys_ j
    if gate == key then unchecked dir.dir_.values_ j else coefficient dir i rest

/-- One pass of the outer loop of `ToPoint`, on the voltages of the cloned point. -/
def evaluateAt (dir : Direction G R) (coord : R) (values : List (Voltage R)) (i : Nat) :
    Except Failure (List (Voltage R)) := do
  let voltage ← unchecked values i
  let coeff ← coefficient dir i (List.range dir.dir_.keys_.length)
  .ok (values.set i ⟨voltage.value_ + coord * coeff⟩)

def toPoint (axis : ControlAxis G R) (coordinate : Voltage R) : Except Failure (Point G R) := do
  let values ← forRange (evaluateAt axis.direction_ coordinate.value_)
    axis.offset_.location_.keys_.length axis.offset_.location_.values_
  let _debug_voltage ← unchecked values 0
  .ok ⟨{ axis.offset_.location_ with values_ := values }⟩

end Construction

/-! ### The indexed loops compute the routines

Each loop is read from a count `k` on, which splits the vectors it walks. -/

section Aligned
variable {m : Map G R}

theorem read_key {pre rest : List (G × R)} {e : G × R} (h : m.keys_.length = m.values_.length)
    (hsplit : m.entries = pre ++ e :: rest) :
    unchecked m.keys_ pre.length = .ok e.1 ∧ unchecked m.values_ pre.length = .ok e.2 := by
  have hm := Map.ofEntries_entries h
  rw [hsplit] at hm
  refine ⟨ArrayValue.unchecked_of_lt ?_, ArrayValue.unchecked_of_lt ?_⟩
  · rw [← hm]
    simp [Map.ofEntries]
  · rw [← hm]
    simp [Map.ofEntries]

end Aligned

variable [DecidableEq G] [Field R]

theorem coefficient_eq {dir : Direction G R} (h : dir.WellFormed) (i : Nat)
    {pre rest : List (G × R)} (hsplit : dir.dir_.entries = pre ++ rest) :
    coefficient dir i (List.range' pre.length rest.length) = coefficientFor dir i rest := by
  induction rest generalizing pre with
  | nil => rfl
  | cons e rest ih =>
    obtain ⟨hkey, hvalue⟩ := read_key h.aligned hsplit
    have hnext : dir.dir_.entries = (pre ++ [e]) ++ rest := by simp [hsplit]
    have hrest := ih hnext
    rw [List.length_append] at hrest
    rw [List.length_cons, List.range'_succ, coefficient, coefficientFor, hkey, hvalue, ← hrest]
    rfl

theorem coefficient_range {dir : Direction G R} (h : dir.WellFormed) (i : Nat) :
    coefficient dir i (List.range dir.dir_.keys_.length) =
      coefficientFor dir i dir.dir_.entries := by
  have hlen : dir.dir_.keys_.length = dir.dir_.entries.length := by
    have := h.aligned
    simp only [Map.entries, List.length_zip]
    omega
  rw [hlen, List.range_eq_range']
  exact coefficient_eq h i (List.nil_append dir.dir_.entries).symm

theorem evaluate_loop {dir : Direction G R} (h : dir.WellFormed) (coord : R)
    (pre rest : List (Voltage R)) :
    forRange (fun values i => evaluateAt dir coord values (i + pre.length)) rest.length
        (pre ++ rest) =
      (evaluate dir coord pre.length rest).map (pre ++ ·) := by
  induction rest generalizing pre with
  | nil => simp [forRange_zero, evaluate, Except.map]
  | cons voltage rest ih =>
    have hread : unchecked (pre ++ voltage :: rest) pre.length = .ok voltage :=
      ArrayValue.unchecked_of_lt (by simp)
    rw [List.length_cons, forRange_succ, evaluateAt, Nat.zero_add, hread, coefficient_range h,
      evaluate]
    cases hcoeff : coefficientFor dir pre.length dir.dir_.entries with
    | error e => rfl
    | ok coeff =>
      have hset : (pre ++ voltage :: rest).set pre.length ⟨voltage.value_ + coord * coeff⟩ =
          (pre ++ [⟨voltage.value_ + coord * coeff⟩]) ++ rest := by simp
      have hrest := ih (pre ++ [⟨voltage.value_ + coord * coeff⟩])
      simp only [List.length_append, List.length_singleton] at hrest
      have hindex : ∀ i, i + 1 + pre.length = i + (pre.length + 1) := by
        intro i
        omega
      simp only [bind, Except.bind, hset, hindex, hrest]
      cases evaluate dir coord (pre.length + 1) rest with
      | error e => rfl
      | ok values => simp [Except.map]

theorem toPoint_eq {axis : ControlAxis G R} (h : axis.WellFormed) (coordinate : Voltage R) :
    toPoint axis coordinate = axis.toPoint coordinate := by
  have hlen : axis.offset_.location_.keys_.length = axis.offset_.location_.values_.length :=
    h.offset.aligned
  have hloop := evaluate_loop h.direction coordinate.value_ [] axis.offset_.location_.values_
  simp only [List.length_nil, Nat.add_zero, List.nil_append] at hloop
  rw [toPoint, ControlAxis.toPoint, hlen, hloop]
  cases evaluate axis.direction_ coordinate.value_ 0 axis.offset_.location_.values_ <;> rfl

/-- From `k` on, the inner loop of `Shifted` finds the gate where `findIdx?` does. -/
theorem shiftGate_eq {dir : Direction G R} {i : Nat} {gate : G} {delta : R}
    (hgate : dir.dir_.keys_[i]? = some gate) (hdelta : dir.dir_.values_[i]? = some delta)
    {offset : Map G (Voltage R)} (h : offset.keys_.length = offset.values_.length) (k n : Nat)
    (hk : k + n = offset.keys_.length)
    (hbefore : ∀ j (hj : j < offset.keys_.length), j < k → ¬ gate = offset.keys_[j]) :
    shiftGate dir i offset (List.range' k n) = .ok (shiftEntry offset gate delta) := by
  induction n generalizing k with
  | zero =>
    have hnone : offset.keys_.findIdx? (fun key => gate == key) = none := by
      rw [List.findIdx?_eq_none_iff_findIdx_eq, List.findIdx_eq_length]
      intro key hkey
      obtain ⟨j, hj, rfl⟩ := List.getElem_of_mem hkey
      simpa using hbefore j hj (by omega)
    simp only [List.range'_zero, shiftGate, shiftEntry, hnone]
  | succ n ih =>
    have hlt : k < offset.keys_.length := by omega
    have hread : unchecked offset.keys_ k = .ok offset.keys_[k] :=
      ArrayValue.unchecked_of_lt (List.getElem?_eq_getElem hlt)
    rw [List.range'_succ, shiftGate, ArrayValue.unchecked_of_lt hgate, hread]
    by_cases hfound : gate = offset.keys_[k]
    · have hindex : offset.keys_.findIdx? (fun key => gate == key) = some k := by
        rw [List.findIdx?_eq_some_iff_getElem]
        exact ⟨hlt, by simpa using hfound, fun j hj => by simpa using hbefore j (by omega) hj⟩
      have hltv : k < offset.values_.length := h ▸ hlt
      have hvalue := List.getElem?_eq_getElem hltv
      have hmodify : offset.values_.modify k (fun voltage => ⟨voltage.value_ + delta⟩) =
          offset.values_.set k ⟨offset.values_[k].value_ + delta⟩ := by
        rw [List.modify_eq_set_getElem?, hvalue]
        rfl
      simp only [bind, Except.bind, shiftEntry, hindex, ArrayValue.unchecked_of_lt hvalue,
        ArrayValue.unchecked_of_lt hdelta, hmodify]
      simp [hfound]
    · have hrest := ih (k + 1) (by omega) fun j hj hjk => by
        rcases Nat.lt_succ_iff_lt_or_eq.mp hjk with hlt' | rfl
        · exact hbefore j hj hlt'
        · exact hfound
      simp only [bind, Except.bind, beq_iff_eq, hfound, if_false, hrest]

theorem shifted_eq {axis : ControlAxis G R} {dir : Direction G R} (h : axis.offset_.WellFormed)
    (hdir : dir.WellFormed) : shifted axis dir = axis.shifted dir := by
  have hlen : dir.dir_.keys_.length = dir.dir_.entries.length := by
    have := hdir.aligned
    simp only [Map.entries, List.length_zip]
    omega
  have hloop : forRange
      (fun offset i => shiftGate dir i offset (List.range offset.keys_.length))
      dir.dir_.keys_.length axis.offset_.location_ =
        .ok (dir.dir_.entries.foldl (fun m e => shiftEntry m e.1 e.2) axis.offset_.location_) := by
    rw [hlen, forRange_eq_foldlM (I := fun m => m.keys_.length = m.values_.length)
      (f := fun m e => .ok (shiftEntry m e.1 e.2)) ?_ ?_ _ h.aligned]
    · exact List.foldlM_pure
    · intro i hi m hm
      have hentry : dir.dir_.entries[i]? = some dir.dir_.entries[i] := List.getElem?_eq_getElem hi
      obtain ⟨hgate, hdelta⟩ := List.getElem?_zip_eq_some.mp hentry
      rw [List.range_eq_range']
      exact shiftGate_eq hgate hdelta hm 0 _ (Nat.zero_add _) fun j _ hj => absurd hj (by omega)
    · intro m e m' hm hm'
      cases hm'
      obtain ⟨hkeys, hvalues⟩ := shiftEntry_keys m e.1 e.2
      rw [hkeys, hvalues, hm]
  rw [shifted, hloop]
  rfl

omit [DecidableEq G] in
theorem difference_loop {offset : Point G R} (point : Point G R)
    (h : offset.location_.keys_.length = offset.location_.values_.length)
    {pre rest : List (G × Voltage R)} (hsplit : offset.location_.entries = pre ++ rest)
    (built : List G × List R) :
    forRange (fun built i => difference offset point built (i + pre.length)) rest.length built =
      (differences point.location_.values_ pre.length (rest.map Prod.snd)).map fun values =>
        (built.1 ++ rest.map Prod.fst, built.2 ++ values) := by
  induction rest generalizing pre built with
  | nil => simp [forRange_zero, differences, Except.map]
  | cons e rest ih =>
    obtain ⟨hkey, hvalue⟩ := read_key h hsplit
    have hnext : offset.location_.entries = (pre ++ [e]) ++ rest := by simp [hsplit]
    simp only [List.map_cons]
    rw [List.length_cons, forRange_succ, difference, Nat.zero_add, hkey, hvalue, differences]
    cases hpt : unchecked point.location_.values_ pre.length with
    | error failure => rfl
    | ok pt =>
      have hrest := ih hnext (built.1 ++ [e.1], built.2 ++ [pt.value_ - e.2.value_])
      simp only [List.length_append, List.length_singleton] at hrest
      have hindex : ∀ i, i + 1 + pre.length = i + (pre.length + 1) := by
        intro i
        omega
      simp only [bind, Except.bind, hindex, hrest]
      cases differences point.location_.values_ (pre.length + 1) (rest.map Prod.snd) with
      | error failure => rfl
      | ok values => simp [Except.map]

omit [DecidableEq G] in
theorem newFromPoints_eq {offset point : Point G R}
    (h : offset.location_.keys_.length = offset.location_.values_.length) :
    newFromPoints offset point = ControlAxis.newFromPoints offset point := by
  have hloop := difference_loop point h (List.nil_append _).symm ([], [])
  have hlen : offset.location_.entries.length = offset.location_.keys_.length := by
    simp [Map.entries, ← h]
  have hkeys : offset.location_.entries.map Prod.fst = offset.location_.keys_ :=
    List.map_fst_zip (Nat.le_of_eq h)
  have hvalues : offset.location_.entries.map Prod.snd = offset.location_.values_ :=
    List.map_snd_zip (Nat.le_of_eq h.symm)
  simp only [List.length_nil, Nat.add_zero, List.nil_append, hlen, hkeys, hvalues] at hloop
  rw [newFromPoints, hloop, ControlAxis.newFromPoints]
  cases differences point.location_.values_ 0 offset.location_.values_ <;> rfl

end Indexed

/-! ### What is in range

The loops raise nothing of their own: they fail by reading alone. -/

/-- The only failures are unchecked reads. -/
def ReadsOnly {α : Type} (x : Except Failure α) : Prop :=
  ∀ e, x = .error e → ∃ i size, e = .outOfRange i size

section Reads
variable {α β : Type}

theorem readsOnly_ok (a : α) : ReadsOnly (.ok a) := by
  intro e h
  cases h

theorem readsOnly_unchecked (l : List α) (i : Nat) : ReadsOnly (unchecked l i) := by
  intro e h
  rw [unchecked] at h
  split at h
  · cases h
  · cases h
    exact ⟨i, l.length, rfl⟩

theorem ReadsOnly.bind {x : Except Failure α} {f : α → Except Failure β} (hx : ReadsOnly x)
    (hf : ∀ a, ReadsOnly (f a)) : ReadsOnly (x >>= f) := by
  intro e h
  cases x with
  | error e' => exact hx e (by cases h; rfl)
  | ok a => exact hf a e h

theorem ReadsOnly.neverOutOfRange_iff {x : Except Failure α} (h : ReadsOnly x) :
    NeverOutOfRange x ↔ ∃ a, x = .ok a := by
  refine ⟨fun hnever => ?_, ?_⟩
  · cases hx : x with
    | ok a => exact ⟨a, rfl⟩
    | error e =>
      obtain ⟨i, size, rfl⟩ := h e hx
      exact absurd hx (hnever i size)
  · intro h i size hx
    obtain ⟨a, rfl⟩ := h
    cases hx

end Reads

section Routines
variable [Field R]

theorem readsOnly_differences (pointValues : List (Voltage R)) (i : Nat)
    (offsets : List (Voltage R)) : ReadsOnly (differences pointValues i offsets) := by
  induction offsets generalizing i with
  | nil => exact readsOnly_ok _
  | cons off rest ih =>
    exact (readsOnly_unchecked _ _).bind fun pt => (ih (i + 1)).bind fun values => readsOnly_ok _

theorem readsOnly_newFromPoints (offset point : Point G R) :
    ReadsOnly (newFromPoints offset point) :=
  (readsOnly_differences _ _ _).bind fun _ => readsOnly_ok _

theorem differences_ok_iff (pointValues : List (Voltage R)) (i : Nat) (offsets : List (Voltage R)) :
    (∃ values, differences pointValues i offsets = .ok values) ↔
      offsets = [] ∨ i + offsets.length ≤ pointValues.length := by
  refine ⟨?_, fun h => ?_⟩
  · intro h
    obtain ⟨values, hvalues⟩ := h
    induction offsets generalizing i values with
    | nil => exact .inl rfl
    | cons off rest ih =>
      rw [differences, bind_ok_iff] at hvalues
      obtain ⟨pt, hpt, hvalues⟩ := hvalues
      obtain ⟨tail, htail, _⟩ := bind_ok_iff.mp hvalues
      have hlt : i < pointValues.length := by
        rw [unchecked] at hpt
        split at hpt
        next hread => exact (List.getElem?_eq_some_iff.mp hread).1
        next => cases hpt
      rw [List.length_cons]
      rcases ih (i + 1) tail htail with rfl | hle
      · exact .inr hlt
      · exact .inr (by omega)
  · rcases h with rfl | hle
    · exact ⟨[], rfl⟩
    · exact differences_ok pointValues i offsets hle

variable [DecidableEq G]

theorem readsOnly_coefficientFor (dir : Direction G R) (i : Nat) (l : List (G × R)) :
    ReadsOnly (coefficientFor dir i l) := by
  induction l with
  | nil => exact readsOnly_ok _
  | cons e rest ih =>
    refine (readsOnly_unchecked _ _).bind fun gate => ?_
    split
    · exact readsOnly_ok _
    · exact ih

theorem readsOnly_evaluate (dir : Direction G R) (coord : R) (i : Nat)
    (voltages : List (Voltage R)) : ReadsOnly (evaluate dir coord i voltages) := by
  induction voltages generalizing i with
  | nil => exact readsOnly_ok _
  | cons voltage rest ih =>
    exact (readsOnly_coefficientFor _ _ _).bind fun coeff =>
      (ih (i + 1)).bind fun values => readsOnly_ok _

theorem readsOnly_toPoint (axis : ControlAxis G R) (coordinate : Voltage R) :
    ReadsOnly (axis.toPoint coordinate) :=
  (readsOnly_evaluate _ _ _ _).bind fun _ =>
    (readsOnly_unchecked _ _).bind fun _ => readsOnly_ok _

theorem readsOnly_shifted (axis : ControlAxis G R) (dir : Direction G R) :
    ReadsOnly (axis.shifted dir) :=
  (readsOnly_unchecked _ _).bind fun _ => readsOnly_ok _

theorem toPoint_ok_iff {axis : ControlAxis G R} (h : axis.WellFormed) (coordinate : Voltage R) :
    (∃ point, axis.toPoint coordinate = .ok point) ↔ axis.Evaluable := by
  refine ⟨fun ⟨point, hok⟩ => ?_, fun heval => ⟨_, toPoint_eq h heval coordinate.value_⟩⟩
  by_contra hnot
  obtain ⟨e, he⟩ := toPoint_raises h hnot coordinate.value_
  cases hok.symm.trans he

theorem shifted_ok_iff {axis : ControlAxis G R} (h : axis.WellFormed) (dir : Direction G R) :
    (∃ result, axis.shifted dir = .ok result) ↔ axis.gates ≠ [] := by
  have hlen := (shiftEntries_keys dir.dir_.entries axis.offset_.location_).2
  have haligned : axis.gates.length = axis.offset_.location_.values_.length := h.offset.aligned
  refine ⟨fun ⟨result, hok⟩ hnil => ?_, fun hne => ?_⟩
  · have hvalues := List.eq_nil_of_length_eq_zero
      (hlen.trans (haligned.symm.trans (congrArg List.length hnil)))
    rw [shifted, hvalues] at hok
    cases hok
  · have hpos := List.length_pos_of_ne_nil hne
    rw [haligned, ← hlen] at hpos
    have hread := ArrayValue.unchecked_of_lt (List.getElem?_eq_getElem hpos)
    exact ⟨_, by rw [shifted, hread]; rfl⟩

theorem newFromPoints_ok_iff {offset point : Point G R} (hoffset : offset.WellFormed)
    (hpoint : point.WellFormed) :
    (∃ axis, newFromPoints offset point = .ok axis) ↔
      offset.gates.length ≤ point.gates.length := by
  have ho : offset.gates.length = offset.location_.values_.length := hoffset.aligned
  have hp : point.gates.length = point.location_.values_.length := hpoint.aligned
  have hdifferences := differences_ok_iff point.location_.values_ 0 offset.location_.values_
  rw [ho, hp]
  refine ⟨fun ⟨axis, hok⟩ => ?_, fun hle => ?_⟩
  · obtain ⟨values, hvalues, _⟩ := newFromPoints_cases hok
    rcases hdifferences.mp ⟨values, hvalues⟩ with hnil | hle
    · simp [hnil]
    · omega
  · obtain ⟨values, hvalues⟩ := hdifferences.mpr (.inr (by omega))
    exact ⟨_, by rw [newFromPoints, hvalues]; rfl⟩

/-- **No index leaves its vector** in `ToPoint` of a reachable axis exactly when it
has a gate and its direction is empty or has as many; in `Shifted` when it has a
gate; in `NewFromPoints` when the second point has as many gates as the first. -/
theorem reads_in_range_iff (calls : List (Call G R)) (coordinate : Voltage R)
    (dir : {d : Direction G R // d.WellFormed}) (offset point : {p : Point G R // p.WellFormed}) :
    (NeverOutOfRange (Indexed.toPoint (after calls) coordinate) ↔ (after calls).Evaluable) ∧
      (NeverOutOfRange (Indexed.shifted (after calls) dir.1) ↔ (after calls).gates ≠ []) ∧
      (NeverOutOfRange (Indexed.newFromPoints offset.1 point.1) ↔
        offset.1.gates.length ≤ point.1.gates.length) := by
  have h := after_wellFormed calls
  refine ⟨?_, ?_, ?_⟩
  · rw [Indexed.toPoint_eq h, (readsOnly_toPoint _ _).neverOutOfRange_iff, toPoint_ok_iff h]
  · rw [Indexed.shifted_eq h.offset dir.2, (readsOnly_shifted _ _).neverOutOfRange_iff,
      shifted_ok_iff h]
  · rw [Indexed.newFromPoints_eq offset.2.aligned,
      (readsOnly_newFromPoints _ _).neverOutOfRange_iff, newFromPoints_ok_iff offset.2 point.2]

/-- A new axis has no first offset to read. -/
theorem new_reads_out_of_range :
    ¬ ∀ (calls : List (Call String ℚ)) (coordinate : Voltage ℚ)
        (dir : {d : Direction String ℚ // d.WellFormed})
        (offset point : {p : Point String ℚ // p.WellFormed}),
      NeverOutOfRange (Indexed.toPoint (after calls) coordinate) ∧
        NeverOutOfRange (Indexed.shifted (after calls) dir.1) ∧
        NeverOutOfRange (Indexed.newFromPoints offset.1 point.1) := by
  intro h
  have hnew := h [] ⟨0⟩ ⟨Direction.new, Map.wellFormed_new⟩ ⟨Point.new, Map.wellFormed_new⟩
    ⟨Point.new, Map.wellFormed_new⟩
  exact hnew.1 0 0 rfl

end Routines

end FalconStd.Control.ControlAxis
