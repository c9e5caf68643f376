import Mathlib.Algebra.Field.Basic
import FalconStd.Foundation.FiniteMap
import FalconStd.Collections.Map

/-! `Direction` (`control/direction/direction.fal`, `direction-wrapper.cpp`), on
the contents of its arrays.

The storage routines go through the `Map` and compare gates by contents, `==`.
The loops of the wrapper compare the shared pointers of the gate instances, which
here is equality of instances. They read the two arrays in step, as `entries`.
What sharing arrays does to these routines is `DirectionStore`. -/
namespace FalconStd.Control
open Collections Foundation

/-- Instances of gates `G`, coefficients in `R`. -/
structure Direction (G R : Type) where
  dir_ : Map G R
  deriving DecidableEq, Repr

namespace Direction

variable {G R : Type}

/-! ### Storage -/

section Storage
variable [BEq G]

def new : Direction G R := ⟨Map.new⟩

def setCoefficient (d : Direction G R) (gate : G) (coefficient : R) :
    Except Failure Unit × Direction G R :=
  let (outcome, dir) := d.dir_.set gate coefficient
  (outcome, ⟨dir⟩)

def getCoefficient (d : Direction G R) (gate : G) : Except Failure R := d.dir_.get gate

def removeGate (d : Direction G R) (gate : G) : Except Failure Unit × Direction G R :=
  let (outcome, dir) := d.dir_.remove gate
  (outcome.map fun _ => (), ⟨dir⟩)

def containsGate (d : Direction G R) (gate : G) : Bool := d.dir_.contains gate

def gates (d : Direction G R) : List G := d.dir_.keys

def domainSize (d : Direction G R) : Int := d.dir_.size

def isEmpty (d : Direction G R) : Bool := d.dir_.size == 0

def WellFormed (d : Direction G R) : Prop := d.dir_.WellFormed

end Storage

/-! ### The wrapper's loops -/

section Loops
variable [DecidableEq G]

/-- `none` is `*found = false`. -/
def coefficientAt (direction : Direction G R) (gate : G) : Option R :=
  Assoc.get? gate direction.dir_.entries

/-- One pass of the loop of `Add` and `Subtract`: the first entry with this gate
is combined in place, a gate without entry is pushed onto both arrays. -/
def combineEntry (hit : R → R → R) (miss : R → R) (result : Map G R) (gate : G) (rhs : R) :
    Map G R :=
  match result.keys_.findIdx? fun key => key == gate with
  | some j => { result with values_ := result.values_.modify j fun lhs => hit lhs rhs }
  | none => ⟨result.keys_ ++ [gate], result.values_ ++ [miss rhs]⟩

def combine (hit : R → R → R) (miss : R → R) (result other : Direction G R) : Direction G R :=
  ⟨other.dir_.entries.foldl (fun m e => combineEntry hit miss m e.1 e.2) result.dir_⟩

variable [Field R]

/-- The wrapper's helper, behind `Normalize`; `normSquared` is the routine. -/
def norm_squared (direction : Direction G R) : R :=
  direction.dir_.values_.foldl (fun result coeff => result + coeff * coeff) 0

def dot (self other : Direction G R) : R :=
  self.dir_.entries.foldl (fun dot e =>
    match other.coefficientAt e.1 with
    | some rhs => dot + e.2 * rhs
    | none => dot) 0

def scale (self : Direction G R) (factor : R) : Direction G R :=
  ⟨{ self.dir_ with values_ := self.dir_.values_.map fun coeff => coeff * factor }⟩

def add (self other : Direction G R) : Direction G R :=
  combine (fun lhs rhs => lhs + rhs) (fun rhs => rhs) self other

def subtract (self other : Direction G R) : Direction G R :=
  combine (fun lhs rhs => lhs - rhs) (fun rhs => -rhs) self other

/-- `sqrt` is `std::sqrt`. -/
def normalize [DecidableEq R] (sqrt : R → R) (self : Direction G R) : Direction G R :=
  let norm := sqrt self.norm_squared
  if norm ≠ 0 then
    ⟨{ self.dir_ with values_ := self.dir_.values_.map fun coeff => coeff / norm }⟩
  else self

def normSquared (self : Direction G R) : R := self.dot self

def norm (sqrt : R → R) (self : Direction G R) : R := sqrt self.normSquared

end Loops

/-! ### The loops on lists of entries -/

/-- The direction whose arrays a list of entries stands for. -/
def ofEntries (l : List (G × R)) : Direction G R := ⟨Map.ofEntries l⟩

@[simp] theorem entries_ofEntries (l : List (G × R)) : (ofEntries l).dir_.entries = l :=
  Map.entries_ofEntries l

section Fields
variable [Field R]

theorem scale_ofEntries (l : List (G × R)) (factor : R) :
    (ofEntries l).scale factor = ofEntries (Assoc.mapValues (fun c => c * factor) l) := by
  simp [scale, ofEntries, Map.ofEntries, Assoc.mapValues, Function.comp_def]

theorem normalize_ofEntries [DecidableEq R] (sqrt : R → R) (l : List (G × R)) :
    (ofEntries l).normalize sqrt =
      if sqrt (ofEntries l).norm_squared ≠ 0
      then (ofEntries l).scale (sqrt (ofEntries l).norm_squared)⁻¹ else ofEntries l := by
  simp only [normalize, scale, div_eq_mul_inv]

end Fields

section Entries
variable [DecidableEq G]

/-- The direction as a vector over gates. -/
def meaning [Zero R] (d : Direction G R) : FiniteMap G R := FiniteMap.ofList d.dir_.entries

/-- A direction with aligned arrays and distinct gates is one of a distinct list. -/
theorem exists_entries {d : Direction G R} (h : d.WellFormed) :
    ∃ l, d = ofEntries l ∧ Assoc.Distinct l :=
  ⟨d.dir_.entries, by rw [ofEntries, Map.ofEntries_entries h.aligned], h.distinct_entries⟩

theorem wellFormed_ofEntries (l : List (G × R)) :
    (ofEntries l).WellFormed ↔ Assoc.Distinct l := Map.wellFormed_ofEntries l

@[simp] theorem coefficientAt_ofEntries (l : List (G × R)) (gate : G) :
    (ofEntries l).coefficientAt gate = Assoc.get? gate l := by
  rw [coefficientAt, entries_ofEntries]

@[simp] theorem meaning_ofEntries [Zero R] (l : List (G × R)) :
    (ofEntries l).meaning = FiniteMap.ofList l := by
  rw [meaning, entries_ofEntries]

theorem combineEntry_ofEntries (hit : R → R → R) (miss : R → R) (l : List (G × R)) (gate : G)
    (rhs : R) :
    combineEntry hit miss (Map.ofEntries l) gate rhs =
      Map.ofEntries (Assoc.mergeEntry hit miss l (gate, rhs)) := by
  have hfind : (Map.ofEntries l).keys_.findIdx? (fun key => key == gate) = Assoc.index? gate l :=
    Assoc.findIdx?_keys gate l
  rw [combineEntry, hfind]
  cases hi : Assoc.index? gate l with
  | none =>
    have hnone := (Assoc.index?_eq_none_iff gate l).mp hi
    simp [Assoc.mergeEntry, hnone, Assoc.set_of_get?_none, Map.ofEntries]
  | some j =>
    have hvalue := Assoc.get?_eq_values_index hi
    have hlt : j < (l.map Prod.snd).length := by simpa using Assoc.index?_lt hi
    have hget : Assoc.get? gate l = some (l.map Prod.snd)[j] := by
      rw [← hvalue, List.getElem?_eq_getElem hlt]
    have hin : Assoc.contains gate l = true := by rw [← Assoc.index?_isSome, hi]; rfl
    have hkeys := Assoc.keys_set gate (hit (l.map Prod.snd)[j] rhs) l
    rw [hin, if_pos rfl] at hkeys
    simp only [Assoc.mergeEntry, hget, Map.ofEntries, hkeys, ← Assoc.values_set_index _ hi,
      List.modify_eq_set_getElem?, List.getElem?_eq_getElem hlt]
    simp

theorem combine_ofEntries (hit : R → R → R) (miss : R → R) (a b : List (G × R)) :
    combine hit miss (ofEntries a) (ofEntries b) = ofEntries (Assoc.merge hit miss a b) := by
  rw [combine, entries_ofEntries]
  unfold Assoc.merge
  induction b generalizing a with
  | nil => rfl
  | cons e rest ih =>
    rw [List.foldl_cons, List.foldl_cons, ← ih]
    simp only [ofEntries, combineEntry_ofEntries]

variable [Field R]

theorem dot_fold (b a : List (G × R)) (acc : R) :
    a.foldl (fun dot e =>
      match (ofEntries b).coefficientAt e.1 with
      | some rhs => dot + e.2 * rhs
      | none => dot) acc = acc + (a.map fun e => e.2 * (FiniteMap.ofList b).val e.1).sum := by
  induction a generalizing acc with
  | nil => simp
  | cons e rest ih =>
    have hval : (FiniteMap.ofList b).val e.1 = (Assoc.get? e.1 b).getD 0 := rfl
    rw [List.foldl_cons, ih, coefficientAt_ofEntries, List.map_cons, List.sum_cons, hval]
    cases Assoc.get? e.1 b with
    | none => simp
    | some rhs =>
      simp only [Option.getD_some]
      ring

/-- The double loop computes the inner product. -/
theorem dot_ofEntries {a : List (G × R)} (ha : Assoc.Distinct a) (b : List (G × R)) :
    (ofEntries a).dot (ofEntries b) = (FiniteMap.ofList a).dot (FiniteMap.ofList b) := by
  rw [dot, entries_ofEntries, dot_fold, zero_add, FiniteMap.sum_entries ha,
    ← FiniteMap.dot_eq_sum _ _ (Finset.Subset.refl _)]

theorem squares_fold (values : List R) (acc : R) :
    values.foldl (fun result coeff => result + coeff * coeff) acc =
      acc + (values.map fun coeff => coeff * coeff).sum := by
  induction values generalizing acc with
  | nil => simp
  | cons c rest ih =>
    rw [List.foldl_cons, ih, List.map_cons, List.sum_cons, add_assoc]

/-- With distinct gates, the search of `Dot` finds every gate at its own place. -/
theorem norm_squared_ofEntries {l : List (G × R)} (h : Assoc.Distinct l) :
    (ofEntries l).norm_squared = (ofEntries l).dot (ofEntries l) := by
  rw [norm_squared, squares_fold, dot, entries_ofEntries, dot_fold]
  congr 2
  rw [ofEntries, Map.ofEntries, List.map_map]
  refine List.map_congr_left fun e he => ?_
  have hval : (FiniteMap.ofList l).val e.1 = e.2 := by
    show (Assoc.get? e.1 l).getD 0 = e.2
    have hmem : (e.1, e.2) ∈ l := he
    rw [Assoc.get?_of_mem h hmem (beq_self_eq_true _)]
    rfl
  rw [hval]
  rfl

/-! ### What the routines mean -/

variable {a b : Direction G R}

omit [Field R] in
theorem new_wellFormed : (new : Direction G R).WellFormed :=
  (wellFormed_ofEntries []).mpr Assoc.distinct_nil

theorem new_meaning : (new : Direction G R).meaning = FiniteMap.empty := FiniteMap.ofList_nil

theorem setCoefficient_spec (ha : a.WellFormed) (gate : G) (coefficient : R) :
    ∃ d, a.setCoefficient gate coefficient = (.ok (), d) ∧ d.WellFormed ∧
      d.meaning = a.meaning.set gate coefficient := by
  obtain ⟨l, rfl, hl⟩ := exists_entries ha
  refine ⟨ofEntries (Assoc.set gate coefficient l), ?_, ?_, ?_⟩
  · simp only [setCoefficient, ofEntries, Map.set_ofEntries]
  · exact (wellFormed_ofEntries _).mpr (Assoc.distinct_set gate coefficient hl)
  · rw [meaning_ofEntries, meaning_ofEntries, FiniteMap.ofList_set]

theorem removeGate_spec (ha : a.WellFormed) (gate : G) :
    ∃ d, a.removeGate gate = (.ok (), d) ∧ d.WellFormed ∧ d.meaning = a.meaning.remove gate := by
  obtain ⟨l, rfl, hl⟩ := exists_entries ha
  refine ⟨ofEntries (Assoc.remove gate l), ?_, ?_, ?_⟩
  · simp only [removeGate, ofEntries, Map.remove_ofEntries]
    rfl
  · exact (wellFormed_ofEntries _).mpr (Assoc.distinct_remove gate hl)
  · rw [meaning_ofEntries, meaning_ofEntries, FiniteMap.ofList_remove gate hl]

theorem getCoefficient_meaning (ha : a.WellFormed) (gate : G) :
    (a.getCoefficient gate).toOption = a.meaning.get? gate := by
  obtain ⟨l, rfl, _⟩ := exists_entries ha
  rw [meaning_ofEntries, FiniteMap.get?_ofList]
  show ((Map.ofEntries l).get gate).toOption = _
  rw [Map.get_ofEntries]
  cases Assoc.get? gate l <;> rfl

theorem containsGate_meaning (ha : a.WellFormed) (gate : G) :
    a.containsGate gate = decide (gate ∈ a.meaning.dom) := by
  obtain ⟨l, rfl, _⟩ := exists_entries ha
  show (Map.ofEntries l).contains gate = _
  rw [Map.contains_ofEntries, Assoc.contains_eq_isSome, meaning_ofEntries, ← FiniteMap.get?_ofList,
    FiniteMap.get?_isSome]

theorem domainSize_meaning (ha : a.WellFormed) : a.domainSize = a.meaning.dom.card := by
  obtain ⟨l, rfl, hl⟩ := exists_entries ha
  rw [meaning_ofEntries, FiniteMap.card_ofList hl]
  exact Map.size_ofEntries l

theorem dot_meaning (ha : a.WellFormed) (hb : b.WellFormed) : a.dot b = a.meaning.dot b.meaning := by
  obtain ⟨l, rfl, hl⟩ := exists_entries ha
  obtain ⟨l', rfl, _⟩ := exists_entries hb
  rw [dot_ofEntries hl, meaning_ofEntries, meaning_ofEntries]

theorem norm_squared_eq (ha : a.WellFormed) : a.norm_squared = a.dot a := by
  obtain ⟨l, rfl, hl⟩ := exists_entries ha
  exact norm_squared_ofEntries hl

theorem scale_wellFormed (ha : a.WellFormed) (factor : R) : (a.scale factor).WellFormed := by
  obtain ⟨l, rfl, hl⟩ := exists_entries ha
  rw [scale_ofEntries, wellFormed_ofEntries]
  exact Assoc.distinct_mapValues _ hl

theorem scale_meaning (ha : a.WellFormed) (factor : R) :
    (a.scale factor).meaning = a.meaning.scale factor := by
  obtain ⟨l, rfl, _⟩ := exists_entries ha
  rw [scale_ofEntries, meaning_ofEntries, meaning_ofEntries, FiniteMap.ofList_mapValues]

omit [Field R] in
theorem combine_wellFormed (hit : R → R → R) (miss : R → R) (ha : a.WellFormed)
    (hb : b.WellFormed) : (combine hit miss a b).WellFormed := by
  obtain ⟨l, rfl, hl⟩ := exists_entries ha
  obtain ⟨l', rfl, _⟩ := exists_entries hb
  rw [combine_ofEntries, wellFormed_ofEntries]
  exact Assoc.distinct_merge _ _ l' hl

theorem add_wellFormed (ha : a.WellFormed) (hb : b.WellFormed) : (a.add b).WellFormed :=
  combine_wellFormed _ _ ha hb

theorem subtract_wellFormed (ha : a.WellFormed) (hb : b.WellFormed) :
    (a.subtract b).WellFormed :=
  combine_wellFormed _ _ ha hb

theorem add_meaning (ha : a.WellFormed) (hb : b.WellFormed) :
    (a.add b).meaning = a.meaning.add b.meaning := by
  obtain ⟨l, rfl, _⟩ := exists_entries ha
  obtain ⟨l', rfl, hl'⟩ := exists_entries hb
  rw [add, combine_ofEntries, meaning_ofEntries, FiniteMap.ofList_merge_add _ hl',
    meaning_ofEntries, meaning_ofEntries]

theorem subtract_meaning (ha : a.WellFormed) (hb : b.WellFormed) :
    (a.subtract b).meaning = a.meaning.sub b.meaning := by
  obtain ⟨l, rfl, _⟩ := exists_entries ha
  obtain ⟨l', rfl, hl'⟩ := exists_entries hb
  rw [subtract, combine_ofEntries, meaning_ofEntries, FiniteMap.ofList_merge_sub _ hl',
    meaning_ofEntries, meaning_ofEntries]

theorem normalize_cases [DecidableEq R] (sqrt : R → R) (ha : a.WellFormed) :
    a.normalize sqrt = if sqrt (a.dot a) ≠ 0 then a.scale (sqrt (a.dot a))⁻¹ else a := by
  obtain ⟨l, rfl, hl⟩ := exists_entries ha
  rw [normalize_ofEntries, norm_squared_ofEntries hl]

theorem normalize_wellFormed [DecidableEq R] (sqrt : R → R) (ha : a.WellFormed) :
    (a.normalize sqrt).WellFormed := by
  rw [normalize_cases sqrt ha]
  split
  · exact scale_wellFormed ha _
  · exact ha

theorem normalize_meaning [DecidableEq R] (sqrt : R → R) (ha : a.WellFormed) :
    (a.normalize sqrt).meaning = a.meaning.normalize sqrt := by
  rw [normalize_cases sqrt ha, FiniteMap.normalize, ← dot_meaning ha ha]
  split
  · exact scale_meaning ha _
  · rfl

end Entries

end Direction

end FalconStd.Control
