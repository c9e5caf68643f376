import FalconStd.Foundation.Heap
import FalconStd.Collections.ArrayRuns
import FalconStd.Collections.MapRuns

/-! `Map` with its arrays in a store, and clients that hold them.

`Keys` and `Values` assign the map's own arrays to their output (`map.fal`), and a
struct assignment shares the array, so a client can mutate what a map is made of.
`intact_iff` says which mutations a map survives: along a run it stays a map
exactly as long as no client changes the length of a live array of it, or writes a
key there that another entry has. -/
namespace FalconStd.Collections
open Foundation

/-! ### Distinct elements -/

section Distinct
variable {K : Type} [BEq K] [EquivBEq K]

theorem beq_false_comm {a b : K} (h : (a == b) = false) : (b == a) = false := by
  rwa [BEq.comm]

/-- Putting an element in place keeps the others apart from it exactly when it
was none of them. -/
theorem distinct_set_iff {l : List K} {i : Nat} (hi : i < l.length) (value : K)
    (h : l.Pairwise fun a b => (a == b) = false) :
    ((l.set i value).Pairwise fun a b => (a == b) = false) ↔
      ∀ j (hj : j < l.length), j ≠ i → (l[j] == value) = false := by
  rw [List.pairwise_iff_getElem] at h ⊢
  simp only [List.length_set, List.getElem_set]
  refine ⟨fun hset j hj hne => ?_, fun hothers j k hj hk hlt => ?_⟩
  · rcases Nat.lt_or_gt_of_ne hne with hlt | hgt
    · simpa [hne.symm] using hset j i hj hi hlt
    · simpa [hne.symm] using beq_false_comm (hset i j hi hj hgt)
  · by_cases hij : i = j
    · subst hij
      simpa [Nat.ne_of_lt hlt] using beq_false_comm (hothers k hk (Nat.ne_of_gt hlt))
    · by_cases hik : i = k
      · subst hik
        simpa [hij] using hothers j hj (Nat.ne_of_lt hlt)
      · simpa [hij, hik] using h j k hj hk hlt

end Distinct

/-! ### Maps in a store -/

/-- The arrays of a map variable. -/
structure MapRef where
  keys_ : Handle
  values_ : Handle
  deriving DecidableEq, Repr

/-- A map variable, and the arrays its clients obtained from `Keys` and `Values`.
The arrays of keys and of values are two kinds of cell: `New` is the only maker of
maps, and gives each two arrays of its own. -/
structure MapStore (K V : Type) where
  keyArrays : Heap (List K)
  valueArrays : Heap (List V)
  map : MapRef
  heldKeys : List Handle
  heldValues : List Handle

namespace MapStore

variable {K V : Type}

/-- The contents of the map variable's two arrays. -/
def read (s : MapStore K V) : Map K V :=
  ⟨s.keyArrays.cell s.map.keys_, s.valueArrays.cell s.map.values_⟩

def new (s : MapStore K V) : MapStore K V :=
  let (keys, keyArrays) := s.keyArrays.alloc ArrayValue.new
  let (values, valueArrays) := s.valueArrays.alloc ArrayValue.new
  { s with keyArrays, valueArrays, map := ⟨keys, values⟩ }

/-- `Map<K, V> m = Map.New();` -/
def start : MapStore K V := new ⟨⟨fun _ => [], 0⟩, ⟨fun _ => [], 0⟩, ⟨0, 0⟩, [], []⟩

theorem read_new (s : MapStore K V) : s.new.read = Map.new := by
  simp [read, new, ArrayValue.new, Map.new, Heap.alloc]

variable [BEq K]

/-- `New` and the two queries that give an array away; every other routine works on
the two arrays in place. -/
def callMap (s : MapStore K V) : Map.Call K V → MapStore K V
  | .new => s.new
  | .keys => { s with heldKeys := s.heldKeys ++ [s.map.keys_] }
  | .values => { s with heldValues := s.heldValues ++ [s.map.values_] }
  | c =>
    let m := (Map.call s.read c).2
    { s with
      keyArrays := s.keyArrays.write s.map.keys_ m.keys_
      valueArrays := s.valueArrays.write s.map.values_ m.values_ }

def onKeys (s : MapStore K V) (r : Handle) (c : ArrayValue.Call K) : MapStore K V :=
  { s with keyArrays := s.keyArrays.write r (ArrayValue.call (s.keyArrays.cell r) c).2 }

theorem read_callMap (s : MapStore K V) (c : Map.Call K V) :
    (s.callMap c).read = (Map.call s.read c).2 := by
  cases c with
  | new => exact read_new s
  | keys => rfl
  | values => rfl
  | _ => simp [callMap, read]

theorem read_onKeys (s : MapStore K V) (r : Handle) (c : ArrayValue.Call K) :
    (s.onKeys r c).read =
      if r = s.map.keys_ then ⟨(ArrayValue.call s.read.keys_ c).2, s.read.values_⟩
      else s.read := by
  split
  case isTrue hr =>
    subst hr
    simp [read, onKeys]
  case isFalse hr =>
    have hne : s.map.keys_ ≠ r := fun h => hr h.symm
    simp [read, onKeys, Heap.write_cell_ne _ _ hne]

section Values
variable {K V : Type} [BEq V]

def onValues (s : MapStore K V) (r : Handle) (c : ArrayValue.Call V) : MapStore K V :=
  { s with valueArrays := s.valueArrays.write r (ArrayValue.call (s.valueArrays.cell r) c).2 }

theorem read_onValues (s : MapStore K V) (r : Handle) (c : ArrayValue.Call V) :
    (s.onValues r c).read =
      if r = s.map.values_ then ⟨s.read.keys_, (ArrayValue.call s.read.values_ c).2⟩
      else s.read := by
  split
  case isTrue hr =>
    subst hr
    simp [read, onValues]
  case isFalse hr =>
    have hne : s.map.values_ ≠ r := fun h => hr h.symm
    simp [read, onValues, Heap.write_cell_ne _ _ hne]

end Values

/-! ### Runs -/

/-- What runs interleave: calls of the map, and calls of the arrays a client holds,
in the order in which it obtained them. -/
inductive Action (K V : Type) where
  | call (c : Map.Call K V)
  | onKeys (i : Nat) (c : ArrayValue.Call K)
  | onValues (i : Nat) (c : ArrayValue.Call V)

variable [BEq V]

def step (s : MapStore K V) : Action K V → MapStore K V
  | .call c => s.callMap c
  | .onKeys i c =>
    match s.heldKeys[i]? with
    | some r => s.onKeys r c
    | none => s
  | .onValues i c =>
    match s.heldValues[i]? with
    | some r => s.onValues r c
    | none => s

def after (actions : List (Action K V)) : MapStore K V := run step start actions

end MapStore

/-! ### What a map survives -/

section Survives
variable {K V : Type} [BEq K]

/-- A map: its arrays aligned with distinct keys, so that every key it contains has
a value, and the value is the key's own. -/
structure Map.Intact (m : Map K V) : Prop where
  wellFormed : m.WellFormed
  get_returns : ∀ key, m.contains key = true → ∃ value, m.get key = .ok value
  own_value : ∀ (i : Nat) (key : K) (value : V), m.keys_[i]? = some key →
    m.values_[i]? = some value → m.get key = .ok value

/-- The calls on an array of keys that leave it one: those that keep its size, and
put no key in place that another entry has. -/
def KeepsKeys (keys : List K) (c : ArrayValue.Call K) : Prop :=
  ArrayValue.KeepsSize keys.length c ∧
    ∀ idx value, c = .setIndex idx value → 0 ≤ idx.toInt ∧ idx.toInt < keys.length →
      ∀ j (hj : j < keys.length), j ≠ idx.toInt.toNat → (keys[j] == value) = false

theorem wellFormed_values_iff [BEq V] {m : Map K V} (h : m.WellFormed) (c : ArrayValue.Call V) :
    (⟨m.keys_, (ArrayValue.call m.values_ c).2⟩ : Map K V).WellFormed ↔
      ArrayValue.KeepsSize m.values_.length c := by
  rw [← ArrayValue.call_length_iff]
  refine ⟨fun hm => hm.aligned.symm.trans h.aligned, fun hlen => ?_⟩
  exact ⟨h.aligned.trans hlen.symm, h.distinct⟩

variable [EquivBEq K]

theorem wellFormed_keys_iff {m : Map K V} (h : m.WellFormed) (c : ArrayValue.Call K) :
    (⟨(ArrayValue.call m.keys_ c).2, m.values_⟩ : Map K V).WellFormed ↔ KeepsKeys m.keys_ c := by
  refine ⟨fun hm => ⟨?_, ?_⟩, fun hkeep => ?_⟩
  · exact (ArrayValue.call_length_iff m.keys_ c).mp (hm.aligned.trans h.aligned.symm)
  · intro idx value heq hin
    subst heq
    have hdistinct := hm.distinct
    simp only [ArrayValue.call_setIndex_in value hin] at hdistinct
    exact (distinct_set_iff (by omega) value h.distinct).mp hdistinct
  · refine ⟨((ArrayValue.call_length_iff m.keys_ c).mpr hkeep.1).trans h.aligned, ?_⟩
    rcases ArrayValue.call_keepsSize hkeep.1 with hsame | ⟨idx, value, hc, hin, hset⟩
    · simp only [hsame]
      exact h.distinct
    · simp only [hset]
      exact (distinct_set_iff (by omega) value h.distinct).mpr (hkeep.2 idx value hc hin)

omit [EquivBEq K] in
theorem Map.call_wellFormed {m : Map K V} (h : m.WellFormed) (c : Map.Call K V) :
    (m.call c).2.WellFormed := by
  obtain ⟨l, rfl, hl⟩ := h.exists_entries
  rw [Map.call_ofEntries]
  exact (Map.wellFormed_ofEntries _).mpr (Map.reference_distinct l c hl)

/-- Aligned arrays with distinct keys are all a map needs. -/
theorem Map.intact_iff (m : Map K V) : m.Intact ↔ m.WellFormed := by
  refine ⟨Map.Intact.wellFormed, fun h => ⟨h, fun key => (Map.get_ok_iff h key).mpr, ?_⟩⟩
  obtain ⟨l, rfl, hl⟩ := h.exists_entries
  exact fun i key value => Map.get_at hl

end Survives

namespace MapStore

variable {K V : Type} [BEq K] [BEq V]

/-- What a map survives: every call of its own, every call on an array that is no
longer the map's, and on its own arrays the calls that keep them keys and values. -/
def Harmless (s : MapStore K V) : Action K V → Prop
  | .call _ => True
  | .onKeys i c => s.heldKeys[i]? = some s.map.keys_ → KeepsKeys s.read.keys_ c
  | .onValues i c =>
    s.heldValues[i]? = some s.map.values_ → ArrayValue.KeepsSize s.read.values_.length c

variable [EquivBEq K]

theorem step_wellFormed_iff {s : MapStore K V} (h : s.read.WellFormed) (a : Action K V) :
    (s.step a).read.WellFormed ↔ s.Harmless a := by
  cases a with
  | call c =>
    rw [step, read_callMap]
    exact iff_of_true (Map.call_wellFormed h c) trivial
  | onKeys i c =>
    simp only [step, Harmless]
    cases hr : s.heldKeys[i]? with
    | none => exact iff_of_true h (by simp)
    | some r =>
      simp only [read_onKeys, Option.some.injEq]
      by_cases hlive : r = s.map.keys_
      · simpa only [hlive, if_true, true_imp_iff] using wellFormed_keys_iff h c
      · simpa only [hlive, if_false, false_imp_iff, iff_true] using h
  | onValues i c =>
    simp only [step, Harmless]
    cases hr : s.heldValues[i]? with
    | none => exact iff_of_true h (by simp)
    | some r =>
      simp only [read_onValues, Option.some.injEq]
      by_cases hlive : r = s.map.values_
      · simpa only [hlive, if_true, true_imp_iff] using wellFormed_values_iff h c
      · simpa only [hlive, if_false, false_imp_iff, iff_true] using h

/-- **A map stays a map** along a run of its own calls and of calls on the arrays it
gave away exactly when every one of the latter is harmless. -/
theorem intact_iff_harmless (actions : List (Action K V)) :
    EveryStep (fun past a => (after (past ++ [a])).read.Intact) actions ↔
      EveryStep (fun past a => (after past).Harmless a) actions := by
  have hstart : (start : MapStore K V).read.WellFormed := by
    rw [start, read_new]
    exact Map.wellFormed_new
  refine everyStep_iff (J := fun past => (after past).read.WellFormed) hstart
    (fun past a h => ?_) (fun past a h hc => ?_) actions
  · rw [Map.intact_iff, after, run_concat]
    exact step_wellFormed_iff h a
  · rw [after, run_concat]
    exact (step_wellFormed_iff h a).mpr hc

/-- A client may write another value, and not a key that another entry has. -/
theorem intact_iff_harmless_strings :
    EveryStep (fun past a => (after (past ++ [a])).read.Intact)
        [.call (.set "a" (1 : Int)), .call .values, .onValues 0 (.setIndex 0 2)] ∧
      ¬ EveryStep (fun past a => (after (past ++ [a])).read.Intact)
        [.call (.set "a" (1 : Int)), .call (.set "b" 2), .call .keys,
          .onKeys 0 (.setIndex 0 "b")] := by
  constructor
  · refine (intact_iff_harmless _).mpr ?_
    intro past a future hsplit
    rcases past with _ | ⟨first, _ | ⟨second, _ | ⟨third, past⟩⟩⟩
    · cases hsplit
      trivial
    · cases hsplit
      trivial
    · cases hsplit
      exact fun _ => trivial
    · simp at hsplit
  · intro hintact
    have hharmless := (intact_iff_harmless _).mp hintact
      [.call (.set "a" 1), .call (.set "b" 2), .call .keys] (.onKeys 0 (.setIndex 0 "b")) [] rfl
    obtain ⟨-, hdistinct⟩ := hharmless (by decide)
    exact absurd (hdistinct 0 "b" rfl (by decide) 1 (by decide) (by decide)) (by decide)

/-- A key pushed to the array that `Keys` returned is contained in the map, and has
no value there. -/
theorem keys_expose :
    ¬ ∀ actions : List (Action String Int), (after actions).read.Intact := by
  intro h
  have hall := (h [.call (.set "a" 1), .call .keys, .onKeys 0 (.pushBack "b")]).get_returns "b"
  obtain ⟨value, hget⟩ := hall (by decide)
  cases hget

end MapStore

end FalconStd.Collections
