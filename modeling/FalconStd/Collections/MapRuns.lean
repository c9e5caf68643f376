import FalconStd.Foundation.Run
import FalconStd.Collections.Map

/-! What a `Map` is for: a finite map in the order of first insertion.

`reference` answers every routine on an association list. The two arrays of the
map stand for that list after every sequence of calls (`refines_reference`), for
any equality of keys; when the equality is an equivalence, a map so built obeys
the laws clients rely on (`Lawful`). -/
namespace FalconStd.Collections.Map
open Foundation

variable {K V : Type}

/-- A call of one of the routines. -/
inductive Call (K V : Type) where
  | new
  | set (key : K) (value : V)
  | remove (key : K)
  | clear
  | get (key : K)
  | getOr (key : K) (default_value : V)
  | contains (key : K)
  | size
  | isEmpty
  | keys
  | values

inductive Reply (K V : Type) where
  | none
  | value (v : V)
  | flag (b : Bool)
  | count (n : Int)
  | keys (ks : List K)
  | values (vs : List V)
  deriving DecidableEq

variable [BEq K]

def call (m : Map K V) : Call K V → Except Failure (Reply K V) × Map K V
  | .new => (.ok .none, new)
  | .set key value => let (outcome, m') := m.set key value; (outcome.map fun _ => .none, m')
  | .remove key => let (outcome, m') := m.remove key; (outcome.map .flag, m')
  | .clear => (.ok .none, m.clear)
  | .get key => ((m.get key).map .value, m)
  | .getOr key default_value => ((m.getOr key default_value).map .value, m)
  | .contains key => (.ok (.flag (m.contains key)), m)
  | .size => (.ok (.count m.size), m)
  | .isEmpty => (.ok (.flag m.isEmpty), m)
  | .keys => (.ok (.keys m.keys), m)
  | .values => (.ok (.values m.values), m)

/-- The reference: an association list. -/
def reference (l : List (K × V)) : Call K V → Except Failure (Reply K V) × List (K × V)
  | .new => (.ok .none, [])
  | .set key value => (.ok .none, Assoc.set key value l)
  | .remove key => (.ok (.flag (Assoc.contains key l)), Assoc.remove key l)
  | .clear => (.ok .none, [])
  | .get key =>
    match Assoc.get? key l with
    | some v => (.ok (.value v), l)
    | none => (.error (ArrayValue.outOfBounds "GetIndex" (-1) l.length), l)
  | .getOr key default_value => (.ok (.value ((Assoc.get? key l).getD default_value)), l)
  | .contains key => (.ok (.flag (Assoc.contains key l)), l)
  | .size => (.ok (.count l.length), l)
  | .isEmpty => (.ok (.flag (l.length == 0)), l)
  | .keys => (.ok (.keys (l.map Prod.fst)), l)
  | .values => (.ok (.values (l.map Prod.snd)), l)

/-- One call on the arrays of a list is that call on the list. -/
theorem call_ofEntries (l : List (K × V)) (c : Call K V) :
    (ofEntries l).call c = ((reference l c).1, ofEntries (reference l c).2) := by
  cases c with
  | new => rfl
  | set key value =>
    simp only [call, set_ofEntries, reference]
    rfl
  | remove key =>
    simp only [call, remove_ofEntries, reference]
    rfl
  | clear => rfl
  | get key =>
    simp only [call, get_ofEntries, reference]
    cases Assoc.get? key l <;> rfl
  | getOr key default_value =>
    simp only [call, getOr_ofEntries, reference]
    rfl
  | contains key => simp only [call, contains_ofEntries, reference]
  | size => simp only [call, size_ofEntries, reference]
  | isEmpty =>
    have hsize : (ofEntries l).isEmpty = (l.length == 0) := by
      simp [isEmpty, ofEntries, ArrayValue.size, Bool.beq_eq_decide_eq]
    simp only [call, hsize, reference]
  | keys => rfl
  | values => rfl

/-- The map after a sequence of calls. -/
def after (calls : List (Call K V)) : Map K V := run (next call) new calls

def referenceAfter (calls : List (Call K V)) : List (K × V) := run (next reference) [] calls

theorem after_eq (calls : List (Call K V)) : after calls = ofEntries (referenceAfter calls) :=
  run_simulation (R := fun m l => m = ofEntries l)
    (fun m l c h => by rw [h, next, call_ofEntries]; rfl) new [] rfl calls

theorem outputs_eq (calls : List (Call K V)) :
    outputs call (new : Map K V) calls = outputs reference [] calls :=
  outputs_simulation (R := fun m l => m = ofEntries l)
    (fun m l c h => by rw [h, call_ofEntries])
    (fun m l c h => by rw [h, next, call_ofEntries]; rfl) new [] rfl calls

theorem reference_distinct (l : List (K × V)) (c : Call K V) (h : Assoc.Distinct l) :
    Assoc.Distinct (reference l c).2 := by
  cases c with
  | new => exact Assoc.distinct_nil
  | set key value => exact Assoc.distinct_set key value h
  | remove key => exact Assoc.distinct_remove key h
  | clear => exact Assoc.distinct_nil
  | get key =>
    simp only [reference]
    cases Assoc.get? key l <;> exact h
  | _ => exact h

theorem after_distinct (calls : List (Call K V)) :
    Assoc.Distinct (referenceAfter calls : List (K × V)) :=
  run_invariant (fun l c h => reference_distinct l c h) [] Assoc.distinct_nil calls

/-! ### What clients rely on -/

/-- The laws of a finite map, of the two arrays: aligned and without duplicates,
`Get` raising exactly off the keys and changing nothing, `Remove` reporting
whether it took the key out, and positions shared by `Keys` and `Values`. -/
structure Lawful (m : Map K V) : Prop where
  wellFormed : m.WellFormed
  get_raises : ∀ key, (∃ failure, m.get key = .error failure) ↔ m.contains key = false
  get_keeps : ∀ key, (m.call (.get key)).2 = m
  remove_reports : ∀ key, (m.remove key).1 = .ok (m.contains key)
  remove_absent : ∀ key, (m.remove key).2.contains key = false
  same_entry : ∀ (i : Nat) (key : K) (value : V), m.keys[i]? = some key →
    m.values[i]? = some value → m.get key = .ok value

theorem get_raises_iff (l : List (K × V)) (key : K) :
    (∃ failure, (ofEntries l).get key = .error failure) ↔ (ofEntries l).contains key = false := by
  rw [get_ofEntries, contains_ofEntries, Assoc.contains_eq_isSome]
  cases Assoc.get? key l <;> simp

section Equivalence
variable [EquivBEq K]

theorem remove_absent {l : List (K × V)} (h : Assoc.Distinct l) (key : K) :
    ((ofEntries l).remove key).2.contains key = false := by
  rw [remove_ofEntries, contains_ofEntries, Assoc.contains_eq_isSome, Assoc.get?_remove h]
  simp

theorem get_at {l : List (K × V)} (h : Assoc.Distinct l) {i : Nat} {key : K} {value : V}
    (hk : (ofEntries l).keys[i]? = some key) (hv : (ofEntries l).values[i]? = some value) :
    (ofEntries l).get key = .ok value := by
  have hentry : l[i]? = some (key, value) := by
    simp only [keys, values, ofEntries, List.getElem?_map, Option.map_eq_some_iff] at hk hv
    obtain ⟨e, he, rfl⟩ := hk
    obtain ⟨e', he', rfl⟩ := hv
    obtain rfl : e = e' := Option.some.inj (he.symm.trans he')
    exact he
  have hmem : (key, value) ∈ l := List.mem_of_getElem? hentry
  rw [get_ofEntries, Assoc.get?_of_mem h hmem BEq.rfl]

theorem lawful_ofEntries {l : List (K × V)} (h : Assoc.Distinct l) : (ofEntries l).Lawful where
  wellFormed := (wellFormed_ofEntries l).mpr h
  get_raises := get_raises_iff l
  get_keeps := fun _ => rfl
  remove_reports := fun key => by rw [remove_ofEntries, contains_ofEntries]
  remove_absent := remove_absent h
  same_entry := fun _ _ _ hk hv => get_at h hk hv

/-- **A `Map` is a finite map in first-insertion order**: after any sequence of
calls its arrays are those of the reference list, every answer along the way was
the reference's, and the laws hold. -/
theorem refines_reference (calls : List (Call K V)) :
    outputs call (new : Map K V) calls = outputs reference [] calls ∧
      (after calls : Map K V).keys_ = (referenceAfter calls : List (K × V)).map Prod.fst ∧
      (after calls : Map K V).values_ = (referenceAfter calls : List (K × V)).map Prod.snd ∧
      (after calls : Map K V).Lawful := by
  have heq : (after calls : Map K V) = ofEntries (referenceAfter calls) := after_eq calls
  refine ⟨outputs_eq calls, by rw [heq]; rfl, by rw [heq]; rfl, ?_⟩
  rw [heq]
  exact lawful_ofEntries (after_distinct calls)

/-- The equality of strings is one such equality. -/
theorem refines_reference_strings :
    outputs call (new : Map String Int)
        [.set "k" 1, .set "m" 5, .set "k" 2, .remove "m", .get "k", .size] =
      outputs reference []
        [.set "k" 1, .set "m" 5, .set "k" 2, .remove "m", .get "k", .size] :=
  (refines_reference _).1

end Equivalence

end FalconStd.Collections.Map
