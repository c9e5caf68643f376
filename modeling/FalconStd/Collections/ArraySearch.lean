import FalconStd.Foundation.Heap
import FalconStd.Collections.Array

/-! The search loops of `array-wrapper.cpp`, with the comparison they make.

An element is a `RuntimeValue`. Two structs are compared by their contents, with the
engine's `StructInstance::operator==`, the parameter `same`; everything else with the
`==` of the variant, which compares pointers by address. -/
namespace FalconStd.Collections
open Foundation

/-- A pointer may be null. -/
inductive RuntimeValue (R : Type) where
  | nil
  | bool (b : Bool)
  | int (n : Int64)
  | float (x : R)
  | string (s : String)
  | struct (inst : Option Handle)
  | array (items : Option Handle)
  | tuple (values : Option Handle)
  deriving DecidableEq

variable {R : Type} [BEq R]

/-- The `==` of the variant; a float need not be equal to itself. -/
def RuntimeValue.variantEq : RuntimeValue R → RuntimeValue R → Bool
  | .nil, .nil => true
  | .bool a, .bool b => a == b
  | .int a, .int b => a == b
  | .float a, .float b => a == b
  | .string a, .string b => a == b
  | .struct a, .struct b => a == b
  | .array a, .array b => a == b
  | .tuple a, .tuple b => a == b
  | _, _ => false

namespace ArraySearch

section Loops
variable (same : Handle → Handle → Bool) (needle : RuntimeValue R)

def contains : List (RuntimeValue R) → Bool
  | [] => false
  | elem :: rest =>
    match elem, needle with
    | .struct lhs, .struct rhs =>
      match lhs, rhs with
      | some lhs, some rhs => if same lhs rhs then true else contains rest
      | _, _ => contains rest
    | elem, needle' => if elem.variantEq needle' then true else contains rest

/-- The pass at `i` and those after it. A vector is too short for a position not to be
an `int64_t`. -/
def indexOfFrom (i : Nat) : List (RuntimeValue R) → Int
  | [] => -1
  | elem :: rest =>
    match elem, needle with
    | .struct lhs, .struct rhs =>
      match lhs, rhs with
      | some lhs, some rhs => if same lhs rhs then i else indexOfFrom (i + 1) rest
      | _, _ => indexOfFrom (i + 1) rest
    | elem, needle' => if elem.variantEq needle' then i else indexOfFrom (i + 1) rest

def indexOf (elements : List (RuntimeValue R)) : Int := indexOfFrom same needle 0 elements

end Loops

/-! ### The comparison -/

/-- What makes an element equal to the needle. -/
inductive Equal (same : Handle → Handle → Bool) : RuntimeValue R → RuntimeValue R → Prop where
  | contents {lhs rhs : Handle} (h : same lhs rhs = true) :
      Equal same (.struct (some lhs)) (.struct (some rhs))
  | variant {elem needle : RuntimeValue R}
      (hkinds : ∀ lhs rhs, ¬ (elem = .struct lhs ∧ needle = .struct rhs))
      (h : elem.variantEq needle = true) : Equal same elem needle

/-- The decision of one pass. -/
def equal (same : Handle → Handle → Bool) : RuntimeValue R → RuntimeValue R → Bool
  | .struct (some lhs), .struct (some rhs) => same lhs rhs
  | .struct _, .struct _ => false
  | elem, needle => elem.variantEq needle

section Decision
variable {same : Handle → Handle → Bool} {elem needle : RuntimeValue R}

/-- Not two structs. -/
theorem equal_of_kinds (hkinds : ∀ lhs rhs, ¬ (elem = .struct lhs ∧ needle = .struct rhs)) :
    equal same elem needle = elem.variantEq needle := by
  cases elem with
  | struct lhs =>
    cases needle with
    | struct rhs => exact absurd ⟨rfl, rfl⟩ (hkinds lhs rhs)
    | _ => cases lhs <;> rfl
  | _ => rfl

theorem equal_iff : equal same elem needle = true ↔ Equal same elem needle := by
  constructor
  · intro h
    by_cases hkinds : ∀ lhs rhs, ¬ (elem = .struct lhs ∧ needle = .struct rhs)
    · rw [equal_of_kinds hkinds] at h
      exact .variant hkinds h
    · obtain ⟨lhs, rhs, rfl, rfl⟩ : ∃ lhs rhs, elem = .struct lhs ∧ needle = .struct rhs := by
        simpa using hkinds
      cases lhs with
      | none => cases h
      | some lhs =>
        cases rhs with
        | none => cases h
        | some rhs => exact .contents h
  · intro h
    cases h with
    | contents h => exact h
    | variant hkinds h => rw [equal_of_kinds hkinds, h]

/-- A null pointer is not equal to any struct, itself included. -/
theorem not_equal_null (inst : Option Handle) :
    ¬ Equal same (.struct none : RuntimeValue R) (.struct inst) ∧
      ¬ Equal same (.struct inst : RuntimeValue R) (.struct none) := by
  rw [← equal_iff, ← equal_iff]
  cases inst with
  | none => exact ⟨Bool.false_ne_true, Bool.false_ne_true⟩
  | some inst => exact ⟨Bool.false_ne_true, Bool.false_ne_true⟩

variable (rest : List (RuntimeValue R))

theorem contains_cons :
    contains same needle (elem :: rest) =
      if equal same elem needle then true else contains same needle rest := by
  by_cases hkinds : ∀ lhs rhs, ¬ (elem = .struct lhs ∧ needle = .struct rhs)
  · rw [equal_of_kinds hkinds, contains]
    exact fun lhs rhs helem hneedle => hkinds lhs rhs ⟨helem, hneedle⟩
  · obtain ⟨lhs, rhs, rfl, rfl⟩ : ∃ lhs rhs, elem = .struct lhs ∧ needle = .struct rhs := by
      simpa using hkinds
    cases lhs with
    | none => rfl
    | some lhs =>
      cases rhs with
      | none => rfl
      | some rhs => rfl

theorem indexOfFrom_cons (i : Nat) :
    indexOfFrom same needle i (elem :: rest) =
      if equal same elem needle then (i : Int) else indexOfFrom same needle (i + 1) rest := by
  by_cases hkinds : ∀ lhs rhs, ¬ (elem = .struct lhs ∧ needle = .struct rhs)
  · rw [equal_of_kinds hkinds, indexOfFrom]
    exact fun lhs rhs helem hneedle => hkinds lhs rhs ⟨helem, hneedle⟩
  · obtain ⟨lhs, rhs, rfl, rfl⟩ : ∃ lhs rhs, elem = .struct lhs ∧ needle = .struct rhs := by
      simpa using hkinds
    cases lhs with
    | none => rfl
    | some lhs =>
      cases rhs with
      | none => rfl
      | some rhs => rfl

end Decision

/-! ### The loops -/

section Searches
variable (same : Handle → Handle → Bool) (needle : RuntimeValue R)
  (elements : List (RuntimeValue R))

/-- The comparison that the model of `Array<T>` leaves open. -/
abbrev comparison : BEq (RuntimeValue R) := ⟨equal same⟩

theorem contains_eq :
    contains same needle elements = @ArrayValue.contains _ (comparison same) elements needle := by
  induction elements with
  | nil => rfl
  | cons elem rest ih =>
    rw [contains_cons, ih]
    show _ = (equal same elem needle || _)
    cases equal same elem needle with
    | true => rfl
    | false => rfl

/-- The loop counts up from where it starts. -/
theorem indexOfFrom_eq (i : Nat) :
    indexOfFrom same needle i elements =
      match elements.findIdx? fun elem => equal same elem needle with
      | some k => ((i + k : Nat) : Int)
      | none => -1 := by
  induction elements generalizing i with
  | nil => rfl
  | cons elem rest ih =>
    rw [indexOfFrom_cons, List.findIdx?_cons]
    cases equal same elem needle with
    | true => rfl
    | false =>
      rw [ih (i + 1)]
      cases rest.findIdx? fun elem => equal same elem needle with
      | none => rfl
      | some k =>
        have hshift : i + 1 + k = i + (k + 1) := by omega
        simp [hshift]

theorem indexOf_eq :
    indexOf same needle elements = @ArrayValue.indexOf _ (comparison same) elements needle := by
  rw [indexOf, indexOfFrom_eq]
  simp only [Nat.zero_add]
  rfl

/-- The element at `i` is equal to the needle, and none before it. -/
def FirstEqual (i : Nat) : Prop :=
  (∃ elem, elements[i]? = some elem ∧ Equal same elem needle) ∧
    ∀ j < i, ∀ elem, elements[j]? = some elem → ¬ Equal same elem needle

theorem findIdx?_eq_some_iff (i : Nat) :
    (elements.findIdx? fun elem => equal same elem needle) = some i ↔
      FirstEqual same needle elements i := by
  rw [List.findIdx?_eq_some_iff_getElem]
  constructor
  · intro h
    obtain ⟨hlt, hfound, hbefore⟩ := h
    refine ⟨⟨elements[i], List.getElem?_eq_getElem hlt, equal_iff.mp hfound⟩, ?_⟩
    intro j hj elem helem hequal
    obtain ⟨hj', rfl⟩ := List.getElem?_eq_some_iff.mp helem
    exact hbefore j hj (equal_iff.mpr hequal)
  · intro h
    obtain ⟨⟨elem, helem, hequal⟩, hbefore⟩ := h
    obtain ⟨hlt, rfl⟩ := List.getElem?_eq_some_iff.mp helem
    refine ⟨hlt, equal_iff.mpr hequal, ?_⟩
    intro j hj htrue
    exact hbefore j hj _ (List.getElem?_eq_getElem (by omega)) (equal_iff.mp htrue)

theorem indexOf_eq_iff (i : Nat) :
    indexOf same needle elements = i ↔ FirstEqual same needle elements i := by
  rw [← findIdx?_eq_some_iff, indexOf, indexOfFrom_eq]
  cases elements.findIdx? fun elem => equal same elem needle with
  | none =>
    have hne : ¬ (-1 : Int) = i := by omega
    simp [hne]
  | some k =>
    simp only [Nat.zero_add, Option.some.injEq]
    exact Int.ofNat_inj

/-- `Contains` answers yes exactly where `IndexOf` finds something, and what it finds is
the first position whose element is equal to the needle. -/
theorem searches_agree :
    (contains same needle elements = true ↔ indexOf same needle elements ≠ -1) ∧
      (∀ i : Nat, indexOf same needle elements = i ↔ FirstEqual same needle elements i) ∧
      (indexOf same needle elements = -1 ↔ ∀ elem ∈ elements, ¬ Equal same elem needle) := by
  have hagree : contains same needle elements = true ↔ indexOf same needle elements ≠ -1 := by
    rw [contains_eq, indexOf_eq, @ArrayValue.contains_eq_indexOf _ (comparison same)]
    exact bne_iff_ne
  have hfound : contains same needle elements = true ↔
      ∃ elem ∈ elements, Equal same elem needle := by
    rw [contains_eq]
    exact List.any_eq_true.trans (exists_congr fun elem => and_congr_right fun _ => equal_iff)
  refine ⟨hagree, indexOf_eq_iff same needle elements, ?_⟩
  rw [← not_iff_not, ← ne_eq, ← hagree, hfound]
  push Not
  rfl

end Searches

end ArraySearch

end FalconStd.Collections
