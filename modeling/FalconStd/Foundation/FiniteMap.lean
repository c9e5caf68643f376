import Mathlib.Algebra.BigOperators.Ring.Finset
import Mathlib.Algebra.Order.BigOperators.Ring.Finset
import Mathlib.Algebra.Field.Defs
import Mathlib.Tactic.Ring
import FalconStd.Foundation.Assoc

/-! Finite maps into a ring, as vectors.

A finite map is a finite domain and a coefficient function that vanishes off it;
a key stored with coefficient zero is not the same as a key not stored. Sums,
differences and multiples are taken coefficient by coefficient on the union of
the domains, and `dot` is the inner product. `ofList` reads an association list
as a finite map, and the operations on lists become operations on maps. -/
namespace Foundation

@[ext] structure FiniteMap (G R : Type*) [Zero R] where
  dom : Finset G
  val : G → R
  val_off : ∀ g, g ∉ dom → val g = 0

namespace FiniteMap

section Zero
variable {G R : Type*} [DecidableEq G] [Zero R]

def get? (m : FiniteMap G R) (g : G) : Option R := if g ∈ m.dom then some (m.val g) else none

def empty : FiniteMap G R := ⟨∅, fun _ => 0, fun _ _ => rfl⟩

def set (m : FiniteMap G R) (g : G) (c : R) : FiniteMap G R :=
  ⟨insert g m.dom, Function.update m.val g c, fun g' hg' => by
    rw [Finset.mem_insert, not_or] at hg'
    rw [Function.update_of_ne hg'.1, m.val_off g' hg'.2]⟩

def remove (m : FiniteMap G R) (g : G) : FiniteMap G R :=
  ⟨m.dom.erase g, Function.update m.val g 0, fun g' hg' => by
    by_cases h : g' = g
    · rw [h, Function.update_self]
    · rw [Function.update_of_ne h]
      exact m.val_off g' fun hmem => hg' (Finset.mem_erase.mpr ⟨h, hmem⟩)⟩

theorem get?_isSome (m : FiniteMap G R) (g : G) : (m.get? g).isSome = decide (g ∈ m.dom) := by
  by_cases h : g ∈ m.dom <;> simp [get?, h]

theorem getD_get? (m : FiniteMap G R) (g : G) : (m.get? g).getD 0 = m.val g := by
  by_cases h : g ∈ m.dom
  · simp [get?, h]
  · simp [get?, h, m.val_off g h]

/-- A finite map is what its lookups say. -/
theorem ext_get? {m m' : FiniteMap G R} (h : ∀ g, m.get? g = m'.get? g) : m = m' := by
  have hdom : ∀ g, g ∈ m.dom ↔ g ∈ m'.dom := by
    intro g
    have hsome := congrArg Option.isSome (h g)
    simpa [get?_isSome] using hsome
  ext g
  · exact hdom g
  · rw [← getD_get? m g, h g, getD_get?]

/-- Every coefficient is zero, stored or not. -/
def IsZero (m : FiniteMap G R) : Prop := ∀ g, m.val g = 0

theorem set_eq_self_iff (m : FiniteMap G R) (g : G) (c : R) :
    m.set g c = m ↔ m.get? g = some c := by
  refine ⟨fun h => ?_, fun h => ?_⟩
  · rw [← h]
    simp [get?, set]
  · have hmem : g ∈ m.dom := by
      by_contra hout
      simp [get?, hout] at h
    have hval : m.val g = c := by simpa [get?, hmem] using h
    refine FiniteMap.ext (Finset.insert_eq_of_mem hmem) ?_
    show Function.update m.val g c = m.val
    rw [← hval, Function.update_eq_self]

theorem remove_eq_self_iff (m : FiniteMap G R) (g : G) : m.remove g = m ↔ g ∉ m.dom := by
  refine ⟨fun h => ?_, fun h => ?_⟩
  · rw [← h]
    exact Finset.notMem_erase g m.dom
  · refine FiniteMap.ext (Finset.erase_eq_of_notMem h) ?_
    show Function.update m.val g 0 = m.val
    rw [← m.val_off g h, Function.update_eq_self]

end Zero

section Ring
variable {G R : Type*} [DecidableEq G] [CommRing R]

def scale (m : FiniteMap G R) (k : R) : FiniteMap G R :=
  ⟨m.dom, fun g => m.val g * k, fun g hg => by rw [m.val_off g hg, zero_mul]⟩

def add (m m' : FiniteMap G R) : FiniteMap G R :=
  ⟨m.dom ∪ m'.dom, fun g => m.val g + m'.val g, fun g hg => by
    rw [Finset.notMem_union] at hg
    rw [m.val_off g hg.1, m'.val_off g hg.2, add_zero]⟩

def sub (m m' : FiniteMap G R) : FiniteMap G R :=
  ⟨m.dom ∪ m'.dom, fun g => m.val g - m'.val g, fun g hg => by
    rw [Finset.notMem_union] at hg
    rw [m.val_off g hg.1, m'.val_off g hg.2, sub_zero]⟩

/-- The inner product, over the keys both maps store. -/
def dot (m m' : FiniteMap G R) : R := ∑ g ∈ m.dom ∩ m'.dom, m.val g * m'.val g

/-- Off either domain the product vanishes, so any larger domain will do. -/
theorem dot_eq_sum (m m' : FiniteMap G R) {s : Finset G} (hs : m.dom ⊆ s) :
    m.dot m' = ∑ g ∈ s, m.val g * m'.val g := by
  apply Finset.sum_subset (Finset.inter_subset_left.trans hs)
  intro g _ hg
  by_cases h : g ∈ m.dom
  · have h' : g ∉ m'.dom := fun hmem => hg (Finset.mem_inter.mpr ⟨h, hmem⟩)
    rw [m'.val_off g h', mul_zero]
  · rw [m.val_off g h, zero_mul]

theorem dot_comm (m m' : FiniteMap G R) : m.dot m' = m'.dot m := by
  rw [dot, dot, Finset.inter_comm]
  exact Finset.sum_congr rfl fun g _ => mul_comm _ _

theorem dot_add (a b c : FiniteMap G R) : (a.add b).dot c = a.dot c + b.dot c := by
  rw [dot_eq_sum _ c (Finset.Subset.refl _), dot_eq_sum a c (s := (a.add b).dom) Finset.subset_union_left,
    dot_eq_sum b c (s := (a.add b).dom) Finset.subset_union_right, ← Finset.sum_add_distrib]
  exact Finset.sum_congr rfl fun g _ => add_mul _ _ _

theorem dot_sub (a b c : FiniteMap G R) : (a.sub b).dot c = a.dot c - b.dot c := by
  rw [dot_eq_sum _ c (Finset.Subset.refl _), dot_eq_sum a c (s := (a.sub b).dom) Finset.subset_union_left,
    dot_eq_sum b c (s := (a.sub b).dom) Finset.subset_union_right, ← Finset.sum_sub_distrib]
  exact Finset.sum_congr rfl fun g _ => sub_mul _ _ _

theorem dot_scale (a c : FiniteMap G R) (k : R) : (a.scale k).dot c = k * a.dot c := by
  rw [dot, dot, Finset.mul_sum]
  refine Finset.sum_congr rfl fun g _ => ?_
  show a.val g * k * c.val g = k * (a.val g * c.val g)
  ring

omit [DecidableEq G] in
theorem scale_one (a : FiniteMap G R) : a.scale 1 = a :=
  FiniteMap.ext rfl (funext fun g => mul_one (a.val g))

theorem add_eq_self_iff (a b : FiniteMap G R) :
    a.add b = a ↔ b.dom ⊆ a.dom ∧ b.IsZero := by
  refine ⟨fun h => ⟨?_, fun g => ?_⟩, fun ⟨hdom, hzero⟩ => ?_⟩
  · exact Finset.union_eq_left.mp (congrArg FiniteMap.dom h)
  · exact add_eq_left.mp (congrFun (congrArg FiniteMap.val h) g)
  · exact FiniteMap.ext (Finset.union_eq_left.mpr hdom)
      (funext fun g => add_eq_left.mpr (hzero g))

theorem sub_eq_self_iff (a b : FiniteMap G R) :
    a.sub b = a ↔ b.dom ⊆ a.dom ∧ b.IsZero := by
  refine ⟨fun h => ⟨?_, fun g => ?_⟩, fun ⟨hdom, hzero⟩ => ?_⟩
  · exact Finset.union_eq_left.mp (congrArg FiniteMap.dom h)
  · exact sub_eq_self.mp (congrFun (congrArg FiniteMap.val h) g)
  · exact FiniteMap.ext (Finset.union_eq_left.mpr hdom)
      (funext fun g => sub_eq_self.mpr (hzero g))

theorem dot_self_of_isZero {a : FiniteMap G R} (h : a.IsZero) : a.dot a = 0 :=
  Finset.sum_eq_zero fun g _ => by rw [h g, zero_mul]

theorem dot_self (a : FiniteMap G R) : a.dot a = ∑ g ∈ a.dom, a.val g * a.val g :=
  dot_eq_sum a a (Finset.Subset.refl _)

end Ring

section Field
variable {G R : Type*} [DecidableEq G] [Field R] [DecidableEq R]

/-- The component of `m` along `m'`; along a vector of length zero, nothing. -/
def project (m m' : FiniteMap G R) : FiniteMap G R :=
  if m'.dot m' ≠ 0 then m'.scale (m.dot m' / m'.dot m') else empty

theorem project_of_ne_zero (m : FiniteMap G R) {m' : FiniteMap G R} (h : m'.dot m' ≠ 0) :
    m.project m' = m'.scale (m.dot m' / m'.dot m') := if_pos h

/-- What is left of a vector beside its component along another is orthogonal to it. -/
theorem sub_project_dot (m : FiniteMap G R) {m' : FiniteMap G R} (h : m'.dot m' ≠ 0) :
    (m.sub (m.project m')).dot m' = 0 := by
  rw [dot_sub, project_of_ne_zero m h, dot_scale, div_mul_cancel₀ _ h, sub_self]

/-- `m` brought to length one, where `sqrt` gives it a nonzero length. -/
def normalize (sqrt : R → R) (m : FiniteMap G R) : FiniteMap G R :=
  if sqrt (m.dot m) ≠ 0 then m.scale (sqrt (m.dot m))⁻¹ else m

omit [DecidableEq G] [DecidableEq R] in
theorem scale_eq_self_iff (m : FiniteMap G R) (k : R) : m.scale k = m ↔ k = 1 ∨ m.IsZero := by
  refine ⟨fun h => ?_, fun h => ?_⟩
  · by_cases hk : k = 1
    · exact .inl hk
    · right
      intro g
      by_contra hg
      have hval : m.val g * k = m.val g := congrFun (congrArg FiniteMap.val h) g
      exact hk ((mul_eq_left₀ hg).mp hval)
  · rcases h with rfl | hzero
    · exact scale_one m
    · refine FiniteMap.ext rfl (funext fun g => ?_)
      show m.val g * k = m.val g
      rw [hzero g, zero_mul]

theorem normalize_eq_self_iff (sqrt : R → R) (m : FiniteMap G R) :
    m.normalize sqrt = m ↔ sqrt (m.dot m) = 0 ∨ sqrt (m.dot m) = 1 ∨ m.IsZero := by
  unfold normalize
  by_cases hnorm : sqrt (m.dot m) = 0
  · simp [hnorm]
  · rw [if_pos hnorm, scale_eq_self_iff, inv_eq_one]
    simp [hnorm]

end Field

section Ordered
variable {G R : Type*} [DecidableEq G] [CommRing R] [LinearOrder R] [IsStrictOrderedRing R]

theorem dot_self_nonneg (a : FiniteMap G R) : 0 ≤ a.dot a := by
  rw [dot_self]
  exact Finset.sum_nonneg fun g _ => mul_self_nonneg _

/-- Cauchy's inequality, over the keys of either map. -/
theorem dot_sq_le (a b : FiniteMap G R) : a.dot b * a.dot b ≤ a.dot a * b.dot b := by
  have hle := Finset.sum_mul_sq_le_sq_mul_sq (a.dom ∪ b.dom) a.val b.val
  simp only [sq] at hle
  rwa [dot_eq_sum a b (s := a.dom ∪ b.dom) Finset.subset_union_left,
    dot_eq_sum a a (s := a.dom ∪ b.dom) Finset.subset_union_left,
    dot_eq_sum b b (s := a.dom ∪ b.dom) Finset.subset_union_right]

end Ordered

/-! ### Association lists as finite maps -/

section Lists
variable {G R : Type*} [DecidableEq G] [Zero R]

def ofList (l : List (G × R)) : FiniteMap G R :=
  ⟨(l.map Prod.fst).toFinset, fun g => (Assoc.get? g l).getD 0, fun g hg => by
    have hnone : Assoc.get? g l = none := by
      rw [← Option.not_isSome_iff_eq_none, Assoc.get?_isSome_iff]
      simpa using hg
    rw [hnone]
    rfl⟩

theorem mem_dom_ofList (g : G) (l : List (G × R)) :
    g ∈ (ofList l).dom ↔ g ∈ l.map Prod.fst := List.mem_toFinset

@[simp] theorem get?_ofList (g : G) (l : List (G × R)) : (ofList l).get? g = Assoc.get? g l := by
  have hmem := (mem_dom_ofList g l).trans (Assoc.get?_isSome_iff g l).symm
  cases h : Assoc.get? g l with
  | none =>
    have hout : g ∉ (ofList l).dom := by
      rw [hmem, h]
      simp
    simp [get?, hout]
  | some c =>
    have hin : g ∈ (ofList l).dom := by
      rw [hmem, h]
      rfl
    have hval : (ofList l).val g = c := by
      show (Assoc.get? g l).getD 0 = c
      rw [h]
      rfl
    rw [get?, if_pos hin, hval]

theorem card_ofList {l : List (G × R)} (h : Assoc.Distinct l) :
    (ofList l).dom.card = l.length := by
  rw [Assoc.distinct_iff_nodup] at h
  simp [ofList, List.toFinset_card_of_nodup h]

theorem ofList_nil : ofList ([] : List (G × R)) = empty := by
  ext g <;> simp [ofList, empty]

theorem ofList_set (g : G) (c : R) (l : List (G × R)) :
    ofList (Assoc.set g c l) = (ofList l).set g c := by
  apply ext_get?
  intro g'
  rw [get?_ofList, Assoc.get?_set, ← get?_ofList g' l]
  by_cases h : g = g'
  · subst h
    simp [set, get?]
  · have h' : g' ≠ g := fun he => h he.symm
    simp [set, get?, h, h']

theorem ofList_remove (g : G) {l : List (G × R)} (hl : Assoc.Distinct l) :
    ofList (Assoc.remove g l) = (ofList l).remove g := by
  apply ext_get?
  intro g'
  rw [get?_ofList, Assoc.get?_remove hl, ← get?_ofList g' l]
  by_cases h : g = g'
  · subst h
    simp [remove, get?]
  · have h' : g' ≠ g := fun he => h he.symm
    simp [remove, get?, h, h']

end Lists

theorem ofList_mapValues {G R : Type*} [DecidableEq G] [CommRing R] (k : R) (l : List (G × R)) :
    ofList (Assoc.mapValues (fun c => c * k) l) = (ofList l).scale k := by
  apply ext_get?
  intro g
  rw [get?_ofList, Assoc.get?_mapValues, ← get?_ofList]
  by_cases h : g ∈ (ofList l).dom <;> simp [get?, scale, h]

/-- Merging by sums, a missing value counting as it is, adds the maps. -/
theorem ofList_merge_add {G R : Type*} [DecidableEq G] [CommRing R] (a : List (G × R))
    {b : List (G × R)} (hb : Assoc.Distinct b) :
    ofList (Assoc.merge (fun lhs rhs => lhs + rhs) (fun rhs => rhs) a b) =
      (ofList a).add (ofList b) := by
  apply ext_get?
  intro g
  rw [get?_ofList, Assoc.get?_merge _ _ hb, ← get?_ofList g a, ← get?_ofList g b]
  by_cases ha : g ∈ (ofList a).dom <;> by_cases hb' : g ∈ (ofList b).dom <;>
    simp [get?, add, Assoc.mergeValue, ha, hb', val_off]

theorem ofList_merge_sub {G R : Type*} [DecidableEq G] [CommRing R] (a : List (G × R))
    {b : List (G × R)} (hb : Assoc.Distinct b) :
    ofList (Assoc.merge (fun lhs rhs => lhs - rhs) (fun rhs => -rhs) a b) =
      (ofList a).sub (ofList b) := by
  apply ext_get?
  intro g
  rw [get?_ofList, Assoc.get?_merge _ _ hb, ← get?_ofList g a, ← get?_ofList g b]
  by_cases ha : g ∈ (ofList a).dom <;> by_cases hb' : g ∈ (ofList b).dom <;>
    simp [get?, sub, Assoc.mergeValue, ha, hb', val_off]

/-- A sum over the entries of a distinct list is a sum over the keys. -/
theorem sum_entries {G R : Type*} [DecidableEq G] [CommRing R] {l : List (G × R)}
    (h : Assoc.Distinct l) (f : G → R) :
    (l.map fun e => e.2 * f e.1).sum = ∑ g ∈ (ofList l).dom, (ofList l).val g * f g := by
  induction l with
  | nil => simp [ofList]
  | cons e rest ih =>
    obtain ⟨hhead, htail⟩ := Assoc.distinct_cons.mp h
    have hnew : e.1 ∉ (ofList rest).dom := by
      rw [mem_dom_ofList, List.mem_map]
      intro h
      obtain ⟨e', he', heq⟩ := h
      have := hhead e' he'
      simp [heq] at this
    have hdom : (ofList (e :: rest)).dom = insert e.1 (ofList rest).dom := by simp [ofList]
    rw [hdom, Finset.sum_insert hnew, List.map_cons, List.sum_cons, ih htail]
    congr 1
    · simp [ofList, Assoc.get?]
    · refine Finset.sum_congr rfl fun g hg => ?_
      have hne : e.1 ≠ g := fun he => hnew (he ▸ hg)
      simp [ofList, Assoc.get?, hne]

end FiniteMap

end Foundation
