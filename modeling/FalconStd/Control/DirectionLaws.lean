import Mathlib.Analysis.Real.Sqrt
import FalconStd.Control.Direction

/-! The inner-product laws of `Direction`, over the reals with an exact root. -/
namespace FalconStd.Control.Direction
open Foundation

variable {G : Type} [DecidableEq G]

/-- What algebra expects of three directions and a scalar. -/
structure Laws (a b c : Direction G ℝ) (k : ℝ) : Prop where
  add_distinct : (a.add b).WellFormed
  subtract_distinct : (a.subtract b).WellFormed
  scale_distinct : (a.scale k).WellFormed
  dot_comm : a.dot b = b.dot a
  dot_add : (a.add b).dot c = a.dot c + b.dot c
  dot_subtract : (a.subtract b).dot c = a.dot c - b.dot c
  dot_scale : (a.scale k).dot c = k * a.dot c
  dot_self : a.dot a = a.norm_squared
  normalize_zero : a.dot a = 0 → a.normalize Real.sqrt = a
  normalize_unit : a.dot a ≠ 0 → ∃ factor : ℝ, 0 < factor ∧
    a.normalize Real.sqrt = ⟨⟨a.dir_.keys_, a.dir_.values_.map fun c => c * factor⟩⟩ ∧
    (a.normalize Real.sqrt).dot (a.normalize Real.sqrt) = 1

theorem dot_self_nonneg {a : Direction G ℝ} (ha : a.WellFormed) : 0 ≤ a.dot a := by
  rw [dot_meaning ha ha]
  exact FiniteMap.dot_self_nonneg _

theorem normalize_of_zero {a : Direction G ℝ} (ha : a.WellFormed) (h : a.dot a = 0) :
    a.normalize Real.sqrt = a := by
  rw [normalize_cases _ ha, h, Real.sqrt_zero]
  exact if_neg (not_not.mpr rfl)

/-- Dividing by the norm is one positive factor, and brings the length to one. -/
theorem normalize_of_ne_zero {a : Direction G ℝ} (ha : a.WellFormed) (h : a.dot a ≠ 0) :
    ∃ factor : ℝ, 0 < factor ∧ a.normalize Real.sqrt = a.scale factor ∧
      (a.scale factor).dot (a.scale factor) = 1 := by
  have hpos : 0 < √(a.dot a) := Real.sqrt_pos.mpr (lt_of_le_of_ne (dot_self_nonneg ha) h.symm)
  refine ⟨(√(a.dot a))⁻¹, inv_pos.mpr hpos, by rw [normalize_cases _ ha, if_pos hpos.ne'], ?_⟩
  have hs := scale_wellFormed ha (√(a.dot a))⁻¹
  have hsq : √(a.dot a) * √(a.dot a) = a.dot a := Real.mul_self_sqrt (dot_self_nonneg ha)
  calc (a.scale (√(a.dot a))⁻¹).dot (a.scale (√(a.dot a))⁻¹)
      = (√(a.dot a))⁻¹ * ((√(a.dot a))⁻¹ * a.dot a) := by
        rw [dot_meaning hs hs, scale_meaning ha, FiniteMap.dot_scale, FiniteMap.dot_comm,
          FiniteMap.dot_scale, ← dot_meaning ha ha]
    _ = (√(a.dot a) * √(a.dot a))⁻¹ * a.dot a := by rw [mul_inv, mul_assoc]
    _ = 1 := by rw [hsq, inv_mul_cancel₀ h]

/-- **The inner-product laws** hold of directions with distinct gates, in any
order and with any overlap. -/
theorem inner_product_laws (a b c : {d : Direction G ℝ // d.WellFormed}) (k : ℝ) :
    Laws a.1 b.1 c.1 k := by
  obtain ⟨a, ha⟩ := a
  obtain ⟨b, hb⟩ := b
  obtain ⟨c, hc⟩ := c
  have hadd := add_wellFormed ha hb
  have hsub := subtract_wellFormed ha hb
  have hscale := scale_wellFormed ha k
  constructor
  case add_distinct => exact hadd
  case subtract_distinct => exact hsub
  case scale_distinct => exact hscale
  case dot_comm => rw [dot_meaning ha hb, dot_meaning hb ha, FiniteMap.dot_comm]
  case dot_add =>
    rw [dot_meaning hadd hc, add_meaning ha hb, FiniteMap.dot_add, dot_meaning ha hc,
      dot_meaning hb hc]
  case dot_subtract =>
    rw [dot_meaning hsub hc, subtract_meaning ha hb, FiniteMap.dot_sub, dot_meaning ha hc,
      dot_meaning hb hc]
  case dot_scale =>
    rw [dot_meaning hscale hc, scale_meaning ha, FiniteMap.dot_scale, dot_meaning ha hc]
  case dot_self => exact (norm_squared_eq ha).symm
  case normalize_zero => exact normalize_of_zero ha
  case normalize_unit =>
    intro h
    obtain ⟨factor, hpos, hnorm, hunit⟩ := normalize_of_ne_zero ha h
    exact ⟨factor, hpos, hnorm, by rw [hnorm]; exact hunit⟩

end FalconStd.Control.Direction
