import FalconStd.Control.DirectionLaws

/-! Lengths and angles of directions, over the reals with an exact root.

`Norm`, `IsNormalized`, `IsOrthogonal` and `Project` read the contents that `Dot` and
`Scale` read. What a caller of them relies on is the geometry of gate space: no
direction is closer to another than its projection, and lengths obey the triangle. -/
namespace FalconStd.Control.Direction
open Foundation

variable {G : Type} [DecidableEq G] {a b : Direction G ℝ}

/-! ### The routines -/

/-- `math::Abs` and `math::Sqrt` are exact. -/
noncomputable def isNormalized (self : Direction G ℝ) (tolerance : ℝ) : Bool :=
  decide (|self.norm Real.sqrt - 1| ≤ tolerance)

noncomputable def isOrthogonal (self other : Direction G ℝ) (tol : ℝ) : Bool :=
  decide (|self.dot other| < tol)

/-- What is projected; nothing is assigned where the argument has length zero. -/
noncomputable def project (self other : Direction G ℝ) : Option (Direction G ℝ) :=
  let denom := other.normSquared
  if denom ≠ 0 then some (other.scale (self.dot other / denom)) else none

/-! ### Lengths -/

theorem norm_nonneg (a : Direction G ℝ) : 0 ≤ a.norm Real.sqrt := Real.sqrt_nonneg _

theorem norm_mul_self (ha : a.WellFormed) : a.norm Real.sqrt * a.norm Real.sqrt = a.dot a :=
  Real.mul_self_sqrt (dot_self_nonneg ha)

theorem abs_dot_le (ha : a.WellFormed) (hb : b.WellFormed) :
    |a.dot b| ≤ a.norm Real.sqrt * b.norm Real.sqrt := by
  refine abs_le_of_sq_le_sq ?_ (mul_nonneg (norm_nonneg a) (norm_nonneg b))
  have hsq : (a.norm Real.sqrt * b.norm Real.sqrt) ^ 2 = a.dot a * b.dot b := by
    rw [mul_pow, sq, sq, norm_mul_self ha, norm_mul_self hb]
  rw [hsq, sq, dot_meaning ha hb, dot_meaning ha ha, dot_meaning hb hb]
  exact FiniteMap.dot_sq_le _ _

theorem dot_add_self (ha : a.WellFormed) (hb : b.WellFormed) :
    (a.add b).dot (a.add b) = a.dot a + 2 * a.dot b + b.dot b := by
  have hadd := add_wellFormed ha hb
  rw [dot_meaning hadd hadd, add_meaning ha hb, FiniteMap.dot_add,
    FiniteMap.dot_comm a.meaning, FiniteMap.dot_comm b.meaning, FiniteMap.dot_add,
    FiniteMap.dot_add, FiniteMap.dot_comm b.meaning a.meaning, dot_meaning ha ha,
    dot_meaning ha hb, dot_meaning hb hb]
  ring

theorem dot_subtract_self (ha : a.WellFormed) (hb : b.WellFormed) :
    (a.subtract b).dot (a.subtract b) = a.dot a - 2 * a.dot b + b.dot b := by
  have hsub := subtract_wellFormed ha hb
  rw [dot_meaning hsub hsub, subtract_meaning ha hb, FiniteMap.dot_sub,
    FiniteMap.dot_comm a.meaning, FiniteMap.dot_comm b.meaning, FiniteMap.dot_sub,
    FiniteMap.dot_sub, FiniteMap.dot_comm b.meaning a.meaning, dot_meaning ha ha,
    dot_meaning ha hb, dot_meaning hb hb]
  ring

theorem dot_scale_right (ha : a.WellFormed) (hb : b.WellFormed) (k : ℝ) :
    a.dot (b.scale k) = k * a.dot b := by
  rw [dot_meaning ha (scale_wellFormed hb k), scale_meaning hb, FiniteMap.dot_comm,
    FiniteMap.dot_scale, FiniteMap.dot_comm, dot_meaning ha hb]

theorem dot_scale_left (ha : a.WellFormed) (hb : b.WellFormed) (k : ℝ) :
    (a.scale k).dot b = k * a.dot b := by
  rw [dot_meaning (scale_wellFormed ha k) hb, scale_meaning ha, FiniteMap.dot_scale,
    dot_meaning ha hb]

theorem norm_add_le (ha : a.WellFormed) (hb : b.WellFormed) :
    (a.add b).norm Real.sqrt ≤ a.norm Real.sqrt + b.norm Real.sqrt := by
  have hsum := add_nonneg (norm_nonneg a) (norm_nonneg b)
  have hdot := (le_abs_self _).trans (abs_dot_le ha hb)
  refine Real.sqrt_le_iff.mpr ⟨hsum, ?_⟩
  calc (a.add b).normSquared
      = a.dot a + 2 * a.dot b + b.dot b := dot_add_self ha hb
    _ ≤ a.dot a + 2 * (a.norm Real.sqrt * b.norm Real.sqrt) + b.dot b := by gcongr
    _ = (a.norm Real.sqrt + b.norm Real.sqrt) ^ 2 := by
        rw [← norm_mul_self ha, ← norm_mul_self hb]
        ring

theorem norm_scale (ha : a.WellFormed) (k : ℝ) :
    (a.scale k).norm Real.sqrt = |k| * a.norm Real.sqrt := by
  have hscaled := scale_wellFormed ha k
  rw [norm, normSquared, dot_scale_left ha hscaled, dot_scale_right ha ha, ← mul_assoc,
    Real.sqrt_mul' _ (dot_self_nonneg ha), Real.sqrt_mul_self_eq_abs]
  rfl

/-! ### Normalizing -/

theorem isNormalized_iff (a : Direction G ℝ) (tolerance : ℝ) :
    a.isNormalized tolerance = true ↔ |a.norm Real.sqrt - 1| ≤ tolerance := by
  rw [isNormalized, decide_eq_true_iff]

theorem norm_normalize (ha : a.WellFormed) :
    (a.normalize Real.sqrt).norm Real.sqrt = if a.dot a = 0 then 0 else 1 := by
  split
  case isTrue hzero =>
    rw [normalize_of_zero ha hzero, norm, normSquared, hzero, Real.sqrt_zero]
  case isFalse hne =>
    obtain ⟨factor, -, hnorm, hunit⟩ := normalize_of_ne_zero ha hne
    rw [hnorm, norm, normSquared, hunit, Real.sqrt_one]

theorem isNormalized_normalize_iff (ha : a.WellFormed) (tolerance : ℝ) :
    (a.normalize Real.sqrt).isNormalized tolerance = true ↔
      (if a.dot a = 0 then 1 else 0) ≤ tolerance := by
  rw [isNormalized_iff, norm_normalize ha]
  split <;> simp

theorem normalize_normalize (ha : a.WellFormed) :
    (a.normalize Real.sqrt).normalize Real.sqrt = a.normalize Real.sqrt := by
  by_cases hzero : a.dot a = 0
  · rw [normalize_of_zero ha hzero, normalize_of_zero ha hzero]
  · obtain ⟨factor, -, hnorm, hunit⟩ := normalize_of_ne_zero ha hzero
    have hone : Real.sqrt ((a.scale factor).dot (a.scale factor)) = 1 := by
      rw [hunit, Real.sqrt_one]
    rw [hnorm, normalize_cases _ (scale_wellFormed ha factor), hone, if_pos one_ne_zero, inv_one]
    simp [scale]

/-! ### Projecting -/

theorem project_cases (a b : Direction G ℝ) :
    a.project b = if b.dot b ≠ 0 then some (b.scale (a.dot b / b.dot b)) else none := rfl

/-- The part beside the projection is orthogonal to the argument. -/
theorem subtract_scale_dot (ha : a.WellFormed) (hb : b.WellFormed) (h : b.dot b ≠ 0) :
    (a.subtract (b.scale (a.dot b / b.dot b))).dot b = 0 := by
  have hscaled := scale_wellFormed hb (a.dot b / b.dot b)
  rw [dot_meaning (subtract_wellFormed ha hscaled) hb, subtract_meaning ha hscaled,
    FiniteMap.dot_sub, ← dot_meaning ha hb, ← dot_meaning hscaled hb, dot_scale_left hb hb,
    div_mul_cancel₀ _ h, sub_self]

/-- The distance to a multiple, squared, is least at the projection. -/
theorem subtract_scale_self (ha : a.WellFormed) (hb : b.WellFormed) (h : b.dot b ≠ 0) (k : ℝ) :
    (a.subtract (b.scale k)).dot (a.subtract (b.scale k)) =
      (a.subtract (b.scale (a.dot b / b.dot b))).dot (a.subtract (b.scale (a.dot b / b.dot b))) +
        (k - a.dot b / b.dot b) * (k - a.dot b / b.dot b) * b.dot b := by
  have hany : ∀ k : ℝ, (a.subtract (b.scale k)).dot (a.subtract (b.scale k)) =
      a.dot a - 2 * (k * a.dot b) + k * (k * b.dot b) := by
    intro k
    rw [dot_subtract_self ha (scale_wellFormed hb k), dot_scale_right ha hb,
      dot_scale_left hb (scale_wellFormed hb k), dot_scale_right hb hb]
  rw [hany, hany]
  field_simp
  ring

/-- What geometry expects of the projection `p` of `a` on `b`. -/
structure ProjectionLaws (a b p : Direction G ℝ) : Prop where
  distinct : p.WellFormed
  orthogonal : ∀ tol > 0, (a.subtract p).isOrthogonal b tol = true
  pythagoras : a.normSquared = p.normSquared + (a.subtract p).normSquared
  nearest : ∀ k, (a.subtract p).norm Real.sqrt ≤ (a.subtract (b.scale k)).norm Real.sqrt
  shorter : p.norm Real.sqrt ≤ a.norm Real.sqrt
  again : p.project b = some p

theorem projectionLaws {p : Direction G ℝ} (ha : a.WellFormed) (hb : b.WellFormed)
    (hp : a.project b = some p) : ProjectionLaws a b p := by
  have hne : b.dot b ≠ 0 := by
    intro hzero
    rw [project_cases, if_neg (not_not.mpr hzero)] at hp
    cases hp
  rw [project_cases, if_pos hne] at hp
  obtain rfl := Option.some.inj hp
  have hwf := scale_wellFormed hb (a.dot b / b.dot b)
  have hself : (b.scale (a.dot b / b.dot b)).dot b = a.dot b := by
    rw [dot_scale_left hb hb, div_mul_cancel₀ _ hne]
  have hpyth : a.dot a = (b.scale (a.dot b / b.dot b)).dot (b.scale (a.dot b / b.dot b)) +
      (a.subtract (b.scale (a.dot b / b.dot b))).dot
        (a.subtract (b.scale (a.dot b / b.dot b))) := by
    rw [dot_subtract_self ha hwf, dot_scale_right ha hb, dot_scale_left hb hwf,
      dot_scale_right hb hb]
    field_simp
    ring
  constructor
  case distinct => exact hwf
  case orthogonal =>
    intro tol htol
    rw [isOrthogonal, subtract_scale_dot ha hb hne, abs_zero]
    exact decide_eq_true htol
  case pythagoras => exact hpyth
  case nearest =>
    intro k
    refine Real.sqrt_le_sqrt ?_
    rw [normSquared, normSquared, subtract_scale_self ha hb hne k]
    have hgap := mul_nonneg (mul_self_nonneg (k - a.dot b / b.dot b)) (dot_self_nonneg hb)
    linarith only [hgap]
  case shorter =>
    refine Real.sqrt_le_sqrt ?_
    rw [normSquared, normSquared, hpyth]
    have hrest := dot_self_nonneg (subtract_wellFormed ha hwf)
    linarith only [hrest]
  case again => rw [project_cases, if_pos hne, hself]

/-! ### The laws -/

/-- What geometry expects of two directions. -/
structure MetricLaws (a b : Direction G ℝ) : Prop where
  cauchy : |a.dot b| ≤ a.norm Real.sqrt * b.norm Real.sqrt
  triangle : (a.add b).norm Real.sqrt ≤ a.norm Real.sqrt + b.norm Real.sqrt
  scaled : ∀ k, (a.scale k).norm Real.sqrt = |k| * a.norm Real.sqrt
  symmetric : ∀ tol, a.isOrthogonal b tol = b.isOrthogonal a tol
  unit : ∀ tolerance, (a.normalize Real.sqrt).isNormalized tolerance = true ↔
    (if a.dot a = 0 then 1 else 0) ≤ tolerance
  normalized : (a.normalize Real.sqrt).normalize Real.sqrt = a.normalize Real.sqrt
  projects : a.project b = none ↔ b.dot b = 0
  projection : ∀ p, a.project b = some p → ProjectionLaws a b p

/-- **The geometry of directions**: of any two with distinct gates, in any order and with
any overlap, lengths obey Cauchy and the triangle, normalizing again changes nothing, and
the projection is the nearest multiple, at a right angle. -/
theorem metric_laws (a b : {d : Direction G ℝ // d.WellFormed}) : MetricLaws a.1 b.1 := by
  obtain ⟨a, ha⟩ := a
  obtain ⟨b, hb⟩ := b
  constructor
  case cauchy => exact abs_dot_le ha hb
  case triangle => exact norm_add_le ha hb
  case scaled => exact norm_scale ha
  case symmetric =>
    intro tol
    rw [isOrthogonal, isOrthogonal, dot_meaning ha hb, dot_meaning hb ha, FiniteMap.dot_comm]
  case unit => exact isNormalized_normalize_iff ha
  case normalized => exact normalize_normalize ha
  case projects =>
    rw [project_cases]
    split
    case isTrue hne => exact iff_of_false (Option.some_ne_none _) hne
    case isFalse hzero => exact iff_of_true rfl (not_not.mp hzero)
  case projection =>
    intro p hp
    exact projectionLaws ha hb hp

end FalconStd.Control.Direction
