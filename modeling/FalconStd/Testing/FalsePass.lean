import FalconStd.Testing.TestContext

/-! What a passed test has shown.

An assertion records a failure when its comparison says so. For floats the comparison
is `>`, where the condition is `<=`: of operands without an order neither holds, and
nothing is recorded. -/
namespace FalconStd.Testing

namespace Double

/-- `x <= y`, false of anything that is not a number. -/
def le : Double → Double → Bool
  | .finite p, .finite q => decide (p ≤ q)
  | .finite _, .posInf => true
  | .posInf, .posInf => true
  | .negInf, .nan => false
  | .negInf, _ => true
  | _, _ => false

theorem le_nan (x : Double) : x.le .nan = false := by
  cases x <;> rfl

theorem nan_le (y : Double) : le .nan y = false := by
  cases y <;> rfl

/-- The two comparisons are opposite on numbers, and both false of anything else. -/
theorem gt_iff {x y : Double} :
    x.gt y = true ↔ ¬ x.le y = true ∧ ¬ (x = .nan ∨ y = .nan) := by
  cases x <;> cases y <;> simp [gt, le]

/-- The operands that have no distance. -/
theorem fabs_sub_eq_nan_iff {e a : Double} :
    (e.sub a).fabs = .nan ↔ e = .nan ∨ a = .nan ∨ e = a ∧ (e = .posInf ∨ e = .negInf) := by
  cases e <;> cases a <;> simp [sub, add, neg, fabs]

end Double

/-! ### Conditions -/

namespace Assertion

/-- What the assertion states. -/
def Holds : Assertion → Prop
  | .expectTrue condition _ => condition = true
  | .expectFalse condition _ => condition = false
  | .expectIntEq expected actual _ => expected = actual
  | .expectIntNe expected actual _ => expected ≠ actual
  | .expectIntLt a b _ => a < b
  | .expectIntGt a b _ => a > b
  | .expectFloatEq expected actual tol _ => (expected.sub actual).fabs.le tol = true
  | .expectStrEq expected actual _ => expected = actual
  | .expectStrNe expected actual _ => expected ≠ actual
  | .fail _ => False
  | .log _ => True

/-- A comparison of floats one of which is not a number. -/
def HasNan : Assertion → Prop
  | .expectFloatEq expected actual tol _ => expected = .nan ∨ actual = .nan ∨ tol = .nan
  | _ => False

/-- A comparison of an infinity with itself. -/
def EqualInfinities : Assertion → Prop
  | .expectFloatEq expected actual _ _ =>
    expected = actual ∧ (expected = .posInf ∨ expected = .negInf)
  | _ => False

def Unordered (a : Assertion) : Prop := a.HasNan ∨ a.EqualInfinities

/-- No failure is recorded of it. -/
def Silent (a : Assertion) : Prop := a.Holds ∨ a.Unordered

variable {a : Assertion}

theorem float_unordered_iff {expected actual tol : Double} (msg : String) :
    (expectFloatEq expected actual tol msg).Unordered ↔
      (expected.sub actual).fabs = .nan ∨ tol = .nan := by
  rw [Double.fabs_sub_eq_nan_iff]
  simp only [Unordered, HasNan, EqualInfinities]
  tauto

/-- What has no order does not hold. -/
theorem not_holds_of_unordered (h : a.Unordered) : ¬ a.Holds := by
  cases a with
  | expectFloatEq expected actual tol msg =>
    rw [Holds]
    rcases (float_unordered_iff _).mp h with hdist | htol
    · rw [hdist, Double.nan_le]
      exact Bool.false_ne_true
    · rw [htol, Double.le_nan]
      exact Bool.false_ne_true
  | _ => exact (h.elim id id).elim

end Assertion

/-! ### Runs -/

namespace TestContext
variable (printed : Printer) (ctx : TestContext) {a : Assertion}

theorem ite_records {c : Prop} [Decidable c] (m : String) (hc : c ↔ ¬ a.Silent) :
    a.Silent ∧ (if c then ctx.fail m else ctx) = ctx ∨
      ¬ a.Silent ∧ ∃ msg, (if c then ctx.fail m else ctx) = ctx.fail msg := by
  by_cases h : c
  · exact .inr ⟨hc.mp h, m, if_pos h⟩
  · exact .inl ⟨not_not.mp fun hno => h (hc.mpr hno), if_neg h⟩

/-- A failure is recorded of an assertion that is not silent. -/
theorem assert_records (a : Assertion) :
    a.Silent ∧ (ctx.assert printed a).1 = ctx ∨
      ¬ a.Silent ∧ ∃ msg, (ctx.assert printed a).1 = ctx.fail msg := by
  cases a with
  | expectFloatEq expected actual tol msg =>
    refine ite_records ctx _ ?_
    rw [Double.gt_iff, ← Assertion.float_unordered_iff msg]
    exact not_or.symm
  | fail msg => exact .inr ⟨fun h => h.elim id fun h => h.elim id id, msg, rfl⟩
  | log msg => exact .inl ⟨.inl trivial, rfl⟩
  | _ =>
    refine ite_records ctx _ ?_
    simp [Assertion.Silent, Assertion.Holds, Assertion.Unordered, Assertion.HasNan,
      Assertion.EqualInfinities]

theorem not_passed_fail (msg : String) : (ctx.fail msg).passed = false := by
  simp [passed, fail]

theorem passed_assert_iff (a : Assertion) :
    (ctx.assert printed a).1.passed = true ↔
      ctx.passed = true ∧ a.Silent := by
  rcases assert_records printed ctx a with ⟨hsilent, heq⟩ | ⟨hno, msg, heq⟩
  · rw [heq]
    simp [hsilent]
  · rw [heq, not_passed_fail]
    simp [hno]

/-- A run passes when each of its assertions is silent. -/
theorem passed_assertAll_iff (assertions : List Assertion) :
    (ctx.assertAll printed assertions).passed = true ↔
      ctx.passed = true ∧ ∀ a ∈ assertions, a.Silent := by
  induction assertions generalizing ctx with
  | nil => simp [assertAll]
  | cons a rest ih =>
    have hrest := ih (ctx.assert printed a).1
    rw [passed_assert_iff, and_assoc, ← List.forall_mem_cons] at hrest
    exact hrest

end TestContext

open TestContext

/-- What a test that passed has shown: all its conditions; and no float that is not a
number was compared without a failure. -/
structure NoFalsePass (printed : Printer) (name : String) (assertions : List Assertion) :
    Prop where
  passed : ((new name).assertAll printed assertions).passed = true →
    ((new name).assertAll printed assertions).failure_count = 0 ∧ ∀ a ∈ assertions, a.Holds
  nan : ∀ before a after, assertions = before ++ a :: after → a.HasNan →
    ((new name).assertAll printed (before ++ [a])).failures ≠
      ((new name).assertAll printed before).failures

/-- What no comparison may meet, unless some other assertion fails. -/
structure Comparable (assertions : List Assertion) : Prop where
  numbers : ∀ a ∈ assertions, ¬ a.HasNan
  infinities : (∀ a ∈ assertions, ¬ a.EqualInfinities) ∨
    ∃ a ∈ assertions, ¬ a.Holds ∧ ¬ a.Unordered

theorem failure_count_of_passed {ctx : TestContext} (h : ctx.passed = true) :
    ctx.failure_count = 0 := by
  rw [TestContext.passed, List.isEmpty_iff] at h
  unfold failure_count
  rw [h, List.length_nil, Nat.cast_zero, Int.zero_bmod]

/-- **A test passes only on conditions that hold, and records every float that is not a
number, exactly when its comparisons are of floats with an order or it fails anyway.** -/
theorem noFalsePass_iff (printed : Printer) (name : String) (assertions : List Assertion) :
    NoFalsePass printed name assertions ↔ Comparable assertions := by
  have hrun := passed_assertAll_iff printed (new name) assertions
  constructor
  · intro h
    have hnumbers : ∀ a ∈ assertions, ¬ a.HasNan := by
      intro a ha hnan
      obtain ⟨before, after, hsplit⟩ := List.append_of_mem ha
      refine h.nan before a after hsplit hnan ?_
      have hlast : (new name).assertAll printed (before ++ [a]) =
          (((new name).assertAll printed before).assert printed a).1 := List.foldl_append
      rw [hlast]
      rcases assert_records printed _ a with ⟨-, heq⟩ | ⟨hno, -⟩
      · rw [heq]
      · exact absurd (.inr (.inl hnan)) hno
    refine ⟨hnumbers, ?_⟩
    by_cases hsilent : ∀ a ∈ assertions, a.Silent
    · have hholds := (h.passed (hrun.mpr ⟨rfl, hsilent⟩)).2
      refine .inl fun a ha hinf => ?_
      exact Assertion.not_holds_of_unordered (.inr hinf) (hholds a ha)
    · obtain ⟨a, ha, hloud⟩ : ∃ a ∈ assertions, ¬ a.Silent := by simpa using hsilent
      exact .inr ⟨a, ha, not_or.mp hloud⟩
  · intro h
    refine ⟨?_, ?_⟩
    · intro hpassed
      refine ⟨failure_count_of_passed hpassed, ?_⟩
      have hsilent := (hrun.mp hpassed).2
      rcases h.infinities with hno | ⟨a, ha, hfails, hordered⟩
      · intro a ha
        exact (hsilent a ha).resolve_right (not_or.mpr ⟨h.numbers a ha, hno a ha⟩)
      · exact absurd (hsilent a ha) (not_or.mpr ⟨hfails, hordered⟩)
    · intro before a after hsplit hnan
      refine absurd hnan (h.numbers a ?_)
      rw [hsplit]
      exact List.mem_append_right before List.mem_cons_self

/-- A float that is not a number passes for one. -/
theorem passes_nan :
    ¬ NoFalsePass (fun _ => "nan") "t" [.expectFloatEq (.finite 1) .nan (.finite 0) "m"] := by
  intro h
  have hholds := (h.passed rfl).2 _ List.mem_cons_self
  exact absurd hholds Bool.false_ne_true

end FalconStd.Testing
