import Mathlib.Data.List.Induction
import Mathlib.Data.Rat.Defs
import Mathlib.Algebra.Order.Ring.Rat

/-! `TestContext` (`testing/testing-wrapper.cpp`): assertions collect failures and
never abort. A routine that prints returns the texts it writes. -/
namespace FalconStd.Testing

def C_GREEN : String := "\x1b[32m"
def C_RED : String := "\x1b[31m"
def C_CYAN : String := "\x1b[36m"
def C_BOLD : String := "\x1b[1m"
def C_RESET : String := "\x1b[0m"

/-! ### Floats -/

/-- A float is a number, an infinity or not a number; arithmetic is exact. -/
inductive Double where
  | finite (q : ℚ)
  | posInf
  | negInf
  | nan
  deriving DecidableEq

namespace Double

def neg : Double → Double
  | .finite q => .finite (-q)
  | .posInf => .negInf
  | .negInf => .posInf
  | .nan => .nan

def add : Double → Double → Double
  | .nan, _ => .nan
  | _, .nan => .nan
  | .finite p, .finite q => .finite (p + q)
  | .finite _, y => y
  | x, .finite _ => x
  | .posInf, .posInf => .posInf
  | .negInf, .negInf => .negInf
  | _, _ => .nan

def sub (x y : Double) : Double := x.add y.neg

def fabs : Double → Double
  | .finite q => .finite |q|
  | .posInf => .posInf
  | .negInf => .posInf
  | .nan => .nan

/-- `x > y`, false of anything that is not a number. -/
def gt : Double → Double → Bool
  | .finite p, .finite q => decide (q < p)
  | .finite _, .negInf => true
  | .posInf, .finite _ => true
  | .posInf, .negInf => true
  | _, _ => false

end Double

/-! ### Contexts -/

structure TestContext where
  name : String
  failures : List String
  deriving DecidableEq, Repr

inductive Assertion where
  | expectTrue (condition : Bool) (msg : String)
  | expectFalse (condition : Bool) (msg : String)
  | expectIntEq (expected actual : Int) (msg : String)
  | expectIntNe (expected actual : Int) (msg : String)
  | expectIntLt (a b : Int) (msg : String)
  | expectIntGt (a b : Int) (msg : String)
  | expectFloatEq (expected actual tol : Double) (msg : String)
  | expectStrEq (expected actual msg : String)
  | expectStrNe (expected actual msg : String)
  | fail (msg : String)
  | log (msg : String)

namespace TestContext

def new (name : String) : TestContext := ⟨name, []⟩

def passed (ctx : TestContext) : Bool := ctx.failures.isEmpty

/-- The size, cast to `int`. -/
def failure_count (ctx : TestContext) : Int := Int.bmod ctx.failures.length (2 ^ 32)

def fail (ctx : TestContext) (msg : String) : TestContext :=
  { ctx with failures := ctx.failures ++ [msg] }

def expect (ctx : TestContext) (ok : Bool) (msg : String) : TestContext :=
  if !ok then ctx.fail msg else ctx

def log (ctx : TestContext) (msg : String) : List String :=
  [C_CYAN ++ "[ INFO     ] " ++ C_RESET ++ ctx.name ++ ": " ++ msg ++ "\n"]

/-- How a stream prints a float. -/
abbrev Printer := Double → String

variable (printed : Printer) (ctx : TestContext)

def expectTrue (condition : Bool) (msg : String) : TestContext := ctx.expect condition msg

def expectFalse (condition : Bool) (msg : String) : TestContext := ctx.expect (!condition) msg

def expectIntEq (e a : Int) (m : String) : TestContext :=
  if e ≠ a then ctx.fail (m ++ " (expected=" ++ toString e ++ " actual=" ++ toString a ++ ")")
  else ctx

def expectIntNe (e a : Int) (m : String) : TestContext :=
  if e = a then ctx.fail (m ++ " (both=" ++ toString e ++ ", expected to differ)") else ctx

def expectIntLt (a b : Int) (m : String) : TestContext :=
  if ¬ a < b then ctx.fail (m ++ " (expected " ++ toString a ++ " < " ++ toString b ++ ")") else ctx

def expectIntGt (a b : Int) (m : String) : TestContext :=
  if ¬ a > b then ctx.fail (m ++ " (expected " ++ toString a ++ " > " ++ toString b ++ ")") else ctx

def expectFloatEq (e a tol : Double) (m : String) : TestContext :=
  if (e.sub a).fabs.gt tol then
    ctx.fail (m ++ " (expected=" ++ printed e ++ " actual=" ++ printed a ++ " tol=" ++
      printed tol ++ ")")
  else ctx

def expectStrEq (e a m : String) : TestContext :=
  if e ≠ a then ctx.fail (m ++ " (expected=\"" ++ e ++ "\" actual=\"" ++ a ++ "\")") else ctx

def expectStrNe (e a m : String) : TestContext :=
  if e = a then ctx.fail (m ++ " (both=\"" ++ e ++ "\", expected to differ)") else ctx

/-- One assertion: the context after it and what it writes. -/
def assert : Assertion → TestContext × List String
  | .expectTrue condition msg => (ctx.expectTrue condition msg, [])
  | .expectFalse condition msg => (ctx.expectFalse condition msg, [])
  | .expectIntEq expected actual msg => (ctx.expectIntEq expected actual msg, [])
  | .expectIntNe expected actual msg => (ctx.expectIntNe expected actual msg, [])
  | .expectIntLt a b msg => (ctx.expectIntLt a b msg, [])
  | .expectIntGt a b msg => (ctx.expectIntGt a b msg, [])
  | .expectFloatEq expected actual tol msg => (ctx.expectFloatEq printed expected actual tol msg, [])
  | .expectStrEq expected actual msg => (ctx.expectStrEq expected actual msg, [])
  | .expectStrNe expected actual msg => (ctx.expectStrNe expected actual msg, [])
  | .fail msg => (ctx.fail msg, [])
  | .log msg => (ctx, ctx.log msg)

/-- A context after the assertions of a test. -/
def assertAll (assertions : List Assertion) : TestContext :=
  assertions.foldl (fun ctx a => (ctx.assert printed a).1) ctx

variable {ctx}

theorem ite_fail_name (c : Prop) [Decidable c] (m : String) :
    (if c then ctx.fail m else ctx).name = ctx.name := by
  split <;> rfl

/-- Assertions do not rename the test. -/
theorem assert_name (a : Assertion) : (ctx.assert printed a).1.name = ctx.name := by
  cases a with
  | fail msg => rfl
  | log msg => rfl
  | _ => exact ite_fail_name _ _

theorem assertAll_name (assertions : List Assertion) :
    (ctx.assertAll printed assertions).name = ctx.name := by
  induction assertions generalizing ctx with
  | nil => rfl
  | cons a rest ih => exact ih.trans (assert_name printed a)

end TestContext

/-! ### What a test records -/

/-- The failure that an assertion reports, with its text. -/
def Assertion.failure? (printed : TestContext.Printer) : Assertion → Option String
  | .expectTrue condition msg => if condition then none else some msg
  | .expectFalse condition msg => if condition then some msg else none
  | .expectIntEq expected actual msg =>
    if expected = actual then none
    else some (msg ++ " (expected=" ++ toString expected ++ " actual=" ++ toString actual ++ ")")
  | .expectIntNe expected actual msg =>
    if expected = actual then some (msg ++ " (both=" ++ toString expected ++ ", expected to differ)")
    else none
  | .expectIntLt a b msg =>
    if a < b then none
    else some (msg ++ " (expected " ++ toString a ++ " < " ++ toString b ++ ")")
  | .expectIntGt a b msg =>
    if a > b then none
    else some (msg ++ " (expected " ++ toString a ++ " > " ++ toString b ++ ")")
  | .expectFloatEq expected actual tol msg =>
    if (expected.sub actual).fabs.gt tol then
      some (msg ++ " (expected=" ++ printed expected ++ " actual=" ++ printed actual ++
        " tol=" ++ printed tol ++ ")")
    else none
  | .expectStrEq expected actual msg =>
    if expected = actual then none
    else some (msg ++ " (expected=\"" ++ expected ++ "\" actual=\"" ++ actual ++ "\")")
  | .expectStrNe expected actual msg =>
    if expected = actual then some (msg ++ " (both=\"" ++ expected ++ "\", expected to differ)")
    else none
  | .fail msg => some msg
  | .log _ => none

/-- The failures of a test's assertions, in their order. -/
def recorded (printed : TestContext.Printer) (assertions : List Assertion) : List String :=
  assertions.filterMap (Assertion.failure? printed)

theorem recorded_concat (printed : TestContext.Printer) (past : List Assertion) (a : Assertion) :
    recorded printed (past ++ [a]) = recorded printed past ++ (a.failure? printed).toList := by
  rw [recorded, List.filterMap_append, List.filterMap_cons, List.filterMap_nil]
  cases a.failure? printed <;> rfl

namespace TestContext
variable (printed : Printer) {ctx : TestContext}

theorem ite_fail_failures (c : Prop) [Decidable c] (m : String) :
    (if c then ctx.fail m else ctx).failures =
      ctx.failures ++ (if c then some m else none).toList := by
  by_cases h : c
  · rw [if_pos h, if_pos h]
    rfl
  · rw [if_neg h, if_neg h]
    exact (List.append_nil _).symm

/-- **An assertion records its failure**, after those that are there. -/
theorem assert_failures (a : Assertion) :
    (ctx.assert printed a).1.failures = ctx.failures ++ (a.failure? printed).toList := by
  cases a with
  | fail msg => rfl
  | log msg => exact (List.append_nil _).symm
  | expectTrue condition msg =>
    cases condition <;> simp [assert, expectTrue, expect, fail, Assertion.failure?]
  | expectFalse condition msg =>
    cases condition <;> simp [assert, expectFalse, expect, fail, Assertion.failure?]
  | expectFloatEq expected actual tol msg => exact ite_fail_failures _ _
  | expectIntNe expected actual msg => exact ite_fail_failures _ _
  | expectStrNe expected actual msg => exact ite_fail_failures _ _
  | _ =>
    refine (ite_fail_failures _ _).trans ?_
    rw [ite_not]
    rfl

theorem assertAll_failures (assertions : List Assertion) :
    (ctx.assertAll printed assertions).failures = ctx.failures ++ recorded printed assertions := by
  induction assertions using List.reverseRecOn with
  | nil => exact (List.append_nil _).symm
  | append_singleton past a ih =>
    rw [assertAll, List.foldl_append]
    show ((ctx.assertAll printed past).assert printed a).1.failures = _
    rw [assert_failures, ih, List.append_assoc, recorded_concat]

end TestContext

end FalconStd.Testing
