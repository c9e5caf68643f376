import FalconStd.Collections.Array
import FalconStd.Testing.TestContext

/-! `TestRunner` (`testing/testing-wrapper.cpp`): four vectors and an index that
must stay in step. The vectors are indexed unchecked. The index and the counts are
`int`s: a size is cast and wraps, and so does arithmetic beyond the range, which in the
source is undefined for `++`. -/
namespace FalconStd.Testing

structure TestRunner where
  suite_name : String
  test_names : List String
  results : List Bool
  failure_msgs : List (List String)
  current_idx : Int
  deriving DecidableEq, Repr

namespace TestRunner

def new (suite_name : String) : TestRunner := ⟨suite_name, [], [], [], 0⟩

variable (r : TestRunner)

/-- The `int` that a number wraps to. -/
def int (n : Int) : Int := (Int32.ofInt n).toInt

def total : Int := int r.test_names.length

def has_next : Bool := decide (r.current_idx < r.total)

def passed : Int := r.results.foldl (fun n b => if b then int (n + 1) else n) 0

def failed : Int := int (r.total - r.passed)

/-- The index is converted to `size_t`. -/
def current_name : Except Failure String :=
  if r.current_idx < r.total then unchecked r.test_names (r.current_idx % 2 ^ 64).toNat else .ok ""

def register_test (name : String) : TestRunner := { r with test_names := r.test_names ++ [name] }

def print_header : List String :=
  [C_BOLD ++ "[==========] " ++ C_RESET ++ "Running " ++ toString r.total ++ " test(s) from " ++
      r.suite_name ++ "\n",
    C_GREEN ++ "[----------] " ++ C_RESET ++ "Global test environment set-up.\n"]

def begin_current : Except Failure (TestContext × List String) := do
  let name ← r.current_name
  .ok (TestContext.new name, [C_GREEN ++ "[ RUN      ] " ++ C_RESET ++ r.suite_name ++ "." ++ name ++ "\n"])

def failureLine (f : String) : String := "             " ++ C_RED ++ "✗ " ++ f ++ C_RESET ++ "\n"

def end_current (ctx : TestContext) : TestRunner × List String :=
  let ok := ctx.passed
  let lines :=
    if ok then [C_GREEN ++ "[       OK ] " ++ C_RESET ++ r.suite_name ++ "." ++ ctx.name ++ "\n"]
    else ctx.failures.map failureLine ++
      [C_RED ++ "[  FAILED  ] " ++ C_RESET ++ r.suite_name ++ "." ++ ctx.name ++ "\n"]
  ({ r with
      results := r.results ++ [ok]
      failure_msgs := r.failure_msgs ++ [ctx.failures]
      current_idx := int (r.current_idx + 1) }, lines)

/-! ### The summary -/

/-- A pass of the loop of `print_summary`; the messages are read only of a test that
failed. -/
def summaryEntry (i : Nat) : Except Failure (List String) := do
  let ok ← unchecked r.results i
  let name ← unchecked r.test_names i
  if ok then .ok [C_GREEN ++ "[  PASSED  ] " ++ C_RESET ++ name ++ "\n"]
  else do
    let failures ← unchecked r.failure_msgs i
    .ok ((C_RED ++ "[  FAILED  ] " ++ C_RESET ++ name ++ "\n") :: failures.map failureLine)

def summaryHead : List String :=
  ["\n" ++ C_BOLD ++ "[==========] " ++ C_RESET ++ toString r.total ++ " test(s) from " ++
      r.suite_name ++ "\n",
    C_GREEN ++ "[----------] " ++ C_RESET ++ "Global test environment tear-down.\n"]

def summaryTail : List String :=
  [C_BOLD ++ "[----------]\n" ++ C_RESET] ++
  (if r.passed > 0 then
    [C_GREEN ++ "[  PASSED  ] " ++ C_RESET ++ toString r.passed ++ " test(s)\n"] else []) ++
  (if r.failed > 0 then
    [C_RED ++ "[  FAILED  ] " ++ C_RESET ++ toString r.failed ++ " test(s)\n"] else []) ++
  [C_BOLD ++ "[==========] " ++ C_RESET ++ toString r.total ++ " test(s) ran.\n\n"]

def print_summary : Except Failure (List String) := do
  let entries ← (List.range r.total.toNat).mapM r.summaryEntry
  .ok (r.summaryHead ++ entries.flatten ++ r.summaryTail)

end TestRunner

end FalconStd.Testing
