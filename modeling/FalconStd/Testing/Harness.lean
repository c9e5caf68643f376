import Mathlib.Data.List.Indexes
import Mathlib.Logic.Function.Iterate
import FalconStd.Foundation.Traverse
import FalconStd.Testing.TestRunner

/-! The harness protocol around a suite (`testing/README.md`, "How it works").

The generated states register the names, and then begin, dispatch and end one
test after another until the runner has no next, and print the summary. What a
test asserts is `body`, of its place and its name. `harness_accounting`: for any
names and any bodies the protocol ends, having taken each test once, in order,
and the runner's counts and summary are those of the tests, as long as the number
of names is an `int`; the runner takes no test beyond (`taken`). -/
namespace FalconStd.Testing

/-! ### What the runner holds -/

namespace TestRunner

/-- How many tests the runner takes: as many as it counts names. -/
def taken (names : List String) : Nat := (int names.length).toNat

/-- What the summary shows of a test: its verdict with its name, and its failures. -/
def shown (name : String) (failures : List String) : List String :=
  if failures = [] then ["\x1b[32m[  PASSED  ] \x1b[0m" ++ name ++ "\n"]
  else ("\x1b[31m[  FAILED  ] \x1b[0m" ++ name ++ "\n") ::
    failures.map fun f => "             \x1b[31m✗ " ++ f ++ "\x1b[0m" ++ "\n"

/-- The entries of the names, each with the failures of the context ended in its place. -/
def shownAll (names : List String) (ended : List TestContext) : List String :=
  ((names.zip ended).take (taken names)).flatMap fun e => shown e.1 e.2.failures

/-- The runner has the given names, and has ended the given contexts. -/
structure Recorded (r : TestRunner) (names : List String) (ended : List TestContext) : Prop where
  test_names : r.test_names = names
  results : r.results = ended.map TestContext.passed
  failure_msgs : r.failure_msgs = ended.map TestContext.failures
  current_idx : r.current_idx = int ended.length

/-- The four vectors and the index are in step. -/
structure InStep (r : TestRunner) : Prop where
  results : r.current_idx = r.results.length
  failure_msgs : r.results.length = r.failure_msgs.length
  bound : r.current_idx ≤ r.test_names.length

theorem int_eq_bmod (n : Int) : int n = Int.bmod n (2 ^ 32) := Int32.toInt_ofInt

theorem int_eq {n : Nat} (h : n < 2 ^ 31) : int n = n := by
  rw [int_eq_bmod]
  exact Int.bmod_eq_of_le (by omega) (by omega)

theorem int_add (n m : Int) : int (int n + m) = int (n + m) := by
  rw [int_eq_bmod, int_eq_bmod, int_eq_bmod]
  exact Int.bmod_add_bmod

theorem int_lt (n : Int) : int n < 2 ^ 31 := by
  rw [int_eq_bmod]
  exact Int.bmod_lt (by decide)

theorem int_zero : int 0 = 0 := rfl

section Taken
variable (names : List String)

theorem taken_lt : taken names < 2 ^ 31 := by
  have hlt := int_lt names.length
  unfold taken
  omega

theorem taken_eq (h : names.length < 2 ^ 31) : taken names = names.length := by
  rw [taken, int_eq h, Int.toNat_natCast]

theorem taken_le : taken names ≤ names.length := by
  by_cases h : names.length < 2 ^ 31
  · rw [taken_eq names h]
  · have hlt := taken_lt names
    omega

theorem shownAll_eq (ended : List TestContext) (h : names.length < 2 ^ 31) :
    shownAll names ended = (names.zip ended).flatMap fun e => shown e.1 e.2.failures := by
  rw [shownAll, taken_eq names h, List.take_of_length_le]
  rw [List.length_zip]
  exact Nat.min_le_left _ _

end Taken

variable {r : TestRunner} {names : List String} {ended : List TestContext}

theorem Recorded.total (h : Recorded r names ended) : r.total = int names.length := by
  rw [TestRunner.total, h.test_names]

theorem Recorded.index (h : Recorded r names ended) (hended : ended.length < 2 ^ 31) :
    r.current_idx = ended.length := by
  rw [h.current_idx, int_eq hended]

theorem Recorded.inStep (h : Recorded r names ended) (hended : ended.length ≤ taken names) :
    r.InStep := by
  have hlt := Nat.lt_of_le_of_lt hended (taken_lt names)
  have hle := Nat.le_trans hended (taken_le names)
  refine ⟨?_, ?_, ?_⟩
  · rw [h.index hlt, h.results, List.length_map]
  · rw [h.results, h.failure_msgs, List.length_map, List.length_map]
  · rw [h.index hlt, h.test_names]
    exact Int.ofNat_le.mpr hle

theorem Recorded.register_test (h : Recorded r names ended) (name : String) :
    Recorded (r.register_test name) (names ++ [name]) ended :=
  ⟨congrArg (· ++ [name]) h.test_names, h.results, h.failure_msgs, h.current_idx⟩

theorem Recorded.end_current (h : Recorded r names ended) (ctx : TestContext) :
    Recorded (r.end_current ctx).1 names (ended ++ [ctx]) := by
  refine ⟨h.test_names, ?_, ?_, ?_⟩
  · simp [TestRunner.end_current, h.results]
  · simp [TestRunner.end_current, h.failure_msgs]
  · show int (r.current_idx + 1) = int (ended ++ [ctx]).length
    rw [h.current_idx, int_add, List.length_append]
    rfl

/-- The index is one of a test that is still to be taken. -/
theorem Recorded.index_lt_iff (h : Recorded r names ended) (hended : ended.length < 2 ^ 31) :
    r.current_idx < r.total ↔ ended.length < taken names := by
  rw [h.index hended, h.total, taken, Int.lt_toNat]

theorem Recorded.has_next (h : Recorded r names ended) (hended : ended.length < 2 ^ 31) :
    r.has_next = decide (ended.length < taken names) := by
  rw [TestRunner.has_next, decide_eq_decide]
  exact h.index_lt_iff hended

theorem Recorded.current_name (h : Recorded r names ended) (hended : ended.length < 2 ^ 31) :
    r.current_name = .ok ((names.take (taken names))[ended.length]?.getD "") := by
  unfold TestRunner.current_name
  by_cases hlt : ended.length < taken names
  · have hname := List.getElem?_eq_getElem (Nat.lt_of_lt_of_le hlt (taken_le names))
    have hidx : (r.current_idx % 2 ^ 64).toNat = ended.length := by
      rw [h.index hended]
      omega
    rw [if_pos ((h.index_lt_iff hended).mpr hlt), hidx, h.test_names,
      Collections.ArrayValue.unchecked_of_lt hname, List.getElem?_take, if_pos hlt, hname]
    rfl
  · rw [if_neg (mt (h.index_lt_iff hended).mp hlt), List.getElem?_take, if_neg hlt]
    rfl

/-- The test that is begun has the name at the index. -/
theorem Recorded.begin_current (h : Recorded r names ended) (hended : ended.length < 2 ^ 31) :
    ∃ lines, r.begin_current =
      .ok (TestContext.new ((names.take (taken names))[ended.length]?.getD ""), lines) := by
  unfold TestRunner.begin_current
  rw [h.current_name hended]
  exact ⟨_, rfl⟩

/-! ### Counts and summary -/

theorem passed_eq_decide : TestContext.passed = fun ctx => decide (ctx.failures = []) := by
  funext ctx
  cases ctx with
  | mk name failures => cases failures <;> rfl

theorem count_fold (results : List Bool) (n : Int) :
    results.foldl (fun n b => if b then int (n + 1) else n) (int n) =
      int (n + (results.countP id : Nat)) := by
  induction results generalizing n with
  | nil => simp
  | cons b rest ih =>
    rw [List.foldl_cons, List.countP_cons]
    cases b with
    | false => exact ih n
    | true =>
      rw [if_pos rfl, int_add, ih (n + 1)]
      congr 1
      simp only [id_eq, if_true]
      omega

theorem Recorded.passed (h : Recorded r names ended) (hended : ended.length < 2 ^ 31) :
    r.passed = (ended.countP TestContext.passed : Nat) := by
  have hle : ended.countP TestContext.passed ≤ ended.length := List.countP_le_length
  have hcount : r.results.countP id = ended.countP TestContext.passed := by
    rw [h.results, List.countP_map]
    rfl
  have hfold := count_fold r.results 0
  rw [int_zero, Int.zero_add, hcount, int_eq (Nat.lt_of_le_of_lt hle hended)] at hfold
  exact hfold

theorem Recorded.failed (h : Recorded r names ended) (hnames : names.length < 2 ^ 31)
    (hended : ended.length < 2 ^ 31) :
    r.failed = names.length - (ended.countP TestContext.passed : Nat) := by
  have hle : ended.countP TestContext.passed ≤ ended.length := List.countP_le_length
  unfold TestRunner.failed
  rw [h.passed hended, h.total, int_eq hnames, int_eq_bmod]
  exact Int.bmod_eq_of_le (by omega) (by omega)

/-- A pass of the loop at the place of an ended context. -/
theorem Recorded.summaryEntry (h : Recorded r names ended) {i : Nat} {name : String}
    {ctx : TestContext} (hname : names[i]? = some name) (hctx : ended[i]? = some ctx) :
    r.summaryEntry i = .ok (shown name ctx.failures) := by
  have hresult : unchecked r.results i = .ok ctx.passed := by
    apply Collections.ArrayValue.unchecked_of_lt
    rw [h.results, List.getElem?_map, hctx, Option.map_some]
  have hfailures : unchecked r.failure_msgs i = .ok ctx.failures := by
    apply Collections.ArrayValue.unchecked_of_lt
    rw [h.failure_msgs, List.getElem?_map, hctx, Option.map_some]
  have htest : unchecked r.test_names i = .ok name := by
    apply Collections.ArrayValue.unchecked_of_lt
    rw [h.test_names, hname]
  unfold TestRunner.summaryEntry shown
  rw [hresult, htest, hfailures]
  by_cases hok : ctx.failures = []
  · rw [if_pos hok, TestContext.passed, hok]
    rfl
  · have hfailed : ctx.passed = false := by
      rw [TestContext.passed, List.isEmpty_eq_false_iff]
      exact hok
    rw [if_neg hok, hfailed]
    rfl

/-- The entries of the names that the loop reaches, where each has its context. -/
theorem Recorded.entries (h : Recorded r names ended) {n : Nat} (hnames : n ≤ names.length)
    (hended : n ≤ ended.length) :
    (List.range n).mapM r.summaryEntry =
      .ok (((names.zip ended).take n).map fun e => shown e.1 e.2.failures) := by
  rw [Foundation.mapM_eq_ok_iff, List.forall₂_map_right_iff, List.forall₂_iff_get]
  refine ⟨?_, fun i hi hi' => ?_⟩
  · rw [List.length_range, List.length_take, List.length_zip]
    omega
  · rw [List.length_range] at hi
    have hlt : i < names.length := by omega
    have hlt' : i < ended.length := by omega
    simp only [List.get_eq_getElem, List.getElem_range, List.getElem_take, List.getElem_zip]
    exact h.summaryEntry (List.getElem?_eq_getElem hlt) (List.getElem?_eq_getElem hlt')

theorem Recorded.print_summary (h : Recorded r names ended) (hended : taken names ≤ ended.length) :
    r.print_summary = .ok (r.summaryHead ++ shownAll names ended ++ r.summaryTail) := by
  unfold TestRunner.print_summary shownAll
  rw [h.total, ← taken, h.entries (taken_le names) hended, List.flatMap_def]
  rfl

theorem range_split {m n : Nat} (h : m < n) :
    ∃ after, List.range n = List.range m ++ m :: after := by
  obtain ⟨k, rfl⟩ : ∃ k, n = m + 1 + k := ⟨n - (m + 1), by omega⟩
  rw [List.range_add, List.range_succ, List.append_assoc]
  exact ⟨_, rfl⟩

/-- The first name without an ended context is read past the results. -/
theorem Recorded.summary_raises (h : Recorded r names ended) (hended : ended.length < taken names) :
    ∃ e, r.print_summary = .error e := by
  have hpast : r.summaryEntry ended.length = .error (.outOfRange ended.length r.results.length) := by
    have hresult : r.results[ended.length]? = none := by
      rw [h.results, List.getElem?_map, List.getElem?_eq_none (Nat.le_refl _)]
      rfl
    rw [TestRunner.summaryEntry, unchecked, hresult]
    rfl
  have hbefore : ∀ i ∈ List.range ended.length, ∃ lines, r.summaryEntry i = .ok lines := by
    intro i hi
    have hlt := List.mem_range.mp hi
    have hle := taken_le names
    exact ⟨_, h.summaryEntry (List.getElem?_eq_getElem (by omega)) (List.getElem?_eq_getElem hlt)⟩
  obtain ⟨after, hrange⟩ := range_split hended
  have hloop := Foundation.mapM_eq_error_iff.mpr ⟨_, _, _, hrange, hbefore, hpast⟩
  refine ⟨.outOfRange ended.length r.results.length, ?_⟩
  unfold TestRunner.print_summary
  rw [h.total, ← taken, hloop]
  rfl

end TestRunner

/-! ### The protocol -/

/-- The generated states, with what they hand on. -/
inductive Control where
  | init (rest : List String)
  | loop
  | begin_
  | dispatch (ctx : TestContext) (rest : List Assertion)
  | end_ (ctx : TestContext)
  | finish
  | terminal
  | raised (e : Failure)

structure Harness where
  runner : TestRunner
  control : Control
  /-- The names of the contexts that `BeginCurrent` returned. -/
  begun : List String
  /-- The contexts that `EndCurrent` was given. -/
  ended : List TestContext
  output : List String

namespace Harness

variable (printed : TestContext.Printer) (body : Nat → String → List Assertion)

def step (h : Harness) : Harness :=
  match h.control with
  | .init [] => { h with control := .loop, output := h.output ++ h.runner.print_header }
  | .init (name :: rest) =>
    { h with runner := h.runner.register_test name, control := .init rest }
  | .loop => { h with control := if h.runner.has_next then .begin_ else .finish }
  | .begin_ =>
    match h.runner.begin_current with
    | .error e => { h with control := .raised e }
    | .ok (ctx, lines) =>
      { h with
        control := .dispatch ctx (body h.runner.current_idx.toNat ctx.name)
        begun := h.begun ++ [ctx.name]
        output := h.output ++ lines }
  | .dispatch ctx [] => { h with control := .end_ ctx }
  | .dispatch ctx (a :: rest) =>
    let (ctx', lines) := ctx.assert printed a
    { h with control := .dispatch ctx' rest, output := h.output ++ lines }
  | .end_ ctx =>
    let (runner, lines) := h.runner.end_current ctx
    { h with
      runner := runner
      control := .loop
      ended := h.ended ++ [ctx]
      output := h.output ++ lines }
  | .finish =>
    match h.runner.print_summary with
    | .error e => { h with control := .raised e }
    | .ok lines => { h with control := .terminal, output := h.output ++ lines }
  | .terminal => h
  | .raised _ => h

def start (suite_name : String) (names : List String) : Harness :=
  ⟨TestRunner.new suite_name, .init names, [], [], []⟩

/-- The contexts that the tests should end with: each has its test's name, and the
failures that its own assertions report. -/
def tests (names : List String) : List TestContext :=
  names.mapIdx fun i name => ⟨name, recorded printed (body i name)⟩

/-- The first tests are ended, each with its own failures, and `begun` of them begun. -/
structure Progress (names : List String) (begun : Nat) (h : Harness) : Prop where
  recorded : h.runner.Recorded names h.ended
  bound : h.ended.length ≤ TestRunner.taken names
  begun : h.begun = names.take begun
  ended : h.ended = (tests printed body names).take h.ended.length

/-- What holds in each state of the protocol. -/
def Inv (names : List String) (h : Harness) : Prop :=
  match h.control with
  | .init rest => ∃ before, before ++ rest = names ∧ h.ended = [] ∧ h.begun = [] ∧
    h.runner.Recorded before []
  | .loop => Progress printed body names h.ended.length h
  | .begin_ => Progress printed body names h.ended.length h ∧
    h.ended.length < TestRunner.taken names
  | .dispatch ctx rest => Progress printed body names (h.ended.length + 1) h ∧
    h.ended.length < TestRunner.taken names ∧
    (tests printed body names)[h.ended.length]? = some (ctx.assertAll printed rest)
  | .end_ ctx => Progress printed body names (h.ended.length + 1) h ∧
    h.ended.length < TestRunner.taken names ∧
    (tests printed body names)[h.ended.length]? = some ctx
  | .finish => Progress printed body names h.ended.length h ∧
    h.ended.length = TestRunner.taken names
  | .terminal => Progress printed body names h.ended.length h ∧
    h.ended.length = TestRunner.taken names ∧
    ∃ lines, h.runner.print_summary = .ok lines ∧ lines <:+ h.output
  | .raised _ => False

variable {printed body} {names : List String}

/-- A fresh context after the assertions of a test. -/
theorem assertAll_new (name : String) (assertions : List Assertion) :
    (TestContext.new name).assertAll printed assertions = ⟨name, recorded printed assertions⟩ := by
  have hname : ((TestContext.new name).assertAll printed assertions).name = name :=
    TestContext.assertAll_name printed assertions
  have hfailures : ((TestContext.new name).assertAll printed assertions).failures =
      recorded printed assertions := TestContext.assertAll_failures printed assertions
  cases hctx : (TestContext.new name).assertAll printed assertions with
  | mk name' failures =>
    rw [hctx] at hname hfailures
    exact congrArg₂ TestContext.mk hname hfailures

theorem tests_at {i : Nat} {name : String} (hname : names[i]? = some name) :
    (tests printed body names)[i]? =
      some ((TestContext.new name).assertAll printed (body i name)) := by
  unfold tests
  rw [List.getElem?_mapIdx, hname, assertAll_new]
  rfl

/-- One more of a list, at its place. -/
theorem take_concat {α : Type} {l : List α} {i : Nat} {x : α} (hx : l[i]? = some x) :
    l.take i ++ [x] = l.take (i + 1) := by
  rw [List.take_add_one, hx]
  rfl

theorem Progress.lt {begun : Nat} {h : Harness} (hprogress : Progress printed body names begun h) :
    h.ended.length < 2 ^ 31 :=
  Nat.lt_of_le_of_lt hprogress.bound (TestRunner.taken_lt names)

theorem inv_start (suite_name : String) :
    Inv printed body names (start suite_name names) :=
  ⟨[], rfl, rfl, rfl, rfl, rfl, rfl, TestRunner.int_zero.symm⟩

/-- The name of the test that is begun. -/
theorem Progress.begin_current {begun : Nat} {h : Harness}
    (hprogress : Progress printed body names begun h)
    (hlt : h.ended.length < TestRunner.taken names) :
    ∃ name lines, names[h.ended.length]? = some name ∧
      h.runner.current_idx.toNat = h.ended.length ∧
      h.runner.begin_current = .ok (TestContext.new name, lines) := by
  have hname := List.getElem?_eq_getElem (Nat.lt_of_lt_of_le hlt (TestRunner.taken_le names))
  obtain ⟨lines, hbegin⟩ := hprogress.recorded.begin_current hprogress.lt
  rw [List.getElem?_take, if_pos hlt, hname] at hbegin
  refine ⟨_, lines, hname, ?_, hbegin⟩
  rw [hprogress.recorded.index hprogress.lt, Int.toNat_natCast]

/-- **Every step** keeps what holds in its state. -/
theorem inv_step {h : Harness} (hinv : Inv printed body names h) :
    Inv printed body names (h.step printed body) := by
  obtain ⟨r, control, begun, ended, output⟩ := h
  cases control with
  | init rest =>
    obtain ⟨before, hsplit, hended, hbegun, hrecorded⟩ := hinv
    cases rest with
    | nil =>
      obtain rfl : before = names := by simpa using hsplit
      obtain rfl : ended = [] := hended
      exact ⟨hrecorded, Nat.zero_le _, hbegun, rfl⟩
    | cons name rest =>
      refine ⟨before ++ [name], ?_, hended, hbegun, hrecorded.register_test name⟩
      rw [← hsplit, List.append_assoc]
      rfl
  | loop =>
    have hprogress : Progress printed body names ended.length ⟨r, .loop, begun, ended, output⟩ := hinv
    show Inv printed body names ⟨r, if r.has_next then .begin_ else .finish, begun, ended, output⟩
    rw [hprogress.recorded.has_next hprogress.lt]
    obtain ⟨hrecorded, hbound, hbegun, hended⟩ := hprogress
    by_cases hlt : ended.length < TestRunner.taken names
    · rw [decide_eq_true hlt]
      exact ⟨⟨hrecorded, hbound, hbegun, hended⟩, hlt⟩
    · rw [decide_eq_false hlt]
      exact ⟨⟨hrecorded, hbound, hbegun, hended⟩, Nat.le_antisymm hbound (Nat.not_lt.mp hlt)⟩
  | begin_ =>
    obtain ⟨hprogress, hlt⟩ := hinv
    obtain ⟨name, lines, hname, hidx, hbegin⟩ := hprogress.begin_current hlt
    obtain ⟨hrecorded, hbound, hbegun, hended⟩ := hprogress
    unfold step
    simp only [hbegin, hidx]
    refine ⟨⟨hrecorded, hbound, ?_, hended⟩, hlt, tests_at hname⟩
    exact (congrArg (· ++ [name]) hbegun).trans (take_concat hname)
  | dispatch ctx rest =>
    obtain ⟨⟨hrecorded, hbound, hbegun, hended⟩, hlt, htest⟩ := hinv
    cases rest with
    | nil => exact ⟨⟨hrecorded, hbound, hbegun, hended⟩, hlt, htest⟩
    | cons a rest => exact ⟨⟨hrecorded, hbound, hbegun, hended⟩, hlt, htest⟩
  | end_ ctx =>
    obtain ⟨⟨hrecorded, hbound, hbegun, hended⟩, hlt, htest⟩ := hinv
    refine ⟨hrecorded.end_current ctx, ?_, ?_, ?_⟩
    · show (ended ++ [ctx]).length ≤ TestRunner.taken names
      rw [List.length_append]
      exact hlt
    · show begun = names.take (ended ++ [ctx]).length
      rw [List.length_append]
      exact hbegun
    · show ended ++ [ctx] = (tests printed body names).take (ended ++ [ctx]).length
      rw [List.length_append]
      exact (congrArg (· ++ [ctx]) hended).trans (take_concat htest)
  | finish =>
    obtain ⟨⟨hrecorded, hbound, hbegun, hended⟩, hlen⟩ := hinv
    have hsummary := hrecorded.print_summary (Nat.le_of_eq hlen.symm)
    unfold step
    simp only [hsummary]
    exact ⟨⟨hrecorded, hbound, hbegun, hended⟩, hlen, _, hsummary, List.suffix_append _ _⟩
  | terminal => exact hinv
  | raised e => exact hinv

/-! ### Every run ends -/

variable (printed body) in
def Reaches (h h' : Harness) : Prop := ∃ n, (step printed body)^[n] h = h'

theorem Reaches.refl (h : Harness) : Reaches printed body h h := ⟨0, rfl⟩

theorem Reaches.step {h h' : Harness} (hreach : Reaches printed body (h.step printed body) h') :
    Reaches printed body h h' := by
  obtain ⟨n, hn⟩ := hreach
  exact ⟨n + 1, hn⟩

theorem Reaches.trans {h h' h'' : Harness} (hreach : Reaches printed body h h')
    (hreach' : Reaches printed body h' h'') : Reaches printed body h h'' := by
  obtain ⟨n, rfl⟩ := hreach
  obtain ⟨m, rfl⟩ := hreach'
  exact ⟨m + n, Function.iterate_add_apply _ m n h⟩

theorem inv_reaches {h h' : Harness} (hinv : Inv printed body names h)
    (hreach : Reaches printed body h h') : Inv printed body names h' := by
  obtain ⟨n, rfl⟩ := hreach
  induction n generalizing h with
  | zero => exact hinv
  | succ n ih => exact ih (inv_step hinv)

theorem dispatch_ends (rest : List Assertion) (h : Harness) (ctx : TestContext)
    (hcontrol : h.control = .dispatch ctx rest) :
    ∃ h' ctx', Reaches printed body h h' ∧ h'.control = .end_ ctx' ∧ h'.ended = h.ended := by
  induction rest generalizing h ctx with
  | nil =>
    refine ⟨h.step printed body, ctx, (Reaches.refl _).step, ?_, ?_⟩ <;>
      rw [Harness.step, hcontrol]
  | cons a rest ih =>
    obtain ⟨h', ctx', hreach, hend, hended⟩ :=
      ih (h.step printed body) (ctx.assert printed a).1 (by rw [Harness.step, hcontrol])
    refine ⟨h', ctx', hreach.step, hend, hended.trans ?_⟩
    rw [Harness.step, hcontrol]

/-- A test that is begun is dispatched: its name can be read. -/
theorem begin_dispatches {h : Harness} (hinv : Inv printed body names h)
    (hcontrol : h.control = .begin_) :
    ∃ ctx rest, (h.step printed body).control = .dispatch ctx rest ∧
      (h.step printed body).ended = h.ended := by
  simp only [Inv, hcontrol] at hinv
  obtain ⟨hprogress, hlt⟩ := hinv
  obtain ⟨name, lines, _, _, hbegin⟩ := hprogress.begin_current hlt
  have hnext : h.step printed body =
      { h with
        control := .dispatch (TestContext.new name) (body h.runner.current_idx.toNat name)
        begun := h.begun ++ [name]
        output := h.output ++ lines } := by
    rw [Harness.step, hcontrol]
    simp only [hbegin]
    rfl
  rw [hnext]
  exact ⟨_, _, rfl, rfl⟩

theorem step_loop {h : Harness} (hinv : Inv printed body names h) (hcontrol : h.control = .loop) :
    h.step printed body = { h with
      control := if h.ended.length < TestRunner.taken names then .begin_ else .finish } := by
  have hprogress := hinv
  simp only [Inv, hcontrol] at hprogress
  have hnext := hprogress.recorded.has_next hprogress.lt
  rw [Harness.step, hcontrol]
  simp only [hnext, decide_eq_true_eq]

/-- One round of the loop: one test more is ended. -/
theorem round_ends {h : Harness} (hinv : Inv printed body names h) (hcontrol : h.control = .loop)
    (hlt : h.ended.length < TestRunner.taken names) :
    ∃ h', Reaches printed body h h' ∧ h'.control = .loop ∧
      h'.ended.length = h.ended.length + 1 := by
  have hnext : h.step printed body = { h with control := .begin_ } := by
    rw [step_loop hinv hcontrol, if_pos hlt]
  obtain ⟨ctx, rest, hdispatch, hsame⟩ :=
    begin_dispatches (inv_step hinv) (by rw [hnext])
  obtain ⟨h', ctx', hreach, hend, hended⟩ := dispatch_ends rest _ ctx hdispatch
  refine ⟨h'.step printed body, ?_, ?_, ?_⟩
  · exact (hreach.trans (Reaches.refl _).step).step.step
  · rw [Harness.step, hend]
  · rw [Harness.step, hend]
    show (h'.ended ++ [ctx']).length = h.ended.length + 1
    rw [List.length_append, hended, hsame, hnext]
    rfl

/-- From the loop on, as many rounds as there are tests left, then the summary. -/
theorem loop_terminates (left : Nat) (h : Harness) (hinv : Inv printed body names h)
    (hcontrol : h.control = .loop) (hleft : h.ended.length + left = TestRunner.taken names) :
    ∃ h', Reaches printed body h h' ∧ h'.control = .terminal := by
  induction left generalizing h with
  | zero =>
    have hnext : h.step printed body = { h with control := .finish } := by
      have hdone : ¬ h.ended.length < TestRunner.taken names := by omega
      rw [step_loop hinv hcontrol, if_neg hdone]
    refine ⟨_, (Reaches.refl _).step.step, ?_⟩
    have hfinal := inv_step (inv_step hinv)
    rw [hnext] at hfinal ⊢
    cases hsummary : h.runner.print_summary with
    | error e => simp [Inv, Harness.step, hsummary] at hfinal
    | ok lines => simp [Harness.step, hsummary]
  | succ left ih =>
    obtain ⟨h', hreach, hloop, hended⟩ := round_ends hinv hcontrol (by omega)
    obtain ⟨h'', hreach', hterminal⟩ := ih h' (inv_reaches hinv hreach) hloop (by omega)
    exact ⟨h'', hreach.trans hreach', hterminal⟩

theorem init_terminates (rest : List String) (h : Harness) (hinv : Inv printed body names h)
    (hcontrol : h.control = .init rest) :
    ∃ h', Reaches printed body h h' ∧ h'.control = .terminal := by
  induction rest generalizing h with
  | nil =>
    have hended : h.ended = [] := by
      simp only [Inv, hcontrol] at hinv
      obtain ⟨_, _, hended, _⟩ := hinv
      exact hended
    have hloop : (h.step printed body).control = .loop := by rw [Harness.step, hcontrol]
    have hsame : (h.step printed body).ended = h.ended := by rw [Harness.step, hcontrol]
    obtain ⟨h', hreach, hterminal⟩ := loop_terminates (TestRunner.taken names)
      (h.step printed body) (inv_step hinv) hloop (by rw [hsame, hended]; exact Nat.zero_add _)
    exact ⟨h', hreach.step, hterminal⟩
  | cons name rest ih =>
    obtain ⟨h', hreach, hterminal⟩ :=
      ih (h.step printed body) (inv_step hinv) (by rw [Harness.step, hcontrol])
    exact ⟨h', hreach.step, hterminal⟩

/-! ### The account of a run -/

variable (printed body) in
/-- The state after `n` steps of the protocol. -/
def after (suite_name : String) (names : List String) (n : Nat) : Harness :=
  (step printed body)^[n] (start suite_name names)

/-- What the protocol has done when it ends: the tests are those of the names, each with
the failures of its own assertions, and the runner's vectors, counts and summary are the
tests'. -/
structure Accounted (printed : TestContext.Printer) (body : Nat → String → List Assertion)
    (names : List String) (h : Harness) : Prop where
  begun : h.begun = names
  ended : h.ended = tests printed body names
  test_names : h.runner.test_names = names
  results : h.runner.results = h.ended.map fun ctx => decide (ctx.failures = [])
  failure_msgs : h.runner.failure_msgs = h.ended.map TestContext.failures
  summary : ∃ lines, h.runner.print_summary = .ok lines ∧ lines <:+ h.output ∧
    lines = h.runner.summaryHead ++
      ((names.zip h.ended).flatMap fun e => TestRunner.shown e.1 e.2.failures) ++
      h.runner.summaryTail
  passed : h.runner.passed = (h.ended.countP fun ctx => ctx.failures = [] : Nat)
  total : h.runner.passed + h.runner.failed = names.length

/-- What holds of the runner in every state. -/
theorem inv_inStep {h : Harness} (hinv : Inv printed body names h) :
    h.runner.InStep ∧ ∀ e, h.control ≠ .raised e := by
  cases hcontrol : h.control with
  | init rest =>
    simp only [Inv, hcontrol] at hinv
    obtain ⟨_, _, _, _, hrecorded⟩ := hinv
    exact ⟨hrecorded.inStep (Nat.zero_le _), fun e he => nomatch he⟩
  | raised e =>
    simp only [Inv, hcontrol] at hinv
  | loop =>
    simp only [Inv, hcontrol] at hinv
    exact ⟨hinv.recorded.inStep hinv.bound, fun e he => nomatch he⟩
  | _ =>
    simp only [Inv, hcontrol] at hinv
    exact ⟨hinv.1.recorded.inStep hinv.1.bound, fun e he => nomatch he⟩

theorem terminal_stays {h : Harness} (hcontrol : h.control = .terminal) (n : Nat) :
    (step printed body)^[n] h = h := by
  apply Function.iterate_fixed
  rw [Harness.step, hcontrol]

theorem accounted_of_terminal {h : Harness} (hinv : Inv printed body names h)
    (hcontrol : h.control = .terminal) (hnames : names.length < 2 ^ 31) :
    Accounted printed body names h := by
  simp only [Inv, hcontrol, TestRunner.taken_eq names hnames] at hinv
  obtain ⟨hprogress, hlen, lines, hsummary, hprinted⟩ := hinv
  obtain ⟨hrecorded, _, hbegun, hended⟩ := hprogress
  have hlt : h.ended.length < 2 ^ 31 := by rwa [hlen]
  have hlength : (tests printed body names).length = names.length := List.length_mapIdx
  have hall : h.ended = tests printed body names := by
    rw [hended, hlen, ← hlength, List.take_length]
  refine ⟨?_, hall, hrecorded.test_names, ?_, hrecorded.failure_msgs, ?_, ?_, ?_⟩
  · rw [hbegun, hlen, List.take_length]
  · rw [hrecorded.results, TestRunner.passed_eq_decide]
  · refine ⟨lines, hsummary, hprinted, ?_⟩
    have hshown := hrecorded.print_summary (by rw [TestRunner.taken_eq names hnames, hlen])
    rw [hsummary, TestRunner.shownAll_eq names h.ended hnames] at hshown
    exact Except.ok.inj hshown
  · rw [hrecorded.passed hlt, TestRunner.passed_eq_decide]
  · rw [hrecorded.failed hnames hlt, hrecorded.passed hlt]
    omega

/-- No test is begun beyond those that the runner counts. -/
theorem lt_of_accounted {h : Harness} (hinv : Inv printed body names h)
    (hcontrol : h.control = .terminal) (haccounted : Accounted printed body names h) :
    names.length < 2 ^ 31 := by
  simp only [Inv, hcontrol] at hinv
  obtain ⟨hprogress, hlen, _⟩ := hinv
  have hbegun := congrArg List.length (haccounted.begun.symm.trans hprogress.begun)
  rw [List.length_take, hlen] at hbegun
  have hlt := TestRunner.taken_lt names
  omega

theorem inv_after (suite_name : String) (n : Nat) :
    Inv printed body names (after printed body suite_name names n) :=
  inv_reaches (inv_start suite_name) ⟨n, rfl⟩

/-- **The accounting of the harness**, for any names and any bodies: the vectors are
in step throughout and nothing raises, and from some step on the protocol has ended,
with every test taken once if the runner can count them. -/
theorem harness_accounting (printed : TestContext.Printer) (body : Nat → String → List Assertion)
    (suite_name : String) (names : List String) :
    (∀ n, (after printed body suite_name names n).runner.InStep ∧
      ∀ e, (after printed body suite_name names n).control ≠ .raised e) ∧
    ∃ n, ∀ m, n ≤ m → (after printed body suite_name names m).control = .terminal ∧
      (Accounted printed body names (after printed body suite_name names m) ↔
        names.length < 2 ^ 31) := by
  refine ⟨fun n => inv_inStep (inv_after suite_name n), ?_⟩
  obtain ⟨h, ⟨n, hn⟩, hterminal⟩ :=
    init_terminates names (start suite_name names) (inv_after suite_name 0) rfl
  refine ⟨n, fun m hm => ?_⟩
  have hafter : after printed body suite_name names m = h := by
    obtain ⟨k, rfl⟩ : ∃ k, m = k + n := ⟨m - n, by omega⟩
    rw [after, Function.iterate_add_apply, hn, terminal_stays hterminal]
  have hcontrol : (after printed body suite_name names m).control = .terminal := by
    rw [hafter, hterminal]
  have hinv : Inv printed body names (after printed body suite_name names m) :=
    inv_after suite_name m
  exact ⟨hcontrol, lt_of_accounted hinv hcontrol, accounted_of_terminal hinv hcontrol⟩

/-- Of `2 ^ 31` names the runner counts a negative number, and takes no test. -/
theorem not_harness_accounting :
    ¬ ∀ names : List String, ∃ n, ∀ m, n ≤ m →
      (after (fun _ => "") (fun _ _ => []) "suite" names m).control = .terminal ∧
        Accounted (fun _ => "") (fun _ _ => []) names
          (after (fun _ => "") (fun _ _ => []) "suite" names m) := by
  intro h
  obtain ⟨n, hn⟩ := h (List.replicate (2 ^ 31) "")
  obtain ⟨hcontrol, haccounted⟩ := hn n (Nat.le_refl n)
  have hlt := lt_of_accounted (inv_after "suite" n) hcontrol haccounted
  rw [List.length_replicate] at hlt
  exact Nat.lt_irrefl _ hlt

end Harness

end FalconStd.Testing
