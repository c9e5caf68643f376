import FalconStd.Foundation.Run
import FalconStd.Testing.Harness

/-! The runner under any calls, in any order.

The harness is one client. A program may also begin a test and never end it, end a
context twice, assert on a context that has ended, or ask for the summary early. A
context is an object that both sides share, and a call names it by its place among those
that were made. What the runner knows of a context is what it was when it ended
(`ended`), and what a context knows is what was asserted on it (`asserted`). -/
namespace FalconStd.Testing
open Foundation TestRunner

namespace Session

structure State where
  runner : TestRunner
  contexts : List TestContext
  output : List String

inductive Call where
  | register (test_name : String)
  | printHeader
  | beginCurrent
  | newContext (name : String)
  | assert (ctx : Nat) (assertion : Assertion)
  | endCurrent (ctx : Nat)
  | hasNext
  | currentName
  | printSummary
  | passedCount
  | failedCount

inductive Answer where
  | done
  | context (ctx : Nat)
  | bool (b : Bool)
  | string (s : String)
  | int (n : Int)
  | raised (e : Failure)
  /-- The call names a context that was not made. -/
  | noContext

def State.print (s : State) (lines : List String) : State :=
  { s with output := s.output ++ lines }

def State.made (s : State) (ctx : TestContext) : State :=
  { s with contexts := s.contexts ++ [ctx] }

variable (printed : TestContext.Printer)

def call (s : State) : Call → Answer × State
  | .register test_name => (.done, { s with runner := s.runner.register_test test_name })
  | .printHeader => (.done, s.print s.runner.print_header)
  | .beginCurrent =>
    match s.runner.begin_current with
    | .error e => (.raised e, s)
    | .ok (ctx, lines) => (.context s.contexts.length, (s.made ctx).print lines)
  | .newContext name => (.context s.contexts.length, s.made (TestContext.new name))
  | .assert i a =>
    match s.contexts[i]? with
    | none => (.noContext, s)
    | some ctx =>
      let (ctx', lines) := ctx.assert printed a
      (.done, { s with contexts := s.contexts.set i ctx' }.print lines)
  | .endCurrent i =>
    match s.contexts[i]? with
    | none => (.noContext, s)
    | some ctx =>
      let (runner, lines) := s.runner.end_current ctx
      (.done, { s with runner := runner }.print lines)
  | .hasNext => (.bool s.runner.has_next, s)
  | .currentName =>
    match s.runner.current_name with
    | .error e => (.raised e, s)
    | .ok name => (.string name, s)
  | .printSummary =>
    match s.runner.print_summary with
    | .error e => (.raised e, s)
    | .ok lines => (.done, s.print lines)
  | .passedCount => (.int s.runner.passed, s)
  | .failedCount => (.int s.runner.failed, s)

def start (suite_name : String) : State := ⟨TestRunner.new suite_name, [], []⟩

def after (suite_name : String) (calls : List Call) : State :=
  run (next (call printed)) (start suite_name) calls

/-! ### What a history tells -/

def registered (calls : List Call) : List String :=
  calls.filterMap fun
    | .register test_name => some test_name
    | _ => none

/-- The contexts that were ended, each as it was when it ended. -/
def ended (suite_name : String) (calls : List Call) : List TestContext :=
  gathered (fun past c =>
    match c with
    | .endCurrent i => (after printed suite_name past).contexts[i]?.toList
    | _ => []) calls

/-- What was asserted on a context since it was made. -/
def asserted (suite_name : String) (i : Nat) (calls : List Call) : List Assertion :=
  gathered (fun past c =>
    match c with
    | .assert j a => if j = i ∧ i < (after printed suite_name past).contexts.length then [a] else []
    | _ => []) calls

/-! ### The invariant -/

/-! ### Runs -/

section Runs
variable {printed} {suite_name : String} {past : List Call} {s : State}

/-- What the runner and the contexts hold after a history. -/
structure Account (printed : TestContext.Printer) (suite_name : String) (calls : List Call)
    (s : State) : Prop where
  runner : Recorded s.runner (registered calls) (ended printed suite_name calls)
  contexts : ∀ i ctx, s.contexts[i]? = some ctx →
    ctx.failures = recorded printed (asserted printed suite_name i calls)
  fresh : ∀ i, s.contexts.length ≤ i → asserted printed suite_name i calls = []

/-- The calls that neither end a context nor assert on one. -/
def idle : Call → Bool
  | .assert _ _ => false
  | .endCurrent _ => false
  | _ => true

theorem ended_idle {c : Call} (hc : idle c = true) :
    ended printed suite_name (past ++ [c]) = ended printed suite_name past := by
  rw [ended, gathered_concat]
  cases c with
  | endCurrent i => cases hc
  | _ => exact List.append_nil _

theorem asserted_idle {c : Call} (hc : idle c = true) (i : Nat) :
    asserted printed suite_name i (past ++ [c]) = asserted printed suite_name i past := by
  rw [asserted, gathered_concat]
  cases c with
  | assert j a => cases hc
  | _ => exact List.append_nil _

theorem registered_concat (past : List Call) (c : Call) :
    registered (past ++ [c]) = registered past ++ registered [c] := List.filterMap_append

/-- A call that only reads leaves the account as it is. -/
theorem Account.read (h : Account printed suite_name past s) {c : Call} (hc : idle c = true)
    (hname : registered [c] = []) : Account printed suite_name (past ++ [c]) s := by
  have hrunner := h.runner
  refine ⟨?_, fun i ctx hi => ?_, fun i hi => ?_⟩
  · rwa [registered_concat, hname, List.append_nil, ended_idle hc]
  · rw [asserted_idle hc]
    exact h.contexts i ctx hi
  · rw [asserted_idle hc]
    exact h.fresh i hi

theorem Account.print (h : Account printed suite_name past s) (lines : List String) :
    Account printed suite_name past (s.print lines) := ⟨h.runner, h.contexts, h.fresh⟩

/-- A context that is made has nothing asserted on it. -/
theorem Account.made (h : Account printed suite_name past s) (name : String) :
    Account printed suite_name past (s.made (TestContext.new name)) := by
  refine ⟨h.runner, fun i ctx hi => ?_, fun i hi => ?_⟩
  · by_cases hlt : i < s.contexts.length
    · rw [State.made, List.getElem?_append_left hlt] at hi
      exact h.contexts i ctx hi
    · have hle := Nat.le_of_not_lt hlt
      rw [State.made, List.getElem?_append_right hle] at hi
      have hctx : TestContext.new name = ctx := by
        have hmem := List.mem_of_getElem? hi
        exact (List.mem_singleton.mp hmem).symm
      rw [h.fresh i hle, ← hctx]
      rfl
  · rw [State.made, List.length_append] at hi
    exact h.fresh i (by omega)

theorem asserted_assert (hs : s = after printed suite_name past) (i j : Nat) (a : Assertion) :
    asserted printed suite_name i (past ++ [.assert j a]) = asserted printed suite_name i past ++
      if j = i ∧ i < s.contexts.length then [a] else [] := by
  rw [asserted, gathered_concat, hs]
  rfl

theorem Account.assert (h : Account printed suite_name past s)
    (hs : s = after printed suite_name past) (j : Nat) (a : Assertion) :
    Account printed suite_name (past ++ [.assert j a]) (call printed s (.assert j a)).2 := by
  have hended : ended printed suite_name (past ++ [.assert j a]) = ended printed suite_name past := by
    rw [ended, gathered_concat]
    exact List.append_nil _
  have hrunner : Recorded s.runner (registered (past ++ [.assert j a]))
      (ended printed suite_name (past ++ [.assert j a])) := by
    rw [registered_concat, hended]
    simpa [registered] using h.runner
  cases hj : s.contexts[j]? with
  | none =>
    have hstate : (call printed s (.assert j a)).2 = s := by rw [call, hj]
    have hout : ∀ i, ¬ (j = i ∧ i < s.contexts.length) := by
      intro i hi
      have hlen := List.getElem?_eq_none_iff.mp hj
      omega
    rw [hstate]
    refine ⟨hrunner, fun i ctx hi => ?_, fun i hi => ?_⟩
    · rw [asserted_assert hs, if_neg (hout i), List.append_nil]
      exact h.contexts i ctx hi
    · rw [asserted_assert hs, if_neg (hout i), List.append_nil]
      exact h.fresh i hi
  | some ctx =>
    have hstate : (call printed s (.assert j a)).2 =
        { s with contexts := s.contexts.set j (ctx.assert printed a).1 }.print
          (ctx.assert printed a).2 := by rw [call, hj]
    have hlt := (List.getElem?_eq_some_iff.mp hj).1
    rw [hstate]
    apply Account.print
    refine ⟨hrunner, fun i ctx' hi => ?_, fun i hi => ?_⟩
    · rw [asserted_assert hs]
      by_cases hij : j = i
      · subst hij
        rw [List.getElem?_set_self hlt] at hi
        rw [if_pos ⟨rfl, hlt⟩, ← Option.some.inj hi, TestContext.assert_failures,
          h.contexts j ctx hj, recorded_concat]
      · rw [List.getElem?_set_ne hij] at hi
        rw [if_neg (fun h => hij h.1), List.append_nil]
        exact h.contexts i ctx' hi
    · rw [List.length_set] at hi
      rw [asserted_assert hs, if_neg (by omega), List.append_nil]
      exact h.fresh i hi

theorem Account.endCurrent (h : Account printed suite_name past s)
    (hs : s = after printed suite_name past) (i : Nat) :
    Account printed suite_name (past ++ [.endCurrent i]) (call printed s (.endCurrent i)).2 := by
  have hended : ended printed suite_name (past ++ [.endCurrent i]) =
      ended printed suite_name past ++ s.contexts[i]?.toList := by
    rw [ended, gathered_concat, hs]
    rfl
  have hasserted : ∀ j, asserted printed suite_name j (past ++ [.endCurrent i]) =
      asserted printed suite_name j past := by
    intro j
    rw [asserted, gathered_concat]
    exact List.append_nil _
  have hnames : registered (past ++ [.endCurrent i]) = registered past := by
    rw [registered_concat]
    exact List.append_nil _
  have hcontexts : (call printed s (.endCurrent i)).2.contexts = s.contexts := by
    rw [call]
    split <;> rfl
  refine ⟨?_, fun j ctx hj => ?_, fun j hj => ?_⟩
  · rw [hnames, hended]
    cases hi : s.contexts[i]? with
    | none =>
      rw [call, hi]
      simpa using h.runner
    | some ctx =>
      rw [call, hi]
      exact h.runner.end_current ctx
  · rw [hasserted]
    exact h.contexts j ctx (hcontexts ▸ hj)
  · rw [hasserted]
    exact h.fresh j (hcontexts ▸ hj)

/-- A test is begun with a fresh context. -/
theorem begin_fresh {r : TestRunner} {ctx : TestContext} {lines : List String}
    (h : r.begin_current = .ok (ctx, lines)) : ctx = TestContext.new ctx.name := by
  unfold TestRunner.begin_current at h
  cases hname : r.current_name with
  | error e =>
    rw [hname] at h
    cases h
  | ok name =>
    rw [hname] at h
    cases h
    rfl

theorem account_concat (h : Account printed suite_name past s)
    (hs : s = after printed suite_name past) (c : Call) :
    Account printed suite_name (past ++ [c]) (call printed s c).2 := by
  cases c with
  | register test_name =>
    refine ⟨?_, fun i ctx hi => ?_, fun i hi => ?_⟩
    · rw [registered_concat, ended_idle rfl]
      exact h.runner.register_test test_name
    · rw [asserted_idle rfl]
      exact h.contexts i ctx hi
    · rw [asserted_idle rfl]
      exact h.fresh i hi
  | printHeader => exact (h.read rfl rfl).print _
  | beginCurrent =>
    rw [call]
    cases hbegin : s.runner.begin_current with
    | error e => exact h.read rfl rfl
    | ok begun =>
      obtain ⟨ctx, lines⟩ := begun
      rw [begin_fresh hbegin]
      exact ((h.read rfl rfl).made _).print lines
  | newContext name => exact (h.read rfl rfl).made name
  | assert i a => exact h.assert hs i a
  | endCurrent i => exact h.endCurrent hs i
  | hasNext => exact h.read rfl rfl
  | currentName =>
    rw [call]
    cases s.runner.current_name with
    | error e => exact h.read rfl rfl
    | ok name => exact h.read rfl rfl
  | printSummary =>
    rw [call]
    cases s.runner.print_summary with
    | error e => exact h.read rfl rfl
    | ok lines => exact (h.read rfl rfl).print lines
  | passedCount => exact h.read rfl rfl
  | failedCount => exact h.read rfl rfl

theorem account (printed : TestContext.Printer) (suite_name : String) (calls : List Call) :
    Account printed suite_name calls (after printed suite_name calls) := by
  induction calls using List.reverseRecOn with
  | nil =>
    refine ⟨⟨rfl, rfl, rfl, int_zero.symm⟩, fun i ctx hi => ?_, fun _ _ => rfl⟩
    cases hi
  | append_singleton past c ih =>
    have hnext : after printed suite_name (past ++ [c]) =
        (call printed (after printed suite_name past) c).2 := run_concat ..
    rw [hnext]
    exact account_concat ih rfl c

end Runs

/-- What the runner answers that has the given names and has ended the given contexts. -/
structure Answers (names : List String) (ended : List TestContext) (r : TestRunner) : Prop where
  test_names : r.test_names = names
  results : r.results = ended.map fun ctx => decide (ctx.failures = [])
  failure_msgs : r.failure_msgs = ended.map TestContext.failures
  has_next : r.has_next = decide (ended.length < names.length)
  current_name : r.current_name = .ok (names[ended.length]?.getD "")
  passed : r.passed = (ended.countP fun ctx => ctx.failures = [] : Nat)
  failed : r.failed = names.length - (ended.countP fun ctx => ctx.failures = [] : Nat)
  summary : names.length ≤ ended.length → r.print_summary = .ok (r.summaryHead ++
    ((names.zip ended).flatMap fun e => shown e.1 e.2.failures) ++ r.summaryTail)
  early : ended.length < names.length → ∃ e, r.print_summary = .error e

theorem answers_of_recorded {r : TestRunner} {names : List String} {ended : List TestContext}
    (h : Recorded r names ended) (hnames : names.length < 2 ^ 31)
    (hended : ended.length < 2 ^ 31) : Answers names ended r := by
  have htaken := taken_eq names hnames
  refine ⟨h.test_names, ?_, h.failure_msgs, ?_, ?_, ?_, ?_, fun hle => ?_, fun hlt => ?_⟩
  · rw [h.results, passed_eq_decide]
  · rw [h.has_next hended, htaken]
  · rw [h.current_name hended, htaken, List.take_length]
  · rw [h.passed hended, passed_eq_decide]
  · rw [h.failed hnames hended, passed_eq_decide]
  · rw [h.print_summary (htaken.symm ▸ hle), shownAll_eq names ended hnames]
  · exact h.summary_raises (htaken.symm ▸ hlt)

/-- **Whatever the order of the calls**, as long as names and ended contexts can be
counted: the runner's results are those of the contexts that were ended, each as it was
then, and the summary gives them to the names in order; it reads past the results exactly
while names are left. A context holds the failures of what was asserted on it, and of
nothing else. -/
theorem runner_in_any_order (printed : TestContext.Printer) (suite_name : String)
    (calls : List Call) (hnames : (registered calls).length < 2 ^ 31)
    (hended : (ended printed suite_name calls).length < 2 ^ 31) :
    Answers (registered calls) (ended printed suite_name calls)
        (after printed suite_name calls).runner ∧
      ∀ (i : Nat) ctx, (after printed suite_name calls).contexts[i]? = some ctx →
        ctx.failures = recorded printed (asserted printed suite_name i calls) := by
  have haccount := account printed suite_name calls
  exact ⟨answers_of_recorded haccount.runner hnames hended, haccount.contexts⟩

/-- A context that is ended twice counts twice, with the failure that it holds. -/
theorem runner_in_any_order_twice :
    (after (fun _ => "") "suite" [.register "a", .register "b", .beginCurrent,
      .assert 0 (.fail "m"), .endCurrent 0, .endCurrent 0]).runner.failed = 2 ∧
    ∃ ctx, (after (fun _ => "") "suite" [.register "a", .register "b", .beginCurrent,
      .assert 0 (.fail "m"), .endCurrent 0, .endCurrent 0]).contexts[0]? = some ctx ∧
      ctx.failures = ["m"] := by
  obtain ⟨hanswers, hcontexts⟩ := runner_in_any_order (fun _ => "") "suite"
    [.register "a", .register "b", .beginCurrent, .assert 0 (.fail "m"), .endCurrent 0,
      .endCurrent 0] (by decide) (by decide)
  exact ⟨hanswers.failed, _, rfl, hcontexts 0 _ rfl⟩

end Session

end FalconStd.Testing
