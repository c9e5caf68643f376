import Mathlib.Data.List.Basic
import FalconStd.Log.Logger

/-! What a run of calls to the logger leaves in the sinks.

The first call whose initialisation returns fixes the logger; the environment of every
later call is without effect. From that call on a target receives the messages at or
above the level in force at their time, in the order they were logged. -/
namespace FalconStd.Log
open Foundation

/-! ### One message -/

theorem deliver_eq (logger : Logger) (record : Record) (written : Target → List Record)
    (t : Target) : logger.deliver record written t =
      written t ++ List.replicate (copies logger.sinks logger.level t record) record := by
  unfold Logger.deliver copies
  by_cases hlevel : logger.level ≤ record.level
  · simp only [if_pos hlevel]
    generalize logger.sinks = sinks
    induction sinks generalizing written with
    | nil => simp
    | cons sink rest ih =>
      rw [List.foldl_cons, ih, List.countP_cons]
      by_cases hsink : sink.level ≤ record.level
      · by_cases ht : sink.target = t
        · subst ht
          simp [hsink, List.replicate_add, Nat.add_comm _ 1]
        · simp [hsink, ht, Function.update_of_ne (Ne.symm ht)]
      · simp [hsink]
  · simp [if_neg hlevel]

/-! ### One more call -/

section Concat
variable (logger : Logger) (t : Target) (calls : List Call) (c : Call)

theorem inForce_concat (initial : Level) :
    inForce initial (calls ++ [c]) =
      (c.change { logger with level := inForce initial calls }).level := by
  unfold inForce Call.change
  rw [List.filterMap_append]
  cases c with
  | log level msg => simp
  | flush => simp
  | set_level level => cases h : levelOf? level <;> simp [h]

theorem delivered_concat :
    delivered logger t (calls ++ [c]) = delivered logger t calls ++ brought logger t calls c :=
  gathered_concat _ _ _

end Concat

/-! ### Runs -/

/-- What there is to show for a history: the logger, and what the sinks were handed. -/
structure Account (events : List Event) (s : State) : Prop where
  unmade : firstOk made events = none → s.g_logger = none ∧ ∀ t, s.written t = []
  made : ∀ logger uses, firstOk made events = some (logger, uses) →
    s.g_logger = some { logger with level := inForce logger.level (uses.map Event.call) } ∧
      ∀ t, s.written t = delivered logger t (uses.map Event.call)

theorem after_concat (events : List Event) (e : Event) :
    after (events ++ [e]) = perform (after events) e := run_concat ..

/-- What a call leaves where there is a logger. -/
theorem perform_made {s : State} {logger : Logger} (e : Event) (h : s.g_logger = some logger) :
    (perform s e).g_logger = some (e.call.change logger) ∧
      (perform s e).written = (e.call.perform logger s).written := by
  obtain ⟨process, c⟩ := e
  unfold perform call get_logger_internal
  rw [h]
  cases c with
  | log level msg => exact ⟨rfl, rfl⟩
  | set_level level => exact ⟨rfl, rfl⟩
  | flush => exact ⟨rfl, rfl⟩

theorem perform_unmade {s : State} (e : Event) (h : s.g_logger = none) :
    (∃ what, made e = .error what ∧ (perform s e).g_logger = none ∧
      (perform s e).written = s.written) ∨
    ∃ logger, made e = .ok logger ∧ (perform s e).g_logger = some (e.call.change logger) ∧
      (perform s e).written = (e.call.perform logger s).written := by
  obtain ⟨process, c⟩ := e
  unfold perform call get_logger_internal
  rw [h]
  cases hmade : (initialize_logger process).2 with
  | error what => exact .inl ⟨what, hmade, rfl, rfl⟩
  | ok logger =>
    refine .inr ⟨logger, hmade, ?_, ?_⟩
    · cases c <;> rfl
    · cases c <;> rfl

/-- A call adds what it brings by the level that is set. -/
theorem perform_written (c : Call) (logger : Logger) (calls : List Call) (s : State) (t : Target)
    (h : s.written t = delivered logger t calls) :
    (c.perform { logger with level := inForce logger.level calls } s).written t =
      delivered logger t (calls ++ [c]) := by
  rw [delivered_concat, ← h]
  cases c with
  | log level msg => exact deliver_eq _ _ _ _
  | set_level level => exact (List.append_nil _).symm
  | flush => exact (List.append_nil _).symm

theorem account_concat {events : List Event} {s : State} (h : Account events s) (e : Event) :
    Account (events ++ [e]) (perform s e) := by
  cases hfirst : firstOk made events with
  | some first =>
    obtain ⟨logger, uses⟩ := first
    obtain ⟨hlogger, hwritten⟩ := h.made logger uses hfirst
    obtain ⟨hnext, hadded⟩ := perform_made e hlogger
    have hfirst' := firstOk_concat_some hfirst e
    refine ⟨fun hnone => ?_, fun logger' uses' hsome => ?_⟩
    · rw [hfirst'] at hnone
      cases hnone
    · rw [hfirst'] at hsome
      cases hsome
      rw [List.map_append, List.map_singleton, hnext, hadded]
      refine ⟨?_, fun t => perform_written e.call logger _ s t (hwritten t)⟩
      rw [inForce_concat logger]
      cases e.call <;> rfl
  | none =>
    obtain ⟨hnone, hempty⟩ := h.unmade hfirst
    have hfirst' := firstOk_concat_none hfirst e
    rcases perform_unmade e hnone with ⟨what, hmade, hnext, hsame⟩ | ⟨logger, hmade, hnext, hadded⟩
    · rw [hmade] at hfirst'
      refine ⟨fun _ => ⟨hnext, fun t => by rw [hsame]; exact hempty t⟩, fun logger uses hsome => ?_⟩
      rw [hfirst'] at hsome
      cases hsome
    · rw [hmade] at hfirst'
      refine ⟨fun h => ?_, fun logger' uses' hsome => ?_⟩
      · rw [hfirst'] at h
        cases h
      · rw [hfirst'] at hsome
        cases hsome
        rw [hnext, hadded]
        refine ⟨?_, fun t => ?_⟩
        · rw [List.map_singleton, ← List.nil_append [e.call], inForce_concat logger]
          cases e.call <;> rfl
        · exact perform_written e.call logger [] s t (hempty t)

theorem account (events : List Event) : Account events (after events) := by
  induction events using List.reverseRecOn with
  | nil => exact ⟨fun _ => ⟨rfl, fun _ => rfl⟩, fun _ _ h => by cases h⟩
  | append_singleton past e ih =>
    rw [after_concat]
    exact account_concat ih e

/-! ### What a caller sees -/

theorem sinks_of_made {e : Event} {logger : Logger} (h : made e = .ok logger) :
    logger.sinks = [⟨.stdout, .trace⟩] ∨
      ∃ log_file, logger.sinks = [⟨.file log_file, .trace⟩, ⟨.stderr, .warn⟩] := by
  unfold made initialize_logger at h
  cases hsinks : sinks e.process with
  | error what =>
    rw [hsinks] at h
    cases hmt : e.process.stdout_color_mt "falcon-dsl-fallback" with
    | error what => simp [hmt, Except.map] at h
    | ok u =>
      simp only [hmt, Except.map, Except.ok.injEq] at h
      exact .inl (h ▸ rfl)
  | ok l =>
    rw [hsinks] at h
    obtain rfl := Except.ok.inj h
    unfold sinks at hsinks
    split at hsinks
    case h_1 log_file _ =>
      cases hopen : e.process.rotating_file_sink log_file (1024 * 1024 * 10) 3 with
      | error what => simp [hopen, bind, Except.bind] at hsinks
      | ok u =>
        simp only [hopen, bind, Except.bind, Except.ok.injEq] at hsinks
        exact .inr ⟨log_file, hsinks.symm⟩
    case h_2 => exact .inl (Except.ok.inj hsinks).symm

/-- Beside a file the console gets the warnings of what the file gets. -/
theorem delivered_console {logger : Logger} {log_file : String}
    (h : logger.sinks = [⟨.file log_file, .trace⟩, ⟨.stderr, .warn⟩]) (calls : List Call) :
    delivered logger .stderr calls =
      (delivered logger (.file log_file) calls).filter fun record => Level.warn ≤ record.level := by
  refine gathered_filter _ (fun past c => ?_) calls
  cases c with
  | log level msg =>
    have htrace : Level.trace ≤ level := Nat.zero_le _
    rw [brought, brought]
    by_cases hlevel : inForce logger.level past ≤ level
    · by_cases hwarn : Level.warn ≤ level
      · simp [copies, h, hlevel, htrace, hwarn]
      · simp [copies, h, hlevel, htrace, hwarn]
    · simp [copies, hlevel]
  | set_level level => rfl
  | flush => rfl

/-- The whole of a run, and of the call after it. -/
structure Logged (events : List Event) (e : Event) : Prop where
  account : Account events (after events)
  reply : (call e.process e.call (after events)).1 =
    match firstOk made events with
    | some _ => .ok ()
    | none => (made e).map fun _ => ()
  returned : ∀ level message, (routine level e.process message (after events)).1 =
    match firstOk made events, made e with
    | none, .error what => some ⟨what, false⟩
    | _, _ => none
  console : ∀ logger uses log_file, firstOk made events = some (logger, uses) →
    ⟨.file log_file, .trace⟩ ∈ logger.sinks →
      (after events).written .stderr = ((after events).written (.file log_file)).filter
        fun record => Level.warn ≤ record.level

theorem call_fst (p : Process) (c : Call) (s : State) :
    (call p c s).1 = (s.g_logger.get (initialize_logger p).2).1.map fun _ => () := by
  unfold call get_logger_internal
  dsimp only
  cases (s.g_logger.get (initialize_logger p).2).1 <;> rfl

/-- A routine of the DSL returns what the call throws. -/
theorem routine_fst (level : Level) (p : Process) (message : String) (s : State) :
    (routine level p message s).1 =
      match (call p (.log level message) s).1 with
      | .ok _ => none
      | .error what => some ⟨what, false⟩ := by
  unfold routine
  cases h : call p (.log level message) s with
  | mk outcome s' => cases outcome <;> rfl

/-- **The logger of a run is that of the first call whose initialisation returns**,
whatever the environment is later. Every call before it fails; from it on none does, and
a target receives the messages at or above the level in force, in order: the initial one
until a recognised `set_level` sets another. -/
theorem messages_logged (events : List Event) (e : Event) : Logged events e := by
  have haccount := account events
  have hreply : ∀ c, (call e.process c (after events)).1 =
      match firstOk made events with
      | some _ => .ok ()
      | none => (made e).map fun _ => () := by
    intro c
    rw [call_fst]
    cases hfirst : firstOk made events with
    | some first =>
      rw [(haccount.made first.1 first.2 hfirst).1]
      rfl
    | none =>
      rw [(haccount.unmade hfirst).1]
      rfl
  refine ⟨haccount, hreply e.call, fun level message => ?_,
    fun logger uses log_file hfirst hfile => ?_⟩
  · rw [routine_fst, hreply]
    cases firstOk made events with
    | some first => rfl
    | none => cases made e <;> rfl
  · obtain ⟨-, hwritten⟩ := haccount.made logger uses hfirst
    obtain ⟨before, first, rest, -, -, hmade, -⟩ := firstOk_eq_some_iff.mp hfirst
    rw [hwritten, hwritten]
    rcases sinks_of_made hmade with hsinks | ⟨log_file', hsinks⟩
    · rw [hsinks] at hfile
      simp at hfile
    · rw [hsinks] at hfile
      obtain rfl : log_file = log_file' := by simpa using hfile
      exact delivered_console hsinks _

/-- A set variable that is empty hides the second one. -/
example : log_level ⟨fun name => if name = "FALCON_LOG_LEVEL" then some "" else some "error",
    fun _ _ _ => .ok (), fun _ => .ok ()⟩ = .trace := by decide

end FalconStd.Log
