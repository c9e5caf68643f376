import FalconStd.Foundation.Once

/-! The logger of the DSL (`log/log-wrapper.cpp`).

The logger is made when it is first needed, from the environment of that moment, and a
level decides which messages it hands to its sinks. What initialisation asks of the
process is a parameter, `Process`, and a message reaches a sink as a `Record`, which the
sink prints by the logger's pattern. -/
namespace FalconStd.Log
open Foundation

/-- `spdlog::level`. -/
inductive Level where
  | trace
  | debug
  | info
  | warn
  | err
  | critical
  | off
  deriving DecidableEq, Repr

/-- The place in the enumeration. -/
def Level.severity : Level → Nat
  | .trace => 0
  | .debug => 1
  | .info => 2
  | .warn => 3
  | .err => 4
  | .critical => 5
  | .off => 6

instance : LE Level := ⟨fun a b => a.severity ≤ b.severity⟩

instance (a b : Level) : Decidable (a ≤ b) := inferInstanceAs (Decidable (a.severity ≤ b.severity))

/-- What a sink writes to. -/
inductive Target where
  | file (log_file : String)
  | stdout
  | stderr
  deriving DecidableEq, Repr

structure Sink where
  target : Target
  level : Level
  deriving DecidableEq, Repr

structure Logger where
  name : String
  sinks : List Sink
  pattern : String
  level : Level
  flush_on : Level
  deriving DecidableEq, Repr

/-- The environment, and the two constructors of spdlog that can throw. -/
structure Process where
  getenv : String → Option String
  /-- The file, its largest size and how many are kept. -/
  rotating_file_sink : String → Nat → Nat → Except String Unit
  stdout_color_mt : String → Except String Unit

/-! ### Initialisation -/

/-- The names of levels; `none` is any other text. -/
def levelOf? (level_str : String) : Option Level :=
  if level_str = "trace" then some .trace
  else if level_str = "debug" then some .debug
  else if level_str = "info" then some .info
  else if level_str = "warn" ∨ level_str = "warning" then some .warn
  else if level_str = "error" then some .err
  else if level_str = "critical" then some .critical
  else if level_str = "off" then some .off
  else none

/-- A variable that is set, and to some text. -/
def filled (value : Option String) : Option String := value.filter (· ≠ "")

def sinks (p : Process) : Except String (List Sink) :=
  match filled (p.getenv "LOG_FILE") with
  | some log_file => do
    p.rotating_file_sink log_file (1024 * 1024 * 10) 3
    .ok [⟨.file log_file, .trace⟩, ⟨.stderr, .warn⟩]
  | none => .ok [⟨.stdout, .trace⟩]

def log_pattern (p : Process) : String :=
  (filled (p.getenv "LOG_PATTERN")).getD "[%Y-%m-%d %H:%M:%S.%f] [%^%l%$] %v"

/-- The second variable counts only where the first is not set at all. -/
def log_level (p : Process) : Level :=
  match filled ((p.getenv "FALCON_LOG_LEVEL").or (p.getenv "STDLIB_LOG_LEVEL")) with
  | some level_str => (levelOf? level_str).getD .info
  | none => .trace

/-- The logger of `stdout_color_mt`, with the defaults of spdlog. -/
def fallback : Logger := ⟨"falcon-dsl-fallback", [⟨.stdout, .trace⟩], "%+", .info, .off⟩

/-- What is printed to `stderr` on the way, and the logger. -/
def initialize_logger (p : Process) : List String × Except String Logger :=
  match sinks p with
  | .ok sinks => ([], .ok ⟨"falcon-dsl", sinks, log_pattern p, log_level p, .trace⟩)
  | .error what =>
    (["Log initialization failed: " ++ what ++ "\n"],
      (p.stdout_color_mt "falcon-dsl-fallback").map fun _ => fallback)

/-! ### Logging -/

structure Record where
  level : Level
  msg : String
  deriving DecidableEq, Repr

structure State where
  g_logger : Once Logger
  /-- What the sinks have been handed. -/
  written : Target → List Record
  /-- What `fprintf` has printed to `stderr`. -/
  notices : List String

def start : State := ⟨none, fun _ => [], []⟩

/-- `logger->log`: the level of the logger first, and then each sink's own. -/
def Logger.deliver (logger : Logger) (record : Record) (written : Target → List Record) :
    Target → List Record :=
  if logger.level ≤ record.level then
    logger.sinks.foldl (fun written sink =>
      if sink.level ≤ record.level then
        Function.update written sink.target (written sink.target ++ [record])
      else written) written
  else written

/-- The functions of the module. -/
inductive Call where
  | log (level : Level) (msg : String)
  | set_level (level : String)
  | flush

/-- A level that is not recognised is ignored. -/
def Call.change (call : Call) (logger : Logger) : Logger :=
  match call with
  | .set_level level => { logger with level := (levelOf? level).getD logger.level }
  | _ => logger

/-- What a call does with the logger that it is given. -/
def Call.perform (call : Call) (logger : Logger) (s : State) : State :=
  match call with
  | .log level msg => { s with written := logger.deliver ⟨level, msg⟩ s.written }
  | .set_level _ => { s with g_logger := some (call.change logger) }
  | .flush => s

def get_logger_internal (p : Process) (s : State) : Except String Logger × State :=
  let made := s.g_logger.get (initialize_logger p).2
  let notices := if s.g_logger.isSome then [] else (initialize_logger p).1
  (made.1, { s with g_logger := made.2, notices := s.notices ++ notices })

def call (p : Process) (c : Call) (s : State) : Except String Unit × State :=
  match get_logger_internal p s with
  | (.ok logger, s) => (.ok (), c.perform logger s)
  | (.error what, s) => (.error what, s)

structure ErrorObject where
  message : String
  fatal : Bool
  deriving DecidableEq

/-- A routine of the DSL, which returns what was thrown. -/
def routine (level : Level) (p : Process) (message : String) (s : State) :
    Option ErrorObject × State :=
  match call p (.log level message) s with
  | (.ok _, s) => (none, s)
  | (.error what, s) => (some ⟨what, false⟩, s)

def info (p : Process) (message : String) (s : State) : Option ErrorObject × State :=
  routine .info p message s

def debug (p : Process) (message : String) (s : State) : Option ErrorObject × State :=
  routine .debug p message s

def warn (p : Process) (message : String) (s : State) : Option ErrorObject × State :=
  routine .warn p message s

def error (p : Process) (message : String) (s : State) : Option ErrorObject × State :=
  routine .err p message s

/-! ### Runs

Every call sees the process as it is at its own time. -/

structure Event where
  process : Process
  call : Call

def perform (s : State) (e : Event) : State := (call e.process e.call s).2

def after (events : List Event) : State := run perform start events

def made (e : Event) : Except String Logger := (initialize_logger e.process).2

/-- The level that the last recognised `set_level` has set. -/
def inForce (initial : Level) (calls : List Call) : Level :=
  (calls.filterMap fun
    | .set_level level => levelOf? level
    | _ => none).getLast?.getD initial

/-- How often a record reaches the target. -/
def copies (sinks : List Sink) (level : Level) (t : Target) (record : Record) : Nat :=
  if level ≤ record.level then sinks.countP fun sink => sink.target = t ∧ sink.level ≤ record.level
  else 0

/-- What a call brings to the target, by the level in force before it. -/
def brought (logger : Logger) (t : Target) (past : List Call) : Call → List Record
  | .log level msg =>
    List.replicate (copies logger.sinks (inForce logger.level past) t ⟨level, msg⟩) ⟨level, msg⟩
  | _ => []

def delivered (logger : Logger) (t : Target) (calls : List Call) : List Record :=
  gathered (brought logger t) calls

end FalconStd.Log
