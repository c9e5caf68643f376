import FalconStd.Foundation.Heap

/-! Printing and capturing (`io/io-wrapper.cpp`).

A process has two real streams, two descriptors that write to a stream or to a
pipe, and the pipes with the bytes not read from them yet. The C and C++ streams
are flushed by every routine, so between calls all that was printed is in a pipe
or in a stream. The two halves of the capture differ in the stream alone: the
fields and routines of one stream are those of a `Stream`. -/
namespace FalconStd.Io
open Foundation

inductive Stream where
  | stdout
  | stderr
  deriving DecidableEq, Repr

/-- What a descriptor writes to. -/
inductive Target where
  | real (st : Stream)
  | pipe (r : Handle)
  deriving DecidableEq, Repr

/-- Bytes are any type; these are the texts that the routines add of their own. -/
structure Texts (Byte : Type) where
  newline : Byte
  pipeFailed (errno : Nat) : List Byte
  dupFailed : List Byte

def Texts.source : Texts Char where
  newline := '\n'
  pipeFailed errno := ("[DEBUG] pipe() failed: errno=" ++ toString errno ++ "\n").toList
  dupFailed := "[DEBUG] dup failed\n".toList

structure Process (Byte : Type) where
  /-- What has reached the real streams. -/
  real : Stream → List Byte
  /-- `STDOUT_FILENO` and `STDERR_FILENO`. -/
  fd : Stream → Target
  /-- What has not been read. -/
  pipes : Heap (List Byte)

/-- `none` is a descriptor of -1. -/
structure StdoutCapture (Byte : Type) where
  pipe_read_fd : Option Handle
  pipe_write_fd : Option Handle
  /-- `saved_stdout` and `saved_stderr`. -/
  saved : Stream → Option Target
  /-- `capturing_stdout` and `capturing_stderr`. -/
  capturing : Stream → Bool
  buffer : List Byte

structure State (Byte : Type) where
  os : Process Byte
  capture : StdoutCapture Byte

variable {Byte : Type} (texts : Texts Byte)

def start : State Byte where
  os := ⟨fun _ => [], .real, ⟨fun _ => [], 0⟩⟩
  capture := ⟨none, none, fun _ => none, fun _ => false, []⟩

/-- `write` to what a descriptor stands for, a pipe with room for it. -/
def Process.write (os : Process Byte) (msg : List Byte) : Target → Process Byte
  | .real st => { os with real := Function.update os.real st (os.real st ++ msg) }
  | .pipe r => { os with pipes := os.pipes.write r (os.pipes.cell r ++ msg) }

/-! ### The capture -/

/-- How the system calls of a `begin` end. -/
inductive Outcome where
  | ok
  | pipeFails (errno : Nat)
  | dupFails
  deriving DecidableEq, Repr

/-- `begin_stdout` and `begin_stderr`: each looks at its own flag only. -/
def beginCapture (st : Stream) (outcome : Outcome) (s : State Byte) : Bool × State Byte :=
  if s.capture.capturing st then (false, s)
  else match outcome with
  | .pipeFails errno =>
    (false, { s with os := s.os.write (texts.pipeFailed errno) (s.os.fd .stderr) })
  | .dupFails =>
    let (r, pipes) := s.os.pipes.alloc []
    let os := { s.os with pipes := pipes }
    (false, ⟨os.write texts.dupFailed (os.fd .stderr),
      { s.capture with
        pipe_read_fd := some r
        pipe_write_fd := some r
        saved := Function.update s.capture.saved st none }⟩)
  | .ok =>
    let (r, pipes) := s.os.pipes.alloc []
    (true, ⟨{ s.os with pipes := pipes, fd := Function.update s.os.fd st (.pipe r) },
      { pipe_read_fd := some r
        pipe_write_fd := none
        saved := Function.update s.capture.saved st (some (s.os.fd st))
        capturing := Function.update s.capture.capturing st true
        buffer := [] }⟩)

def beginStdout (outcome : Outcome) (s : State Byte) : Bool × State Byte :=
  beginCapture texts .stdout outcome s

def beginStderr (outcome : Outcome) (s : State Byte) : Bool × State Byte :=
  beginCapture texts .stderr outcome s

def isActive (s : State Byte) : Bool := s.capture.capturing .stdout || s.capture.capturing .stderr

/-- The read loop of `end_capture` and `peek`: all bytes in the pipe. -/
def drain (s : State Byte) : State Byte :=
  match s.capture.pipe_read_fd with
  | some r => ⟨{ s.os with pipes := s.os.pipes.write r [] },
      { s.capture with buffer := s.capture.buffer ++ s.os.pipes.cell r }⟩
  | none => s

/-- One of the two restoring branches of `end_capture`. -/
def restore (st : Stream) (s : State Byte) : State Byte :=
  if s.capture.capturing st then
    ⟨{ s.os with fd := Function.update s.os.fd st ((s.capture.saved st).getD (s.os.fd st)) },
      { s.capture with
        saved := Function.update s.capture.saved st none
        capturing := Function.update s.capture.capturing st false }⟩
  else s

/-- What was captured goes to stdout, whichever stream it was captured from. -/
def endCapture (s : State Byte) : List Byte × State Byte :=
  if !s.capture.capturing .stdout && !s.capture.capturing .stderr then (s.capture.buffer, s)
  else
    let s := { s with capture := { s.capture with pipe_write_fd := none } }
    let s := drain (restore .stderr (restore .stdout s))
    let s := { s with capture := { s.capture with pipe_read_fd := none } }
    (s.capture.buffer, { s with os := s.os.write s.capture.buffer (s.os.fd .stdout) })

def peek (s : State Byte) : List Byte × State Byte :=
  if !s.capture.capturing .stdout && !s.capture.capturing .stderr then (s.capture.buffer, s)
  else ((drain s).capture.buffer, drain s)

/-- `write_stdout` and `write_stderr`: past the capture of the stream, if any. -/
def writeReal (st : Stream) (msg : List Byte) (s : State Byte) : State Byte :=
  let target :=
    if s.capture.capturing st then (s.capture.saved st).getD (s.os.fd st) else s.os.fd st
  { s with os := s.os.write msg target }

def writeStdout (msg : List Byte) (s : State Byte) : State Byte := writeReal .stdout msg s

def writeStderr (msg : List Byte) (s : State Byte) : State Byte := writeReal .stderr msg s

/-! ### Printing -/

def emit (st : Stream) (msg : List Byte) (s : State Byte) : State Byte :=
  { s with os := s.os.write msg (s.os.fd st) }

def print (msg : List Byte) (s : State Byte) : State Byte := emit .stdout msg s

def println (msg : List Byte) (s : State Byte) : State Byte := emit .stdout (msg ++ [texts.newline]) s

def eprint (msg : List Byte) (s : State Byte) : State Byte := emit .stderr msg s

def eprintln (msg : List Byte) (s : State Byte) : State Byte := emit .stderr (msg ++ [texts.newline]) s

/-! ### Runs -/

inductive Call (Byte : Type) where
  | beginStdout
  | beginStderr
  | print (msg : List Byte)
  | println (msg : List Byte)
  | eprint (msg : List Byte)
  | eprintln (msg : List Byte)
  | writeStdout (msg : List Byte)
  | writeStderr (msg : List Byte)
  | peek
  | endCapture
  | isActive

inductive Reply (Byte : Type) where
  | none
  | text (msg : List Byte)
  | flag (b : Bool)

/-- A call whose system calls succeed; the result of a `begin` is not passed on. -/
def call (s : State Byte) : Call Byte → Reply Byte × State Byte
  | .beginStdout => (.none, (beginStdout texts .ok s).2)
  | .beginStderr => (.none, (beginStderr texts .ok s).2)
  | .print msg => (.none, print msg s)
  | .println msg => (.none, println texts msg s)
  | .eprint msg => (.none, eprint msg s)
  | .eprintln msg => (.none, eprintln texts msg s)
  | .writeStdout msg => (.none, writeStdout msg s)
  | .writeStderr msg => (.none, writeStderr msg s)
  | .peek => let (msg, s') := peek s; (.text msg, s')
  | .endCapture => let (msg, s') := endCapture s; (.text msg, s')
  | .isActive => (.flag (isActive s), s)

end FalconStd.Io
