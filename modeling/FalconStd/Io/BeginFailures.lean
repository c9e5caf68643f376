import FalconStd.Foundation.Run
import FalconStd.Io.Capture

/-! A `begin` that fails.

`begin` gives up at three points: the stream is captured already, `pipe` fails, or `dup`
fails. At the last one the fields hold the new pipe, which is closed, and the pipe of a
capture of the other stream is lost. `failures_intact_iff`: a run keeps its captures
through every failed `begin` exactly when none fails there. -/
namespace FalconStd.Io
open Foundation

variable {Byte : Type} (texts : Texts Byte)

/-! ### Runs with failing system calls -/

inductive Event (Byte : Type) where
  | begins (st : Stream) (outcome : Outcome)
  | calls (c : Call Byte)

/-- The `begin` that the event is, and how its system calls end. -/
def Event.attempt : Event Byte → Option (Stream × Outcome)
  | .begins st outcome => some (st, outcome)
  | .calls .beginStdout => some (.stdout, .ok)
  | .calls .beginStderr => some (.stderr, .ok)
  | .calls _ => none

def perform (s : State Byte) : Event Byte → State Byte
  | .begins st outcome => (beginCapture texts st outcome s).2
  | .calls c => (call texts s c).2

def reached (past : List (Event Byte)) : State Byte := run (perform texts) start past

theorem reached_concat (past : List (Event Byte)) (e : Event Byte) :
    reached texts (past ++ [e]) = perform texts (reached texts past) e := run_concat _ _ _ _

/-- What is promised of a `begin` that answers `false`: the fields are as before, and
`end` would still return what it would have returned. -/
structure Intact (past : List (Event Byte)) (e : Event Byte) : Prop where
  fields : ∀ st outcome, e.attempt = some (st, outcome) →
    (beginCapture texts st outcome (reached texts past)).1 = false →
      (reached texts (past ++ [e])).capture = (reached texts past).capture
  data : ∀ st outcome, e.attempt = some (st, outcome) →
    (beginCapture texts st outcome (reached texts past)).1 = false →
      (endCapture (reached texts past)).1 <+: (endCapture (reached texts (past ++ [e]))).1

/-- A `begin` whose `dup` fails does not get to `dup`. -/
def DupSucceeds (past : List (Event Byte)) (e : Event Byte) : Prop :=
  ∀ st, e.attempt = some (st, .dupFails) → (reached texts past).capture.capturing st = true

variable {texts}

theorem perform_attempt {e : Event Byte} {st : Stream} {outcome : Outcome}
    (h : e.attempt = some (st, outcome)) (s : State Byte) :
    perform texts s e = (beginCapture texts st outcome s).2 := by
  cases e with
  | begins st' outcome' =>
    cases h
    rfl
  | calls c => cases c <;> cases h <;> rfl

/-! ### What `end` returns -/

/-- The buffer, and what is in the pipe that `end` reads. -/
def held (s : State Byte) : List Byte :=
  match s.capture.pipe_read_fd with
  | some r => s.capture.buffer ++ s.os.pipes.cell r
  | none => s.capture.buffer

theorem drain_buffer (s : State Byte) : (drain s).capture.buffer = held s := by
  unfold drain held
  cases s.capture.pipe_read_fd <;> rfl

theorem held_restore (st : Stream) (s : State Byte) : held (restore st s) = held s := by
  unfold restore
  split <;> rfl

theorem endCapture_fst (s : State Byte) :
    (endCapture s).1 = if isActive s then held s else s.capture.buffer := by
  unfold endCapture isActive
  rw [← Bool.not_or]
  cases s.capture.capturing .stdout || s.capture.capturing .stderr with
  | false => rfl
  | true =>
    show (drain (restore .stderr (restore .stdout _))).capture.buffer = held s
    rw [drain_buffer, held_restore, held_restore]
    rfl

/-- More bytes in a pipe are more of what `end` returns. -/
theorem held_write (s : State Byte) (msg : List Byte) (target : Target) :
    held s <+: held { s with os := s.os.write msg target } := by
  cases target with
  | real st => exact List.prefix_rfl
  | pipe r =>
    unfold held
    cases hread : s.capture.pipe_read_fd with
    | none => exact List.prefix_rfl
    | some r' =>
      by_cases hr : r' = r
      · subst hr
        simp [Process.write, ← List.append_assoc]
      · simp [Process.write, Heap.write_cell_ne _ _ hr]

/-! ### One `begin` -/

/-- A `begin` that fails before `dup` keeps the fields, and `end` returns no less. -/
theorem begin_keeps {st : Stream} {outcome : Outcome} {s : State Byte}
    (hdup : outcome = .dupFails → s.capture.capturing st = true)
    (hfails : (beginCapture texts st outcome s).1 = false) :
    (beginCapture texts st outcome s).2.capture = s.capture ∧
      (endCapture s).1 <+: (endCapture (beginCapture texts st outcome s).2).1 := by
  cases hcapturing : s.capture.capturing st with
  | true =>
    have hsame : (beginCapture texts st outcome s).2 = s := by
      unfold beginCapture
      rw [if_pos hcapturing]
    rw [hsame]
    exact ⟨rfl, List.prefix_rfl⟩
  | false =>
    have hbody : ¬ s.capture.capturing st = true := by simp [hcapturing]
    unfold beginCapture at hfails ⊢
    rw [if_neg hbody] at hfails ⊢
    cases outcome with
    | ok => cases hfails
    | dupFails => exact absurd (hdup rfl) hbody
    | pipeFails errno =>
      refine ⟨rfl, ?_⟩
      rw [endCapture_fst, endCapture_fst]
      show (if isActive s then held s else s.capture.buffer) <+:
        (if isActive s then held _ else s.capture.buffer)
      split
      · exact held_write s _ _
      · exact List.prefix_rfl

/-- One that fails at `dup` leaves the write end of the new pipe in the fields. -/
theorem begin_dupFails (texts : Texts Byte) {st : Stream} {s : State Byte}
    (h : s.capture.capturing st = false) :
    (beginCapture texts st .dupFails s).1 = false ∧
      (beginCapture texts st .dupFails s).2.capture.pipe_write_fd ≠ none := by
  have hbody : ¬ s.capture.capturing st = true := by simp [h]
  rw [beginCapture, if_neg hbody]
  exact ⟨rfl, Option.some_ne_none _⟩

/-! ### Between calls -/

/-- Between calls no write end is open, as long as no `dup` has failed. -/
def Closed (s : State Byte) : Prop := s.capture.pipe_write_fd = none

theorem closed_begin {st : Stream} {outcome : Outcome} {s : State Byte} (hs : Closed s)
    (hdup : outcome = .dupFails → s.capture.capturing st = true) :
    Closed (beginCapture texts st outcome s).2 := by
  unfold beginCapture
  split
  case isTrue => exact hs
  case isFalse hno =>
    cases outcome with
    | ok => rfl
    | pipeFails errno => exact hs
    | dupFails => exact absurd (hdup rfl) hno

theorem closed_drain {s : State Byte} (hs : Closed s) : Closed (drain s) := by
  unfold drain
  split
  · exact hs
  · exact hs

theorem closed_restore (st : Stream) {s : State Byte} (hs : Closed s) : Closed (restore st s) := by
  unfold restore
  split
  · exact hs
  · exact hs

theorem closed_endCapture {s : State Byte} (hs : Closed s) : Closed (endCapture s).2 := by
  unfold endCapture
  split
  · exact hs
  · have hclosed : Closed { s with capture := { s.capture with pipe_write_fd := none } } := rfl
    exact closed_drain (closed_restore .stderr (closed_restore .stdout hclosed))

theorem closed_peek {s : State Byte} (hs : Closed s) : Closed (peek s).2 := by
  unfold peek
  split
  · exact hs
  · exact closed_drain hs

theorem closed_perform {past : List (Event Byte)} {e : Event Byte}
    (hs : Closed (reached texts past)) (hdup : DupSucceeds texts past e) :
    Closed (reached texts (past ++ [e])) := by
  rw [reached_concat]
  cases e with
  | begins st outcome =>
    refine closed_begin hs fun houtcome => hdup st ?_
    rw [houtcome]
    rfl
  | calls c =>
    cases c with
    | beginStdout => exact closed_begin hs fun h => by cases h
    | beginStderr => exact closed_begin hs fun h => by cases h
    | peek => exact closed_peek hs
    | endCapture => exact closed_endCapture hs
    | _ => exact hs

/-! ### Runs -/

theorem intact_iff {past : List (Event Byte)} {e : Event Byte}
    (hs : Closed (reached texts past)) : Intact texts past e ↔ DupSucceeds texts past e := by
  constructor
  · intro h st hattempt
    by_contra hno
    have hidle : (reached texts past).capture.capturing st = false := by simpa using hno
    obtain ⟨hfails, hwrite⟩ := begin_dupFails texts hidle
    have hfields := h.fields st .dupFails hattempt hfails
    rw [reached_concat, perform_attempt hattempt] at hfields
    rw [hfields] at hwrite
    exact hwrite hs
  · intro hdup
    have hkeeps : ∀ st outcome, e.attempt = some (st, outcome) →
        (beginCapture texts st outcome (reached texts past)).1 = false →
          (reached texts (past ++ [e])).capture = (reached texts past).capture ∧
            (endCapture (reached texts past)).1 <+:
              (endCapture (reached texts (past ++ [e]))).1 := by
      intro st outcome hattempt hfails
      rw [reached_concat, perform_attempt hattempt]
      refine begin_keeps (fun houtcome => hdup st ?_) hfails
      rw [hattempt, houtcome]
    exact ⟨fun st outcome ha hf => (hkeeps st outcome ha hf).1,
      fun st outcome ha hf => (hkeeps st outcome ha hf).2⟩

/-- **Every failed `begin` of a run leaves the capture as it was, and its data to `end`,
exactly when no `begin` of the run fails at `dup`.** -/
theorem failures_intact_iff (texts : Texts Byte) (events : List (Event Byte)) :
    EveryStep (Intact texts) events ↔ EveryStep (DupSucceeds texts) events := by
  apply everyStep_iff (J := fun past => Closed (reached texts past))
  · rfl
  · exact fun past e hs => intact_iff hs
  · exact fun past e hs hdup => closed_perform hs hdup

/-- A capture of stderr loses its data to a `begin_stdout` that fails at `dup`. -/
theorem dupFails_loses :
    ¬ EveryStep (Intact Texts.source)
      [.begins .stderr .ok, .calls (.eprint ['a']), .begins .stdout .dupFails] := by
  intro h
  have hlast := h [.begins .stderr .ok, .calls (.eprint ['a'])] (.begins .stdout .dupFails) [] rfl
  exact absurd (hlast.data .stdout .dupFails rfl (by decide)) (by decide)

end FalconStd.Io
