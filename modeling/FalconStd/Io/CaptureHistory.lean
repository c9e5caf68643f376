import FalconStd.Foundation.Run
import FalconStd.Foundation.Session
import FalconStd.Io.Capture

/-! What a capture should have captured, read off the history of calls.

Every routine is one of five kinds of action on a stream. A capture is open from
the first `begin` since the last `end`, on that `begin`'s stream, and has captured
what was printed to the stream from there on (`captured`). `Tracks` says that the
state is the one such a history calls for; `tracks_perform` is the step, under the
conditions that one flag per stream and one output of `end` impose. -/
namespace FalconStd.Io
open Foundation

variable {Byte : Type}

inductive Action (Byte : Type) where
  | begins (st : Stream)
  | prints (st : Stream) (msg : List Byte)
  | writes (st : Stream) (msg : List Byte)
  | ends
  | looks

namespace Action

def begun : Action Byte → Option Stream
  | .begins st => some st
  | _ => none

def opens (a : Action Byte) : Bool := a.begun.isSome

def closes : Action Byte → Bool
  | .ends => true
  | _ => false

def printedOn (st : Stream) : Action Byte → List Byte
  | .prints st' msg => if st' = st then msg else []
  | _ => []

def writtenOn (st : Stream) : Action Byte → List Byte
  | .writes st' msg => if st' = st then msg else []
  | _ => []

end Action

/-! ### The history of a capture -/

/-- Everything printed to a stream. -/
def printedOn (st : Stream) (history : List (Action Byte)) : List Byte :=
  history.flatMap (Action.printedOn st)

/-- Everything written past the captures. -/
def writtenOn (st : Stream) (history : List (Action Byte)) : List Byte :=
  history.flatMap (Action.writtenOn st)

/-- The calls since the open capture began, its `begin` first. -/
def current (history : List (Action Byte)) : List (Action Byte) :=
  session Action.opens Action.closes history

/-- The stream of the open capture. -/
def begun (history : List (Action Byte)) : Option Stream := (current history).head?.bind Action.begun

/-- What was printed to the captured stream since the capture began. -/
def captured (history : List (Action Byte)) : List Byte :=
  match begun history with
  | some st => printedOn st (current history)
  | none => []

/-- What the open capture still owes a stream. -/
def pending (st : Stream) (history : List (Action Byte)) : List Byte :=
  if begun history = some st then captured history else []

section Concat
variable (history : List (Action Byte))

theorem printedOn_concat (st : Stream) (a : Action Byte) :
    printedOn st (history ++ [a]) = printedOn st history ++ a.printedOn st := by
  simp [printedOn]

theorem writtenOn_concat (st : Stream) (a : Action Byte) :
    writtenOn st (history ++ [a]) = writtenOn st history ++ a.writtenOn st := by
  simp [writtenOn]

theorem begun_eq_none_iff : begun history = none ↔ current history = [] := by
  unfold begun
  cases h : current history with
  | nil => simp
  | cons a rest =>
    have hopens := opens_head _ _ history h
    have hsome : a.begun ≠ none := by
      intro hnone
      rw [Action.opens, hnone] at hopens
      cases hopens
    simp [hsome]

theorem current_concat (a : Action Byte) (hends : a.closes = false) :
    current (history ++ [a]) =
      if begun history = none then (if a.opens then [a] else []) else current history ++ [a] := by
  unfold current
  rw [session_concat, hends]
  simp only [Bool.false_eq_true, if_false, begun_eq_none_iff]
  rfl

theorem begun_concat (a : Action Byte) (hends : a.closes = false) :
    begun (history ++ [a]) = (begun history).or a.begun := by
  have hconcat := current_concat history a hends
  cases hb : begun history with
  | none =>
    rw [hb, if_pos rfl] at hconcat
    unfold begun
    rw [hconcat, Action.opens]
    cases ha : a.begun <;> simp [ha]
  | some st =>
    rw [hb, if_neg (by simp)] at hconcat
    unfold begun at hb ⊢
    rw [hconcat]
    cases hc : current history with
    | nil =>
      rw [hc] at hb
      cases hb
    | cons first rest =>
      rw [hc] at hb
      simpa using hb

theorem begun_ends : begun (history ++ [.ends]) = none := by
  rw [begun_eq_none_iff, current, session_concat]
  rfl

/-- Of an open capture every further print to its stream is captured. -/
theorem captured_concat (a : Action Byte) (hends : a.closes = false) :
    captured (history ++ [a]) =
      captured history ++ (match begun history with
        | some st => a.printedOn st
        | none => []) := by
  have hconcat := current_concat history a hends
  have hbegun := begun_concat history a hends
  unfold captured
  rw [hbegun]
  cases hb : begun history with
  | none =>
    rw [hb, if_pos rfl] at hconcat
    cases ha : a.begun with
    | none => simp
    | some st =>
      cases a <;> simp_all [Action.begun, Action.opens, printedOn, Action.printedOn]
  | some st =>
    rw [hb, if_neg (by simp)] at hconcat
    show printedOn st (current (history ++ [a])) = _
    rw [hconcat, printedOn_concat]

theorem captured_ends : captured (history ++ [.ends]) = [] := by
  rw [captured, begun_ends]

/-- What has been captured stays, and only grows until the `end`. -/
theorem captured_append {history : List (Action Byte)} {st : Stream}
    (hb : begun history = some st) (more : List (Action Byte))
    (hmore : ∀ a ∈ more, a.closes = false) :
    begun (history ++ more) = some st ∧ captured history <+: captured (history ++ more) := by
  induction more using List.reverseRecOn with
  | nil =>
    rw [List.append_nil]
    exact ⟨hb, List.prefix_rfl⟩
  | append_singleton init a ih =>
    obtain ⟨hbegun, hprefix⟩ := ih fun a' ha' => hmore a' (List.mem_append_left _ ha')
    have ha := hmore a (List.mem_append_right _ (List.mem_singleton_self a))
    rw [← List.append_assoc]
    refine ⟨?_, ?_⟩
    · rw [begun_concat _ _ ha, hbegun]
      rfl
    · rw [captured_concat _ _ ha]
      exact hprefix.trans (List.prefix_append _ _)

end Concat

/-! ### What the calls do -/

def Call.action (texts : Texts Byte) : Call Byte → Action Byte
  | .beginStdout => .begins .stdout
  | .beginStderr => .begins .stderr
  | .print msg => .prints .stdout msg
  | .println msg => .prints .stdout (msg ++ [texts.newline])
  | .eprint msg => .prints .stderr msg
  | .eprintln msg => .prints .stderr (msg ++ [texts.newline])
  | .writeStdout msg => .writes .stdout msg
  | .writeStderr msg => .writes .stderr msg
  | .peek => .looks
  | .endCapture => .ends
  | .isActive => .looks

/-- What has reached a stream, with what is owed to it, is what was printed and written:
every byte once, and either of them in order. -/
structure Arrived (real owed printed written : List Byte) : Prop where
  once : (real ++ owed).Perm (printed ++ written)
  prints : printed.Sublist (real ++ owed)
  writes : written.Sublist real

/-- The state is the one that the history calls for. -/
structure Tracks (history : List (Action Byte)) (s : State Byte) : Prop where
  capturing : ∀ st, s.capture.capturing st = decide (begun history = some st)
  idle : ∀ st, begun history ≠ some st → s.os.fd st = .real st
  held : ∀ st, begun history = some st → ∃ r, s.capture.pipe_read_fd = some r ∧
    s.os.fd st = .pipe r ∧ s.capture.saved st = some (.real st) ∧
    s.capture.buffer ++ s.os.pipes.cell r = captured history ∧
    ∀ r', r' ≠ r → s.os.pipes.cell r' = []
  empty : begun history = none → ∀ r, s.os.pipes.cell r = []
  accounted : ∀ st, Arrived (s.os.real st) (pending st history) (printedOn st history)
    (writtenOn st history)

theorem tracks_start : Tracks [] (start : State Byte) := by
  refine ⟨fun _ => rfl, fun _ _ => rfl, fun st h => ?_, fun _ _ => rfl, fun _ => ?_⟩
  · cases h
  · exact ⟨List.Perm.nil, List.Sublist.slnil, List.Sublist.slnil⟩

variable {history : List (Action Byte)} {s : State Byte}

theorem Tracks.isActive (h : Tracks history s) : isActive s = (begun history).isSome := by
  rw [Io.isActive, h.capturing, h.capturing]
  cases begun history with
  | none => rfl
  | some st => cases st <;> rfl

/-- Nothing is owed to a stream that is not captured. -/
theorem Tracks.settled (h : Tracks history s) {st : Stream} (hb : begun history ≠ some st) :
    Arrived (s.os.real st) [] (printedOn st history) (writtenOn st history) := by
  have haccounted := h.accounted st
  rwa [pending, if_neg hb] at haccounted

/-! ### One call -/

/-- An action that hands over no bytes, and leaves the open capture as it is, asks
nothing of the state. -/
theorem Tracks.of_silent (h : Tracks history s) {a : Action Byte}
    (hbegun : begun (history ++ [a]) = begun history)
    (hcaptured : captured (history ++ [a]) = captured history)
    (hsilent : ∀ st, a.printedOn st = [] ∧ a.writtenOn st = []) : Tracks (history ++ [a]) s := by
  refine ⟨fun st => ?_, fun st => ?_, fun st => ?_, ?_, fun st => ?_⟩
  · rw [hbegun]
    exact h.capturing st
  · rw [hbegun]
    exact h.idle st
  · rw [hbegun, hcaptured]
    exact h.held st
  · rw [hbegun]
    exact h.empty
  · obtain ⟨hprinted, hwritten⟩ := hsilent st
    rw [pending, hbegun, hcaptured, printedOn_concat, writtenOn_concat, hprinted, hwritten,
      List.append_nil, List.append_nil]
    exact h.accounted st

theorem tracks_looks (h : Tracks history s) : Tracks (history ++ [.looks]) s := by
  refine h.of_silent ?_ ?_ fun _ => ⟨rfl, rfl⟩
  · rw [begun_concat _ _ rfl]
    exact Option.or_none
  · rw [captured_concat _ _ rfl]
    cases begun history <;> exact List.append_nil _

/-- Reading the pipe moves the bytes into the buffer. -/
theorem tracks_drain (h : Tracks history s) {st : Stream} (hb : begun history = some st) :
    Tracks history (drain s) ∧ (drain s).capture.buffer = captured history := by
  obtain ⟨r, hread, hfd, hsaved, hbytes, hothers⟩ := h.held st hb
  have hdrain : drain s = ⟨{ s.os with pipes := s.os.pipes.write r [] },
      { s.capture with buffer := s.capture.buffer ++ s.os.pipes.cell r }⟩ := by
    rw [drain, hread]
  rw [hdrain]
  refine ⟨⟨h.capturing, h.idle, fun st' hb' => ?_, fun hnone => ?_, h.accounted⟩, hbytes⟩
  · obtain rfl : st = st' := Option.some.inj (hb.symm.trans hb')
    refine ⟨r, hread, hfd, hsaved, ?_, fun r' hne => ?_⟩
    · rw [Heap.write_cell_same, List.append_nil]
      exact hbytes
    · rw [Heap.write_cell_ne _ _ hne]
      exact hothers r' hne
  · rw [hb] at hnone
    cases hnone

theorem tracks_begins_again (h : Tracks history s) {st : Stream} (hb : begun history = some st)
    (st' : Stream) : Tracks (history ++ [.begins st']) s := by
  refine h.of_silent ?_ ?_ fun _ => ⟨rfl, rfl⟩
  · rw [begun_concat _ _ rfl, hb]
    rfl
  · rw [captured_concat _ _ rfl, hb]
    exact List.append_nil _

/-- A capture that opens takes over the descriptor with an empty pipe. -/
theorem tracks_begins (texts : Texts Byte) (h : Tracks history s) (hb : begun history = none)
    (st : Stream) : Tracks (history ++ [.begins st]) (beginCapture texts st .ok s).2 := by
  have hidle : s.capture.capturing st = false := by
    rw [h.capturing, hb]
    rfl
  have hbegun : begun (history ++ [.begins st]) = some st := by
    rw [begun_concat _ _ rfl, hb]
    rfl
  have hcaptured : captured (history ++ [.begins st]) = [] := by
    rw [captured_concat _ _ rfl, hb, captured, hb]
    rfl
  have hstate : (beginCapture texts st .ok s).2 =
      ⟨{ s.os with
          pipes := (s.os.pipes.alloc []).2
          fd := Function.update s.os.fd st (.pipe s.os.pipes.next) },
        { pipe_read_fd := some s.os.pipes.next
          pipe_write_fd := none
          saved := Function.update s.capture.saved st (some (s.os.fd st))
          capturing := Function.update s.capture.capturing st true
          buffer := [] }⟩ := by
    rw [beginCapture, hidle]
    rfl
  have hnew : ∀ r, (s.os.pipes.alloc []).2.cell r = [] := by
    intro r
    by_cases hr : r = s.os.pipes.next
    · rw [hr, Heap.alloc_cell_new]
    · simp [Heap.alloc, Function.update_of_ne hr, h.empty hb r]
  rw [hstate]
  refine ⟨fun st' => ?_, fun st' hne => ?_, fun st' hb' => ?_, fun hnone => ?_, fun st' => ?_⟩
  · rw [hbegun]
    by_cases hst : st' = st
    · subst hst
      simp
    · have hne : ¬ st = st' := fun he => hst he.symm
      simp [hst, hne, h.capturing st', hb]
  · rw [hbegun] at hne
    have hst : st' ≠ st := fun he => hne (by rw [he])
    simp only [Function.update_of_ne hst]
    exact h.idle st' (by rw [hb]; simp)
  · obtain rfl : st = st' := Option.some.inj (hbegun.symm.trans hb')
    refine ⟨s.os.pipes.next, rfl, by simp, ?_, ?_, fun r' _ => hnew r'⟩
    · simp [h.idle st (by rw [hb]; simp)]
    · rw [hcaptured, hnew]
      rfl
  · rw [hbegun] at hnone
    cases hnone
  · have haccounted := h.accounted st'
    rw [pending, hb] at haccounted
    rw [pending, hcaptured, printedOn_concat, writtenOn_concat]
    simpa [Action.printedOn, Action.writtenOn] using haccounted

section Arrived
variable {real owed printed written : List Byte}

/-- Bytes reach the stream, printed ones only where none are owed. -/
theorem Arrived.reach (p w : List Byte) (h : Arrived real owed printed written)
    (howed : p = [] ∨ owed = []) :
    Arrived (real ++ (p ++ w)) owed (printed ++ p) (written ++ w) := by
  refine ⟨?_, ?_, h.writes.append (List.sublist_append_right p w)⟩
  · classical
    have honce := h.once
    rw [List.perm_iff_count] at honce ⊢
    intro b
    have hb := honce b
    simp only [List.count_append] at hb ⊢
    omega
  · have hprints := h.prints
    rcases howed with rfl | rfl
    · rw [List.append_nil, List.nil_append]
      exact hprints.trans ((List.sublist_append_left real w).append_right owed)
    · rw [List.append_nil] at hprints ⊢
      exact hprints.append (List.sublist_append_left p w)

/-- Bytes that are captured are owed. -/
theorem Arrived.owe (msg : List Byte) (h : Arrived real owed printed written) :
    Arrived real (owed ++ msg) (printed ++ msg) written := by
  refine ⟨?_, ?_, h.writes⟩
  · rw [← List.append_assoc, List.append_assoc printed]
    exact (h.once.append_right msg).trans (by
      rw [List.append_assoc]
      exact List.perm_append_comm.append_left printed)
  · rw [← List.append_assoc]
    exact h.prints.append_right msg

/-- What was owed is forwarded. -/
theorem Arrived.pay (h : Arrived real owed printed written) :
    Arrived (real ++ owed) [] printed written := by
  refine ⟨?_, ?_, h.writes.trans (List.sublist_append_left real owed)⟩
  · rw [List.append_nil]
    exact h.once
  · rw [List.append_nil]
    exact h.prints

end Arrived

/-- A call that is not captured takes its bytes to the real streams. -/
theorem tracks_reaches (h : Tracks history s) {s' : State Byte} {a : Action Byte}
    (hends : a.closes = false) (hbegins : a.begun = none)
    (hcaptured : captured (history ++ [a]) = captured history)
    (hdirect : ∀ st, a.printedOn st = [] ∨ begun history ≠ some st)
    (hreal : ∀ st, s'.os.real st = s.os.real st ++ (a.printedOn st ++ a.writtenOn st))
    (hfd : s'.os.fd = s.os.fd) (hpipes : s'.os.pipes = s.os.pipes)
    (hcapture : s'.capture = s.capture) : Tracks (history ++ [a]) s' := by
  have hbegun : begun (history ++ [a]) = begun history := by
    rw [begun_concat _ _ hends, hbegins]
    exact Option.or_none
  refine ⟨fun st => ?_, fun st => ?_, fun st => ?_, ?_, fun st => ?_⟩
  · rw [hbegun, hcapture]
    exact h.capturing st
  · rw [hbegun, hfd]
    exact h.idle st
  · rw [hbegun, hcaptured, hfd, hpipes, hcapture]
    exact h.held st
  · rw [hbegun, hpipes]
    exact h.empty
  · rw [pending, hbegun, hcaptured, hreal, printedOn_concat, writtenOn_concat]
    refine (h.accounted st).reach _ _ ((hdirect st).imp_right fun hb => ?_)
    rw [pending, if_neg hb]

theorem tracks_prints_captured (h : Tracks history s) {st : Stream} (hb : begun history = some st)
    (msg : List Byte) : Tracks (history ++ [.prints st msg]) (emit st msg s) := by
  obtain ⟨r, hread, hfd, hsaved, hbytes, hothers⟩ := h.held st hb
  have hbegun : begun (history ++ [.prints st msg]) = begun history := by
    rw [begun_concat _ _ rfl]
    exact Option.or_none
  have hcaptured : captured (history ++ [.prints st msg]) = captured history ++ msg := by
    rw [captured_concat _ _ rfl, hb]
    simp [Action.printedOn]
  have hstate : emit st msg s =
      { s with os := { s.os with pipes := s.os.pipes.write r (s.os.pipes.cell r ++ msg) } } := by
    rw [emit, hfd]
    rfl
  rw [hstate]
  refine ⟨fun st' => ?_, fun st' hne => ?_, fun st' hb' => ?_, fun hnone => ?_, fun st' => ?_⟩
  · rw [hbegun]
    exact h.capturing st'
  · rw [hbegun] at hne
    exact h.idle st' hne
  · obtain rfl : st = st' := Option.some.inj (hb.symm.trans (hbegun.symm.trans hb'))
    refine ⟨r, hread, hfd, hsaved, ?_, fun r' hne => ?_⟩
    · rw [hcaptured, Heap.write_cell_same, ← List.append_assoc, hbytes]
    · rw [Heap.write_cell_ne _ _ hne]
      exact hothers r' hne
  · rw [hbegun, hb] at hnone
    cases hnone
  · have haccounted := h.accounted st'
    rw [pending, hbegun, hcaptured, printedOn_concat, writtenOn_concat]
    rw [pending] at haccounted
    by_cases hst : st = st'
    · subst hst
      rw [if_pos hb] at haccounted ⊢
      simpa [Action.printedOn, Action.writtenOn] using haccounted.owe msg
    · have hb' : begun history ≠ some st' := fun he => hst (Option.some.inj (hb.symm.trans he))
      rw [if_neg hb'] at haccounted ⊢
      simpa [Action.printedOn, Action.writtenOn, hst] using haccounted

theorem tracks_prints (h : Tracks history s) (st : Stream) (msg : List Byte) :
    Tracks (history ++ [.prints st msg]) (emit st msg s) := by
  by_cases hb : begun history = some st
  · exact tracks_prints_captured h hb msg
  · have hstate : emit st msg s =
        { s with os := { s.os with
            real := Function.update s.os.real st (s.os.real st ++ msg) } } := by
      rw [emit, h.idle st hb]
      rfl
    have hcaptured : captured (history ++ [.prints st msg]) = captured history := by
      rw [captured_concat _ _ rfl]
      cases hb' : begun history with
      | none => exact List.append_nil _
      | some st' =>
        have hne : ¬ st = st' := fun he => hb (by rw [hb', he])
        simp [Action.printedOn, hne]
    rw [hstate]
    refine tracks_reaches h rfl rfl hcaptured (fun st' => ?_) (fun st' => ?_) rfl rfl rfl
    · by_cases hst : st = st'
      · exact .inr (hst ▸ hb)
      · exact .inl (if_neg hst)
    · by_cases hst : st = st'
      · subst hst
        simp [Action.printedOn, Action.writtenOn]
      · have hne : ¬ st' = st := fun he => hst he.symm
        simp [Action.printedOn, Action.writtenOn, hst, hne]

/-- `WriteStdout` and `WriteStderr` go past the capture of their stream. -/
theorem tracks_writes (h : Tracks history s) (st : Stream) (msg : List Byte) :
    Tracks (history ++ [.writes st msg]) (writeReal st msg s) := by
  have hstate : writeReal st msg s =
      { s with os := { s.os with
          real := Function.update s.os.real st (s.os.real st ++ msg) } } := by
    have hcapturing := h.capturing st
    by_cases hb : begun history = some st
    · obtain ⟨r, _, _, hsaved, _, _⟩ := h.held st hb
      simp [writeReal, hcapturing, hb, hsaved, Process.write]
    · simp [writeReal, hcapturing, hb, h.idle st hb, Process.write]
  have hcaptured : captured (history ++ [.writes st msg]) = captured history := by
    rw [captured_concat _ _ rfl]
    cases begun history <;> exact List.append_nil _
  rw [hstate]
  refine tracks_reaches h rfl rfl hcaptured (fun _ => .inl rfl) (fun st' => ?_) rfl rfl rfl
  by_cases hst : st = st'
  · subst hst
    simp [Action.printedOn, Action.writtenOn]
  · have hne : ¬ st' = st := fun he => hst he.symm
    simp [Action.printedOn, Action.writtenOn, hst, hne]

theorem captured_of_none (hb : begun history = none) : captured history = [] := by
  rw [captured, hb]

/-- `end` with no capture open. -/
theorem tracks_ends_idle (h : Tracks history s) (hb : begun history = none) :
    Tracks (history ++ [.ends]) s := by
  refine h.of_silent ?_ ?_ fun _ => ⟨rfl, rfl⟩
  · rw [begun_ends, hb]
  · rw [captured_ends, captured_of_none hb]

/-- The state that `end` leaves of a capture of `st` with pipe `r`. -/
def ended (s : State Byte) (st : Stream) (r : Handle) (msg : List Byte) : State Byte :=
  ⟨{ real := Function.update s.os.real .stdout (s.os.real .stdout ++ msg)
     fd := Function.update s.os.fd st (.real st)
     pipes := s.os.pipes.write r [] },
    { pipe_read_fd := none
      pipe_write_fd := none
      saved := Function.update s.capture.saved st none
      capturing := Function.update s.capture.capturing st false
      buffer := msg }⟩

theorem endCapture_eq (h : Tracks history s) {st : Stream} (hb : begun history = some st) :
    ∃ r, s.capture.pipe_read_fd = some r ∧ (∀ r', r' ≠ r → s.os.pipes.cell r' = []) ∧
      endCapture s = (captured history, ended s st r (captured history)) := by
  obtain ⟨r, hread, hfd, hsaved, hbytes, hothers⟩ := h.held st hb
  refine ⟨r, hread, hothers, ?_⟩
  have hout := h.capturing .stdout
  have herr := h.capturing .stderr
  cases st with
  | stdout =>
    simp only [hb, decide_true, Option.some.injEq, reduceCtorEq, decide_false] at hout herr
    simp [endCapture, hout, herr, restore, drain, hread, hsaved, hbytes, ended, Process.write]
  | stderr =>
    have hfdOut := h.idle .stdout (by rw [hb]; simp)
    simp only [hb, decide_true, Option.some.injEq, reduceCtorEq, decide_false] at hout herr
    simp [endCapture, hout, herr, restore, drain, hread, hsaved, hbytes, ended, Process.write, hfdOut]

/-- What `end` forwards is accounted for, if the capture is of stdout or empty. -/
theorem tracks_ends (h : Tracks history s)
    (hforward : begun history = some .stderr → captured history = []) :
    Tracks (history ++ [.ends]) (endCapture s).2 := by
  cases hb : begun history with
  | none =>
    have hidle : endCapture s = (s.capture.buffer, s) := by
      simp [endCapture, h.capturing, hb]
    rw [hidle]
    exact tracks_ends_idle h hb
  | some st =>
    obtain ⟨r, _, hothers, hend⟩ := endCapture_eq h hb
    rw [hend]
    refine ⟨fun st' => ?_, fun st' _ => ?_, fun st' hb' => ?_, fun _ r' => ?_, fun st' => ?_⟩
    · rw [begun_ends]
      by_cases hst : st' = st
      · subst hst
        simp [ended]
      · have hne : ¬ st = st' := fun he => hst he.symm
        simp [ended, hst, hne, h.capturing st', hb]
    · by_cases hst : st' = st
      · subst hst
        simp [ended]
      · have hne : ¬ st = st' := fun he => hst he.symm
        simp [ended, hst, h.idle st' (by rw [hb]; simpa using hne)]
    · rw [begun_ends] at hb'
      cases hb'
    · by_cases hr : r' = r
      · rw [hr]
        exact Heap.write_cell_same _ _ _
      · show (s.os.pipes.write r []).cell r' = []
        rw [Heap.write_cell_ne _ _ hr]
        exact hothers r' hr
    · have haccounted := h.accounted st'
      rw [pending, hb] at haccounted
      rw [pending, begun_ends, printedOn_concat, writtenOn_concat]
      cases st with
      | stdout =>
        cases st' with
        | stdout => simpa [ended, Action.printedOn, Action.writtenOn] using haccounted.pay
        | stderr => simpa [ended, Action.printedOn, Action.writtenOn] using haccounted
      | stderr =>
        rw [hforward hb] at haccounted ⊢
        cases st' <;> simpa [ended, Action.printedOn, Action.writtenOn] using haccounted

end FalconStd.Io
