import FalconStd.Io.CaptureHistory

/-! Runs of captures.

The two captures have a flag each but share the pipe and the buffer, and `end`
forwards to stdout. `capture_lossless_iff`: a run loses and misdirects nothing
exactly when no `begin` meets the other stream's capture and no `end` closes a
stderr capture that holds bytes. With stdout captures alone neither can happen,
and `stdout_lifecycle` is the full account of such runs. -/
namespace FalconStd.Io
open Foundation

variable {Byte : Type} (texts : Texts Byte)

def after (past : List (Call Byte)) : State Byte := run (next (call texts)) start past

def history (past : List (Call Byte)) : List (Action Byte) := past.map (Call.action texts)

/-- What a call answers after a run. -/
def reply (past : List (Call Byte)) (c : Call Byte) : Reply Byte := (call texts (after texts past) c).1

theorem after_concat (past : List (Call Byte)) (c : Call Byte) :
    after texts (past ++ [c]) = (call texts (after texts past) c).2 := run_concat _ _ _ _

theorem history_concat (past : List (Call Byte)) (c : Call Byte) :
    history texts (past ++ [c]) = history texts past ++ [c.action texts] := List.map_append ..

/-! ### Both streams -/

/-- What is promised of a call after a run. -/
structure Lossless (past : List (Call Byte)) (c : Call Byte) : Prop where
  exclusive : ¬ ((after texts (past ++ [c])).capture.capturing .stdout = true ∧
    (after texts (past ++ [c])).capture.capturing .stderr = true)
  no_effect : ∀ st, (c.action texts).begun = some st → isActive (after texts past) = true →
    after texts (past ++ [c]) = after texts past
  returns : c.action texts = .ends → isActive (after texts past) = true →
    reply texts past c = .text (captured (history texts past))
  no_orphan : ∀ r, (after texts (past ++ [c])).os.pipes.cell r ≠ [] →
    (after texts (past ++ [c])).capture.pipe_read_fd = some r
  delivered : isActive (after texts (past ++ [c])) = false → ∀ st,
    ((after texts (past ++ [c])).os.real st).Perm
      (printedOn st (history texts (past ++ [c])) ++ writtenOn st (history texts (past ++ [c])))
  in_order : isActive (after texts (past ++ [c])) = false → ∀ st,
    (printedOn st (history texts (past ++ [c]))).Sublist ((after texts (past ++ [c])).os.real st) ∧
      (writtenOn st (history texts (past ++ [c]))).Sublist ((after texts (past ++ [c])).os.real st)

def Stream.other : Stream → Stream
  | .stdout => .stderr
  | .stderr => .stdout

/-- The condition of a call: a `begin` does not find the other stream captured, and
`end` does not find bytes captured from stderr. -/
structure Meets (past : List (Call Byte)) (c : Call Byte) : Prop where
  alone : ∀ st, (c.action texts).begun = some st →
    (after texts past).capture.capturing st.other = false
  nothing_on_stderr : c.action texts = .ends → begun (history texts past) = some .stderr →
    captured (history texts past) = []

variable {texts} {past : List (Call Byte)} {c : Call Byte}

/-- A `begin` of the stream already captured is refused. -/
theorem beginCapture_again {s : State Byte} {st : Stream} (h : s.capture.capturing st = true) :
    (beginCapture texts st .ok s).2 = s := by
  rw [beginCapture, if_pos h]

theorem tracks_beginCapture {h : List (Action Byte)} {s : State Byte} (ht : Tracks h s)
    {st : Stream} (halone : s.capture.capturing st.other = false) :
    Tracks (h ++ [.begins st]) (beginCapture texts st .ok s).2 := by
  cases hb : begun h with
  | none => exact tracks_begins texts ht hb st
  | some st' =>
    have hst : st' = st := by
      rw [ht.capturing, hb] at halone
      cases st <;> cases st' <;> first | rfl | cases halone
    subst hst
    have hcapturing : s.capture.capturing st' = true := by
      rw [ht.capturing, hb]
      exact decide_eq_true rfl
    rw [beginCapture_again hcapturing]
    exact tracks_begins_again ht hb st'

theorem call_peek (s : State Byte) : call texts s .peek = (.text (peek s).1, (peek s).2) := rfl

theorem peek_eq {h : List (Action Byte)} {s : State Byte} (ht : Tracks h s) {st : Stream}
    (hb : begun h = some st) : peek s = (captured h, drain s) := by
  rw [← (tracks_drain ht hb).2]
  cases st <;> simp [peek, ht.capturing, hb]

/-- **One call** that meets its condition. -/
theorem tracks_call (ht : Tracks (history texts past) (after texts past))
    (hmeets : Meets texts past c) :
    Tracks (history texts (past ++ [c])) (after texts (past ++ [c])) := by
  rw [history_concat, after_concat]
  cases c with
  | beginStdout => exact tracks_beginCapture ht (hmeets.alone .stdout rfl)
  | beginStderr => exact tracks_beginCapture ht (hmeets.alone .stderr rfl)
  | print msg => exact tracks_prints ht .stdout msg
  | println msg => exact tracks_prints ht .stdout (msg ++ [texts.newline])
  | eprint msg => exact tracks_prints ht .stderr msg
  | eprintln msg => exact tracks_prints ht .stderr (msg ++ [texts.newline])
  | writeStdout msg => exact tracks_writes ht .stdout msg
  | writeStderr msg => exact tracks_writes ht .stderr msg
  | peek =>
    rw [call_peek]
    cases hb : begun (history texts past) with
    | none =>
      have hidle : peek (after texts past) = ((after texts past).capture.buffer, after texts past) := by
        simp [peek, ht.capturing, hb]
      rw [hidle]
      exact tracks_looks ht
    | some st =>
      rw [peek_eq ht hb]
      exact tracks_looks (tracks_drain ht hb).1
  | endCapture => exact tracks_ends ht (hmeets.nothing_on_stderr rfl)
  | isActive => exact tracks_looks ht

theorem call_begins (s : State Byte) {st : Stream} (h : (c.action texts).begun = some st) :
    c.action texts = .begins st ∧ (call texts s c).2 = (beginCapture texts st .ok s).2 := by
  cases c <;> cases h <;> exact ⟨rfl, rfl⟩

theorem call_ends (s : State Byte) (h : c.action texts = .ends) :
    call texts s c = (.text (endCapture s).1, (endCapture s).2) := by
  cases c <;> cases h
  rfl

theorem isActive_eq (s : State Byte) (st : Stream) :
    isActive s = (s.capture.capturing st || s.capture.capturing st.other) := by
  cases st with
  | stdout => rfl
  | stderr => exact Bool.or_comm _ _

theorem exists_begun (ht : Tracks (history texts past) (after texts past))
    (hactive : isActive (after texts past) = true) : ∃ st, begun (history texts past) = some st := by
  rw [ht.isActive] at hactive
  exact Option.isSome_iff_exists.mp hactive

/-- A call of which the promise holds has met its condition: otherwise both streams
are captured, or stdout has more bytes than were handed over for it. -/
theorem meets_of_lossless (ht : Tracks (history texts past) (after texts past))
    (h : Lossless texts past c) : Meets texts past c := by
  refine ⟨fun st hbegins => ?_, fun hends hb => ?_⟩
  · obtain ⟨_, hcall⟩ := call_begins (after texts past) hbegins
    by_contra halone
    have hother : (after texts past).capture.capturing st.other = true := by simpa using halone
    have hself : (after texts past).capture.capturing st = false := by
      rw [ht.capturing] at hother ⊢
      rw [of_decide_eq_true hother]
      cases st <;> rfl
    have hboth := h.exclusive
    rw [after_concat, hcall, beginCapture, hself] at hboth
    cases st <;> simp_all [Stream.other]
  · obtain ⟨r, _, _, hend⟩ := endCapture_eq ht hb
    have hidle : isActive (after texts (past ++ [c])) = false := by
      rw [after_concat, call_ends _ hends, hend]
      simp [isActive, ended, ht.capturing, hb]
    have hdelivered := (h.delivered hidle .stdout).length_eq
    have haccounted := (ht.accounted .stdout).once.length_eq
    rw [pending, hb, if_neg (by decide)] at haccounted
    rw [after_concat, call_ends _ hends, hend, history_concat, hends, printedOn_concat,
      writtenOn_concat] at hdelivered
    simp only [ended, Function.update_self, List.length_append, Action.printedOn,
      Action.writtenOn, List.length_nil] at hdelivered haccounted
    have hlen : (captured (history texts past)).length = 0 := by omega
    exact List.eq_nil_of_length_eq_zero hlen

theorem lossless_of_meets (ht : Tracks (history texts past) (after texts past))
    (hmeets : Meets texts past c) : Lossless texts past c := by
  have ht' := tracks_call ht hmeets
  have hnone : isActive (after texts (past ++ [c])) = false →
      ∀ st, begun (history texts (past ++ [c])) ≠ some st := by
    intro hidle st hb
    rw [ht'.isActive, hb] at hidle
    cases hidle
  refine ⟨?_, fun st hbegins hactive => ?_, fun hends hactive => ?_, fun r hr => ?_, fun hidle st => ?_,
    fun hidle st => ⟨?_, (ht'.settled (hnone hidle st)).writes⟩⟩
  · intro h
    obtain ⟨hout, herr⟩ := h
    rw [ht'.capturing] at hout herr
    have hboth := (of_decide_eq_true hout).symm.trans (of_decide_eq_true herr)
    cases hboth
  · rw [isActive_eq _ st, hmeets.alone st hbegins, Bool.or_false] at hactive
    rw [after_concat, (call_begins _ hbegins).2, beginCapture_again hactive]
  · obtain ⟨st, hb⟩ := exists_begun ht hactive
    obtain ⟨r, _, _, hend⟩ := endCapture_eq ht hb
    rw [reply, call_ends _ hends, hend]
  · cases hb : begun (history texts (past ++ [c])) with
    | none => exact absurd (ht'.empty hb r) hr
    | some st =>
      obtain ⟨r', hread, _, _, _, hothers⟩ := ht'.held st hb
      by_cases hrr : r = r'
      · rw [hrr, hread]
      · exact absurd (hothers r hrr) hr
  · simpa using (ht'.settled (hnone hidle st)).once
  · simpa using (ht'.settled (hnone hidle st)).prints

/-- **Runs of both captures** keep every promise exactly when every call meets its
condition. -/
theorem capture_lossless_iff (texts : Texts Byte) (calls : List (Call Byte)) :
    EveryStep (Lossless texts) calls ↔ EveryStep (Meets texts) calls := by
  apply everyStep_iff (J := fun past => Tracks (history texts past) (after texts past))
  · exact tracks_start
  · exact fun past c ht => ⟨meets_of_lossless ht, lossless_of_meets ht⟩
  · exact fun past c ht hmeets => tracks_call ht hmeets

/-- A stderr capture begun during a stdout capture, and one whose bytes `end`
forwards to stdout. -/
theorem captures_interfere :
    ¬ EveryStep (Lossless Texts.source) [.beginStdout, .print ['a'], .beginStderr] ∧
    ¬ EveryStep (Lossless Texts.source) [.beginStderr, .eprint ['a'], .endCapture] := by
  refine ⟨fun h => ?_, fun h => ?_⟩
  · have hlast := h [.beginStdout, .print ['a']] .beginStderr [] rfl
    exact hlast.exclusive (by decide)
  · have hlast := h [.beginStderr, .eprint ['a']] .endCapture [] rfl
    exact absurd (hlast.delivered (by decide) .stdout) (by decide)

/-! ### Stdout alone -/

inductive StdoutCall (Byte : Type) where
  | beginStdout
  | print (msg : List Byte)
  | println (msg : List Byte)
  | writeStdout (msg : List Byte)
  | peek
  | endCapture
  | isActive

def StdoutCall.toCall : StdoutCall Byte → Call Byte
  | .beginStdout => .beginStdout
  | .print msg => .print msg
  | .println msg => .println msg
  | .writeStdout msg => .writeStdout msg
  | .peek => .peek
  | .endCapture => .endCapture
  | .isActive => .isActive

def calls (past : List (StdoutCall Byte)) : List (Call Byte) := past.map StdoutCall.toCall

/-- A `BeginStdout` has occurred after the last `End`. -/
def BegunSinceEnd (texts : Texts Byte) (past : List (StdoutCall Byte)) : Prop :=
  .begins .stdout ∈ sinceLast Action.closes (history texts (calls past))

/-- All that was printed since the first `BeginStdout` after the last `End`. -/
def printedSinceBegin (texts : Texts Byte) (past : List (StdoutCall Byte)) : List Byte :=
  printedOn .stdout (current (history texts (calls past)))

/-- The account of a stdout capture after a run of stdout calls. -/
structure Lifecycle (texts : Texts Byte) (past : List (StdoutCall Byte)) : Prop where
  active : ∃ b, reply texts (calls past) .isActive = .flag b ∧ (b = true ↔ BegunSinceEnd texts past)
  begin_again : BegunSinceEnd texts past →
    after texts (calls past ++ [.beginStdout]) = after texts (calls past)
  peek : BegunSinceEnd texts past →
    reply texts (calls past) .peek = .text (printedSinceBegin texts past)
  end_ : BegunSinceEnd texts past →
    reply texts (calls past) .endCapture = .text (printedSinceBegin texts past)
  prefixes : BegunSinceEnd texts past → ∀ more : List (StdoutCall Byte), .endCapture ∉ more →
    ∃ peeked later, reply texts (calls past) .peek = .text peeked ∧
      reply texts (calls (past ++ more)) .peek = .text later ∧
      reply texts (calls (past ++ more)) .endCapture = .text later ∧ peeked <+: later
  writes_unseen : BegunSinceEnd texts past → ∀ msg,
    reply texts (calls (past ++ [.writeStdout msg])) .peek = reply texts (calls past) .peek ∧
    reply texts (calls (past ++ [.writeStdout msg])) .endCapture =
      reply texts (calls past) .endCapture
  delivered : ¬ BegunSinceEnd texts past →
    ((after texts (calls past)).os.real .stdout).Perm
      (printedOn .stdout (history texts (calls past)) ++
        writtenOn .stdout (history texts (calls past)))
  in_order : ¬ BegunSinceEnd texts past →
    (printedOn .stdout (history texts (calls past))).Sublist
        ((after texts (calls past)).os.real .stdout) ∧
      (writtenOn .stdout (history texts (calls past))).Sublist
        ((after texts (calls past)).os.real .stdout)

section Stdout
variable (texts) (past : List (StdoutCall Byte))

theorem calls_concat (past : List (StdoutCall Byte)) (c : StdoutCall Byte) :
    calls (past ++ [c]) = calls past ++ [c.toCall] := List.map_append ..

/-- Stdout calls meet their conditions: no capture is of stderr. -/
theorem tracks_stdout :
    Tracks (history texts (calls past)) (after texts (calls past)) ∧
      begun (history texts (calls past)) ≠ some .stderr := by
  induction past using List.reverseRecOn with
  | nil =>
    refine ⟨tracks_start, fun h => ?_⟩
    cases h
  | append_singleton past c ih =>
    obtain ⟨ht, hne⟩ := ih
    have halone : (after texts (calls past)).capture.capturing .stderr = false := by
      rw [ht.capturing]
      exact decide_eq_false hne
    have hmeets : Meets texts (calls past) c.toCall := by
      refine ⟨fun st hbegins => ?_, fun _ hb => absurd hb hne⟩
      cases c <;> cases hbegins
      exact halone
    rw [calls_concat]
    refine ⟨tracks_call ht hmeets, ?_⟩
    rw [history_concat]
    cases c with
    | endCapture =>
      have haction : Call.action texts (StdoutCall.endCapture.toCall) = .ends := rfl
      rw [haction, begun_ends]
      simp
    | _ =>
      rw [begun_concat _ _ rfl]
      cases hb : begun (history texts (calls past)) with
      | none => simp [StdoutCall.toCall, Call.action, Action.begun]
      | some st => simpa [hb] using hne

theorem opens_stdout {a : Action Byte} (ha : a ∈ history texts (calls past))
    (hopens : a.opens = true) : a = .begins .stdout := by
  obtain ⟨c, hc, rfl⟩ := List.mem_map.mp ha
  obtain ⟨c', _, rfl⟩ := List.mem_map.mp hc
  cases c' <;> first | rfl | cases hopens

/-- The capture that a history leaves open is of stdout. -/
theorem begunSinceEnd_iff :
    BegunSinceEnd texts past ↔ begun (history texts (calls past)) = some .stdout := by
  have hnil := session_eq_nil_iff Action.opens Action.closes (history texts (calls past))
  refine ⟨fun h => ?_, fun hb => ?_⟩
  · cases hb : begun (history texts (calls past)) with
    | none =>
      rw [begun_eq_none_iff] at hb
      have hclosed := hnil.mp hb _ h
      cases hclosed
    | some st =>
      cases st with
      | stdout => rfl
      | stderr => exact absurd hb (tracks_stdout texts past).2
  · by_contra hno
    have hempty : current (history texts (calls past)) = [] := by
      refine hnil.mpr fun a ha => ?_
      by_contra hopens
      obtain rfl : a = .begins .stdout :=
        opens_stdout texts past (mem_of_mem_sinceLast _ ha) (by simpa using hopens)
      exact hno ha
    rw [← begun_eq_none_iff, hb] at hempty
    cases hempty

variable {texts} {past}

theorem printedSinceBegin_eq (h : BegunSinceEnd texts past) :
    printedSinceBegin texts past = captured (history texts (calls past)) := by
  rw [captured, (begunSinceEnd_iff texts past).mp h]
  rfl

theorem reply_peek (h : BegunSinceEnd texts past) :
    reply texts (calls past) .peek = .text (printedSinceBegin texts past) := by
  have hb := (begunSinceEnd_iff texts past).mp h
  rw [reply, call_peek, peek_eq (tracks_stdout texts past).1 hb, printedSinceBegin_eq h]

theorem reply_end (h : BegunSinceEnd texts past) :
    reply texts (calls past) .endCapture = .text (printedSinceBegin texts past) := by
  have hb := (begunSinceEnd_iff texts past).mp h
  obtain ⟨r, _, _, hend⟩ := endCapture_eq (tracks_stdout texts past).1 hb
  rw [reply, call_ends _ rfl, hend, printedSinceBegin_eq h]

/-- Until the `End` the capture stays open and what it holds only grows. -/
theorem grows (h : BegunSinceEnd texts past) {more : List (StdoutCall Byte)}
    (hmore : .endCapture ∉ more) : BegunSinceEnd texts (past ++ more) ∧
      printedSinceBegin texts past <+: printedSinceBegin texts (past ++ more) := by
  have hb := (begunSinceEnd_iff texts past).mp h
  have hsplit : history texts (calls (past ++ more)) =
      history texts (calls past) ++ history texts (calls more) := by
    simp [history, calls]
  obtain ⟨hbegun, hprefix⟩ := captured_append hb (history texts (calls more)) (by
    intro a ha
    obtain ⟨c, hc, rfl⟩ := List.mem_map.mp ha
    obtain ⟨c', hc', rfl⟩ := List.mem_map.mp hc
    cases c' <;> first | rfl | exact absurd hc' hmore)
  rw [← hsplit] at hbegun hprefix
  have hopen := (begunSinceEnd_iff texts (past ++ more)).mpr hbegun
  rw [printedSinceBegin_eq h, printedSinceBegin_eq hopen]
  exact ⟨hopen, hprefix⟩

theorem write_unseen (h : BegunSinceEnd texts past) (msg : List Byte) :
    printedSinceBegin texts (past ++ [.writeStdout msg]) = printedSinceBegin texts past := by
  have hopen : BegunSinceEnd texts (past ++ [.writeStdout msg]) := (grows h (by simp)).1
  have haction : Call.action texts (StdoutCall.writeStdout msg).toCall = .writes .stdout msg := rfl
  rw [printedSinceBegin_eq h, printedSinceBegin_eq hopen, calls_concat, history_concat, haction,
    captured_concat _ _ rfl, (begunSinceEnd_iff texts past).mp h]
  exact List.append_nil _

end Stdout

/-- **The lifecycle of a stdout capture**, after every run of stdout calls. -/
theorem stdout_lifecycle (texts : Texts Byte) (past : List (StdoutCall Byte)) :
    Lifecycle texts past := by
  obtain ⟨ht, hne⟩ := tracks_stdout texts past
  have hiff := begunSinceEnd_iff texts past
  have hsettled := fun h : ¬ BegunSinceEnd texts past => ht.settled (mt hiff.mpr h)
  refine ⟨⟨_, rfl, ?_⟩, fun h => ?_, reply_peek, reply_end, fun h more hmore => ?_,
    fun h msg => ?_, fun h => ?_, fun h => ⟨?_, (hsettled h).writes⟩⟩
  · rw [ht.isActive, hiff]
    cases hb : begun (history texts (calls past)) with
    | none => simp
    | some st =>
      cases st with
      | stdout => simp
      | stderr => exact absurd hb hne
  · have hcapturing : (after texts (calls past)).capture.capturing .stdout = true := by
      rw [ht.capturing]
      exact decide_eq_true (hiff.mp h)
    rw [after_concat]
    exact beginCapture_again hcapturing
  · obtain ⟨hopen, hprefix⟩ := grows h hmore
    exact ⟨_, _, reply_peek h, reply_peek hopen, reply_end hopen, hprefix⟩
  · have hopen : BegunSinceEnd texts (past ++ [.writeStdout msg]) := (grows h (by simp)).1
    rw [reply_peek hopen, reply_peek h, reply_end hopen, reply_end h, write_unseen h msg]
    exact ⟨rfl, rfl⟩
  · simpa using (hsettled h).once
  · simpa using (hsettled h).prints

end FalconStd.Io
