import FalconStd.Strings.Strings

/-! What `StripAnsi` leaves of a terminal's output.

An output is text among control sequences, which begin with the byte ESC. The
pattern of `StripAnsi` begins with a backslash instead, so no control sequence is a
match, and every backslash of the text goes with the last statement. -/
namespace FalconStd.Strings
open Foundation

def esc : Byte := 0x1B

/-! ### Terminal output -/

/-- A control sequence: ESC, a bracket, parameters, intermediates and a final byte. -/
structure Csi where
  parameters : Bytes
  intermediates : Bytes
  final : Byte
  parameters_valid : ∀ b ∈ parameters, isParameter b = true
  intermediates_valid : ∀ b ∈ intermediates, isIntermediate b = true
  final_valid : isFinal final = true

def Csi.render (c : Csi) : Bytes :=
  [esc, 0x5B] ++ c.parameters ++ c.intermediates ++ [c.final]

/-- What a terminal is sent, piece by piece. -/
inductive Piece where
  | plain (segment : Bytes) (h : esc ∉ segment)
  | csi (c : Csi)

namespace Piece

def render : Piece → Bytes
  | plain segment _ => segment
  | csi c => c.render

/-- What a terminal shows of it. -/
def shown : Piece → Bytes
  | plain segment _ => segment
  | csi _ => []

theorem esc_notMem_shown (p : Piece) : esc ∉ p.shown := by
  cases p with
  | plain segment h => exact h
  | csi c => exact List.not_mem_nil

end Piece

def render (pieces : List Piece) : Bytes := pieces.flatMap Piece.render

def shown (pieces : List Piece) : Bytes := pieces.flatMap Piece.shown

theorem esc_notMem_shown (pieces : List Piece) : esc ∉ shown pieces := by
  intro h
  obtain ⟨p, -, hp⟩ := List.mem_flatMap.mp h
  exact p.esc_notMem_shown hp

theorem esc_mem_render {pieces : List Piece} {c : Csi} (h : .csi c ∈ pieces) :
    esc ∈ render pieces :=
  List.mem_flatMap.mpr ⟨.csi c, h, List.mem_cons_self⟩

theorem render_eq_shown {pieces : List Piece} (h : ∀ c, .csi c ∉ pieces) :
    render pieces = shown pieces := by
  induction pieces with
  | nil => rfl
  | cons p rest ih =>
    have hrest := ih fun c hc => h c (List.mem_cons_of_mem p hc)
    cases p with
    | plain segment hplain =>
      simp only [render, shown, List.flatMap_cons, Piece.render, Piece.shown] at hrest ⊢
      rw [hrest]
    | csi c => exact absurd List.mem_cons_self (h c)

/-! ### Stripping -/

theorem esc_not_admitted : ¬ ansi_re.Admits esc := by decide

/-- A match begins with a backslash. -/
theorem ends_ansi_re {b : Byte} (h : b ≠ backslash) (s : Bytes) : ansi_re.ends (b :: s) = [] :=
  Regex.ends_seq_of_nil (Regex.ends_seq_of_nil
    (Regex.ends_set_of_false (beq_eq_false_iff_ne.mpr h) s) _) _

/-- An ESC is never stripped. -/
theorem esc_mem_stripAnsi {s : Bytes} (h : esc ∈ s) : esc ∈ stripAnsi s :=
  List.mem_filter.mpr ⟨Regex.mem_removeAll esc_not_admitted h, by decide⟩

/-- A backslash always is. -/
theorem backslash_notMem_stripAnsi (s : Bytes) : backslash ∉ stripAnsi s := by
  intro h
  simpa using (List.mem_filter.mp h).2

/-- Without a backslash nothing else is. -/
theorem stripAnsi_of_notMem {s : Bytes} (h : backslash ∉ s) : stripAnsi s = s := by
  have hne : ∀ b ∈ s, b ≠ backslash := fun b hb heq => h (heq ▸ hb)
  have hmatch : ansi_re.removeAll s = s :=
    Regex.removeAll_of_nil fun b hb => ends_ansi_re (hne b hb)
  rw [stripAnsi, hmatch, List.filter_eq_self]
  intro b hb
  exact bne_iff_ne.mpr (hne b hb)

/-- **`StripAnsi` leaves what a terminal shows exactly of an output that has no control
sequence and no backslash.** -/
theorem stripAnsi_render_iff (pieces : List Piece) :
    stripAnsi (render pieces) = shown pieces ↔
      (∀ c, .csi c ∉ pieces) ∧ backslash ∉ render pieces := by
  constructor
  · intro h
    have hno : ∀ c, .csi c ∉ pieces := by
      intro c hc
      have hesc := esc_mem_stripAnsi (esc_mem_render hc)
      rw [h] at hesc
      exact esc_notMem_shown pieces hesc
    refine ⟨hno, ?_⟩
    rw [render_eq_shown hno, ← h]
    exact backslash_notMem_stripAnsi _
  · intro h
    rw [stripAnsi_of_notMem h.2, render_eq_shown h.1]

/-- What the pattern does take away. -/
example : stripAnsi (text "\\033[32mok") = text "ok" := by decide

/-- Green, as the test runner writes it. -/
def green : Csi where
  parameters := text "32"
  intermediates := []
  final := 0x6D
  parameters_valid := List.all_eq_true.mp (by decide)
  intermediates_valid := by simp
  final_valid := by decide

theorem stripAnsi_green :
    stripAnsi (render [.csi green, .plain (text "ok") (by decide)]) ≠
      shown [.csi green, .plain (text "ok") (by decide)] := by
  decide

end FalconStd.Strings
