import FalconStd.Scripts.Manifest

/-! How the lines that are written are read again.

Lines that were read have no carriage return, and only the last one may be without a
line end (`Read`). A file is taken for such a line only if its name is on one line
(`Clean`), so the lines that are written for them can be read again as they are. An
entry for any other name becomes more lines than one. -/
namespace FalconStd.Scripts
open Foundation

/-! ### Line ends -/

variable {s t line : Text} {ls ls' : List Text}

theorem newlines_cons {c : Char} (hc : c ≠ '\r') (s : Text) :
    newlines (c :: s) = c :: newlines s := by
  rw [newlines] <;> simp [hc]

theorem newlines_append_of_not_mem (h : '\r' ∉ s) (t : Text) :
    newlines (s ++ t) = s ++ newlines t := by
  induction s with
  | nil => rfl
  | cons c s ih =>
    obtain ⟨hc, hs⟩ := not_or.mp (mt List.mem_cons.mpr h)
    rw [List.cons_append, newlines_cons (fun heq => hc heq.symm), ih hs]
    rfl

theorem newlines_of_not_mem (h : '\r' ∉ s) : newlines s = s := by
  simpa [newlines] using newlines_append_of_not_mem h []

theorem not_mem_newlines (s : Text) : '\r' ∉ newlines s := by
  fun_induction newlines s with
  | case1 => simp
  | case2 s ih => simpa using ih
  | case3 s _ ih => simpa using ih
  | case4 c s _ hc ih =>
    refine mt List.mem_cons.mp (not_or.mpr ⟨?_, ih⟩)
    exact fun heq => hc heq.symm

/-- Line ends are translated, and none is lost. -/
theorem count_newlines (s : Text) : s.count '\n' ≤ (newlines s).count '\n' := by
  fun_induction newlines s with
  | case1 => simp
  | case2 s ih => simpa using ih
  | case3 s _ ih => simpa using Nat.le_succ_of_le ih
  | case4 c s _ _ ih => simpa [List.count_cons] using ih

/-! ### Lines that were read -/

/-- Lines as `readlines` returns them. -/
structure Read (ls : List Text) : Prop where
  cut : Cut '\n' ls
  clean : ∀ l ∈ ls, '\r' ∉ l

theorem flatten_readlines (content : Text) : (readlines content).flatten = newlines content :=
  flatten_lines _

theorem read_readlines (content : Text) : Read (readlines content) where
  cut := cut_lines _
  clean := by
    intro l hl hmem
    refine not_mem_newlines content ?_
    rw [← flatten_readlines]
    exact List.mem_flatten.mpr ⟨l, hl, hmem⟩

theorem Read.not_mem_flatten (h : Read ls) : '\r' ∉ ls.flatten := by
  intro hmem
  obtain ⟨l, hl, hc⟩ := List.mem_flatten.mp hmem
  exact h.clean l hl hc

theorem Read.readlines_flatten (h : Read ls) : readlines ls.flatten = ls := by
  rw [readlines, newlines_of_not_mem h.not_mem_flatten, h.cut.lines_flatten]

/-- Complete lines are read again before any text. -/
theorem Read.readlines_append (h : Read ls) (hended : ∀ l ∈ ls, Ended '\n' l) (t : Text) :
    readlines (ls.flatten ++ t) = ls ++ readlines t := by
  rw [readlines, newlines_append_of_not_mem h.not_mem_flatten, lines_flatten_append hended]
  rfl

theorem Read.left (h : Read (ls ++ ls')) (hne : ls' ≠ []) :
    Read ls ∧ ∀ l ∈ ls, Ended '\n' l :=
  have hended := h.cut.ended_left hne
  ⟨⟨cut_of_ended hended, fun l hl => h.clean l (List.mem_append_left _ hl)⟩, hended⟩

theorem Read.right (h : Read (ls ++ ls')) : Read ls' :=
  ⟨h.cut.right, fun l hl => h.clean l (List.mem_append_right _ hl)⟩

theorem Read.append (h : Read ls) (hended : ∀ l ∈ ls, Ended '\n' l) (h' : Read ls') :
    Read (ls ++ ls') :=
  ⟨.append hended h'.cut, List.forall_mem_append.mpr ⟨h.clean, h'.clean⟩⟩

/-- Other lines may stand after lines that have some after them. -/
theorem Read.replace {new : List Text} (h : Read (ls ++ ls')) (hnew : Read new)
    (hnil : ls' = [] → new = []) : Read (ls ++ new) := by
  by_cases hne : ls' = []
  · rw [hnil hne, List.append_nil]
    rwa [hne, List.append_nil] at h
  · obtain ⟨hleft, hended⟩ := h.left hne
    exact hleft.append hended hnew

/-! ### Names on one line -/

/-- The name is on one line, however the file is read. -/
def Clean (so : Text) : Prop := '\n' ∉ so ∧ '\r' ∉ so

instance (so : Text) : Decidable (Clean so) := inferInstanceAs (Decidable (_ ∧ _))

namespace Build
variable {b : Build} {so : Text}

theorem not_mem_hash_val {c : Char} (hc : c ∉ text "sha256:") (hhex : isHex c = false) (so : Text) :
    c ∉ b.hash_val so := by
  refine mt List.mem_append.mp (not_or.mpr ⟨hc, fun hmem => ?_⟩)
  rw [b.hex so c hmem] at hhex
  cases hhex

theorem not_mem_entryText {c : Char} (hc : c ∉ text "sha256: ") (hhex : isHex c = false) :
    c ∉ b.entryText so ↔ c ∉ so := by
  have hcases : c ∉ text "sha256:" ∧ c ≠ ' ' ∧ c ≠ ':' := by
    simp [text] at hc ⊢
    tauto
  have hval := not_mem_hash_val (b := b) hcases.1 hhex so
  simp [entryText, text, hval, hcases.2]

theorem ended_entry (h : Clean so) : Ended '\n' (b.entry so) :=
  ⟨b.entryText so, (not_mem_entryText (by decide) rfl).mpr h.1, rfl⟩

theorem not_mem_entry : '\r' ∉ b.entry so ↔ '\r' ∉ so := by
  rw [entry_eq, List.mem_append, not_or, not_mem_entryText (by decide) rfl]
  simp

theorem read_entries {l : List Text} (h : ∀ so ∈ l, Clean so) :
    Read (l.map b.entry) ∧ ∀ e ∈ l.map b.entry, Ended '\n' e := by
  have hended : ∀ e ∈ l.map b.entry, Ended '\n' e := by
    intro e he
    obtain ⟨so, hso, rfl⟩ := List.mem_map.mp he
    exact ended_entry (h so hso)
  refine ⟨⟨cut_of_ended hended, ?_⟩, hended⟩
  intro e he
  obtain ⟨so, hso, rfl⟩ := List.mem_map.mp he
  exact not_mem_entry.mpr (h so hso).2

theorem clean_of_basename (hso : so ∈ b.so_files) (h : Clean (basename so)) : Clean so := by
  rw [basename_of_mem hso]
  exact ⟨by simpa [text] using h.1, by simpa [text] using h.2⟩

end Build

/-! ### What lines that were read are taken for -/

section Taken
open Build
variable {b : Build} {so : Text}

/-- A line that was read has no line end but the one that is stripped. -/
theorem Read.strip_clean (h : Read ls) (hl : line ∈ ls) : Clean (strip line) := by
  have hr : '\r' ∉ strip line := fun hmem => h.clean line hl ((strip_within line).mem hmem)
  refine ⟨fun hmem => ?_, hr⟩
  rcases h.cut.line hl with ⟨body, hbody, rfl⟩ | hn
  · rw [strip_newline] at hmem
    exact hbody ((strip_within body).mem hmem)
  · exact hn ((strip_within line).mem hmem)

theorem Clean.within (h : Clean t) (hs : s <:+: t) : Clean s :=
  ⟨fun hmem => h.1 (hs.mem hmem), fun hmem => h.2 (hs.mem hmem)⟩

/-- Only such a file is taken for a line that was read. -/
theorem Read.clean_of_taken (h : Read ls) (hl : line ∈ ls) (htaken : b.taken line = some so) :
    Clean so := by
  have hso := mem_of_taken htaken
  have hstrip := h.strip_clean hl
  rw [taken] at htaken
  split at htaken
  case isTrue => cases htaken
  case isFalse =>
    have hnames : basename so <:+: strip line ∨ so <:+: strip line := by
      simpa using List.find?_some htaken
    rcases hnames with hbase | hname
    · exact clean_of_basename hso (hstrip.within hbase)
    · exact hstrip.within hname

/-- Only such a file has its entry among them. -/
theorem Read.clean_of_isEntryOf (h : Read ls) (hl : line ∈ ls) (hentry : IsEntryOf so line) :
    Clean so := by
  obtain ⟨hash, -, hstrip⟩ := isEntryOf_iff.mp hentry
  refine (h.strip_clean hl).within ?_
  rw [hstrip, List.append_assoc]
  exact (List.prefix_append _ _).isInfix

/-- A line that was read is rewritten to an entry on one line, if at all. -/
theorem Read.rewrite_cases (h : Read ls) (hl : line ∈ ls) :
    b.rewrite line = line ∨ (Ended '\n' (b.rewrite line) ∧ '\r' ∉ b.rewrite line) := by
  cases htaken : b.taken line with
  | none => exact .inl (rewrite_of_none htaken)
  | some so =>
    have hclean := h.clean_of_taken hl htaken
    rw [rewrite_of_taken htaken]
    exact .inr ⟨ended_entry hclean, not_mem_entry.mpr hclean.2⟩

theorem Read.map_rewrite (h : Read ls) : Read (ls.map b.rewrite) where
  cut := h.cut.map fun _ hl => (h.rewrite_cases hl).imp_right And.left
  clean := by
    intro l hl
    obtain ⟨m, hm, rfl⟩ := List.mem_map.mp hl
    rcases h.rewrite_cases hm with heq | ⟨-, hclean⟩
    · exact heq.symm ▸ h.clean m hm
    · exact hclean

theorem Read.ended_rewrite (h : Read ls) (hended : ∀ l ∈ ls, Ended '\n' l) :
    ∀ l ∈ ls.map b.rewrite, Ended '\n' l :=
  ended_map hended fun _ hl => (h.rewrite_cases hl).imp_right And.left

end Taken

end FalconStd.Scripts
