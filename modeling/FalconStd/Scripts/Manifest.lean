import Mathlib.Data.List.Nodup
import FalconStd.Scripts.UpdateHashes

/-! The lines of a manifest.

A line of the section is a header, is taken for a file, closes the section or is copied.
An entry is taken for a file whenever it is read again, for its own or for another that
it names. -/
namespace FalconStd.Scripts
open Foundation

/-! ### Strings -/

theorem strip_within (s : Text) : strip s <:+: s :=
  (List.rdropWhile_prefix isspace _).isInfix.trans (List.dropWhile_suffix isspace).isInfix

/-- A space at the end is stripped. -/
theorem strip_concat (s : Text) {c : Char} (hc : isspace c = true) :
    strip (s ++ [c]) = strip s := by
  rw [strip, strip, lstrip, lstrip, List.dropWhile_append]
  split
  case isTrue h =>
    have hempty : s.dropWhile isspace = [] := by simpa using h
    rw [hempty, List.dropWhile_cons_of_pos hc, List.dropWhile_nil]
  case isFalse => rw [rstrip, rstrip, List.rdropWhile_concat_pos _ _ _ hc]

theorem strip_space (s : Text) {c : Char} (hc : isspace c = true) : strip (c :: s) = strip s := by
  rw [strip, lstrip, List.dropWhile_cons_of_pos hc, strip, lstrip]

theorem strip_newline (s : Text) : strip (s ++ ['\n']) = strip s := strip_concat s rfl

/-- Nothing is stripped between two characters that are no spaces. -/
theorem strip_of_ends {s : Text} {c d : Char} (hc : isspace c = false) (hd : isspace d = false) :
    strip (c :: (s ++ [d])) = c :: (s ++ [d]) := by
  rw [strip, lstrip, List.dropWhile_cons_of_neg (by simp [hc]), rstrip, ← List.cons_append,
    List.rdropWhile_concat_neg _ _ _ (by simp [hd])]

theorem isspace_of_isHex {c : Char} (h : isHex c = true) : isspace c = false := by
  have hrange : (48 ≤ c.toNat ∧ c.toNat ≤ 57) ∨ (97 ≤ c.toNat ∧ c.toNat ≤ 102) := by
    simpa [isHex, Char.le_def, UInt32.le_iff_toNat_le] using h
  simp only [isspace, Bool.or_eq_false_iff, Bool.and_eq_false_iff, decide_eq_false_iff_not,
    beq_eq_false_iff_ne]
  omega

theorem basename_append {dir f : Text} (h : '/' ∉ f) : basename (dir ++ '/' :: f) = f := by
  have hall : ∀ c ∈ f.reverse, (c != '/') = true := by
    intro c hc
    rw [bne_iff_ne]
    exact fun heq => h (heq ▸ List.mem_reverse.mp hc)
  rw [basename, List.rtakeWhile, List.reverse_append, List.reverse_cons, List.append_assoc,
    List.takeWhile_append_of_pos hall]
  simp

/-! ### Files and their entries -/

namespace Build
variable {b : Build} {so so' : Text}

theorem mem_so_files : so ∈ b.so_files ↔
    ∃ f ∈ b.listdir, text ".so" <:+ f ∧ so = text "build/" ++ f := by
  simp [so_files, and_assoc, eq_comm]

theorem nodup_so_files (b : Build) : b.so_files.Nodup :=
  List.Nodup.map (fun _ _ h => List.append_cancel_left h) (List.Nodup.filter _ b.distinct)

theorem basename_so {f : Text} (hf : f ∈ b.listdir) : basename (text "build/" ++ f) = f := by
  have hbase : basename (text "build" ++ '/' :: f) = f := basename_append (b.no_slash f hf)
  exact hbase

theorem basename_of_mem (h : so ∈ b.so_files) : so = text "build/" ++ basename so := by
  obtain ⟨f, hf, -, rfl⟩ := mem_so_files.mp h
  rw [basename_so hf]

/-- The entry without its line end. -/
def entryText (b : Build) (so : Text) : Text := text "  " ++ so ++ text ": " ++ b.hash_val so

/-- What `strip` leaves of it. -/
def mark (b : Build) (so : Text) : Text := so ++ text ": " ++ b.hash_val so

theorem hash_val_ends (b : Build) (so : Text) :
    ∃ init d, b.hash_val so = init ++ [d] ∧ isspace d = false := by
  rcases List.eq_nil_or_concat' (b.sha256_file so) with h | ⟨init, d, h⟩
  · exact ⟨text "sha256", ':', by rw [hash_val, h]; rfl, rfl⟩
  · have hd : d ∈ b.sha256_file so := by simp [h]
    exact ⟨text "sha256:" ++ init, d, by rw [hash_val, h, List.append_assoc],
      isspace_of_isHex (b.hex so d hd)⟩

theorem strip_entryText (h : so ∈ b.so_files) : strip (b.entryText so) = b.mark so := by
  obtain ⟨f, -, -, rfl⟩ := mem_so_files.mp h
  obtain ⟨init, d, hval, hd⟩ := hash_val_ends b (text "build/" ++ f)
  have hmark : b.mark (text "build/" ++ f) =
      'b' :: (text "uild/" ++ f ++ text ": " ++ init ++ [d]) := by
    rw [mark, hval]
    simp [text]
  have htext : b.entryText (text "build/" ++ f) = ' ' :: ' ' :: b.mark (text "build/" ++ f) := rfl
  rw [htext, strip_space _ rfl, strip_space _ rfl, hmark, strip_of_ends rfl hd]

theorem entry_eq (b : Build) (so : Text) : b.entry so = b.entryText so ++ ['\n'] := rfl

theorem strip_entry (h : so ∈ b.so_files) : strip (b.entry so) = b.mark so := by
  rw [entry_eq, strip_newline, strip_entryText h]

theorem mark_eq (b : Build) (so : Text) :
    b.mark so = so ++ text ": sha256:" ++ b.sha256_file so := by
  simp [mark, hash_val, text]

/-- A hash has no colon, so the last one ends the name. -/
theorem eq_of_append_hash {hash hash' : Text} (hhash : ':' ∉ hash) (hhash' : ':' ∉ hash')
    (h : so ++ text ": sha256:" ++ hash = so' ++ text ": sha256:" ++ hash') : so = so' := by
  have hcut : ∀ {path hash : Text}, ':' ∉ hash →
      (path ++ text ": sha256:" ++ hash).reverse.dropWhile (· != ':') =
        ':' :: (path ++ text ": sha256").reverse := by
    intro path hash hcolon
    have hall : ∀ c ∈ hash.reverse, (c != ':') = true := by
      intro c hc
      rw [bne_iff_ne]
      exact fun heq => hcolon (heq ▸ List.mem_reverse.mp hc)
    rw [List.reverse_append, List.dropWhile_append_of_pos hall]
    simp [text]
  have hname : (so ++ text ": sha256:" ++ hash).reverse.dropWhile (· != ':') =
      ':' :: (so ++ text ": sha256").reverse := hcut hhash
  rw [h, hcut hhash'] at hname
  exact (List.append_cancel_right (List.reverse_injective (List.cons.inj hname).2)).symm

theorem not_mem_sha256 (b : Build) (path : Text) : ':' ∉ b.sha256_file path := by
  intro hmem
  exact absurd (b.hex path ':' hmem) (by decide)

theorem mark_injective (h : b.mark so = b.mark so') : so = so' := by
  rw [mark_eq, mark_eq] at h
  exact eq_of_append_hash (not_mem_sha256 b so) (not_mem_sha256 b so') h

end Build

/-! ### Kinds of lines -/

/-- The line that opens a section. -/
def isHeader (line : Text) : Bool := text "ffi:" <+: strip line

namespace Build
variable (b : Build)

/-- The file that a line of the section is taken for. -/
def taken (line : Text) : Option Text := if isHeader line then none else b.found_so (strip line)

/-- The line ends the section. -/
def closes (line : Text) : Bool :=
  !isHeader line && (b.taken line).isNone && endsSection (strip line)

/-- What is written for a line of the section. -/
def rewrite (line : Text) : Text := ((b.taken line).map b.entry).getD line

/-- The line is the entry of the file, with its line end or without. -/
def IsEntry (so line : Text) : Prop := line = b.entryText so ∨ line = b.entry so

instance (so line : Text) : Decidable (b.IsEntry so line) := inferInstanceAs (Decidable (_ ∨ _))

/-- The line is an entry of the file, of whatever hash and indentation. -/
def IsEntryOf (so line : Text) : Prop :=
  so ++ text ": sha256:" <+: strip line ∧
    ':' ∉ (strip line).drop (so ++ text ": sha256:").length

instance (so line : Text) : Decidable (IsEntryOf so line) := inferInstanceAs (Decidable (_ ∧ _))

variable {b} {so so' line : Text}

theorem IsEntry.strip_eq (h : b.IsEntry so line) (hso : so ∈ b.so_files) :
    strip line = b.mark so := by
  rcases h with rfl | rfl
  · exact strip_entryText hso
  · exact strip_entry hso

theorem isEntryOf_iff :
    IsEntryOf so line ↔ ∃ hash, ':' ∉ hash ∧ strip line = so ++ text ": sha256:" ++ hash := by
  constructor
  · intro h
    obtain ⟨⟨hash, hstrip⟩, hcolon⟩ := h
    rw [← hstrip, List.drop_left] at hcolon
    exact ⟨hash, hcolon, hstrip.symm⟩
  · intro h
    obtain ⟨hash, hcolon, hstrip⟩ := h
    rw [IsEntryOf, hstrip, List.drop_left]
    exact ⟨List.prefix_append _ _, hcolon⟩

theorem IsEntry.entryOf (h : b.IsEntry so line) (hso : so ∈ b.so_files) : IsEntryOf so line :=
  isEntryOf_iff.mpr ⟨_, not_mem_sha256 b so, (h.strip_eq hso).trans (mark_eq b so)⟩

/-- An entry is no header. -/
theorem IsEntryOf.header (h : IsEntryOf so line) (hso : so ∈ b.so_files) :
    isHeader line = false := by
  obtain ⟨f, -, -, rfl⟩ := mem_so_files.mp hso
  obtain ⟨hash, -, hstrip⟩ := isEntryOf_iff.mp h
  rw [isHeader, hstrip, text, text]
  simp [List.cons_prefix_cons, text]

/-- It is taken for a file, for its own or for another that it names. -/
theorem IsEntryOf.taken (h : IsEntryOf so line) (hso : so ∈ b.so_files) :
    ∃ so', b.taken line = some so' := by
  obtain ⟨hash, -, hstrip⟩ := isEntryOf_iff.mp h
  rw [Build.taken, h.header hso, if_neg Bool.false_ne_true, hstrip, found_so,
    ← Option.isSome_iff_exists, List.find?_isSome]
  refine ⟨so, hso, decide_eq_true (.inr ?_)⟩
  rw [List.append_assoc]
  exact (List.prefix_append _ _).isInfix

theorem mem_of_taken (h : b.taken line = some so) : so ∈ b.so_files := by
  rw [taken] at h
  split at h
  case isTrue => cases h
  case isFalse => exact List.mem_of_find?_eq_some h

theorem closes_of_taken (h : b.taken line = some so) : b.closes line = false := by
  simp [closes, h]

theorem rewrite_of_taken (h : b.taken line = some so) : b.rewrite line = b.entry so := by
  simp [rewrite, h]

theorem rewrite_of_none (h : b.taken line = none) : b.rewrite line = line := by
  simp [rewrite, h]

theorem taken_of_header (h : isHeader line = true) : b.taken line = none := by
  rw [taken, if_pos h]

theorem closes_of_header (h : isHeader line = true) : b.closes line = false := by
  simp [closes, h]

theorem taken_of_closes (h : b.closes line = true) : b.taken line = none := by
  simp only [closes, Bool.and_eq_true, Option.isNone_iff_eq_none] at h
  exact h.1.2

theorem header_of_closes (h : b.closes line = true) : isHeader line = false := by
  simp only [closes, Bool.and_eq_true, Bool.not_eq_true'] at h
  exact h.1.1

theorem isEntry_entry (b : Build) (so : Text) : b.IsEntry so (b.entry so) := .inr rfl

theorem isEntryOf_entry (hso : so ∈ b.so_files) : IsEntryOf so (b.entry so) :=
  (isEntry_entry b so).entryOf hso

theorem closes_entry (hso : so ∈ b.so_files) : b.closes (b.entry so) = false := by
  obtain ⟨so', htaken⟩ := (isEntryOf_entry hso).taken hso
  exact closes_of_taken htaken

theorem closes_rewrite (h : b.closes line = false) : b.closes (b.rewrite line) = false := by
  cases htaken : b.taken line with
  | none => rwa [rewrite_of_none htaken]
  | some so =>
    rw [rewrite_of_taken htaken]
    exact closes_entry (mem_of_taken htaken)

/-- An entry that is written is the entry of one file. -/
theorem isEntryOf_entry_iff (hso' : so' ∈ b.so_files) :
    IsEntryOf so (b.entry so') ↔ so = so' := by
  refine ⟨fun h => ?_, fun h => h.symm ▸ isEntryOf_entry hso'⟩
  obtain ⟨hash, hcolon, hstrip⟩ := isEntryOf_iff.mp h
  rw [strip_entry hso', mark_eq] at hstrip
  exact (eq_of_append_hash (not_mem_sha256 b so') hcolon hstrip).symm

theorem entry_injective (h : b.entry so = b.entry so') : so = so' := by
  have hsplit : ∀ path, b.entry path = ' ' :: ' ' :: (b.mark path ++ ['\n']) := fun _ => rfl
  rw [hsplit, hsplit] at h
  exact mark_injective (List.append_cancel_right (List.cons.inj (List.cons.inj h).2).2)

end Build

end FalconStd.Scripts
