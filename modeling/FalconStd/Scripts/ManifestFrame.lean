import FalconStd.Scripts.ManifestPasses

/-! What `update_manifest` leaves alone.

A manifest is more than its hashes: it has comments, keys and perhaps other sections. Of
any text, with any number of `ffi:` lines, only the lines of a section that name a file
are taken out; what is put in is entries of files, and one header at most. -/
namespace FalconStd.Scripts

namespace Build
variable (b : Build)

/-- The lines that are not taken for a file. -/
def others : Bool → List Text → List Text
  | _, [] => []
  | in_ffi, line :: ls =>
    (if in_ffi && (b.taken line).isSome then [] else [line]) ++ others (b.nextFfi in_ffi line) ls

/-- The lines are the others, in their order, with entries of files among them. -/
structure Frames (others written : List Text) : Prop where
  kept : others.Sublist written
  put : ∃ names : List Text, (∀ so ∈ names, so ∈ b.so_files) ∧ written.Perm (others ++ names.map b.entry)

variable {b} {others written others' written' : List Text}

theorem Frames.append (h : b.Frames others written) (h' : b.Frames others' written') :
    b.Frames (others ++ others') (written ++ written') := by
  obtain ⟨names, hnames, hperm⟩ := h.put
  obtain ⟨names', hnames', hperm'⟩ := h'.put
  refine ⟨h.kept.append h'.kept, names ++ names', List.forall_mem_append.mpr ⟨hnames, hnames'⟩, ?_⟩
  refine (hperm.append hperm').trans ?_
  rw [List.map_append, List.append_assoc, List.append_assoc]
  refine List.Perm.append_left others ?_
  rw [← List.append_assoc, ← List.append_assoc]
  exact List.perm_append_comm.append_right _

theorem frames_self (ls : List Text) : b.Frames ls ls :=
  ⟨List.Sublist.refl ls, [], by simp, by simp⟩

theorem frames_entries {names : List Text} (h : ∀ so ∈ names, so ∈ b.so_files) :
    b.Frames [] (names.map b.entry) :=
  ⟨List.nil_sublist _, names, h, by simp⟩

/-- One pass takes out a line for its entry, or puts entries in front of it. -/
theorem frames_emits (in_ffi : Bool) (processed : List Text) (line : Text) :
    b.Frames (if in_ffi && (b.taken line).isSome then [] else [line])
      (b.emits in_ffi processed line) := by
  cases in_ffi with
  | false => exact frames_self [line]
  | true =>
    have hmissing : b.Frames []
        (if b.closes line then (b.missing processed).map b.entry else []) := by
      split
      · exact frames_entries fun so hso => (List.mem_filter.mp hso).1
      · exact frames_self []
    have hline : b.Frames (if (b.taken line).isSome then [] else [line]) [b.rewrite line] := by
      cases htaken : b.taken line with
      | none =>
        rw [rewrite_of_none htaken]
        exact frames_self [line]
      | some so =>
        rw [rewrite_of_taken htaken]
        exact frames_entries (List.forall_mem_singleton.mpr (mem_of_taken htaken))
    exact hmissing.append hline

theorem frames_scan (in_ffi : Bool) (processed ls : List Text) :
    b.Frames (b.others in_ffi ls) (b.scan in_ffi processed ls) := by
  induction ls generalizing in_ffi processed with
  | nil => exact frames_self []
  | cons line ls ih => exact (frames_emits in_ffi processed line).append (ih _ _)

end Build

/-- **No other line is lost, changed or moved.** What is written for a text is the lines of
it that are not taken for a file, in their order, with entries of files in `build/` among
them, each with the hash that the file has now, and then perhaps a section that is added. -/
theorem update_manifest_frame (b : Build) (content : Text) :
    update_manifest ⟨some content, some b⟩ = none ∨
      ∃ written added, update_manifest ⟨some content, some b⟩ = some (written ++ added).flatten ∧
        b.Frames (b.others false (readlines content)) written ∧
        (added = [] ∨ added = text "\nffi:\n" :: b.so_files.map b.entry) := by
  by_cases hne : b.so_files = []
  · exact .inl (if_pos hne)
  · have hout : update_manifest ⟨some content, some b⟩ =
        some (b.updated (readlines content)).flatten := if_neg hne
    have hframes := Build.frames_scan (b := b) false [] (readlines content)
    refine .inr ?_
    rw [hout, Build.updated_eq]
    split
    · exact ⟨_, _, rfl, hframes, .inr rfl⟩
    · exact ⟨_, [], by rw [List.append_nil], hframes, .inl rfl⟩

end FalconStd.Scripts
