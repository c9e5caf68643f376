import FalconStd.Scripts.ManifestFixed

/-! `update_manifest` on what it has written.

`Steady` says of a manifest before an update when the update after that changes nothing:
one condition for each shape of the manifest (`updated_twice_iff`). -/
namespace FalconStd.Scripts
open Foundation

namespace Build
variable {b : Build} {so line : Text} {pre sec rest ls : List Text} {header closing : Text}

/-! ### Entries that are found again -/

theorem rewrite_entry_iff (hso : so ∈ b.so_files) :
    b.rewrite (b.entry so) = b.entry so ↔ b.taken (b.entry so) = some so := by
  obtain ⟨so', htaken⟩ := (isEntryOf_entry hso).taken hso
  rw [rewrite_of_taken htaken, htaken, Option.some.injEq]
  refine ⟨fun h => ?_, fun h => h ▸ rfl⟩
  exact entry_injective h

/-- An entry is found for its own file when it names no file that is listed before. -/
theorem taken_entry_iff (hso : so ∈ b.so_files) :
    b.taken (b.entry so) = some so ↔
      ∃ before after, b.so_files = before ++ so :: after ∧
        ∀ so' ∈ before, ¬ (basename so' <:+: b.mark so ∨ so' <:+: b.mark so) := by
  have hheader := (isEntryOf_entry hso).header hso
  have hself : so <:+: b.mark so := by
    rw [mark, List.append_assoc]
    exact (List.prefix_append _ _).isInfix
  rw [taken, hheader, if_neg Bool.false_ne_true, strip_entry hso, found_so,
    List.find?_eq_some_iff_append]
  simp [hself]

theorem map_rewrite_twice (sec : List Text) :
    (sec.map b.rewrite).map b.rewrite = sec.map b.rewrite ↔
      ∀ so ∈ b.files sec, b.taken (b.entry so) = some so := by
  rw [List.map_map, List.map_inj_left]
  refine ⟨fun h so hso => ?_, fun h line hline => ?_⟩
  · obtain ⟨line, hline, htaken⟩ := List.mem_filterMap.mp hso
    have hkept := h line hline
    rw [Function.comp_apply, rewrite_of_taken htaken] at hkept
    exact (rewrite_entry_iff (mem_of_taken htaken)).mp hkept
  · rw [Function.comp_apply]
    cases htaken : b.taken line with
    | none => rw [rewrite_of_none htaken, rewrite_of_none htaken]
    | some so =>
      rw [rewrite_of_taken htaken]
      exact (rewrite_entry_iff (mem_of_taken htaken)).mpr
        (h so (List.mem_filterMap.mpr ⟨line, hline, htaken⟩))

theorem map_rewrite_completed (sec : List Text) :
    (b.completed sec).map b.rewrite = b.completed sec ↔
      ∀ so ∈ b.so_files, b.taken (b.entry so) = some so := by
  refine ⟨fun hsame so hso => ?_, fun htaken => ?_⟩
  · exact (rewrite_entry_iff hso).mp (map_rewrite_eq_iff.mp hsame _ (entry_mem_completed hso sec))
  · rw [completed, List.map_append, (map_rewrite_twice sec).mpr, List.map_map]
    · refine congrArg (_ ++ ·) (List.map_congr_left fun so hso => ?_)
      have hmem := (List.mem_filter.mp hso).1
      exact (rewrite_entry_iff hmem).mpr (htaken so hmem)
    · intro so hso
      obtain ⟨line, -, hfound⟩ := List.mem_filterMap.mp hso
      exact htaken so (mem_of_taken hfound)

theorem nextFfi_rewrite (in_ffi : Bool) (line : Text) :
    b.nextFfi in_ffi (if in_ffi then b.rewrite line else line) = b.nextFfi in_ffi line := by
  cases in_ffi with
  | false => rfl
  | true =>
    cases htaken : b.taken line with
    | none => rw [if_pos rfl, rewrite_of_none htaken]
    | some so =>
      rw [if_pos rfl, rewrite_of_taken htaken, nextFfi, nextFfi,
        closes_entry (mem_of_taken htaken), closes_of_taken htaken]
      simp

/-- With every entry found for its own file there is nothing more to rewrite. -/
theorem settle_settle (h : ∀ so ∈ b.so_files, b.taken (b.entry so) = some so) (in_ffi : Bool)
    (ls : List Text) : b.settle in_ffi (b.settle in_ffi ls) = b.settle in_ffi ls := by
  induction ls generalizing in_ffi with
  | nil => rfl
  | cons line ls ih =>
    rw [settle, settle, nextFfi_rewrite, ih]
    refine congrArg (· :: _) ?_
    cases in_ffi with
    | false => rfl
    | true =>
      have hsingle := (map_rewrite_twice [line]).mpr fun so hso => by
        obtain ⟨line', -, htaken⟩ := List.mem_filterMap.mp hso
        exact h so (mem_of_taken htaken)
      exact List.head_eq_of_cons_eq hsingle

/-! ### The second update, by the shape of the manifest -/

/-- A section that runs to the end of the file has the same lines after each update. -/
theorem fixed_opened (hne : b.so_files ≠ []) (h : Read (pre ++ header :: sec))
    (hopens : b.Opens pre header sec) (hfiles : b.files sec ≠ []) :
    b.Fixed (b.updated (pre ++ header :: sec)).flatten ↔
      ∀ so ∈ b.files sec, b.taken (b.entry so) = some so := by
  have hfiles' : b.files (sec.map b.rewrite) ≠ [] := by
    obtain ⟨so, hso⟩ := List.exists_mem_of_ne_nil _ hfiles
    have hentry := entry_mem_rewrite hso
    obtain ⟨line, -, htaken⟩ := List.mem_filterMap.mp hso
    obtain ⟨so', htaken'⟩ := (isEntryOf_entry (mem_of_taken htaken)).taken (mem_of_taken htaken)
    exact List.ne_nil_of_mem (List.mem_filterMap.mpr ⟨b.entry so, hentry, htaken'⟩)
  have hclean : '\r' ∉ (b.updated (pre ++ header :: sec)).flatten := by
    rw [updated_opened hopens hfiles]
    exact (read_opened h).not_mem_flatten
  rw [fixed_iff hne, readlines_updated_opened h hopens hfiles,
    added_opened hopens.rewrite, if_neg hfiles', settle_opened hopens.rewrite,
    List.append_cancel_left_eq, List.cons.injEq, map_rewrite_twice]
  exact ⟨fun h => h.2.2.2, fun h => ⟨hclean, rfl, rfl, h⟩⟩

/-- Entries are cut by themselves, whatever the names are. -/
theorem lines_entries_append (l : List Text) (t : Text) :
    lines '\n' ((l.map b.entry).flatten ++ t) =
      lines '\n' (l.map b.entry).flatten ++ lines '\n' t := by
  induction l with
  | nil => rfl
  | cons so l ih =>
    have hcut : ∀ u, lines '\n' (b.entry so ++ u) = lines '\n' (b.entry so) ++ lines '\n' u := by
      intro u
      rw [entry_eq, List.append_assoc]
      exact lines_append_ended (b.entryText so) u
    rw [List.map_cons, List.flatten_cons, List.append_assoc, hcut, ih, hcut, List.append_assoc]

/-- A file whose name is not on one line is missing in every section. -/
theorem clean_of_added (hlines : Read (pre ++ header :: (sec ++ rest)))
    (hopens : b.Opens pre header sec) (hclosing : closing ∈ rest)
    (hcloses : b.closes closing = true) (hadded : b.added (pre ++ header :: (sec ++ rest)) = []) :
    ∀ so ∈ b.so_files, Clean so := by
  rcases exists_split b.closes rest with hall | ⟨sec', closing', rest', rfl, hsec', hcloses'⟩
  · rw [hall closing hclosing] at hcloses
    cases hcloses
  · rw [← List.append_assoc, added_closed (hopens.append hsec') hcloses', List.map_eq_nil_iff,
      missing, List.filter_eq_nil_iff] at hadded
    intro so hso
    have hmem : so ∈ b.files (sec ++ sec') := by simpa using hadded so hso
    obtain ⟨line, hline, htaken⟩ := List.mem_filterMap.mp hmem
    rw [← List.append_assoc] at hlines
    exact hlines.clean_of_taken (List.mem_append_right _ (List.mem_cons_of_mem _
      (List.mem_append_left _ hline))) htaken

section Closed
variable (hne : b.so_files ≠ []) (h : Read (pre ++ header :: (sec ++ closing :: rest)))
  (hopens : b.Opens pre header sec) (hclosing : b.closes closing = true)
include hne h hopens hclosing

/-- A section that is closed has an entry for each file, and the next update looks for
all of them. -/
theorem fixed_closed_of_clean (hclean : ∀ so ∈ b.so_files, Clean so) :
    b.Fixed (b.updated (pre ++ header :: (sec ++ closing :: rest))).flatten ↔
      ∀ so ∈ b.so_files, b.taken (b.entry so) = some so := by
  have htail : Read (closing :: b.settle false rest) := by
    rw [← settle_closing hclosing]
    exact settle_read (read_parts (b := b) h).2 true
  have hread := read_closed h hclean htail
  have hclean' : '\r' ∉ (b.updated (pre ++ header :: (sec ++ closing :: rest))).flatten := by
    rw [updated_closed hne hopens hclosing]
    exact hread.not_mem_flatten
  have hlines : readlines (b.updated (pre ++ header :: (sec ++ closing :: rest))).flatten =
      pre ++ header :: (b.completed sec ++ closing :: b.settle false rest) := by
    rw [updated_closed hne hopens hclosing, hread.readlines_flatten]
  rw [fixed_iff hne, hlines, added_closed hopens.completed hclosing,
    settle_closed hopens.completed hclosing, List.append_cancel_left_eq, List.cons.injEq,
    ← map_rewrite_completed sec]
  refine ⟨fun hfixed => ?_, fun hsame => ⟨hclean', ?_, rfl, ?_⟩⟩
  · exact (List.append_inj hfixed.2.2.2 (List.length_map _)).1
  · have htaken := (map_rewrite_completed sec).mp hsame
    rw [missing_eq_nil, List.map_nil]
    exact fun so hso =>
      List.mem_filterMap.mpr ⟨b.entry so, entry_mem_completed hso sec, htaken so hso⟩
  · rw [hsame, settle_settle ((map_rewrite_completed sec).mp hsame)]

theorem clean_of_fixed
    (hfixed : b.Fixed (b.updated (pre ++ header :: (sec ++ closing :: rest))).flatten) :
    ∀ so ∈ b.so_files, Clean so := by
  obtain ⟨hclean, hadded, -⟩ := (fixed_iff hne _).mp hfixed
  -- without a carriage return the text is cut as it is
  have hlines : readlines (b.updated (pre ++ header :: (sec ++ closing :: rest))).flatten =
      pre ++ header :: (sec.map b.rewrite ++
        (lines '\n' ((b.missing (b.files sec)).map b.entry).flatten ++
          closing :: b.settle false rest)) := by
    obtain ⟨⟨-, hended⟩, htail⟩ := read_parts (b := b) h
    have hsettled := settle_read (b := b) htail true
    rw [settle_closing hclosing] at hsettled
    rw [readlines, newlines_of_not_mem hclean, updated_closed hne hopens hclosing,
      completed, List.append_assoc, ← List.cons_append, ← List.append_assoc,
      List.flatten_append, lines_flatten_append hended, List.flatten_append, lines_entries_append,
      hsettled.cut.lines_flatten, List.append_assoc]
    rfl
  have hread := read_readlines (b.updated (pre ++ header :: (sec ++ closing :: rest))).flatten
  rw [hlines] at hread hadded
  have hmem : closing ∈ lines '\n' ((b.missing (b.files sec)).map b.entry).flatten ++
      closing :: b.settle false rest := List.mem_append_right _ List.mem_cons_self
  exact clean_of_added hread hopens.rewrite hmem hclosing hadded

theorem fixed_closed :
    b.Fixed (b.updated (pre ++ header :: (sec ++ closing :: rest))).flatten ↔
      ∀ so ∈ b.so_files, Clean so ∧ b.taken (b.entry so) = some so := by
  refine ⟨fun hfixed so hso => ?_, fun hall => ?_⟩
  · have hclean := clean_of_fixed hne h hopens hclosing hfixed
    exact ⟨hclean so hso,
      (fixed_closed_of_clean hne h hopens hclosing hclean).mp hfixed so hso⟩
  · exact (fixed_closed_of_clean hne h hopens hclosing fun so hso => (hall so hso).1).mpr
      fun so hso => (hall so hso).2

end Closed

/-! ### A section that was added -/

/-- The added entries, as they are read again, are left as they are, and a file is found. -/
structure ReadsBack (b : Build) : Prop where
  clean : ∀ so ∈ b.so_files, '\r' ∉ so
  kept : ∀ l ∈ readlines (b.so_files.map b.entry).flatten, b.closes l = false ∧ b.rewrite l = l
  found : b.files (readlines (b.so_files.map b.entry).flatten) ≠ []

/-- With every name on one line they are read as they were written. -/
theorem readsBack_iff_of_clean (hne : b.so_files ≠ []) (hclean : ∀ so ∈ b.so_files, Clean so) :
    b.ReadsBack ↔ ∀ so ∈ b.so_files, b.taken (b.entry so) = some so := by
  have hlines := (read_entries (b := b) hclean).1.readlines_flatten
  refine ⟨fun hback so hso => ?_, fun htaken => ⟨fun so hso => (hclean so hso).2, ?_, ?_⟩⟩
  · have hkept := hback.kept (b.entry so) (hlines.symm ▸ List.mem_map_of_mem hso)
    exact (rewrite_entry_iff hso).mp hkept.2
  · rw [hlines]
    intro l hl
    obtain ⟨so, hso, rfl⟩ := List.mem_map.mp hl
    exact ⟨closes_entry hso, (rewrite_entry_iff hso).mpr (htaken so hso)⟩
  · rw [hlines]
    obtain ⟨so, hso⟩ := List.exists_mem_of_ne_nil _ hne
    exact List.ne_nil_of_mem
      (List.mem_filterMap.mpr ⟨b.entry so, List.mem_map_of_mem hso, htaken so hso⟩)

theorem not_mem_appended : '\r' ∉ b.appended.flatten ↔ ∀ so ∈ b.so_files, '\r' ∉ so := by
  rw [appended, List.flatten_cons, List.mem_append, not_or]
  refine ⟨fun h so hso => ?_, fun h => ⟨by decide, fun hmem => ?_⟩⟩
  · have hentry := h.2
    rw [← not_mem_entry (b := b)]
    exact fun hmem => hentry (List.mem_flatten.mpr ⟨b.entry so, List.mem_map_of_mem hso, hmem⟩)
  · obtain ⟨e, he, hmem⟩ := List.mem_flatten.mp hmem
    obtain ⟨so, hso, rfl⟩ := List.mem_map.mp he
    exact not_mem_entry.mpr (h so hso) hmem

theorem fixed_appended (hne : b.so_files ≠ []) (h : Read ls)
    (hlines : finish '\n' ls ++ text "ffi:\n" :: readlines (b.so_files.map b.entry).flatten =
      pre ++ header :: (sec ++ readlines (b.so_files.map b.entry).flatten))
    (hopens : b.Opens pre header sec) (hfiles : b.files sec = []) :
    b.Fixed (ls ++ b.appended).flatten ↔ b.ReadsBack := by
  have hclean : '\r' ∉ (ls ++ b.appended).flatten ↔ ∀ so ∈ b.so_files, '\r' ∉ so := by
    rw [List.flatten_append, List.mem_append, not_or, not_mem_appended]
    exact and_iff_right h.not_mem_flatten
  have hread := read_readlines (ls ++ b.appended).flatten
  rw [fixed_iff hne, hclean]
  rw [readlines_appended h, hlines] at hread ⊢
  have hentries := read_readlines (b.so_files.map b.entry).flatten
  generalize hafter : readlines (b.so_files.map b.entry).flatten = after at *
  have hfilesAppend : b.files (sec ++ after) = b.files after := by
    rw [files, List.filterMap_append, ← files, hfiles]
    rfl
  -- without a closing line the section goes on to the end of the file
  have hopened : (∀ l ∈ after, b.closes l = false) →
      (b.added (pre ++ header :: (sec ++ after)) = [] ↔ b.files after ≠ []) ∧
        (b.settle false (pre ++ header :: (sec ++ after)) = pre ++ header :: (sec ++ after) ↔
          ∀ l ∈ after, b.rewrite l = l) := by
    intro hall
    rw [added_opened (hopens.append hall), settle_opened (hopens.append hall), hfilesAppend,
      List.append_cancel_left_eq, List.cons.injEq, List.map_append, map_rewrite_of_none hfiles,
      List.append_cancel_left_eq, map_rewrite_eq_iff]
    simp [appended]
  refine ⟨fun hfixed => ?_, fun hback => ?_⟩
  · obtain ⟨hr, hadded, hsettle⟩ := hfixed
    have hall : ∀ l ∈ after, b.closes l = false := by
      intro l hl
      by_contra hcloses
      have hnames := clean_of_added hread hopens hl (by simpa using hcloses) hadded
      rw [(read_entries hnames).1.readlines_flatten] at hafter
      obtain ⟨so, hso, rfl⟩ := List.mem_map.mp (hafter ▸ hl)
      exact hcloses (closes_entry hso)
    have hkept := (hopened hall).2.mp hsettle
    refine ⟨hr, ?_, ?_⟩
    · rw [hafter]
      exact fun l hl => ⟨hall l hl, hkept l hl⟩
    · rw [hafter]
      exact (hopened hall).1.mp hadded
  · obtain ⟨hr, hkept, hfound⟩ := hback
    rw [hafter] at hkept hfound
    have hall := hopened fun l hl => (hkept l hl).1
    exact ⟨hr, hall.1.mpr hfound, hall.2.mpr fun l hl => (hkept l hl).2⟩

/-! ### The lines before it -/

theorem isHeader_newline (line : Text) : isHeader (line ++ ['\n']) = isHeader line := by
  rw [isHeader, isHeader, strip_newline]

theorem taken_newline (line : Text) : b.taken (line ++ ['\n']) = b.taken line := by
  rw [taken, taken, isHeader_newline, strip_newline]

theorem closes_newline (line : Text) : b.closes (line ++ ['\n']) = b.closes line := by
  rw [closes, closes, isHeader_newline, taken_newline, strip_newline]

/-- No file has an empty name. -/
theorem closes_empty (b : Build) : b.closes ['\n'] = true := by
  have htaken : b.taken ['\n'] = none := by
    refine List.find?_eq_none.mpr fun so hso => ?_
    obtain ⟨f, hf, hsuffix, rfl⟩ := mem_so_files.mp hso
    have hne : f ≠ [] := List.ne_nil_of_mem (hsuffix.mem (List.mem_cons_self : '.' ∈ text ".so"))
    have hempty : strip ['\n'] = [] := rfl
    rw [hempty, basename_so hf]
    simp [hne, text]
  rw [closes, htaken]
  rfl

theorem header_finish (h : Read ls) (hpre : ∀ l ∈ ls, isHeader l = false) :
    ∀ l ∈ finish '\n' ls, isHeader l = false := by
  rcases h.cut.finish_cases with ⟨-, hfinish⟩ | ⟨init, last, rfl, -, -, -, hfinish⟩
  · rw [hfinish]
    exact List.forall_mem_append.mpr ⟨hpre, List.forall_mem_singleton.mpr rfl⟩
  · obtain ⟨hinit, hlast⟩ := List.forall_mem_append.mp hpre
    rw [hfinish]
    refine List.forall_mem_append.mpr ⟨hinit, List.forall_mem_singleton.mpr ?_⟩
    rw [isHeader_newline]
    exact hlast last List.mem_cons_self

/-- A line end more does not change a section whose last line has none. -/
theorem finish_opened (h : Cut '\n' (header :: sec)) (hopens : b.Opens pre header sec)
    (hfiles : b.files sec = []) (hunended : ∃ l ∈ header :: sec, '\n' ∉ l) :
    ∃ header' sec', finish '\n' (header :: sec) = header' :: sec' ∧
      b.Opens pre header' sec' ∧ b.files sec' = [] := by
  obtain ⟨line, hline, hnot⟩ := hunended
  rcases h.finish_cases with ⟨hall, -⟩ | ⟨init, last, hsplit, -, -, -, hfinish⟩
  · obtain ⟨body, -, rfl⟩ := hall line hline
    exact absurd (List.mem_append_right _ List.mem_cons_self) hnot
  · cases init with
    | nil =>
      rw [List.nil_append, List.cons.injEq] at hsplit
      refine ⟨last ++ ['\n'], [], hfinish, ⟨hopens.before, ?_, by simp⟩, rfl⟩
      rw [isHeader_newline, ← hsplit.1, hopens.header]
    | cons first init =>
      rw [List.cons_append, List.cons.injEq] at hsplit
      obtain ⟨rfl, rfl⟩ := hsplit
      obtain ⟨hinit, hlast⟩ := List.forall_mem_append.mp hopens.inside
      refine ⟨header, init ++ [last ++ ['\n']], hfinish, ⟨hopens.before, hopens.header, ?_⟩, ?_⟩
      · refine List.forall_mem_append.mpr ⟨hinit, List.forall_mem_singleton.mpr ?_⟩
        rw [closes_newline]
        exact hlast last List.mem_cons_self
      · simpa [files, taken_newline] using hfiles

theorem fixed_absent (hne : b.so_files ≠ []) (h : Read ls) (hpre : ∀ l ∈ ls, isHeader l = false) :
    b.Fixed (b.updated ls).flatten ↔ b.ReadsBack := by
  rw [updated_absent hpre]
  have hopens : b.Opens (finish '\n' ls) (text "ffi:\n") [] :=
    ⟨header_finish h hpre, header_ffi, by simp⟩
  exact fixed_appended hne h rfl hopens rfl

theorem fixed_opened_unended (hne : b.so_files ≠ []) (h : Read (pre ++ header :: sec))
    (hopens : b.Opens pre header sec) (hfiles : b.files sec = [])
    (hunended : ∃ l ∈ pre ++ header :: sec, '\n' ∉ l) :
    b.Fixed (b.updated (pre ++ header :: sec)).flatten ↔ b.ReadsBack := by
  have hlast : ∃ l ∈ header :: sec, '\n' ∉ l := by
    obtain ⟨line, hline, hnot⟩ := hunended
    rcases List.mem_append.mp hline with hmem | hmem
    · obtain ⟨body, -, rfl⟩ := (h.left (List.cons_ne_nil header sec)).2 line hmem
      exact absurd (List.mem_append_right _ List.mem_cons_self) hnot
    · exact ⟨line, hmem, hnot⟩
  obtain ⟨header', sec', hfinish, hopens', hfiles'⟩ :=
    finish_opened h.right.cut hopens hfiles hlast
  have hffi : ∀ l ∈ [text "ffi:\n"], b.closes l = false :=
    List.forall_mem_singleton.mpr (closes_of_header header_ffi)
  have hfilesFfi : b.files (sec' ++ [text "ffi:\n"]) = [] := by
    rw [files, List.filterMap_append, ← files, hfiles', List.nil_append,
      List.filterMap_cons_none (taken_of_header header_ffi), List.filterMap_nil]
  rw [updated_opened_none hopens hfiles]
  refine fixed_appended hne h ?_ (hopens'.append hffi) hfilesFfi
  rw [finish_append, hfinish, List.append_assoc, List.append_assoc]
  rfl

/-- The empty line ends the section, which has no entry. -/
theorem not_fixed_opened_ended (hne : b.so_files ≠ []) (h : Read (pre ++ header :: sec))
    (hopens : b.Opens pre header sec) (hfiles : b.files sec = [])
    (hended : ∀ l ∈ pre ++ header :: sec, '\n' ∈ l) :
    ¬ b.Fixed (b.updated (pre ++ header :: sec)).flatten := by
  intro hfixed
  have hfinish : finish '\n' (pre ++ header :: sec) = (pre ++ header :: sec) ++ [['\n']] := by
    rcases h.cut.finish_cases with ⟨-, hfinish⟩ | ⟨init, last, hsplit, -, -, hlast, -⟩
    · exact hfinish
    · exact absurd (hended last (hsplit ▸ List.mem_append_right _ List.mem_cons_self)) hlast
  obtain ⟨-, hadded, -⟩ := (fixed_iff hne _).mp hfixed
  rw [updated_opened_none hopens hfiles, readlines_appended h, hfinish,
    List.append_assoc, List.append_assoc, List.cons_append, List.singleton_append,
    added_closed hopens (closes_empty b), hfiles, List.map_eq_nil_iff] at hadded
  exact hne (by simpa [missing] using hadded)

/-! ### The second update -/

/-- What a manifest must be before the first update for the second one to change nothing. -/
structure Steady (b : Build) (ls : List Text) : Prop where
  closed : b.remainder ls ≠ [] →
    ∀ so ∈ b.so_files, Clean so ∧ b.taken (b.entry so) = some so
  opened : b.remainder ls = [] →
    ∀ so ∈ b.files (b.ffiLines ls), b.taken (b.entry so) = some so
  unended : b.remainder ls = [] → b.files (b.ffiLines ls) = [] →
    (∃ l ∈ ls, isHeader l = true) → ∃ l ∈ ls, '\n' ∉ l
  added : b.remainder ls = [] → b.files (b.ffiLines ls) = [] → b.ReadsBack

theorem updated_twice_iff (hne : b.so_files ≠ []) (h : Read ls) :
    b.Fixed (b.updated ls).flatten ↔ b.Steady ls := by
  cases b.shape ls with
  | absent hpre =>
    obtain ⟨-, hffi, hremainder⟩ := parts_absent (b := b) hpre
    have hfiles : b.files (b.ffiLines ls) = [] := by rw [hffi]; rfl
    rw [fixed_absent hne h hpre]
    refine ⟨fun hback => ⟨?_, ?_, ?_, fun _ _ => hback⟩, fun hsteady => ?_⟩
    · exact fun hclosed => absurd hremainder hclosed
    · exact fun _ so hso => absurd (hfiles ▸ hso) List.not_mem_nil
    · intro _ _ hsome
      obtain ⟨l, hl, hheader⟩ := hsome
      rw [hpre l hl] at hheader
      cases hheader
    · exact hsteady.added hremainder hfiles
  | @opened pre sec header hopens =>
    obtain ⟨-, hffi, hremainder⟩ := parts_opened hopens
    by_cases hfiles : b.files sec = []
    · by_cases hended : ∃ l ∈ pre ++ header :: sec, '\n' ∉ l
      · rw [fixed_opened_unended hne h hopens hfiles hended]
        refine ⟨fun hback => ⟨?_, ?_, fun _ _ _ => hended, fun _ _ => hback⟩, fun hsteady => ?_⟩
        · exact fun hclosed => absurd hremainder hclosed
        · intro _ so hso
          rw [hffi, hfiles] at hso
          cases hso
        · exact hsteady.added hremainder (hffi.symm ▸ hfiles)
      · have hall : ∀ l ∈ pre ++ header :: sec, '\n' ∈ l := by simpa using hended
        refine iff_of_false (not_fixed_opened_ended hne h hopens hfiles hall) ?_
        intro hsteady
        refine hended (hsteady.unended hremainder (hffi.symm ▸ hfiles) ⟨header, ?_, hopens.header⟩)
        exact List.mem_append_right _ List.mem_cons_self
    · rw [fixed_opened hne h hopens hfiles]
      refine ⟨fun htaken => ⟨?_, ?_, ?_, ?_⟩, fun hsteady => ?_⟩
      · exact fun hclosed => absurd hremainder hclosed
      · rw [hffi]
        exact fun _ => htaken
      · exact fun _ hnone => absurd (hffi ▸ hnone) hfiles
      · exact fun _ hnone => absurd (hffi ▸ hnone) hfiles
      · have htaken := hsteady.opened hremainder
        rwa [hffi] at htaken
  | @closed pre sec rest header closing hopens hclosing =>
    obtain ⟨-, -, hremainder⟩ := parts_closed hopens hclosing
    have hopen : b.remainder (pre ++ header :: (sec ++ closing :: rest)) ≠ [] := by
      rw [hremainder]
      exact List.cons_ne_nil closing rest
    rw [fixed_closed hne h hopens hclosing]
    refine ⟨fun hall => ⟨fun _ => hall, ?_, ?_, ?_⟩, fun hsteady => hsteady.closed hopen⟩
    · exact fun hnil => absurd hnil hopen
    · exact fun hnil => absurd hnil hopen
    · exact fun hnil => absurd hnil hopen

end Build

theorem afterUpdate_eq {b : Build} (hne : b.so_files ≠ []) (content : Text) :
    Directory.afterUpdate ⟨some content, some b⟩ =
      ⟨some (b.updated (readlines content)).flatten, some b⟩ := by
  rw [Directory.afterUpdate, update_manifest_eq hne]
  rfl

/-- **A second update changes nothing exactly for a steady manifest.** -/
theorem update_manifest_twice_iff (b : Build) (content : Text) :
    Directory.afterUpdate (Directory.afterUpdate ⟨some content, some b⟩) =
        Directory.afterUpdate ⟨some content, some b⟩ ↔
      b.so_files = [] ∨ b.Steady (readlines content) := by
  by_cases hne : b.so_files = []
  · have hnone : update_manifest ⟨some content, some b⟩ = none := if_pos hne
    have hnothing : Directory.afterUpdate ⟨some content, some b⟩ = ⟨some content, some b⟩ := by
      rw [Directory.afterUpdate, hnone]
      rfl
    exact iff_of_true (by rw [hnothing, hnothing]) (.inl hne)
  · rw [or_iff_right hne, ← Build.updated_twice_iff hne (read_readlines content),
      afterUpdate_eq hne, afterUpdate_eq hne]
    exact ⟨fun h => Option.some.inj (congrArg Directory.falcon_yml h), fun h => by rw [h]⟩

/-- An empty section gets another one at the end of the file, and then entries of its own. -/
theorem not_update_manifest_twice :
    ¬ ∀ (b : Build) (content : Text), b.so_files ≠ [] →
      Directory.afterUpdate (Directory.afterUpdate ⟨some content, some b⟩) =
        Directory.afterUpdate ⟨some content, some b⟩ := by
  intro h
  have htwice := congrArg Directory.falcon_yml (h pair (text "ffi:\n") (by decide))
  exact absurd htwice (by decide)

end FalconStd.Scripts
