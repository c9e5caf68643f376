import FalconStd.Scripts.ManifestPasses
import FalconStd.Scripts.ManifestText

/-! The entries of a manifest after `update_manifest`.

Every file should have one entry, and all of them should be in one section. `Fits` is
what a manifest with one section must be for that: a section that runs to the end of
the file is not completed, an entry outside of the section is kept, and a line is taken
for the first file that it names. -/
namespace FalconStd.Scripts
open Foundation

/-! ### A section that is added -/

variable {ls : List Text}

theorem Read.finish (h : Read ls) :
    Read (Foundation.finish '\n' ls) ∧ ∀ l ∈ Foundation.finish '\n' ls, Ended '\n' l := by
  have hended := h.cut.ended_finish
  refine ⟨⟨cut_of_ended hended, ?_⟩, hended⟩
  intro l hl hmem
  have hflat : '\r' ∈ ls.flatten ++ ['\n'] := by
    rw [← flatten_finish]
    exact List.mem_flatten.mpr ⟨l, hl, hmem⟩
  exact h.not_mem_flatten (by simpa using hflat)

namespace Build
variable {b : Build} {so : Text} {sec : List Text}

/-- The empty line before it ends the last line, or stays one. -/
theorem readlines_appended (h : Read ls) :
    readlines (ls ++ b.appended).flatten =
      finish '\n' ls ++ text "ffi:\n" :: readlines (b.so_files.map b.entry).flatten := by
  have hflat : (ls ++ b.appended).flatten =
      (finish '\n' ls).flatten ++
        ([text "ffi:\n"].flatten ++ (b.so_files.map b.entry).flatten) := by
    rw [flatten_finish, List.flatten_append, appended, List.flatten_cons, List.append_assoc]
    rfl
  have hheader : Read [text "ffi:\n"] ∧ ∀ l ∈ [text "ffi:\n"], Ended '\n' l := by
    have hended : ∀ l ∈ [text "ffi:\n"], Ended '\n' l := by
      simpa using ⟨text "ffi:", by decide, rfl⟩
    exact ⟨⟨cut_of_ended hended, by simpa using by decide⟩, hended⟩
  rw [hflat, h.finish.1.readlines_append h.finish.2, hheader.1.readlines_append hheader.2]
  rfl

/-! ### Entries of one file -/

theorem not_isEntryOf_newline (so : Text) : ¬ IsEntryOf so ['\n'] := by
  intro h
  obtain ⟨hash, -, hstrip⟩ := isEntryOf_iff.mp h
  cases so <;> cases hstrip

/-- A line end is not a part of the entry. -/
theorem isEntryOf_concat (line : Text) : IsEntryOf so (line ++ ['\n']) ↔ IsEntryOf so line := by
  rw [IsEntryOf, strip_newline, ← IsEntryOf]

theorem countP_finish (h : Read ls) :
    (finish '\n' ls).countP (IsEntryOf so ·) = ls.countP (IsEntryOf so ·) := by
  rcases h.cut.finish_cases with ⟨-, hfinish⟩ | ⟨init, last, rfl, -, -, -, hfinish⟩
  · rw [hfinish, List.countP_append]
    simp [not_isEntryOf_newline so]
  · rw [hfinish, List.countP_append, List.countP_append, List.countP_singleton,
      List.countP_singleton]
    simp only [isEntryOf_concat]

theorem countP_entries {l : List Text} (h : ∀ so' ∈ l, so' ∈ b.so_files) :
    (l.map b.entry).countP (IsEntryOf so ·) = l.count so := by
  rw [List.countP_map, List.count]
  refine List.countP_congr fun so' hso' => ?_
  rw [Function.comp_apply, decide_eq_true_iff, isEntryOf_entry_iff (h so' hso'), beq_iff_eq]
  exact eq_comm

theorem countP_header (hso : so ∈ b.so_files) {header : Text} (h : isHeader header = true)
    (ls : List Text) : (header :: ls).countP (IsEntryOf so ·) = ls.countP (IsEntryOf so ·) := by
  refine List.countP_cons_of_neg ?_
  rw [decide_eq_true_iff]
  intro hentry
  rw [hentry.header hso] at h
  cases h

theorem header_ffi : isHeader (text "ffi:\n") = true := rfl

/-- An entry that is copied is taken for a file. -/
theorem not_isEntryOf_of_taken {line : Text} (hso : so ∈ b.so_files)
    (h : b.taken line = none) : ¬ IsEntryOf so line := by
  intro hentry
  obtain ⟨so', htaken⟩ := hentry.taken hso
  rw [h] at htaken
  cases htaken

/-- A file has an entry for each line that was taken for it. -/
theorem countP_rewrite (hso : so ∈ b.so_files) (sec : List Text) :
    (sec.map b.rewrite).countP (IsEntryOf so ·) = (b.files sec).count so := by
  induction sec with
  | nil => rfl
  | cons line sec ih =>
    rw [List.map_cons, List.countP_cons, ih, files_cons]
    cases htaken : b.taken line with
    | none =>
      rw [rewrite_of_none htaken, if_neg (by simpa using not_isEntryOf_of_taken hso htaken)]
      rfl
    | some so' =>
      have hone : ([so'].map b.entry).countP (IsEntryOf so ·) = [so'].count so :=
        countP_entries (by simpa using mem_of_taken htaken)
      rw [List.map_singleton, List.countP_singleton] at hone
      rw [rewrite_of_taken htaken, hone, Option.toList_some, List.count_append, Nat.add_comm]

theorem count_missing (hso : so ∈ b.so_files) (processed : List Text) :
    (b.missing processed).count so = if so ∈ processed then 0 else 1 := by
  have hnodup : (b.missing processed).Nodup := List.Nodup.filter _ b.nodup_so_files
  split
  case isTrue h => exact List.count_eq_zero.mpr (by simp [missing, h])
  case isFalse h => exact List.count_eq_one_of_mem hnodup (by simpa [missing, hso] using h)

/-! ### Entries in a section -/

/-- Lines of a section, which has no other header. -/
def Inside (b : Build) (sec : List Text) : Prop :=
  ∀ l ∈ sec, isHeader l = false ∧ b.closes l = false

theorem inside_rewrite (h : b.Inside sec) : b.Inside (sec.map b.rewrite) := by
  intro l hl
  obtain ⟨line, hline, rfl⟩ := List.mem_map.mp hl
  refine ⟨?_, closes_rewrite (h line hline).2⟩
  cases htaken : b.taken line with
  | none =>
    rw [rewrite_of_none htaken]
    exact (h line hline).1
  | some so =>
    rw [rewrite_of_taken htaken]
    exact (isEntryOf_entry (mem_of_taken htaken)).header (mem_of_taken htaken)

theorem inside_entries {l : List Text} (h : ∀ so ∈ l, so ∈ b.so_files) :
    b.Inside (l.map b.entry) := by
  intro line hline
  obtain ⟨so, hso, rfl⟩ := List.mem_map.mp hline
  exact ⟨(isEntryOf_entry (h so hso)).header (h so hso), closes_entry (h so hso)⟩

theorem Inside.append {sec' : List Text} (h : b.Inside sec) (h' : b.Inside sec') :
    b.Inside (sec ++ sec') :=
  List.forall_mem_append.mpr ⟨h, h'⟩

/-- Each file has one entry line, whatever its hash, and one section has the entries of all
files, with their hashes. -/
structure Complete (b : Build) (out : Text) : Prop where
  one : ∀ so ∈ b.so_files, (readlines out).countP (IsEntryOf so ·) = 1
  together : ∃ pre header sec rest, readlines out = pre ++ header :: (sec ++ rest) ∧
    isHeader header = true ∧ b.Inside sec ∧ ∀ so ∈ b.so_files, ∃ l ∈ sec, b.IsEntry so l

/-- What a manifest must be for that. -/
structure Fits (b : Build) (ls : List Text) : Prop where
  one_line : ∀ so ∈ b.so_files, Clean so
  outside : ∀ so ∈ b.so_files, ∀ l ∈ preamble ls ++ b.remainder ls, ¬ IsEntryOf so l
  once : (b.files (b.ffiLines ls)).Nodup
  all : b.remainder ls = [] → b.files (b.ffiLines ls) ≠ [] →
    ∀ so ∈ b.so_files, so ∈ b.files (b.ffiLines ls)

/-! ### The lines that are written, read again -/

section Written
variable {pre rest : List Text} {header closing : Text}

theorem readlines_appended_clean (h : Read ls) (hclean : ∀ so ∈ b.so_files, Clean so) :
    readlines (ls ++ b.appended).flatten =
      finish '\n' ls ++ text "ffi:\n" :: b.so_files.map b.entry := by
  rw [readlines_appended h, (read_entries hclean).1.readlines_flatten]

theorem read_opened (h : Read (pre ++ header :: sec)) :
    Read (pre ++ header :: sec.map b.rewrite) := by
  rw [List.append_cons] at h ⊢
  exact h.replace h.right.map_rewrite (fun hnil => by rw [hnil]; rfl)

/-- What is before a line that closes the section is ended. -/
theorem read_parts (h : Read (pre ++ header :: (sec ++ closing :: rest))) :
    (Read (pre ++ header :: sec.map b.rewrite) ∧
        ∀ l ∈ pre ++ header :: sec.map b.rewrite, Ended '\n' l) ∧ Read (closing :: rest) := by
  rw [List.append_cons] at h
  obtain ⟨hhead, hheadEnded⟩ := h.left (by simp)
  obtain ⟨hsec, hsecEnded⟩ := h.right.left (List.cons_ne_nil closing rest)
  rw [List.append_cons]
  exact ⟨⟨hhead.append hheadEnded hsec.map_rewrite,
    List.forall_mem_append.mpr ⟨hheadEnded, hsec.ended_rewrite hsecEnded⟩⟩, h.right.right⟩

theorem read_closed (h : Read (pre ++ header :: (sec ++ closing :: rest)))
    (hclean : ∀ so ∈ b.so_files, Clean so) {after : List Text} (hafter : Read after) :
    Read (pre ++ header :: (b.completed sec ++ after)) := by
  obtain ⟨⟨hparts, hended⟩, -⟩ := read_parts (b := b) h
  obtain ⟨hentries, hentriesEnded⟩ :=
    read_entries (b := b) fun so hso => hclean so (List.mem_filter.mp hso).1
  rw [completed, List.append_assoc, ← List.cons_append, ← List.append_assoc]
  exact hparts.append hended (hentries.append hentriesEnded hafter)

theorem header_unique (hone : (pre ++ header :: ls).countP isHeader ≤ 1)
    (hheader : isHeader header = true) : ∀ l ∈ ls, isHeader l = false := by
  rw [List.countP_append, List.countP_cons_of_pos hheader] at hone
  have hzero : ls.countP isHeader = 0 := by omega
  simpa using List.countP_eq_zero.mp hzero

/-- What is written for each shape. -/
theorem readlines_updated_closed (hso : b.so_files ≠ []) (hclean : ∀ so ∈ b.so_files, Clean so)
    (h : Read (pre ++ header :: (sec ++ closing :: rest)))
    (hone : (pre ++ header :: (sec ++ closing :: rest)).countP isHeader ≤ 1)
    (hopens : b.Opens pre header sec) (hclosing : b.closes closing = true) :
    readlines (b.updated (pre ++ header :: (sec ++ closing :: rest))).flatten =
      pre ++ header :: (b.completed sec ++ closing :: rest) := by
  -- the one section is over, so what follows is copied
  have hrest : ∀ l ∈ rest, isHeader l = false := fun l hl =>
    header_unique hone hopens.header l (List.mem_append_right _ (List.mem_cons_of_mem _ hl))
  have hsettle : b.settle false rest = rest := by
    simpa [settle] using settle_outside (b := b) hrest []
  rw [updated_closed hso hopens hclosing, hsettle,
    (read_closed h hclean (read_parts (b := b) h).2).readlines_flatten]

theorem readlines_updated_opened (h : Read (pre ++ header :: sec))
    (hopens : b.Opens pre header sec) (hfiles : b.files sec ≠ []) :
    readlines (b.updated (pre ++ header :: sec)).flatten = pre ++ header :: sec.map b.rewrite := by
  rw [updated_opened hopens hfiles, (read_opened h).readlines_flatten]

/-- An entry for each line that was taken, and for each file that was added. -/
theorem entries_written (hne : b.so_files ≠ []) (hclean : ∀ so ∈ b.so_files, Clean so)
    (h : Read ls) (hone : ls.countP isHeader ≤ 1) (hso : so ∈ b.so_files) :
    (readlines (b.updated ls).flatten).countP (IsEntryOf so ·) =
      (preamble ls ++ b.remainder ls).countP (IsEntryOf so ·) +
        (b.files (b.ffiLines ls)).count so +
          if so ∈ b.files (b.ffiLines ls) ∨ b.remainder ls = [] ∧ b.files (b.ffiLines ls) ≠ []
            then 0 else 1 := by
  have hcount : b.so_files.count so = 1 := List.count_eq_one_of_mem b.nodup_so_files hso
  cases b.shape ls with
  | absent hpre =>
    obtain ⟨hpreamble, hffi, hremainder⟩ := parts_absent (b := b) hpre
    rw [updated_absent hpre, readlines_appended_clean h hclean, hpreamble, hffi, hremainder,
      List.append_nil, List.countP_append, countP_finish h, countP_header hso header_ffi,
      countP_entries fun _ h => h, hcount]
    simp [files]
  | @opened pre sec header hopens =>
    obtain ⟨hpreamble, hffi, hremainder⟩ := parts_opened hopens
    rw [hpreamble, hffi, hremainder, List.append_nil]
    by_cases hfiles : b.files sec = []
    · have hsecCount : sec.countP (IsEntryOf so ·) = 0 := by
        have hrewritten := countP_rewrite hso sec
        rwa [map_rewrite_of_none hfiles, hfiles] at hrewritten
      rw [updated_opened_none hopens hfiles, readlines_appended_clean h hclean,
        List.countP_append, countP_finish h, List.countP_append,
        countP_header hso hopens.header, countP_header hso header_ffi,
        countP_entries fun _ h => h, hcount, hsecCount, hfiles]
      simp
    · rw [readlines_updated_opened h hopens hfiles, List.countP_append,
        countP_header hso hopens.header, countP_rewrite hso, if_pos (.inr ⟨rfl, hfiles⟩)]
      rfl
  | @closed pre sec rest header closing hopens hclosing =>
    obtain ⟨hpreamble, hffi, hremainder⟩ := parts_closed hopens hclosing
    rw [readlines_updated_closed hne hclean h hone hopens hclosing, hpreamble, hffi,
      hremainder, completed, List.countP_append, countP_header hso hopens.header,
      List.countP_append, List.countP_append, List.countP_append, countP_rewrite hso,
      countP_entries (l := b.missing (b.files sec)) fun _ h => (List.mem_filter.mp h).1,
      count_missing hso]
    simp only [reduceCtorEq, false_and, or_false]
    omega

/-! ### One section for all -/

/-- The section that is added has an entry for each file. -/
theorem together_appended (h : Read ls) (hclean : ∀ so ∈ b.so_files, Clean so) :
    ∃ pre header sec rest, readlines (ls ++ b.appended).flatten = pre ++ header :: (sec ++ rest) ∧
      isHeader header = true ∧ b.Inside sec ∧ ∀ so ∈ b.so_files, ∃ l ∈ sec, b.IsEntry so l := by
  refine ⟨finish '\n' ls, text "ffi:\n", b.so_files.map b.entry, [], ?_, header_ffi,
    inside_entries fun so hso => hso, ?_⟩
  · rw [readlines_appended_clean h hclean, List.append_nil]
  · exact fun so hso => ⟨b.entry so, List.mem_map_of_mem hso, isEntry_entry b so⟩

theorem Fits.together (hfits : b.Fits ls) (hne : b.so_files ≠ []) (h : Read ls)
    (hone : ls.countP isHeader ≤ 1) :
    ∃ pre header sec rest, readlines (b.updated ls).flatten = pre ++ header :: (sec ++ rest) ∧
      isHeader header = true ∧ b.Inside sec ∧ ∀ so ∈ b.so_files, ∃ l ∈ sec, b.IsEntry so l := by
  cases b.shape ls with
  | absent hpre =>
    rw [updated_absent hpre]
    exact together_appended h hfits.one_line
  | @opened pre sec header hopens =>
    obtain ⟨-, hffi, hremainder⟩ := parts_opened hopens
    by_cases hfiles : b.files sec = []
    · rw [updated_opened_none hopens hfiles]
      exact together_appended h hfits.one_line
    · have hinside : b.Inside sec := fun l hl =>
        ⟨header_unique hone hopens.header l hl, hopens.inside l hl⟩
      refine ⟨pre, header, sec.map b.rewrite, [], ?_, hopens.header, inside_rewrite hinside, ?_⟩
      · rw [readlines_updated_opened h hopens hfiles, List.append_nil]
      · intro so hso
        have hmem := hfits.all hremainder (hffi.symm ▸ hfiles) so hso
        rw [hffi] at hmem
        exact ⟨b.entry so, entry_mem_rewrite hmem, isEntry_entry b so⟩
  | @closed pre sec rest header closing hopens hclosing =>
    have hinside : b.Inside sec := fun l hl =>
      ⟨header_unique hone hopens.header l (List.mem_append_left _ hl), hopens.inside l hl⟩
    refine ⟨pre, header, b.completed sec, closing :: rest,
      readlines_updated_closed hne hfits.one_line h hone hopens hclosing, hopens.header,
      (inside_rewrite hinside).append (inside_entries ?_), ?_⟩
    · exact fun so hso => (List.mem_filter.mp hso).1
    · exact fun so hso => ⟨b.entry so, entry_mem_completed hso sec, isEntry_entry b so⟩

theorem mem_after_header {pre' after : List Text} (hpre : ∀ l ∈ pre, isHeader l = false)
    (hheader : isHeader header = true) (heq : pre ++ ls = pre' ++ header :: after) :
    ∀ l ∈ after, l ∈ ls := by
  induction pre generalizing pre' with
  | nil =>
    intro l hl
    rw [List.nil_append] at heq
    exact heq ▸ List.mem_append_right _ (List.mem_cons_of_mem _ hl)
  | cons line pre ih =>
    obtain ⟨hline, hpre⟩ := List.forall_mem_cons.mp hpre
    cases pre' with
    | nil =>
      -- the header would be one of the lines before it
      rw [(List.cons.inj heq).1, hheader] at hline
      cases hline
    | cons line' pre' => exact ih hpre (List.cons.inj heq).2

/-- A section that runs to the end of the file has an entry for no file but those that its
lines are taken for. -/
theorem Complete.mem_files (hcomplete : b.Complete (b.updated ls).flatten) (h : Read ls)
    (hremainder : b.remainder ls = []) (hfiles : b.files (b.ffiLines ls) ≠ [])
    (hso : so ∈ b.so_files) : so ∈ b.files (b.ffiLines ls) := by
  cases b.shape ls with
  | absent hpre =>
    rw [(parts_absent hpre).2.1] at hfiles
    exact absurd rfl hfiles
  | @opened pre sec header hopens =>
    rw [(parts_opened hopens).2.1] at hfiles ⊢
    obtain ⟨pre', header', sec', rest, hlines, hheader', -, hentries⟩ := hcomplete.together
    rw [readlines_updated_opened h hopens hfiles] at hlines
    obtain ⟨l, hl, hentry⟩ := hentries so hso
    have hmem := mem_after_header hopens.before hheader' hlines l (List.mem_append_left _ hl)
    have hpos : 0 < (header :: sec.map b.rewrite).countP (IsEntryOf so ·) :=
      List.countP_pos_iff.mpr ⟨l, hmem, decide_eq_true (hentry.entryOf hso)⟩
    rw [countP_header hso hopens.header, countP_rewrite hso] at hpos
    exact List.count_pos_iff.mp hpos
  | closed hopens hclosing =>
    rw [(parts_closed hopens hclosing).2.2] at hremainder
    cases hremainder

theorem complete_updated_iff (hne : b.so_files ≠ []) (h : Read ls)
    (hone : ls.countP isHeader ≤ 1) : b.Complete (b.updated ls).flatten ↔ b.Fits ls := by
  refine ⟨fun hcomplete => ?_, fun hfits => ⟨fun so hso => ?_, hfits.together hne h hone⟩⟩
  · have hclean : ∀ so ∈ b.so_files, Clean so := by
      intro so hso
      have hpos : 0 < (readlines (b.updated ls).flatten).countP (IsEntryOf so ·) := by
        rw [hcomplete.one so hso]
        exact Nat.one_pos
      obtain ⟨l, hl, hentry⟩ := List.countP_pos_iff.mp hpos
      exact (read_readlines _).clean_of_isEntryOf hl (of_decide_eq_true hentry)
    have hall : b.remainder ls = [] → b.files (b.ffiLines ls) ≠ [] →
        ∀ so ∈ b.so_files, so ∈ b.files (b.ffiLines ls) :=
      fun hremainder hfiles so hso => hcomplete.mem_files h hremainder hfiles hso
    have hcounts : ∀ so ∈ b.so_files,
        (preamble ls ++ b.remainder ls).countP (IsEntryOf so ·) = 0 ∧
          (b.files (b.ffiLines ls)).count so ≤ 1 := by
      intro so hso
      have hwritten := entries_written hne hclean h hone hso
      rw [hcomplete.one so hso] at hwritten
      by_cases hmem : so ∈ b.files (b.ffiLines ls)
      · have hpos := List.count_pos_iff.mpr hmem
        omega
      · rw [if_neg] at hwritten
        · omega
        · refine not_or.mpr ⟨hmem, fun hopen => ?_⟩
          exact hmem (hall hopen.1 hopen.2 so hso)
    refine ⟨hclean, fun so hso l hl => ?_, ?_, hall⟩
    · simpa using List.countP_eq_zero.mp (hcounts so hso).1 l hl
    · refine List.nodup_iff_count_le_one.mpr fun so => ?_
      by_cases hmem : so ∈ b.files (b.ffiLines ls)
      · obtain ⟨line, -, htaken⟩ := List.mem_filterMap.mp hmem
        exact (hcounts so (mem_of_taken htaken)).2
      · rw [List.count_eq_zero.mpr hmem]
        exact Nat.zero_le 1
  · have houtside : (preamble ls ++ b.remainder ls).countP (IsEntryOf so ·) = 0 :=
      List.countP_eq_zero.mpr fun l hl => by simpa using hfits.outside so hso l hl
    rw [entries_written hne hfits.one_line h hone hso, houtside, Nat.zero_add]
    by_cases hmem : so ∈ b.files (b.ffiLines ls)
    · rw [List.count_eq_one_of_mem hfits.once hmem, if_pos (.inl hmem)]
    · rw [List.count_eq_zero.mpr hmem, if_neg]
      refine not_or.mpr ⟨hmem, fun hopen => ?_⟩
      exact hmem (hfits.all hopen.1 hopen.2 so hso)

end Written

end Build

/-! ### The update -/

theorem update_manifest_eq {b : Build} (hne : b.so_files ≠ []) (content : Text) :
    update_manifest ⟨some content, some b⟩ = some (b.updated (readlines content)).flatten :=
  if_neg hne

/-- **What is written is complete exactly for a manifest that fits.** -/
theorem update_manifest_complete_iff (b : Build) (content : Text) (hne : b.so_files ≠ [])
    (hone : (readlines content).countP isHeader ≤ 1) :
    (∃ out, update_manifest ⟨some content, some b⟩ = some out ∧ b.Complete out) ↔
      b.Fits (readlines content) := by
  rw [← Build.complete_updated_iff hne (read_readlines content) hone, update_manifest_eq hne]
  refine ⟨fun h => ?_, fun h => ⟨_, rfl, h⟩⟩
  obtain ⟨out, hout, hcomplete⟩ := h
  exact Option.some.inj hout ▸ hcomplete

/-- Two libraries. -/
def pair : Build where
  listdir := [text "a.so", text "b.so"]
  distinct := by decide
  no_slash := by decide
  sha256_file := fun _ => text "0a"
  hex := fun _ => List.all_eq_true.mp rfl

/-- A section that an empty line closes is completed; where an old entry follows it, the
library has two. -/
theorem update_manifest_complete_closed :
    (∃ out, update_manifest ⟨some (text "ffi:\n\nname: a\n"), some pair⟩ = some out ∧
        pair.Complete out) ∧
      ¬ ∃ out, update_manifest ⟨some (text "ffi:\n\n  build/a.so: sha256:0b\n"), some pair⟩ =
        some out ∧ pair.Complete out := by
  have hiff := fun content hone =>
    update_manifest_complete_iff pair content (by decide) hone
  constructor
  · refine (hiff _ (by decide)).mpr ⟨by decide, by decide, by decide, by decide⟩
  · intro h
    have hfits := (hiff _ (by decide)).mp h
    exact hfits.outside (text "build/a.so") (by decide) (text "  build/a.so: sha256:0b\n")
      (by decide) (by decide)

/-- The second library is not added to a section at the end of the file. -/
theorem not_update_manifest_complete :
    ¬ ∀ (b : Build) (content : Text), b.so_files ≠ [] →
      (readlines content).countP isHeader ≤ 1 →
        ∃ out, update_manifest ⟨some content, some b⟩ = some out ∧ b.Complete out := by
  intro h
  obtain ⟨out, hout, hcomplete⟩ :=
    h pair (text "ffi:\n  build/a.so: sha256:0b\n") (by decide) (by decide)
  have hwritten : out = text "ffi:\n  build/a.so: sha256:0a\n" := (Option.some.inj hout).symm
  have hentries := hcomplete.one (text "build/b.so") (by decide)
  rw [hwritten] at hentries
  exact absurd hentries (by decide)

end FalconStd.Scripts
