import FalconStd.Scripts.Manifest

/-! What the state machine of `update_manifest` writes.

`step_eq` says what one pass does, `scan` what all of them emit, and the three shapes of
a manifest (no section, one that runs to the end of the file, one that is closed) what
is written for each. -/
namespace FalconStd.Scripts
open Foundation

namespace Build

/-! ### One pass -/

section Passes
variable (b : Build)

/-- The files that have no entry yet. -/
def missing (processed : List Text) : List Text := b.so_files.filter (!processed.contains ·)

/-- The lines that a pass writes. -/
def emits (in_ffi : Bool) (processed : List Text) (line : Text) : List Text :=
  if in_ffi then
    (if b.closes line then (b.missing processed).map b.entry else []) ++ [b.rewrite line]
  else [line]

def nextFfi (in_ffi : Bool) (line : Text) : Bool := isHeader line || (in_ffi && !b.closes line)

/-- The files that a pass processes. -/
def takes (in_ffi : Bool) (processed : List Text) (line : Text) : List Text :=
  if in_ffi then
    if b.closes line then (b.missing processed).reverse else (b.taken line).toList
  else []

/-- The set keeps a file from being added twice, and the files differ anyway. -/
theorem run_addMissing {l : List Text} (hl : l.Nodup) (st : State) :
    run b.addMissing st l =
      { st with
        new_lines := st.new_lines ++ (l.filter (· ∉ st.processed_so)).map b.entry
        processed_so := (l.filter (· ∉ st.processed_so)).reverse ++ st.processed_so } := by
  induction l generalizing st with
  | nil => simp
  | cons so l ih =>
    obtain ⟨hso, hl⟩ := List.nodup_cons.mp hl
    rw [run, ih hl, addMissing]
    by_cases hin : so ∈ st.processed_so
    · simp [hin]
    · have hrest : l.filter (· ∉ so :: st.processed_so) = l.filter (· ∉ st.processed_so) := by
        refine List.filter_congr fun x hx => ?_
        have hne : x ≠ so := fun heq => hso (heq ▸ hx)
        simp [hne]
      simp only [hin, if_false, hrest]
      simp [hin]

/-- What one pass can do. -/
theorem step_eq (new_lines processed : List Text) (in_ffi : Bool) (line : Text) :
    b.step ⟨new_lines, in_ffi, processed⟩ line =
      ⟨new_lines ++ b.emits in_ffi processed line, b.nextFfi in_ffi line,
        b.takes in_ffi processed line ++ processed⟩ := by
  by_cases hheader : isHeader line = true
  · have htaken := taken_of_header (b := b) hheader
    have hcloses := closes_of_header (b := b) hheader
    rw [step, if_pos (by simpa [isHeader] using hheader)]
    cases in_ffi <;> simp [emits, nextFfi, takes, hheader, hcloses, htaken, rewrite]
  · rw [step, if_neg (by simpa [isHeader] using hheader)]
    cases in_ffi with
    | false => simp [emits, nextFfi, takes, hheader]
    | true =>
      have htaken : b.taken line = b.found_so (strip line) := by rw [taken, if_neg hheader]
      rw [← htaken, if_pos rfl]
      cases hfound : b.taken line with
      | some so =>
        have hcloses := closes_of_taken hfound
        simp [emits, nextFfi, takes, hcloses, hfound, rewrite]
      | none =>
        have hcloses : b.closes line = endsSection (strip line) := by simp [closes, hheader, hfound]
        cases hends : endsSection (strip line) with
        | false => simp [emits, nextFfi, takes, hcloses, hends, hfound, rewrite]
        | true =>
          rw [hends] at hcloses
          simp [emits, nextFfi, takes, hcloses, hfound, rewrite, hheader, missing,
            run_addMissing b b.nodup_so_files]

/-! ### All passes -/

def scan : Bool → List Text → List Text → List Text
  | _, _, [] => []
  | in_ffi, processed, line :: ls =>
    b.emits in_ffi processed line ++
      scan (b.nextFfi in_ffi line) (b.takes in_ffi processed line ++ processed) ls

/-- The files with an entry at the end. -/
def processedBy : Bool → List Text → List Text → List Text
  | _, processed, [] => processed
  | in_ffi, processed, line :: ls =>
    processedBy (b.nextFfi in_ffi line) (b.takes in_ffi processed line ++ processed) ls

theorem run_step (ls new_lines processed : List Text) (in_ffi : Bool) :
    (run b.step ⟨new_lines, in_ffi, processed⟩ ls).new_lines =
        new_lines ++ b.scan in_ffi processed ls ∧
      (run b.step ⟨new_lines, in_ffi, processed⟩ ls).processed_so =
        b.processedBy in_ffi processed ls := by
  induction ls generalizing new_lines processed in_ffi with
  | nil => simp [scan, processedBy]
  | cons line ls ih =>
    rw [run, step_eq, scan, processedBy, ← List.append_assoc]
    exact ih _ _ _

theorem updated_eq (ls : List Text) :
    b.updated ls =
      if b.processedBy false [] ls = [] then
        b.scan false [] ls ++ text "\nffi:\n" :: b.so_files.map b.entry
      else b.scan false [] ls := by
  obtain ⟨hlines, hprocessed⟩ := b.run_step ls [] [] false
  simp only [updated, hlines, hprocessed, List.nil_append]

/-! ### The parts of a manifest -/

/-- The lines before the section, all of them if there is none. -/
def preamble (ls : List Text) : List Text := ls.takeWhile (!isHeader ·)

/-- The lines of the section, without its header. -/
def ffiLines (ls : List Text) : List Text :=
  (ls.dropWhile (!isHeader ·)).tail.takeWhile (!b.closes ·)

/-- The line that closes the section, and those after it. -/
def remainder (ls : List Text) : List Text :=
  (ls.dropWhile (!isHeader ·)).tail.dropWhile (!b.closes ·)

/-- The files that the lines are taken for. -/
def files (ls : List Text) : List Text := ls.filterMap b.taken

theorem files_cons (line : Text) (ls : List Text) :
    b.files (line :: ls) = (b.taken line).toList ++ b.files ls := by
  rw [files, List.filterMap_cons]
  cases b.taken line <;> rfl

/-- A section whose lines do not close it, with its header and the lines before that. -/
structure Opens (pre : List Text) (header : Text) (sec : List Text) : Prop where
  before : ∀ l ∈ pre, isHeader l = false
  header : isHeader header = true
  inside : ∀ l ∈ sec, b.closes l = false

/-- A manifest has no section, or one that runs to its end, or one that is closed. -/
inductive Shape : List Text → Prop where
  | absent {ls : List Text} (h : ∀ l ∈ ls, isHeader l = false) : Shape ls
  | opened {pre sec : List Text} {header : Text} (hopens : b.Opens pre header sec) :
      Shape (pre ++ header :: sec)
  | closed {pre sec rest : List Text} {header closing : Text}
      (hopens : b.Opens pre header sec) (hclosing : b.closes closing = true) :
      Shape (pre ++ header :: (sec ++ closing :: rest))

end Passes

theorem exists_split {α : Type} (p : α → Bool) (l : List α) :
    (∀ x ∈ l, p x = false) ∨
      ∃ before x after, l = before ++ x :: after ∧ (∀ y ∈ before, p y = false) ∧ p x = true := by
  induction l with
  | nil => simp
  | cons x l ih =>
    cases hx : p x with
    | true => exact .inr ⟨[], x, l, rfl, by simp, hx⟩
    | false =>
      rcases ih with h | ⟨before, y, after, rfl, hbefore, hy⟩
      · exact .inl (List.forall_mem_cons.mpr ⟨hx, h⟩)
      · exact .inr ⟨x :: before, y, after, rfl, List.forall_mem_cons.mpr ⟨hx, hbefore⟩, hy⟩

theorem shape (b : Build) (ls : List Text) : b.Shape ls := by
  rcases exists_split isHeader ls with h | ⟨pre, header, after, rfl, hpre, hheader⟩
  · exact .absent h
  · rcases exists_split b.closes after with h | ⟨sec, closing, rest, rfl, hsec, hclosing⟩
    · exact .opened ⟨hpre, hheader, h⟩
    · exact .closed ⟨hpre, hheader, hsec⟩ hclosing

section Parts
variable {b : Build} {pre sec rest : List Text} {header closing : Text}

theorem takeWhile_not_append {α : Type} {p : α → Bool} {l : List α} (h : ∀ x ∈ l, p x = false)
    {x : α} (hx : p x = true) (after : List α) :
    (l ++ x :: after).takeWhile (!p ·) = l ∧ (l ++ x :: after).dropWhile (!p ·) = x :: after := by
  have hall : ∀ y ∈ l, (!p y) = true := fun y hy => by rw [h y hy]; rfl
  refine ⟨?_, ?_⟩
  · rw [List.takeWhile_append_of_pos hall, List.takeWhile_cons_of_neg (by simp [hx]),
      List.append_nil]
  · rw [List.dropWhile_append_of_pos hall, List.dropWhile_cons_of_neg (by simp [hx])]

theorem takeWhile_not_all {α : Type} {p : α → Bool} {l : List α} (h : ∀ x ∈ l, p x = false) :
    l.takeWhile (!p ·) = l ∧ l.dropWhile (!p ·) = [] := by
  have hall : ∀ y ∈ l, (!p y) = true := fun y hy => by rw [h y hy]; rfl
  exact ⟨List.takeWhile_eq_self_iff.mpr hall, List.dropWhile_eq_nil_iff.mpr hall⟩

theorem parts_absent {ls : List Text} (h : ∀ l ∈ ls, isHeader l = false) :
    preamble ls = ls ∧ b.ffiLines ls = [] ∧ b.remainder ls = [] := by
  obtain ⟨htake, hdrop⟩ := takeWhile_not_all h
  refine ⟨htake, ?_, ?_⟩
  · rw [ffiLines, hdrop]
    rfl
  · rw [remainder, hdrop]
    rfl

theorem parts_opened (hopens : b.Opens pre header sec) :
    preamble (pre ++ header :: sec) = pre ∧ b.ffiLines (pre ++ header :: sec) = sec ∧
      b.remainder (pre ++ header :: sec) = [] := by
  obtain ⟨htake, hdrop⟩ := takeWhile_not_append hopens.before hopens.header sec
  obtain ⟨hsecTake, hsecDrop⟩ := takeWhile_not_all hopens.inside
  exact ⟨htake, by rw [ffiLines, hdrop]; exact hsecTake, by rw [remainder, hdrop]; exact hsecDrop⟩

theorem parts_closed (hopens : b.Opens pre header sec) (hclosing : b.closes closing = true) :
    preamble (pre ++ header :: (sec ++ closing :: rest)) = pre ∧
      b.ffiLines (pre ++ header :: (sec ++ closing :: rest)) = sec ∧
      b.remainder (pre ++ header :: (sec ++ closing :: rest)) = closing :: rest := by
  obtain ⟨htake, hdrop⟩ := takeWhile_not_append hopens.before hopens.header (sec ++ closing :: rest)
  obtain ⟨hsecTake, hsecDrop⟩ := takeWhile_not_append hopens.inside hclosing rest
  exact ⟨htake, by rw [ffiLines, hdrop]; exact hsecTake, by rw [remainder, hdrop]; exact hsecDrop⟩

theorem Opens.append (hopens : b.Opens pre header sec) (hrest : ∀ l ∈ rest, b.closes l = false) :
    b.Opens pre header (sec ++ rest) :=
  ⟨hopens.before, hopens.header, List.forall_mem_append.mpr ⟨hopens.inside, hrest⟩⟩

theorem Opens.rewrite (hopens : b.Opens pre header sec) :
    b.Opens pre header (sec.map b.rewrite) := by
  refine ⟨hopens.before, hopens.header, fun l hl => ?_⟩
  obtain ⟨line, hline, rfl⟩ := List.mem_map.mp hl
  exact closes_rewrite (hopens.inside line hline)

theorem closes_entries {l : List Text} (h : ∀ so ∈ l, so ∈ b.so_files) :
    ∀ line ∈ l.map b.entry, b.closes line = false := by
  intro line hline
  obtain ⟨so, hso, rfl⟩ := List.mem_map.mp hline
  exact closes_entry (h so hso)

end Parts

/-! ### What is written for each shape -/

section Written
variable (b : Build)

/-- The lines after the section, where nothing is missing any more. -/
def settle : Bool → List Text → List Text
  | _, [] => []
  | in_ffi, line :: ls =>
    (if in_ffi then b.rewrite line else line) :: settle (b.nextFfi in_ffi line) ls

variable {b} {pre sec rest ls : List Text} {so header closing : Text}

theorem settle_outside (hpre : ∀ l ∈ pre, isHeader l = false) (ls : List Text) :
    b.settle false (pre ++ ls) = pre ++ b.settle false ls := by
  induction pre with
  | nil => rfl
  | cons line pre ih =>
    obtain ⟨hline, hpre⟩ := List.forall_mem_cons.mp hpre
    have hnext : b.nextFfi false line = false := by simp [nextFfi, hline]
    rw [List.cons_append, settle, hnext, ih hpre]
    rfl

theorem missing_eq_nil {processed : List Text} (h : ∀ so ∈ b.so_files, so ∈ processed) :
    b.missing processed = [] := by
  rw [missing, List.filter_eq_nil_iff]
  intro so hso
  simpa using h so hso

theorem scan_settled {processed : List Text} (h : ∀ so ∈ b.so_files, so ∈ processed)
    (in_ffi : Bool) (ls : List Text) :
    b.scan in_ffi processed ls = b.settle in_ffi ls ∧
      ∀ so ∈ b.so_files, so ∈ b.processedBy in_ffi processed ls := by
  induction ls generalizing in_ffi processed with
  | nil => exact ⟨rfl, h⟩
  | cons line ls ih =>
    have hmore : ∀ so ∈ b.so_files, so ∈ b.takes in_ffi processed line ++ processed :=
      fun so hso => List.mem_append_right _ (h so hso)
    obtain ⟨hscan, hprocessed⟩ := ih hmore (b.nextFfi in_ffi line)
    refine ⟨?_, hprocessed⟩
    rw [scan, hscan, settle, emits, missing_eq_nil h]
    cases in_ffi <;> simp

theorem scan_outside (hpre : ∀ l ∈ pre, isHeader l = false) (processed ls : List Text) :
    b.scan false processed (pre ++ ls) = pre ++ b.scan false processed ls ∧
      b.processedBy false processed (pre ++ ls) = b.processedBy false processed ls := by
  induction pre with
  | nil => exact ⟨rfl, rfl⟩
  | cons line pre ih =>
    obtain ⟨hline, hpre⟩ := List.forall_mem_cons.mp hpre
    obtain ⟨hscan, hprocessed⟩ := ih hpre
    have hnext : b.nextFfi false line = false := by simp [nextFfi, hline]
    rw [List.cons_append, scan, processedBy, hnext]
    exact ⟨congrArg (line :: ·) hscan, hprocessed⟩

theorem scan_header (hheader : isHeader header = true) (in_ffi : Bool)
    (processed ls : List Text) :
    b.scan in_ffi processed (header :: ls) = header :: b.scan true processed ls ∧
      b.processedBy in_ffi processed (header :: ls) = b.processedBy true processed ls := by
  have hnext : b.nextFfi in_ffi header = true := by simp [nextFfi, hheader]
  have hcloses := closes_of_header (b := b) hheader
  have htaken := taken_of_header (b := b) hheader
  rw [scan, processedBy, hnext, emits, takes, hcloses, htaken, rewrite_of_none htaken]
  cases in_ffi <;> exact ⟨rfl, rfl⟩

theorem scan_inside (hsec : ∀ l ∈ sec, b.closes l = false) (processed ls : List Text) :
    b.scan true processed (sec ++ ls) =
        sec.map b.rewrite ++ b.scan true ((b.files sec).reverse ++ processed) ls ∧
      b.processedBy true processed (sec ++ ls) =
        b.processedBy true ((b.files sec).reverse ++ processed) ls := by
  induction sec generalizing processed with
  | nil => exact ⟨rfl, rfl⟩
  | cons line sec ih =>
    obtain ⟨hline, hsec⟩ := List.forall_mem_cons.mp hsec
    have hnext : b.nextFfi true line = true := by simp [nextFfi, hline]
    have hfiles : (b.files (line :: sec)).reverse ++ processed =
        (b.files sec).reverse ++ ((b.taken line).toList ++ processed) := by
      rw [files_cons]
      cases b.taken line <;> simp
    obtain ⟨hscan, hprocessed⟩ := ih hsec ((b.taken line).toList ++ processed)
    rw [List.cons_append, scan, processedBy, hnext, emits, takes, hline, hfiles]
    exact ⟨congrArg (b.rewrite line :: ·) hscan, hprocessed⟩

theorem scan_closing (hclosing : b.closes closing = true) (processed rest : List Text) :
    b.scan true processed (closing :: rest) =
        (b.missing processed).map b.entry ++ closing :: b.settle false rest ∧
      ∀ so ∈ b.so_files, so ∈ b.processedBy true processed (closing :: rest) := by
  have hall : ∀ so ∈ b.so_files, so ∈ (b.missing processed).reverse ++ processed := by
    intro so hso
    by_cases hin : so ∈ processed
    · exact List.mem_append_right _ hin
    · exact List.mem_append_left _ (List.mem_reverse.mpr (List.mem_filter.mpr ⟨hso, by simpa⟩))
  have hnext : b.nextFfi true closing = false := by
    simp [nextFfi, hclosing, header_of_closes hclosing]
  obtain ⟨hscan, hprocessed⟩ := scan_settled hall false rest
  rw [scan, processedBy, hnext, emits, takes, hclosing, rewrite_of_none (taken_of_closes hclosing)]
  refine ⟨?_, hprocessed⟩
  simp only [if_true, hscan]
  rw [List.append_assoc]
  rfl

/-- A section that is added at the end. -/
def appended (b : Build) : List Text := text "\nffi:\n" :: b.so_files.map b.entry

theorem missing_files (sec : List Text) :
    b.missing (b.files sec).reverse = b.missing (b.files sec) := by
  refine List.filter_congr fun so _ => ?_
  simp

theorem updated_absent (h : ∀ l ∈ ls, isHeader l = false) : b.updated ls = ls ++ b.appended := by
  obtain ⟨hscan, hprocessed⟩ := scan_outside (b := b) h [] []
  rw [List.append_nil] at hscan hprocessed
  rw [updated_eq, hscan, hprocessed]
  simp [scan, processedBy, appended]

/-- The passes up to the end of a section. -/
theorem scan_section (hopens : b.Opens pre header sec) (ls : List Text) :
    b.scan false [] (pre ++ header :: (sec ++ ls)) =
        pre ++ header :: (sec.map b.rewrite ++ b.scan true (b.files sec).reverse ls) ∧
      b.processedBy false [] (pre ++ header :: (sec ++ ls)) =
        b.processedBy true (b.files sec).reverse ls := by
  obtain ⟨hpreScan, hpreProcessed⟩ := scan_outside (b := b) hopens.before [] (header :: (sec ++ ls))
  obtain ⟨hheadScan, hheadProcessed⟩ := scan_header (b := b) hopens.header false [] (sec ++ ls)
  obtain ⟨hsecScan, hsecProcessed⟩ := scan_inside hopens.inside [] ls
  rw [List.append_nil] at hsecScan hsecProcessed
  rw [hpreScan, hheadScan, hsecScan, hpreProcessed, hheadProcessed, hsecProcessed]
  exact ⟨rfl, rfl⟩

theorem scan_opened (hopens : b.Opens pre header sec) :
    b.scan false [] (pre ++ header :: sec) = pre ++ header :: sec.map b.rewrite ∧
      b.processedBy false [] (pre ++ header :: sec) = (b.files sec).reverse := by
  obtain ⟨hscan, hprocessed⟩ := scan_section hopens []
  rw [List.append_nil] at hscan hprocessed
  rw [hscan, hprocessed, scan, processedBy, List.append_nil]
  exact ⟨rfl, rfl⟩

theorem map_rewrite_eq_iff : sec.map b.rewrite = sec ↔ ∀ l ∈ sec, b.rewrite l = l := by
  rw [← List.map_id sec, List.map_map, List.map_inj_left]
  simp

theorem map_rewrite_of_none (h : b.files sec = []) : sec.map b.rewrite = sec := by
  rw [files, List.filterMap_eq_nil_iff] at h
  exact map_rewrite_eq_iff.mpr fun l hl => rewrite_of_none (h l hl)

/-- A section without an entry that runs to the end of the file is left as it is, and
another one is added. -/
theorem updated_opened_none (hopens : b.Opens pre header sec) (hfiles : b.files sec = []) :
    b.updated (pre ++ header :: sec) = (pre ++ header :: sec) ++ b.appended := by
  obtain ⟨hscan, hprocessed⟩ := scan_opened hopens
  rw [updated_eq, hscan, hprocessed, hfiles, map_rewrite_of_none hfiles]
  rfl

/-- Files that it has no entry for are not added to one that has an entry. -/
theorem updated_opened (hopens : b.Opens pre header sec) (hfiles : b.files sec ≠ []) :
    b.updated (pre ++ header :: sec) = pre ++ header :: sec.map b.rewrite := by
  obtain ⟨hscan, hprocessed⟩ := scan_opened hopens
  rw [updated_eq, hscan, hprocessed, if_neg (by simpa using hfiles)]

/-- The lines of a section that was closed. -/
def completed (b : Build) (sec : List Text) : List Text :=
  sec.map b.rewrite ++ (b.missing (b.files sec)).map b.entry

theorem updated_closed (hso : b.so_files ≠ []) (hopens : b.Opens pre header sec)
    (hclosing : b.closes closing = true) :
    b.updated (pre ++ header :: (sec ++ closing :: rest)) =
      pre ++ header :: (b.completed sec ++ closing :: b.settle false rest) := by
  obtain ⟨hscan, hprocessed⟩ := scan_section hopens (closing :: rest)
  obtain ⟨hclosingScan, hall⟩ := scan_closing hclosing (b.files sec).reverse rest
  have hne : b.processedBy false [] (pre ++ header :: (sec ++ closing :: rest)) ≠ [] := by
    rw [hprocessed]
    obtain ⟨so, hmem⟩ := List.exists_mem_of_ne_nil _ hso
    exact List.ne_nil_of_mem (hall so hmem)
  rw [updated_eq, if_neg hne, hscan, hclosingScan, missing_files, completed, List.append_assoc]

theorem Opens.completed (hopens : b.Opens pre header sec) :
    b.Opens pre header (b.completed sec) :=
  hopens.rewrite.append (closes_entries fun _ hso => (List.mem_filter.mp hso).1)

theorem entry_mem_rewrite (h : so ∈ b.files sec) : b.entry so ∈ sec.map b.rewrite := by
  obtain ⟨line, hline, htaken⟩ := List.mem_filterMap.mp h
  exact List.mem_map.mpr ⟨line, hline, rewrite_of_taken htaken⟩

/-- A section that was closed has an entry for each file. -/
theorem entry_mem_completed (hso : so ∈ b.so_files) (sec : List Text) :
    b.entry so ∈ b.completed sec := by
  by_cases hmem : so ∈ b.files sec
  · exact List.mem_append_left _ (entry_mem_rewrite hmem)
  · exact List.mem_append_right _ (List.mem_map_of_mem (by simpa [missing, hso] using hmem))

end Written

end Build

end FalconStd.Scripts
