import Mathlib.Data.List.Perm.Basic
import FalconStd.Scripts.ManifestEntries

/-! The manifests that `update_manifest` leaves as they are.

An update rewrites lines and adds lines. No line end is lost, so where the file stays as
it is nothing is added, and every line of a section is what it is rewritten to
(`fixed_iff`). -/
namespace FalconStd.Scripts
open Foundation

namespace Build
variable {b : Build} {so line : Text} {pre sec rest ls : List Text} {header closing : Text}

/-! ### Rewriting without adding -/

theorem settle_header (hheader : isHeader header = true) (in_ffi : Bool) (ls : List Text) :
    b.settle in_ffi (header :: ls) = header :: b.settle true ls := by
  have hnext : b.nextFfi in_ffi header = true := by simp [nextFfi, hheader]
  rw [settle, hnext, rewrite_of_none (taken_of_header hheader), ite_self]

theorem settle_inside (hsec : ∀ l ∈ sec, b.closes l = false) (ls : List Text) :
    b.settle true (sec ++ ls) = sec.map b.rewrite ++ b.settle true ls := by
  induction sec with
  | nil => rfl
  | cons line sec ih =>
    obtain ⟨hline, hsec⟩ := List.forall_mem_cons.mp hsec
    have hnext : b.nextFfi true line = true := by simp [nextFfi, hline]
    rw [List.cons_append, settle, hnext, ih hsec]
    rfl

theorem settle_closing (hclosing : b.closes closing = true) (rest : List Text) :
    b.settle true (closing :: rest) = closing :: b.settle false rest := by
  have hnext : b.nextFfi true closing = false := by
    simp [nextFfi, hclosing, header_of_closes hclosing]
  rw [settle, hnext, rewrite_of_none (taken_of_closes hclosing), ite_self]

theorem settle_opened (hopens : b.Opens pre header sec) :
    b.settle false (pre ++ header :: sec) = pre ++ header :: sec.map b.rewrite := by
  have hinside := settle_inside hopens.inside []
  rw [List.append_nil, settle, List.append_nil] at hinside
  rw [settle_outside hopens.before, settle_header hopens.header, hinside]

theorem settle_closed (hopens : b.Opens pre header sec) (hclosing : b.closes closing = true) :
    b.settle false (pre ++ header :: (sec ++ closing :: rest)) =
      pre ++ header :: (sec.map b.rewrite ++ closing :: b.settle false rest) := by
  rw [settle_outside hopens.before, settle_header hopens.header, settle_inside hopens.inside,
    settle_closing hclosing]

/-- The lines that an update adds. -/
def added (b : Build) (ls : List Text) : List Text :=
  if b.remainder ls = [] then
    if b.files (b.ffiLines ls) = [] then b.appended else []
  else (b.missing (b.files (b.ffiLines ls))).map b.entry

theorem added_absent (hpre : ∀ l ∈ ls, isHeader l = false) : b.added ls = b.appended := by
  obtain ⟨-, hffi, hremainder⟩ := parts_absent (b := b) hpre
  rw [added, hffi, if_pos hremainder]
  rfl

theorem added_opened (hopens : b.Opens pre header sec) :
    b.added (pre ++ header :: sec) = if b.files sec = [] then b.appended else [] := by
  obtain ⟨-, hffi, hremainder⟩ := parts_opened hopens
  rw [added, hffi, if_pos hremainder]

theorem added_closed (hopens : b.Opens pre header sec) (hclosing : b.closes closing = true) :
    b.added (pre ++ header :: (sec ++ closing :: rest)) =
      (b.missing (b.files sec)).map b.entry := by
  obtain ⟨-, hffi, hremainder⟩ := parts_closed hopens hclosing
  rw [added, hffi, if_neg (by rw [hremainder]; exact List.cons_ne_nil closing rest)]

/-- An update rewrites, and adds at one place. -/
theorem updated_split (hne : b.so_files ≠ []) (ls : List Text) :
    ∃ before after, b.settle false ls = before ++ after ∧
      b.updated ls = before ++ (b.added ls ++ after) := by
  cases b.shape ls with
  | absent hpre =>
    refine ⟨ls, [], ?_, ?_⟩
    · simpa [settle] using settle_outside (b := b) hpre []
    · rw [updated_absent hpre, added_absent hpre, List.append_nil]
  | @opened pre sec header hopens =>
    refine ⟨b.settle false (pre ++ header :: sec), [], (List.append_nil _).symm, ?_⟩
    rw [settle_opened hopens, added_opened hopens, List.append_nil]
    by_cases hfiles : b.files sec = []
    · rw [updated_opened_none hopens hfiles, if_pos hfiles, map_rewrite_of_none hfiles]
    · rw [updated_opened hopens hfiles, if_neg hfiles, List.append_nil]
  | @closed pre sec rest header closing hopens hclosing =>
    refine ⟨pre ++ header :: sec.map b.rewrite, closing :: b.settle false rest, ?_, ?_⟩
    · rw [settle_closed hopens hclosing, List.append_assoc]
      rfl
    · rw [updated_closed hne hopens hclosing, added_closed hopens hclosing, completed,
        List.append_assoc, List.append_assoc]
      rfl

/-! ### No line end is lost -/

theorem rewrite_if (h : Read ls) (hl : line ∈ ls) (in_ffi : Bool) :
    (if in_ffi then b.rewrite line else line) = line ∨
      (Ended '\n' (if in_ffi then b.rewrite line else line) ∧
        '\r' ∉ if in_ffi then b.rewrite line else line) := by
  cases in_ffi with
  | false => exact .inl rfl
  | true => exact h.rewrite_cases hl

theorem settle_read (h : Read ls) (in_ffi : Bool) : Read (b.settle in_ffi ls) := by
  induction ls generalizing in_ffi with
  | nil => exact h
  | cons line ls ih =>
    rw [← List.singleton_append] at h
    have hsettled := ih h.right (b.nextFfi in_ffi line)
    rw [settle, ← List.singleton_append]
    rcases rewrite_if (b := b) h List.mem_cons_self in_ffi with heq | ⟨hended, hclean⟩
    · rw [heq]
      exact h.replace hsettled fun hnil => by rw [hnil]; rfl
    · have hendedAll := List.forall_mem_singleton.mpr hended
      exact Read.append ⟨cut_of_ended hendedAll, List.forall_mem_singleton.mpr hclean⟩ hendedAll
        hsettled

theorem count_settle (h : Read ls) (in_ffi : Bool) :
    ls.flatten.count '\n' ≤ (b.settle in_ffi ls).flatten.count '\n' := by
  induction ls generalizing in_ffi with
  | nil => exact Nat.le_refl _
  | cons line ls ih =>
    rw [← List.singleton_append] at h
    have hrest := ih h.right (b.nextFfi in_ffi line)
    rw [settle, List.flatten_cons, List.flatten_cons, List.count_append, List.count_append]
    refine Nat.add_le_add ?_ hrest
    rcases rewrite_if (b := b) h List.mem_cons_self in_ffi with heq | ⟨hended, -⟩
    · rw [heq]
    · rw [hended.count]
      exact h.cut.count_le List.mem_cons_self

theorem newline_mem_added {l : Text} (hl : l ∈ b.added ls) : '\n' ∈ l := by
  have hentries : ∀ {names : List Text}, l ∈ names.map b.entry → '\n' ∈ l := by
    intro names hmem
    obtain ⟨so, -, rfl⟩ := List.mem_map.mp hmem
    exact List.mem_append_right _ List.mem_cons_self
  rw [added] at hl
  split at hl
  · split at hl
    · rcases List.mem_cons.mp hl with rfl | hl
      · decide
      · exact hentries hl
    · cases hl
  · exact hentries hl

/-- What is added has line ends. -/
theorem count_updated (hne : b.so_files ≠ []) (h : Read ls) :
    ls.flatten.count '\n' + (b.added ls).flatten.count '\n' ≤
      (b.updated ls).flatten.count '\n' := by
  obtain ⟨before, after, hsettle, hupdated⟩ := updated_split hne ls
  have hkept := count_settle (b := b) h false
  rw [hsettle, List.flatten_append, List.count_append] at hkept
  rw [hupdated, List.flatten_append, List.flatten_append, List.count_append, List.count_append]
  omega

/-- An update writes the file as it was. -/
def Fixed (b : Build) (out : Text) : Prop := (b.updated (readlines out)).flatten = out

theorem fixed_iff (hne : b.so_files ≠ []) (out : Text) :
    b.Fixed out ↔
      '\r' ∉ out ∧ b.added (readlines out) = [] ∧
        b.settle false (readlines out) = readlines out := by
  have hread := read_readlines out
  have hplain : b.added (readlines out) = [] →
      b.updated (readlines out) = b.settle false (readlines out) := by
    intro hadded
    obtain ⟨before, after, hsettle, hupdated⟩ := updated_split hne (readlines out)
    rw [hupdated, hadded, hsettle]
    rfl
  refine ⟨fun hfixed => ?_, fun h => ?_⟩
  · rw [Fixed] at hfixed
    have hadded : b.added (readlines out) = [] := by
      have hcount := count_updated hne hread
      rw [hfixed, flatten_readlines] at hcount
      have hnewlines := count_newlines out
      have hzero : (b.added (readlines out)).flatten.count '\n' = 0 := by omega
      refine List.eq_nil_iff_forall_not_mem.mpr fun l hl => ?_
      exact List.count_eq_zero.mp hzero (List.mem_flatten.mpr ⟨l, hl, newline_mem_added hl⟩)
    have hsettled : Read (b.settle false (readlines out)) := settle_read hread false
    rw [hplain hadded] at hfixed
    have hclean : '\r' ∉ out := hfixed ▸ hsettled.not_mem_flatten
    refine ⟨hclean, hadded, ?_⟩
    have hlines := hsettled.readlines_flatten
    rw [hfixed] at hlines
    exact hlines.symm
  · obtain ⟨hclean, hadded, hsettle⟩ := h
    rw [Fixed, hplain hadded, hsettle, flatten_readlines, newlines_of_not_mem hclean]

end Build

end FalconStd.Scripts
