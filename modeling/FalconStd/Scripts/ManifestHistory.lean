import FalconStd.Scripts.ManifestTwice

/-! Builds and updates in turn.

A package is built again and again, and its hashes are updated now and then. What a line
is taken for is decided by the listing of `build/` and not by the hashes
(`taken_entry_rebuilt`), so an update of an updated manifest writes what an update of the
original would. The manifest is then what its original text and the last update make it,
whatever was built in between. -/
namespace FalconStd.Scripts
open Foundation

/-- The end of a text whose last letter is not behind the seam is before it. -/
theorem infix_of_append {w : Text} {c : Char} {s t : Text} (h : w ++ [c] <:+: s ++ t)
    (hc : c ∉ t) : w ++ [c] <:+: s := by
  obtain ⟨x, y, hxy⟩ := h
  obtain ⟨z, hs, -⟩ | ⟨z, hs, ht⟩ := List.append_eq_append_iff.mp hxy
  · exact ⟨x, z, hs.symm⟩
  · rcases List.eq_nil_or_concat' z with rfl | ⟨z, d, rfl⟩
    · exact ⟨x, [], by simpa using hs⟩
    · have hlast : c = d := by
        rw [← List.append_assoc, ← List.append_assoc] at hs
        exact List.singleton_inj.mp (List.append_inj_right' hs rfl)
      refine absurd ?_ hc
      rw [ht, hlast]
      simp

namespace Build
variable {b b' : Build} {so line : Text} {pre sec rest ls : List Text} {header closing : Text}

/-! ### The same listing -/

section Rebuilt
variable (hsame : b'.so_files = b.so_files)
include hsame

theorem taken_rebuilt (line : Text) : b'.taken line = b.taken line := by
  rw [taken, taken, found_so, found_so, hsame]

theorem closes_rebuilt (line : Text) : b'.closes line = b.closes line := by
  rw [closes, closes, taken_rebuilt hsame]

theorem files_rebuilt (ls : List Text) : b'.files ls = b.files ls :=
  List.filterMap_congr fun line _ => taken_rebuilt hsame line

theorem nextFfi_rebuilt (in_ffi : Bool) (line : Text) :
    b'.nextFfi in_ffi line = b.nextFfi in_ffi line := by
  rw [nextFfi, nextFfi, closes_rebuilt hsame]

theorem ffiLines_rebuilt (ls : List Text) : b'.ffiLines ls = b.ffiLines ls := by
  simp only [ffiLines, closes_rebuilt hsame]

theorem remainder_rebuilt (ls : List Text) : b'.remainder ls = b.remainder ls := by
  simp only [remainder, closes_rebuilt hsame]

theorem Opens.rebuilt (hopens : b.Opens pre header sec) : b'.Opens pre header sec :=
  ⟨hopens.before, hopens.header, fun l hl => (closes_rebuilt hsame l).trans (hopens.inside l hl)⟩

end Rebuilt

/-- No letter of a hash ends the name of a file. -/
theorem named_iff (hso : so ∈ b.so_files) (so' : Text) :
    (basename so <:+: b.mark so' ∨ so <:+: b.mark so') ↔ basename so <:+: so' := by
  obtain ⟨f, hf, hsuffix, rfl⟩ := mem_so_files.mp hso
  obtain ⟨stem, rfl⟩ := hsuffix
  have hname : stem ++ text ".so" = (stem ++ text ".s") ++ ['o'] := by simp [text]
  have hnot : 'o' ∉ text ": " ++ b.hash_val so' := by
    intro hmem
    rcases List.mem_append.mp hmem with hmem | hmem
    · exact absurd hmem (by decide)
    · exact not_mem_hash_val (by decide) rfl so' hmem
  have hwithin : ∀ w : Text, w ++ ['o'] <:+: b.mark so' → w ++ ['o'] <:+: so' := by
    intro w hw
    rw [mark, List.append_assoc] at hw
    exact infix_of_append hw hnot
  rw [basename_so hf, hname]
  constructor
  · intro h
    rcases h with h | h
    · exact hwithin _ h
    · rw [← List.append_assoc] at h
      exact List.IsInfix.trans ⟨text "build/", [], by simp⟩ (hwithin _ h)
  · intro h
    refine .inl (h.trans ?_)
    rw [mark, List.append_assoc]
    exact (List.prefix_append _ _).isInfix

theorem taken_entry_iff_names (hso : so ∈ b.so_files) :
    b.taken (b.entry so) = some so ↔
      ∃ before after, b.so_files = before ++ so :: after ∧
        ∀ so' ∈ before, ¬ basename so' <:+: so := by
  rw [taken_entry_iff hso]
  refine exists_congr fun before => exists_congr fun after => and_congr_right fun hsplit => ?_
  refine forall₂_congr fun so' hso' => ?_
  have hmem : so' ∈ b.so_files := hsplit ▸ List.mem_append_left _ hso'
  rw [named_iff hmem]

/-- An entry with an old hash is found for its file as one with the new hash is. -/
theorem taken_entry_rebuilt (hsame : b'.so_files = b.so_files) (hso : so ∈ b.so_files) :
    b'.taken (b'.entry so) = some so ↔ b.taken (b.entry so) = some so := by
  rw [taken_entry_iff_names hso, taken_entry_iff_names (hsame ▸ hso), hsame]

theorem Steady.rebuilt (hsteady : b.Steady ls) (hclean : ∀ so ∈ b.so_files, Clean so)
    (hsame : b'.so_files = b.so_files) (hne : b.so_files ≠ []) : b'.Steady ls := by
  have hfiles : b'.files (b'.ffiLines ls) = b.files (b.ffiLines ls) := by
    rw [ffiLines_rebuilt hsame, files_rebuilt hsame]
  have hremainder := remainder_rebuilt hsame ls
  constructor
  case closed =>
    intro hclosed so hso
    rw [hremainder] at hclosed
    rw [hsame] at hso
    obtain ⟨hone, htaken⟩ := hsteady.closed hclosed so hso
    exact ⟨hone, (taken_entry_rebuilt hsame hso).mpr htaken⟩
  case opened =>
    intro hopened so hso
    rw [hremainder] at hopened
    rw [hfiles] at hso
    obtain ⟨line, -, hline⟩ := List.mem_filterMap.mp hso
    exact (taken_entry_rebuilt hsame (mem_of_taken hline)).mpr (hsteady.opened hopened so hso)
  case unended =>
    rw [hremainder, hfiles]
    exact hsteady.unended
  case added =>
    intro hopened hnone
    rw [hremainder] at hopened
    rw [hfiles] at hnone
    have htaken := (readsBack_iff_of_clean hne hclean).mp (hsteady.added hopened hnone)
    refine (readsBack_iff_of_clean (hsame.symm ▸ hne) (hsame.symm ▸ hclean)).mpr fun so hso => ?_
    rw [hsame] at hso
    exact (taken_entry_rebuilt hsame hso).mpr (htaken so hso)

/-! ### An update of an updated manifest -/

section Again
variable (hsame : b'.so_files = b.so_files)
include hsame

theorem rewrite_entry_rebuilt (htaken : b.taken (b.entry so) = some so) :
    b'.rewrite (b.entry so) = b'.entry so :=
  rewrite_of_taken ((taken_rebuilt hsame _).trans htaken)

theorem rewrite_rewrite
    (h : ∀ so, b.taken line = some so → b.taken (b.entry so) = some so) :
    b'.rewrite (b.rewrite line) = b'.rewrite line := by
  cases hline : b.taken line with
  | none => rw [rewrite_of_none hline]
  | some so =>
    rw [rewrite_of_taken hline, rewrite_entry_rebuilt hsame (h so hline),
      rewrite_of_taken ((taken_rebuilt hsame line).trans hline)]

theorem map_rewrite_rewrite (h : ∀ so ∈ b.files sec, b.taken (b.entry so) = some so) :
    (sec.map b.rewrite).map b'.rewrite = sec.map b'.rewrite := by
  rw [List.map_map]
  refine List.map_congr_left fun line hline => rewrite_rewrite hsame fun so hso => ?_
  exact h so (List.mem_filterMap.mpr ⟨line, hline, hso⟩)

theorem map_rewrite_entries (h : ∀ so ∈ b.so_files, b.taken (b.entry so) = some so)
    {l : List Text} (hl : ∀ so ∈ l, so ∈ b.so_files) :
    (l.map b.entry).map b'.rewrite = l.map b'.entry := by
  rw [List.map_map]
  exact List.map_congr_left fun so hso => rewrite_entry_rebuilt hsame (h so (hl so hso))

theorem settle_rebuilt (h : ∀ so ∈ b.so_files, b.taken (b.entry so) = some so) (in_ffi : Bool)
    (ls : List Text) : b'.settle in_ffi (b.settle in_ffi ls) = b'.settle in_ffi ls := by
  induction ls generalizing in_ffi with
  | nil => rfl
  | cons line ls ih =>
    rw [settle, settle, settle, nextFfi_rebuilt hsame, nextFfi_rewrite, ih, nextFfi_rebuilt hsame]
    refine congrArg (· :: _) ?_
    cases in_ffi with
    | false => rfl
    | true => exact rewrite_rewrite hsame fun so hso => h so (mem_of_taken hso)

theorem completed_rebuilt (h : ∀ so ∈ b.so_files, b.taken (b.entry so) = some so)
    (sec : List Text) : b'.completed (b.completed sec) = b'.completed sec := by
  have hmissing : ∀ so ∈ b.missing (b.files sec), so ∈ b.so_files :=
    fun so hso => (List.mem_filter.mp hso).1
  have hnone : b'.missing (b'.files (b.completed sec)) = [] := by
    refine missing_eq_nil fun so hso => ?_
    rw [hsame] at hso
    rw [files_rebuilt hsame]
    exact List.mem_filterMap.mpr ⟨b.entry so, entry_mem_completed hso sec, h so hso⟩
  have hfirst : b'.missing (b'.files sec) = b.missing (b.files sec) := by
    rw [missing, missing, hsame, files_rebuilt hsame]
  have hsec : (sec.map b.rewrite).map b'.rewrite = sec.map b'.rewrite := by
    refine map_rewrite_rewrite hsame fun so hso => ?_
    obtain ⟨line, -, hline⟩ := List.mem_filterMap.mp hso
    exact h so (mem_of_taken hline)
  rw [completed, hnone, List.map_nil, List.append_nil, completed, completed, hfirst,
    List.map_append, hsec, map_rewrite_entries hsame h hmissing]

/-- What was added to the end of the file is a section of its own, or goes on with one. -/
theorem updated_appended (hne : b.so_files ≠ []) (h : Read ls)
    (hclean : ∀ so ∈ b.so_files, Clean so)
    (htaken : ∀ so ∈ b.so_files, b.taken (b.entry so) = some so)
    (hlines : finish '\n' ls ++ [text "ffi:\n"] = pre ++ header :: sec)
    (hopens : b.Opens pre header sec) (hfiles : b.files sec = []) :
    (b'.updated (readlines (ls ++ b.appended).flatten)).flatten = (ls ++ b'.appended).flatten := by
  have hread : ∀ {b : Build}, (∀ so ∈ b.so_files, Clean so) →
      readlines (ls ++ b.appended).flatten =
        (finish '\n' ls ++ [text "ffi:\n"]) ++ b.so_files.map b.entry := by
    intro b hclean
    rw [readlines_appended_clean h hclean, List.append_assoc]
    rfl
  have hclean' : ∀ so ∈ b'.so_files, Clean so := hsame.symm ▸ hclean
  have hself : ∀ so ∈ b.so_files, so ∈ b.so_files := fun so hso => hso
  have hall := hopens.append (closes_entries hself)
  have hsome : b'.files (sec ++ b.so_files.map b.entry) ≠ [] := by
    obtain ⟨so, hso⟩ := List.exists_mem_of_ne_nil _ hne
    rw [files_rebuilt hsame]
    refine List.ne_nil_of_mem (List.mem_filterMap.mpr ⟨b.entry so, ?_, htaken so hso⟩)
    exact List.mem_append_right _ (List.mem_map_of_mem hso)
  have hkept : sec.map b'.rewrite = sec :=
    map_rewrite_of_none ((files_rebuilt hsame sec).trans hfiles)
  have hback : (readlines (ls ++ b'.appended).flatten).flatten = (ls ++ b'.appended).flatten := by
    rw [flatten_readlines]
    refine newlines_of_not_mem ?_
    rw [List.flatten_append, List.mem_append, not_or]
    exact ⟨h.not_mem_flatten, not_mem_appended.mpr fun so hso => (hclean' so hso).2⟩
  rw [← hback, hread hclean, hread hclean', hlines, List.append_assoc, List.cons_append,
    updated_opened (hall.rebuilt hsame) hsome, List.map_append, hkept,
    map_rewrite_entries hsame htaken hself, hsame, List.append_assoc, List.cons_append]

end Again

/-- A section without an entry whose last line has no end goes on with what is added. -/
theorem finish_unended (h : Read (pre ++ header :: sec)) (hopens : b.Opens pre header sec)
    (hfiles : b.files sec = []) (hunended : ∃ l ∈ pre ++ header :: sec, '\n' ∉ l) :
    ∃ header' sec', finish '\n' (pre ++ header :: sec) ++ [text "ffi:\n"] =
        pre ++ header' :: sec' ∧ b.Opens pre header' sec' ∧ b.files sec' = [] := by
  have hlast : ∃ l ∈ header :: sec, '\n' ∉ l := by
    obtain ⟨line, hline, hnot⟩ := hunended
    rcases List.mem_append.mp hline with hmem | hmem
    · obtain ⟨body, -, rfl⟩ := (h.left (List.cons_ne_nil header sec)).2 line hmem
      exact absurd (List.mem_append_right _ List.mem_cons_self) hnot
    · exact ⟨line, hmem, hnot⟩
  obtain ⟨header', sec', hfinish, hopens', hfiles'⟩ :=
    finish_opened h.right.cut hopens hfiles hlast
  have hffi : ∀ l ∈ [text "ffi:\n"], b.closes l = false :=
    List.forall_mem_singleton.mpr (closes_of_header header_ffi)
  refine ⟨header', sec' ++ [text "ffi:\n"], ?_, hopens'.append hffi, ?_⟩
  · rw [finish_append, hfinish, List.append_assoc]
    rfl
  · rw [files, List.filterMap_append, ← files, hfiles', List.nil_append,
      List.filterMap_cons_none (taken_of_header header_ffi), List.filterMap_nil]

/-- **An update of an updated manifest** writes what an update of the original does. -/
theorem updated_rebuilt (hsame : b'.so_files = b.so_files) (hne : b.so_files ≠ [])
    (h : Read ls) (hclean : ∀ so ∈ b.so_files, Clean so) (hsteady : b.Steady ls) :
    (b'.updated (readlines (b.updated ls).flatten)).flatten = (b'.updated ls).flatten := by
  have hne' : b'.so_files ≠ [] := hsame.symm ▸ hne
  cases b.shape ls with
  | absent hpre =>
    obtain ⟨-, hffi, hremainder⟩ := parts_absent (b := b) hpre
    have hback := hsteady.added hremainder (by rw [hffi]; rfl)
    have hopens : b.Opens (finish '\n' ls) (text "ffi:\n") [] :=
      ⟨header_finish h hpre, header_ffi, by simp⟩
    rw [updated_absent hpre, updated_absent hpre]
    exact updated_appended hsame hne h hclean ((readsBack_iff_of_clean hne hclean).mp hback) rfl
      hopens rfl
  | @opened pre sec header hopens =>
    obtain ⟨-, hffi, hremainder⟩ := parts_opened hopens
    have hopens' := hopens.rebuilt hsame
    by_cases hfiles : b.files sec = []
    · have hnone : b.files (b.ffiLines (pre ++ header :: sec)) = [] := hffi.symm ▸ hfiles
      have hback := hsteady.added hremainder hnone
      obtain ⟨headed, lines, hlines, hopened, hempty⟩ := finish_unended h hopens hfiles
        (hsteady.unended hremainder hnone
          ⟨header, List.mem_append_right _ List.mem_cons_self, hopens.header⟩)
      rw [updated_opened_none hopens hfiles,
        updated_opened_none hopens' ((files_rebuilt hsame sec).trans hfiles)]
      exact updated_appended hsame hne h hclean ((readsBack_iff_of_clean hne hclean).mp hback)
        hlines hopened hempty
    · have htaken := hsteady.opened hremainder
      rw [hffi] at htaken
      have hfiles' : b'.files sec ≠ [] := (files_rebuilt hsame sec).symm ▸ hfiles
      have hrewritten : b'.files (sec.map b.rewrite) ≠ [] := by
        obtain ⟨so, hso⟩ := List.exists_mem_of_ne_nil _ hfiles
        rw [files_rebuilt hsame]
        exact List.ne_nil_of_mem
          (List.mem_filterMap.mpr ⟨b.entry so, entry_mem_rewrite hso, htaken so hso⟩)
      rw [readlines_updated_opened h hopens hfiles,
        updated_opened (hopens.rewrite.rebuilt hsame) hrewritten,
        updated_opened hopens' hfiles', map_rewrite_rewrite hsame htaken]
  | @closed pre sec rest header closing hopens hclosing =>
    obtain ⟨-, -, hremainder⟩ := parts_closed hopens hclosing
    have htaken : ∀ so ∈ b.so_files, b.taken (b.entry so) = some so := by
      intro so hso
      refine (hsteady.closed ?_ so hso).2
      rw [hremainder]
      exact List.cons_ne_nil closing rest
    have htail : Read (closing :: b.settle false rest) := by
      rw [← settle_closing hclosing]
      exact settle_read (read_parts (b := b) h).2 true
    have hclosing' : b'.closes closing = true := (closes_rebuilt hsame closing).trans hclosing
    rw [updated_closed hne hopens hclosing, (read_closed h hclean htail).readlines_flatten,
      updated_closed hne' (hopens.completed.rebuilt hsame) hclosing',
      updated_closed hne' (hopens.rebuilt hsame) hclosing', completed_rebuilt hsame htaken,
      settle_rebuilt hsame htaken]

end Build

/-! ### Runs -/

inductive Event where
  | build (b : Build)
  | update

def perform (directory : Directory) : Event → Directory
  | .build b => { directory with build := some b }
  | .update => directory.afterUpdate

/-- The build that is there, and the one that was there at the last update. -/
def history (b : Build) (events : List Event) : Build × Option Build :=
  events.foldl (fun h e =>
    match e with
    | .build b => (b, h.2)
    | .update => (h.1, some h.1)) (b, none)

/-- The manifest that an update of the original makes. -/
def manifest (content : Text) : Option Build → Text
  | none => content
  | some b => (update_manifest ⟨some content, some b⟩).getD content

/-- Every build makes the same files, listed in the same order. -/
def SameListing (b : Build) (events : List Event) : Prop :=
  ∀ b', .build b' ∈ events → b'.so_files = b.so_files

theorem history_concat (b : Build) (events : List Event) (e : Event) :
    history b (events ++ [e]) =
      match e with
      | .build b' => (b', (history b events).2)
      | .update => ((history b events).1, some (history b events).1) := by
  rw [history, List.foldl_append]
  rfl

theorem history_same {b : Build} {events : List Event} (h : SameListing b events) :
    (history b events).1.so_files = b.so_files ∧
      ∀ b', (history b events).2 = some b' → b'.so_files = b.so_files := by
  induction events using List.reverseRecOn with
  | nil => exact ⟨rfl, fun b' hb' => by cases hb'⟩
  | append_singleton past e ih =>
    obtain ⟨hcurrent, hlast⟩ := ih fun b' hb' => h b' (List.mem_append_left _ hb')
    rw [history_concat]
    cases e with
    | build b' => exact ⟨h b' (List.mem_append_right _ (List.mem_singleton_self _)), hlast⟩
    | update =>
      refine ⟨hcurrent, fun b' hb' => ?_⟩
      rw [← Option.some.inj hb']
      exact hcurrent

theorem manifest_some {b : Build} (hne : b.so_files ≠ []) (content : Text) :
    manifest content (some b) = (b.updated (readlines content)).flatten := by
  rw [manifest, update_manifest_eq hne]
  rfl

theorem perform_update {b : Build} (hne : b.so_files ≠ []) (content : Text) :
    perform ⟨some content, some b⟩ .update = ⟨some (manifest content (some b)), some b⟩ := by
  rw [perform, afterUpdate_eq hne, manifest_some hne]

theorem afterUpdate_of_nil {b : Build} (hnil : b.so_files = []) (content : Text) :
    Directory.afterUpdate ⟨some content, some b⟩ = ⟨some content, some b⟩ := by
  have hnone : update_manifest ⟨some content, some b⟩ = none := if_pos hnil
  rw [Directory.afterUpdate, hnone]
  rfl

theorem manifest_of_nil {b : Build} (hnil : b.so_files = []) (content : Text) :
    manifest content (some b) = content := by
  have hnone : update_manifest ⟨some content, some b⟩ = none := if_pos hnil
  rw [manifest, hnone]
  rfl

/-- The state of a package that has been built and updated. -/
def Recorded (content : Text) (b : Build) (events : List Event) : Prop :=
  run perform ⟨some content, some b⟩ events =
    ⟨some (manifest content (history b events).2), some (history b events).1⟩

theorem recorded_of_nil {b : Build} (hnil : b.so_files = []) (content : Text) {events : List Event}
    (h : SameListing b events) : Recorded content b events := by
  induction events using List.reverseRecOn with
  | nil => rfl
  | append_singleton past e ih =>
    have hpast : SameListing b past := fun b' hb' => h b' (List.mem_append_left _ hb')
    have hcurrent := (history_same hpast).1.trans hnil
    have hkept : manifest content (history b past).2 = content := by
      cases hlast : (history b past).2 with
      | none => rfl
      | some b' => exact manifest_of_nil (((history_same hpast).2 b' hlast).trans hnil) content
    rw [Recorded, run_concat, ih hpast, history_concat, hkept]
    cases e with
    | build b' => rw [hkept]; rfl
    | update => rw [perform, afterUpdate_of_nil hcurrent, manifest_of_nil hcurrent]

theorem recorded_of_steady {b : Build} (hne : b.so_files ≠ []) {content : Text}
    (hclean : ∀ so ∈ b.so_files, Clean so) (hsteady : b.Steady (readlines content))
    {events : List Event} (h : SameListing b events) : Recorded content b events := by
  induction events using List.reverseRecOn with
  | nil => rfl
  | append_singleton past e ih =>
    have hpast : SameListing b past := fun b' hb' => h b' (List.mem_append_left _ hb')
    obtain ⟨hcurrent, hlast⟩ := history_same hpast
    rw [Recorded, run_concat, ih hpast, history_concat]
    cases e with
    | build b' => rfl
    | update =>
      have hne' : (history b past).1.so_files ≠ [] := hcurrent.symm ▸ hne
      rw [perform_update hne']
      refine congrArg (fun out => (⟨some out, some (history b past).1⟩ : Directory)) ?_
      cases hupdated : (history b past).2 with
      | none => rfl
      | some b' =>
        -- the last build before this one that was recorded
        have hsame := hlast b' hupdated
        have hne'' : b'.so_files ≠ [] := hsame.symm ▸ hne
        rw [manifest_some hne', manifest_some hne'', manifest_some hne']
        exact Build.updated_rebuilt (hcurrent.trans hsame.symm) hne'' (read_readlines content)
          (hsame.symm ▸ hclean) (hsteady.rebuilt hclean hsame hne)

/-- **Builds and updates leave what the last update would have made of the original**, in
every run in which the files keep their names and the order they are listed in, exactly if
a second update of the manifest changes nothing. -/
theorem manifest_forgets_iff (b : Build) (content : Text) (hclean : ∀ so ∈ b.so_files, Clean so) :
    (∀ events, SameListing b events → Recorded content b events) ↔
      b.so_files = [] ∨ b.Steady (readlines content) := by
  constructor
  · intro h
    by_cases hnil : b.so_files = []
    · exact .inl hnil
    · have hsame : SameListing b [.update, .update] := by
        intro b' hb'
        simp at hb'
      have htwice : perform (perform ⟨some content, some b⟩ .update) .update =
          perform ⟨some content, some b⟩ .update := by
        rw [perform_update hnil]
        exact (congrArg (perform · .update) (perform_update hnil content)).symm.trans
          (h [.update, .update] hsame)
      have hfixed : b.Fixed (b.updated (readlines content)).flatten := by
        rw [perform_update hnil, perform_update hnil, manifest_some hnil, manifest_some hnil]
          at htwice
        exact Option.some.inj (congrArg Directory.falcon_yml htwice)
      exact .inr ((Build.updated_twice_iff hnil (read_readlines content)).mp hfixed)
  · intro h events hsame
    by_cases hnil : b.so_files = []
    · exact recorded_of_nil hnil content hsame
    · exact recorded_of_steady hnil hclean (h.resolve_left hnil) hsame

/-- A section that an empty line closes, and one that ends with the text. -/
theorem manifest_forgets_pair :
    (∀ events, SameListing pair events → Recorded (text "ffi:\n\nname: a\n") pair events) ∧
      ¬ ∀ events, SameListing pair events → Recorded (text "ffi:\n") pair events := by
  have hclean : ∀ so ∈ pair.so_files, Clean so := by decide
  constructor
  · refine (manifest_forgets_iff pair _ hclean).mpr (.inr ⟨?_, ?_, ?_, ?_⟩)
    · decide
    · exact fun h => absurd h (by decide)
    · exact fun h => absurd h (by decide)
    · exact fun h => absurd h (by decide)
  · intro h
    rcases (manifest_forgets_iff pair _ hclean).mp h with hnil | hsteady
    · exact absurd hnil (by decide)
    · have hended : ¬ ∃ l ∈ readlines (text "ffi:\n"), '\n' ∉ l := by decide
      exact hended (hsteady.unended (by decide) (by decide) (by decide))

end FalconStd.Scripts
