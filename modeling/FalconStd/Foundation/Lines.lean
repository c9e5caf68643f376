import Mathlib.Data.List.Basic
import Mathlib.Data.List.Count

/-! Texts cut into lines.

`lines` cuts a text after each terminator, so a line keeps its own, and the last one may
be without. `Cut` says that a list of pieces is the lines of a text: joined and cut
again it is the same. -/
namespace Foundation

variable {α : Type*}

def lines [DecidableEq α] (nl : α) : List α → List (List α)
  | [] => []
  | c :: s =>
    if c = nl then [c] :: lines nl s
    else
      match lines nl s with
      | [] => [[c]]
      | l :: rest => (c :: l) :: rest

/-- A line with its terminator. -/
def Ended (nl : α) (l : List α) : Prop := ∃ body, nl ∉ body ∧ l = body ++ [nl]

/-- The pieces are lines, and only the last one may lack its terminator. -/
inductive Cut (nl : α) : List (List α) → Prop where
  | nil : Cut nl []
  | last {l : List α} (hne : l ≠ []) (h : nl ∉ l) : Cut nl [l]
  | cons {l : List α} {rest : List (List α)} (h : Ended nl l) (hrest : Cut nl rest) :
      Cut nl (l :: rest)

variable {nl : α} {l : List α} {ls ls' : List (List α)}

theorem Ended.cons {c : α} (hc : c ≠ nl) (h : Ended nl l) : Ended nl (c :: l) := by
  obtain ⟨body, hbody, rfl⟩ := h
  exact ⟨c :: body, fun hmem => (List.mem_cons.mp hmem).elim (fun h => hc h.symm) hbody, rfl⟩

section Cutting
variable [DecidableEq α]

theorem lines_ended (h : Ended nl l) (s : List α) : lines nl (l ++ s) = l :: lines nl s := by
  obtain ⟨body, hbody, rfl⟩ := h
  induction body with
  | nil => simp [lines]
  | cons c body ih =>
    obtain ⟨hc, hrest⟩ := not_or.mp (mt List.mem_cons.mpr hbody)
    have ih := ih hrest
    rw [List.cons_append, List.cons_append, lines, if_neg fun h => hc h.symm, ih]

theorem lines_unended (hne : l ≠ []) (h : nl ∉ l) : lines nl l = [l] := by
  induction l with
  | nil => exact absurd rfl hne
  | cons c l ih =>
    obtain ⟨hc, hrest⟩ := not_or.mp (mt List.mem_cons.mpr h)
    rw [lines, if_neg fun h => hc h.symm]
    cases l with
    | nil => rfl
    | cons d l => rw [ih (List.cons_ne_nil d l) hrest]

theorem cut_lines (s : List α) : Cut nl (lines nl s) := by
  induction s with
  | nil => exact .nil
  | cons c s ih =>
    rw [lines]
    by_cases hc : c = nl
    · rw [if_pos hc]
      exact .cons ⟨[], List.not_mem_nil, by rw [hc]; rfl⟩ ih
    · rw [if_neg hc]
      generalize lines nl s = ls at ih
      cases ih with
      | nil => exact .last (List.cons_ne_nil c []) (by simpa using fun h => hc h.symm)
      | last hne h =>
        refine .last (List.cons_ne_nil c _) ?_
        exact mt List.mem_cons.mp (not_or.mpr ⟨fun heq => hc heq.symm, h⟩)
      | cons h hrest => exact .cons (h.cons hc) hrest

theorem flatten_lines (s : List α) : (lines nl s).flatten = s := by
  induction s with
  | nil => rfl
  | cons c s ih =>
    rw [lines]
    split
    · simp [ih]
    · generalize lines nl s = ls at ih
      cases ls with
      | nil => simpa using ih
      | cons l rest => simpa using ih

/-- Joined and cut again the lines are the same. -/
theorem Cut.lines_flatten (h : Cut nl ls) : lines nl ls.flatten = ls := by
  induction h with
  | nil => rfl
  | last hne h => rw [List.flatten_singleton, lines_unended hne h]
  | cons h _ ih => rw [List.flatten_cons, lines_ended h, ih]

end Cutting

/-! ### Putting lines together -/

theorem Cut.append (hls : ∀ l ∈ ls, Ended nl l) (h : Cut nl ls') : Cut nl (ls ++ ls') := by
  induction ls with
  | nil => exact h
  | cons l ls ih =>
    obtain ⟨hl, hrest⟩ := List.forall_mem_cons.mp hls
    exact .cons hl (ih hrest)

theorem cut_of_ended (hls : ∀ l ∈ ls, Ended nl l) : Cut nl ls := by
  rw [← List.append_nil ls]
  exact .append hls .nil

/-- What has lines after it is ended. -/
theorem Cut.ended_left (h : Cut nl (ls ++ ls')) (hne : ls' ≠ []) : ∀ l ∈ ls, Ended nl l := by
  induction ls with
  | nil => simp
  | cons l ls ih =>
    rw [List.cons_append] at h
    generalize hrest : ls ++ ls' = rest at h
    cases h with
    | last => exact absurd (List.append_eq_nil_iff.mp hrest).2 hne
    | cons hl hcut => exact List.forall_mem_cons.mpr ⟨hl, ih (hrest ▸ hcut)⟩

theorem Cut.right (h : Cut nl (ls ++ ls')) : Cut nl ls' := by
  induction ls with
  | nil => exact h
  | cons l ls ih =>
    rw [List.cons_append] at h
    generalize hrest : ls ++ ls' = rest at h
    cases h with
    | last =>
      rw [(List.append_eq_nil_iff.mp hrest).2]
      exact .nil
    | cons hl hcut => exact ih (hrest ▸ hcut)

/-- Lines rewritten one by one, to ended lines or not at all. -/
theorem Cut.map {f : List α → List α} (h : Cut nl ls) (hf : ∀ l ∈ ls, f l = l ∨ Ended nl (f l)) :
    Cut nl (ls.map f) := by
  induction h with
  | nil => exact .nil
  | @last l hne h =>
    rcases hf l List.mem_cons_self with heq | hended
    · exact .last (heq.symm ▸ hne) (heq.symm ▸ h)
    · exact .cons hended .nil
  | @cons l rest h _ ih =>
    obtain ⟨hl, hrest⟩ := List.forall_mem_cons.mp hf
    refine .cons ?_ (ih hrest)
    rcases hl with heq | hended
    · exact heq.symm ▸ h
    · exact hended

theorem ended_map {f : List α → List α} (hls : ∀ l ∈ ls, Ended nl l)
    (hf : ∀ l ∈ ls, f l = l ∨ Ended nl (f l)) : ∀ l ∈ ls.map f, Ended nl l := by
  intro l hl
  obtain ⟨m, hm, rfl⟩ := List.mem_map.mp hl
  rcases hf m hm with heq | hended
  · exact heq.symm ▸ hls m hm
  · exact hended

/-- A line has no terminator but its own. -/
theorem Cut.line (h : Cut nl ls) (hl : l ∈ ls) : Ended nl l ∨ nl ∉ l := by
  induction h with
  | nil => cases hl
  | last hne h =>
    rw [List.mem_singleton] at hl
    exact .inr (hl ▸ h)
  | cons h _ ih =>
    rcases List.mem_cons.mp hl with rfl | hl
    · exact .inl h
    · exact ih hl

theorem Ended.count [DecidableEq α] (h : Ended nl l) : l.count nl = 1 := by
  obtain ⟨body, hbody, rfl⟩ := h
  rw [List.count_append, List.count_eq_zero.mpr hbody, List.count_singleton_self]

theorem Cut.count_le [DecidableEq α] (h : Cut nl ls) (hl : l ∈ ls) : l.count nl ≤ 1 := by
  rcases h.line hl with hended | hnot
  · exact Nat.le_of_eq hended.count
  · rw [List.count_eq_zero.mpr hnot]
    exact Nat.zero_le 1

/-- A text that is ended is cut by itself. -/
theorem lines_append_ended [DecidableEq α] (s t : List α) :
    lines nl (s ++ nl :: t) = lines nl (s ++ [nl]) ++ lines nl t := by
  induction s with
  | nil => simp [lines]
  | cons c s ih =>
    rw [List.cons_append, List.cons_append, lines, lines, ih]
    split
    · rfl
    · generalize hlines : lines nl (s ++ [nl]) = ls
      cases ls with
      | nil =>
        have hflat : (lines nl (s ++ [nl])).flatten = s ++ [nl] := flatten_lines _
        rw [hlines] at hflat
        simp at hflat
      | cons l rest => rfl

/-! ### A terminator more -/

section Finish
variable [DecidableEq α]

/-- The lines with a terminator after them: it ends the last line, or is one. -/
def finish (nl : α) : List (List α) → List (List α)
  | [] => [[nl]]
  | [l] => if nl ∈ l then [l, [nl]] else [l ++ [nl]]
  | l :: l' :: ls => l :: finish nl (l' :: ls)

theorem flatten_finish (nl : α) (ls : List (List α)) :
    (finish nl ls).flatten = ls.flatten ++ [nl] := by
  induction ls with
  | nil => rfl
  | cons l ls ih =>
    cases ls with
    | nil =>
      rw [finish]
      split <;> simp
    | cons l' ls =>
      rw [finish, List.flatten_cons, ih, List.flatten_cons (l := l), List.append_assoc]

theorem finish_append (ls : List (List α)) (l : List α) (rest : List (List α)) :
    finish nl (ls ++ l :: rest) = ls ++ finish nl (l :: rest) := by
  induction ls with
  | nil => rfl
  | cons l' ls ih =>
    rw [List.cons_append, List.cons_append, ← ih]
    cases ls <;> rfl

theorem Cut.finish_cases (h : Cut nl ls) :
    ((∀ l ∈ ls, Ended nl l) ∧ finish nl ls = ls ++ [[nl]]) ∨
      ∃ init last, ls = init ++ [last] ∧ (∀ l ∈ init, Ended nl l) ∧ last ≠ [] ∧ nl ∉ last ∧
        finish nl ls = init ++ [last ++ [nl]] := by
  induction h with
  | nil => exact .inl ⟨by simp, rfl⟩
  | @last l hne h => exact .inr ⟨[], l, rfl, by simp, hne, h, if_neg h⟩
  | @cons l rest hl hrest ih =>
    cases rest with
    | nil =>
      refine .inl ⟨by simpa using hl, ?_⟩
      obtain ⟨body, -, rfl⟩ := hl
      exact if_pos (by simp)
    | cons l' ls =>
      rcases ih with ⟨hall, hfinish⟩ | ⟨init, last, hsplit, hinit, hne, hlast, hfinish⟩
      · exact .inl ⟨List.forall_mem_cons.mpr ⟨hl, hall⟩, by rw [finish, hfinish]; rfl⟩
      · exact .inr ⟨l :: init, last, by rw [hsplit]; rfl,
          List.forall_mem_cons.mpr ⟨hl, hinit⟩, hne, hlast, by rw [finish, hfinish]; rfl⟩

theorem Cut.ended_finish (h : Cut nl ls) : ∀ l ∈ finish nl ls, Ended nl l := by
  rcases h.finish_cases with ⟨hall, hfinish⟩ | ⟨init, last, -, hinit, -, hlast, hfinish⟩
  · rw [hfinish]
    exact List.forall_mem_append.mpr ⟨hall, by simpa using ⟨[], List.not_mem_nil, rfl⟩⟩
  · rw [hfinish]
    exact List.forall_mem_append.mpr ⟨hinit, by simpa using ⟨last, hlast, rfl⟩⟩

/-- Ended lines, and then any text. -/
theorem lines_flatten_append (hls : ∀ l ∈ ls, Ended nl l) (s : List α) :
    lines nl (ls.flatten ++ s) = ls ++ lines nl s := by
  induction ls with
  | nil => rfl
  | cons l ls ih =>
    obtain ⟨hl, hrest⟩ := List.forall_mem_cons.mp hls
    rw [List.flatten_cons, List.append_assoc, lines_ended hl, ih hrest]
    rfl

end Finish

end Foundation
