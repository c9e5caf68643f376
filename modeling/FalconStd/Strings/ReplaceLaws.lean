import Mathlib.Logic.Function.Iterate
import FalconStd.Foundation.Barrier
import FalconStd.Strings.Substitution

/-! What replacing does to what is already replaced.

A `to_` without a byte of `from_` is a barrier: no occurrence stands across it. So
`Replace`, done again and again, works from left to right as `ReplaceAll` does, and
neither finds anything in what it has written. A `to_` without a byte of the string is
found again just where it was put, and replacing it back gives the string. -/
namespace FalconStd.Strings
open Foundation Substring

variable {from_ to_ s pre : Bytes}

/-! ### Replacing the first occurrence -/

theorem replace_of_none (to_ : Bytes) (h : find? from_ s = none) : replace s from_ to_ = s := by
  rw [replace, h]

theorem replace_of_some (to_ : Bytes) {i : Nat} (h : find? from_ s = some i) :
    replace s from_ to_ = s.take i ++ to_ ++ s.drop (i + from_.length) := by
  rw [replace, h]
  rfl

/-- A search passes over this front, whatever is behind it. -/
def Passed (from_ pre : Bytes) : Prop :=
  ∀ r, find? from_ (pre ++ r) = (find? from_ r).map (· + pre.length)

/-- What was searched, and the barrier that was put there. -/
theorem passed_barrier (hfrom : from_ ≠ []) (hto : to_ ≠ []) (hapart : Apart to_ from_) {i : Nat}
    (h : find? from_ s = some i) : Passed from_ (s.take i ++ to_) := by
  intro r
  rw [List.append_assoc, find?_barrier hfrom hto hapart, find?_take hfrom h, Option.none_or,
    List.length_append]

theorem replace_passed (h : Passed from_ pre) (r to_ : Bytes) :
    replace (pre ++ r) from_ to_ = pre ++ replace r from_ to_ := by
  have hpre := h r
  cases hr : find? from_ r with
  | none => rw [replace_of_none to_ hr, replace_of_none to_ (by rw [hpre, hr]; rfl)]
  | some i =>
    have hat : find? from_ (pre ++ r) = some (i + pre.length) := by rw [hpre, hr]; rfl
    have hrest := ReplaceAll.replaceAt_cursor pre r (i := i) (n := from_.length) to_
    rw [replaceAt] at hrest
    rw [replace_of_some to_ hat, replace_of_some to_ hr, hrest]
    simp only [List.append_assoc]

theorem iterate_replace_passed (h : Passed from_ pre) (to_ : Bytes) (n : Nat) (r : Bytes) :
    (replace · from_ to_)^[n] (pre ++ r) = pre ++ (replace · from_ to_)^[n] r := by
  induction n generalizing r with
  | zero => rfl
  | succ n ih =>
    simp only [Function.iterate_succ, Function.comp_apply]
    rw [replace_passed h, ih]

/-! ### Again and again -/

/-- No occurrence is left. -/
theorem find?_substituted (hfrom : from_ ≠ []) (hto : to_ ≠ []) (hapart : Apart to_ from_)
    (s : Bytes) : find? from_ (substituted from_ to_ s) = none := by
  induction hn : s.length using Nat.strong_induction_on generalizing s with
  | _ n ih =>
    cases hs : find? from_ s with
    | none => rw [substituted_of_none hs, hs]
    | some i =>
      have hlt := length_drop_lt hfrom hs
      rw [substituted_of_some hfrom hs, passed_barrier hfrom hto hapart hs, ih _ (by omega) _ rfl]
      rfl

/-- Each pass of `Replace` finds the occurrence that `ReplaceAll` goes on with. -/
theorem iterate_replace (hfrom : from_ ≠ []) (hto : to_ ≠ []) (hapart : Apart to_ from_)
    (s : Bytes) {n : Nat} (hn : s.length ≤ n) :
    (replace · from_ to_)^[n] s = substituted from_ to_ s := by
  induction n generalizing s with
  | zero =>
    obtain rfl : s = [] := List.length_eq_zero_iff.mp (Nat.le_zero.mp hn)
    exact (substituted_of_none (find?_nil hfrom)).symm
  | succ n ih =>
    rw [Function.iterate_succ, Function.comp_apply]
    cases hs : find? from_ s with
    | none =>
      have hsame : replace s from_ to_ = s := replace_of_none to_ hs
      rw [substituted_of_none hs, hsame, Function.iterate_fixed hsame]
    | some i =>
      have hlt := length_drop_lt hfrom hs
      rw [substituted_of_some hfrom hs, replace_of_some to_ hs,
        iterate_replace_passed (passed_barrier hfrom hto hapart hs), ih _ (by omega)]

/-- **A `to_` that shares no byte with `from_` leaves no `from_`**: `ReplaceAll` is
`Replace` done as often as the string is long or more often, and to do it again changes
nothing. -/
theorem replaceAll_exhausts (s from_ to_ : Bytes) (hfrom : from_ ≠ []) (hto : to_ ≠ [])
    (hapart : ∀ b ∈ to_, b ∉ from_) :
    ∃ t, (∀ fuel, s.length < fuel → replaceAll fuel s from_ to_ = some (.ok t)) ∧
      (∀ n, s.length ≤ n → (replace · from_ to_)^[n] s = t) ∧
      contains t from_ = false ∧ indexOf t from_ = -1 ∧
      ∀ fuel, t.length < fuel → replaceAll fuel t from_ to_ = some (.ok t) := by
  have hnone := find?_substituted hfrom hto hapart s
  refine ⟨substituted from_ to_ s, fun fuel => replaceAll_eq hfrom s to_ fuel,
    fun n => iterate_replace hfrom hto hapart s, ?_, ?_, ?_⟩
  · rw [contains, hnone]
    rfl
  · rw [indexOf, hnone]
  · intro fuel hfuel
    rw [replaceAll_eq hfrom _ to_ fuel hfuel, substituted_of_none hnone]

theorem replaceAll_exhausts_overlap :
    ∃ t, (∀ fuel, (text "aaaaa").length < fuel →
        replaceAll fuel (text "aaaaa") (text "aa") (text "-") = some (.ok t)) ∧
      (∀ n, (text "aaaaa").length ≤ n → (replace · (text "aa") (text "-"))^[n] (text "aaaaa") = t) ∧
      contains t (text "aa") = false ∧ indexOf t (text "aa") = -1 ∧
      ∀ fuel, t.length < fuel → replaceAll fuel t (text "aa") (text "-") = some (.ok t) :=
  replaceAll_exhausts (text "aaaaa") (text "aa") (text "-") (by decide) (by decide)
    (show Apart (text "-") (text "aa") by decide)

/-! ### There and back -/

theorem find?_fresh (hto : to_ ≠ []) (hfresh : Apart s to_) : find? to_ s = none := by
  have hforeign := find?_foreign hto hfresh []
  rwa [List.append_nil, find?_nil hto] at hforeign

/-- Behind foreign bytes the word is found where it is put. -/
theorem find?_placed (hto : to_ ≠ []) (hfresh : Apart s to_) (r : Bytes) :
    find? to_ (s ++ (to_ ++ r)) = some s.length := by
  rw [find?_foreign hto hfresh, find?_append]
  simp

theorem substituted_back (hfrom : from_ ≠ []) (hto : to_ ≠ []) (s : Bytes)
    (hfresh : Apart s to_) : substituted to_ from_ (substituted from_ to_ s) = s := by
  induction hn : s.length using Nat.strong_induction_on generalizing s with
  | _ n ih =>
    cases hs : find? from_ s with
    | none => rw [substituted_of_none hs, substituted_of_none (find?_fresh hto hfresh)]
    | some i =>
      have hlt := length_drop_lt hfrom hs
      have hfront : Apart (s.take i) to_ := fun b hb => hfresh b (List.mem_of_mem_take hb)
      have hrest : Apart (s.drop (i + from_.length)) to_ :=
        fun b hb => hfresh b (List.mem_of_mem_drop hb)
      have hat := find?_placed hto hfront
        (substituted from_ to_ (s.drop (i + from_.length)))
      rw [substituted_of_some hfrom hs, List.append_assoc, substituted_of_some hto hat,
        List.take_left, ← List.drop_drop, List.drop_left, List.drop_left,
        ih _ (by omega) _ hrest rfl, List.append_assoc]
      exact (find?_eq_some_iff.mp hs).1.eq_append.symm

/-- **A `to_` without a byte of the string can be replaced back.** -/
theorem replaceAll_back (s from_ to_ : Bytes) (hto : to_ ≠ []) (hfresh : ∀ b ∈ s, b ∉ to_) :
    ∃ t, (∀ fuel, s.length < fuel → replaceAll fuel s from_ to_ = some (.ok t)) ∧
      ∀ fuel, t.length < fuel → replaceAll fuel t to_ from_ = some (.ok s) := by
  by_cases hfrom : from_ = []
  · refine ⟨s, fun fuel _ => by rw [replaceAll, if_pos hfrom], ?_⟩
    intro fuel hfuel
    rw [replaceAll_eq hto s from_ fuel hfuel, substituted_of_none (find?_fresh hto hfresh)]
  · refine ⟨substituted from_ to_ s, fun fuel => replaceAll_eq hfrom s to_ fuel, ?_⟩
    intro fuel hfuel
    rw [replaceAll_eq hto _ from_ fuel hfuel, substituted_back hfrom hto s hfresh]

/-- An overlapping word, and a placeholder for it. -/
theorem replaceAll_back_overlap :
    text "%%" ≠ [] ∧ (∀ b ∈ text "banana", b ∉ text "%%") ∧
      ∃ t, (∀ fuel, (text "banana").length < fuel →
          replaceAll fuel (text "banana") (text "ana") (text "%%") = some (.ok t)) ∧
        ∀ fuel, t.length < fuel →
          replaceAll fuel t (text "%%") (text "ana") = some (.ok (text "banana")) :=
  have hfresh : Apart (text "banana") (text "%%") := by decide
  ⟨by decide, hfresh, replaceAll_back (text "banana") (text "ana") (text "%%") (by decide) hfresh⟩

end FalconStd.Strings
