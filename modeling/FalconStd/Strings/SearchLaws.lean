import FalconStd.Strings.Slices
import FalconStd.Strings.ReplaceLaws

/-! How the searching routines and `Substring` agree.

Each search is what a slice shows: a string begins with a word, ends with it or has it
at an index when `Substring` gives the word there. An index is the first at which it
does. -/
namespace FalconStd.Strings
open Foundation Substring

/-! ### The routines -/

def startsWith (s prefix_ : Bytes) : Bool :=
  prefix_.length ≤ s.length && substr s 0 prefix_.length == prefix_

def endsWith (s suffix : Bytes) : Bool :=
  suffix.length ≤ s.length && substr s (s.length - suffix.length) suffix.length == suffix

def length (s : Bytes) : Int64 := Int64.ofNat s.length

def concat (a b : Bytes) : Bytes := a ++ b

/-! ### Slices -/

section Slices
variable {s w : Bytes}

theorem toInt_length (h : s.length < 2 ^ 63) : (length s).toInt = s.length :=
  Int64.toInt_ofNat_of_lt h

theorem clamp_length (h : s.length < 2 ^ 63) : clamp (length s) = s.length := by
  rw [clamp, toInt_length h, Int.toNat_natCast]

/-- The slice of the length of a word. -/
theorem substring_word (hw : w.length < 2 ^ 63) (s : Bytes) (i : Int64) :
    substring s i (length w) = (s.drop (clamp i)).take w.length := by
  have hnonneg : 0 ≤ length w := by
    rw [nonneg_iff, toInt_length hw]
    exact Int.natCast_nonneg _
  rw [substring_of_nonneg s i hnonneg, slice_eq, clamp_length hw]

theorem prefix_iff_take : w <+: s ↔ s.take w.length = w := by
  rw [List.prefix_iff_eq_take, eq_comm]

theorem substring_eq_word_iff (hw : w.length < 2 ^ 63) (i : Int64) :
    substring s i (length w) = w ↔ w <+: s.drop (clamp i) := by
  rw [substring_word hw, prefix_iff_take]

/-- The first place where the word is a prefix of what follows. -/
theorem firstAt_iff {i : Nat} :
    FirstAt w s i ↔ w <+: s.drop i ∧ ∀ j < i, ¬ w <+: s.drop j := by
  constructor
  · intro h
    refine ⟨h.1.2, fun j hj hat => h.2 j hj ⟨?_, hat⟩⟩
    exact hj.le.trans h.1.1
  · intro h
    have hi : i ≤ s.length := by
      by_contra hpast
      rw [List.drop_of_length_le (by omega), List.prefix_nil] at h
      refine h.2 0 (by omega) ?_
      rw [h.1]
      exact List.nil_prefix
    exact ⟨⟨hi, h.1⟩, fun j hj hat => h.2 j hj hat.2⟩

theorem clamp_ofNat {n : Nat} (h : n < 2 ^ 63) : clamp (Int64.ofNat n) = n := by
  rw [clamp, Int64.toInt_ofNat_of_lt h, Int.toNat_natCast]

theorem ofNat_nonneg {n : Nat} (h : n < 2 ^ 63) : 0 ≤ Int64.ofNat n := by
  rw [nonneg_iff, Int64.toInt_ofNat_of_lt h]
  exact Int.natCast_nonneg _

theorem toInt_eq_clamp {i : Int64} (h : 0 ≤ i) : i.toInt = clamp i := by
  have := nonneg_iff.mp h
  rw [clamp]
  omega

theorem clamp_lt (i : Int64) : clamp i < 2 ^ 63 := by
  have := i.toInt_lt
  rw [clamp]
  omega

theorem lt_iff_clamp {i j : Int64} (hi : 0 ≤ i) (hj : 0 ≤ j) : j < i ↔ clamp j < clamp i := by
  rw [Int64.lt_iff_toInt_lt, toInt_eq_clamp hi, toInt_eq_clamp hj]
  omega

/-! ### The searches -/

theorem startsWith_iff (hw : w.length < 2 ^ 63) :
    startsWith s w = true ↔ substring s 0 (length w) = w := by
  rw [substring_word hw, startsWith, Bool.and_eq_true, beq_iff_eq, decide_eq_true_iff]
  refine and_iff_right_of_imp fun h => ?_
  have hlen := congrArg List.length h
  rw [substr, List.drop_zero, List.length_take] at hlen
  omega

/-- A longer word is compared with the whole string. -/
theorem endsWith_iff (hs : s.length < 2 ^ 63) (hw : w.length < 2 ^ 63) :
    endsWith s w = true ↔ substring s (length s - length w) (length w) = w := by
  have hstart : clamp (length s - length w) = s.length - w.length := by
    have hsub : (length s - length w).toInt = s.length - w.length := by
      rw [Int64.toInt_sub, toInt_length hs, toInt_length hw]
      exact Int.bmod_eq_of_le (by omega) (by omega)
    rw [clamp, hsub]
    omega
  rw [substring_word hw, hstart, endsWith, Bool.and_eq_true, beq_iff_eq, decide_eq_true_iff]
  refine and_iff_right_of_imp fun h => ?_
  have hlen := congrArg List.length h
  rw [substr, List.length_take, List.length_drop] at hlen
  omega

theorem contains_iff_substring (hs : s.length < 2 ^ 63) (hw : w.length < 2 ^ 63) :
    contains s w = true ↔ ∃ i, substring s i (length w) = w := by
  rw [contains_iff]
  constructor
  · intro h
    obtain ⟨n, hn, hat⟩ := h
    refine ⟨Int64.ofNat n, ?_⟩
    rw [substring_eq_word_iff hw, clamp_ofNat (by omega)]
    exact hat
  · intro h
    obtain ⟨i, hi⟩ := h
    rw [substring_eq_word_iff hw] at hi
    by_cases hin : clamp i ≤ s.length
    · exact ⟨clamp i, hin, hi⟩
    · rw [List.drop_of_length_le (by omega), List.prefix_nil] at hi
      exact ⟨0, Nat.zero_le _, hi ▸ List.nil_prefix⟩

/-- A first index among the sizes is one among the integers. -/
theorem firstAt_iff_substring (hw : w.length < 2 ^ 63) {i : Int64} (hi : 0 ≤ i) :
    FirstAt w s (clamp i) ↔ substring s i (length w) = w ∧
      ∀ j, 0 ≤ j → j < i → substring s j (length w) ≠ w := by
  rw [firstAt_iff, substring_eq_word_iff hw]
  refine and_congr_right fun _ => ?_
  constructor
  · intro h j hj hlt
    rw [Ne, substring_eq_word_iff hw]
    exact h (clamp j) ((lt_iff_clamp hi hj).mp hlt)
  · intro h n hn
    have hn63 : n < 2 ^ 63 := hn.trans (clamp_lt i)
    have hnot := h (Int64.ofNat n) (ofNat_nonneg hn63)
      ((lt_iff_clamp hi (ofNat_nonneg hn63)).mpr (by rw [clamp_ofNat hn63]; exact hn))
    rwa [Ne, substring_eq_word_iff hw, clamp_ofNat hn63] at hnot

theorem indexOf_eq_iff (hw : w.length < 2 ^ 63) {i : Int64} (hi : 0 ≤ i) :
    indexOf s w = i.toInt ↔ substring s i (length w) = w ∧
      ∀ j, 0 ≤ j → j < i → substring s j (length w) ≠ w := by
  rw [← firstAt_iff_substring hw hi, toInt_eq_clamp hi, ← find?_eq_some_iff, indexOf]
  cases find? w s with
  | some n => simp
  | none =>
    have hneg : ¬ (-1 : Int) = clamp i := by omega
    exact iff_of_false hneg (Option.some_ne_none _).symm

/-- The pieces that `Replace` puts together are the slices around the first index. -/
theorem replace_slices (hs : s.length < 2 ^ 63) (hw : w.length < 2 ^ 63) {i : Int64} (hi : 0 ≤ i)
    (hat : indexOf s w = i.toInt) (to_ : Bytes) : replace s w to_ =
      concat (concat (substring s 0 i) to_) (substring s (i + length w) (length s)) := by
  have hfind : find? w s = some (clamp i) := by
    rw [find?_eq_some_iff, firstAt_iff_substring hw hi]
    exact (indexOf_eq_iff hw hi).mp hat
  have hend := (find?_eq_some_iff.mp hfind).1.le_length
  have hback : clamp (i + length w) = clamp i + w.length := by
    have hadd : (i + length w).toInt = clamp i + w.length := by
      rw [Int64.toInt_add, toInt_length hw, toInt_eq_clamp hi]
      exact Int.bmod_eq_of_le (by omega) (by omega)
    rw [clamp, hadd]
    omega
  have hfront : substring s 0 i = s.take (clamp i) := by
    rw [substring_of_nonneg s 0 hi, slice_eq]
    rfl
  have hrest : substring s (i + length w) (length s) = s.drop (clamp i + w.length) := by
    rw [substring_word hs, hback, List.take_of_length_le]
    rw [List.length_drop]
    omega
  rw [hfront, hrest, replace, hfind]
  rfl

end Slices

/-- What a slice of the length of the word shows. -/
structure SearchesAgree (s w : Bytes) : Prop where
  starts : startsWith s w = true ↔ substring s 0 (length w) = w
  ends : endsWith s w = true ↔ substring s (length s - length w) (length w) = w
  found : contains s w = true ↔ ∃ i, substring s i (length w) = w
  missing : contains s w = false ↔ indexOf s w = -1
  first : ∀ i : Int64, 0 ≤ i → (indexOf s w = i.toInt ↔ substring s i (length w) = w ∧
    ∀ j, 0 ≤ j → j < i → substring s j (length w) ≠ w)
  replaced : ∀ (to_ : Bytes) (i : Int64), 0 ≤ i → indexOf s w = i.toInt → replace s w to_ =
    concat (concat (substring s 0 i) to_) (substring s (i + length w) (length s))
  kept : ∀ to_, indexOf s w = -1 → replace s w to_ = s

/-- **The searching routines answer what `Substring` shows.** A string no longer than an
`int` can count begins with a word, ends with it, or contains it when a slice of the
word's length is the word; `IndexOf` is the first index of such a slice, and negative
where there is none; and `Replace` keeps the slices around it. -/
theorem searches_show_slices (s w : Bytes) (hs : s.length < 2 ^ 63) (hw : w.length < 2 ^ 63) :
    SearchesAgree s w := by
  have hmissing : contains s w = false ↔ indexOf s w = -1 := by
    rw [contains, indexOf]
    cases find? w s with
    | none => exact iff_of_true rfl rfl
    | some n => exact iff_of_false Bool.true_eq_false_eq_False (by simp only; omega)
  refine ⟨startsWith_iff hw, endsWith_iff hs hw, contains_iff_substring hs hw, hmissing,
    fun i => indexOf_eq_iff hw, fun to_ i hi hat => replace_slices hs hw hi hat to_, ?_⟩
  intro to_ h
  have hnone := hmissing.mpr h
  rw [contains, Option.isSome_eq_false_iff, Option.isNone_iff_eq_none] at hnone
  exact replace_of_none to_ hnone

theorem searches_show_slices_overlap : SearchesAgree (text "banana") (text "ana") :=
  searches_show_slices (text "banana") (text "ana") (by decide) (by decide)

end FalconStd.Strings
