import FalconStd.Strings.Strings

/-! The slice that `Substring` takes.

A `begin` before the string is moved to its front. A negative length is not: as an
unsigned number it is longer than any string, and the slice runs to the end. -/
namespace FalconStd.Strings

/-- A position that may lie before the string, moved to its front. -/
def clamp (i : Int64) : Nat := i.toInt.toNat

/-- The bytes from `begin_` on, at most `length` of them and at most what there is. -/
def slice (s : Bytes) (begin_ length : Int64) : Bytes :=
  s.extract (clamp begin_) (min (clamp begin_ + clamp length) s.length)

/-! ### The cast to `size_t` -/

theorem nonneg_iff {i : Int64} : 0 ≤ i ↔ 0 ≤ i.toInt := Int64.le_iff_toInt_le

theorem toNat_toUInt64 {i : Int64} (h : 0 ≤ i) : i.toUInt64.toNat = clamp i :=
  Int64.toNat_toUInt64_of_le h

theorem toUInt64_pos {i : Int64} (h : ¬ 0 ≤ i) : 0 < i.toUInt64.toNat := by
  rw [Nat.pos_iff_ne_zero]
  intro hzero
  have hbits : i.toUInt64 = 0 := UInt64.toNat_inj.mp hzero
  have hi : i = 0 := by rw [← Int64.toInt64_toUInt64 i, hbits]; rfl
  exact h (hi ▸ Int64.le_refl 0)

/-- The `start` of the source. -/
theorem clamp_start (i : Int64) :
    0 ≤ (if i < 0 then 0 else i) ∧ clamp (if i < 0 then 0 else i) = clamp i := by
  split
  case isTrue hi =>
    have hneg : i.toInt < 0 := Int64.lt_iff_toInt_lt.mp hi
    refine ⟨Int64.le_refl 0, ?_⟩
    simp only [clamp, Int64.toInt_zero]
    omega
  case isFalse hi => exact ⟨Int64.not_lt.mp hi, rfl⟩

theorem substring_eq (s : Bytes) (begin_ length : Int64) :
    substring s begin_ length = (s.drop (clamp begin_)).take length.toUInt64.toNat := by
  obtain ⟨hnonneg, hclamp⟩ := clamp_start begin_
  rw [substring]
  generalize (if begin_ < 0 then 0 else begin_) = start at hnonneg hclamp ⊢
  have hint : 0 ≤ start.toInt := nonneg_iff.mp hnonneg
  simp only [substr, toNat_toUInt64 hnonneg, hclamp]
  split
  case isTrue hle =>
    have hpast : s.length ≤ clamp begin_ := by
      rw [← hclamp, clamp]
      omega
    rw [List.drop_of_length_le hpast, List.take_nil]
  case isFalse => rfl

theorem slice_eq (s : Bytes) (begin_ length : Int64) :
    slice s begin_ length = (s.drop (clamp begin_)).take (clamp length) := by
  rw [slice, List.extract_eq_take_drop, List.take_eq_take_iff, List.length_drop]
  omega

theorem length_slice_le (s : Bytes) (begin_ length : Int64) :
    (slice s begin_ length).length ≤ clamp length := by
  rw [slice_eq]
  exact List.length_take_le _ _

/-! ### The bounds -/

theorem substring_of_nonneg (s : Bytes) (begin_ : Int64) {length : Int64} (h : 0 ≤ length) :
    substring s begin_ length = slice s begin_ length := by
  rw [substring_eq, slice_eq, toNat_toUInt64 h]

theorem substring_of_past {s : Bytes} {begin_ : Int64} (h : s.length ≤ clamp begin_)
    (length : Int64) : substring s begin_ length = slice s begin_ length := by
  rw [substring_eq, slice_eq, List.drop_of_length_le h, List.take_nil, List.take_nil]

/-- A negative length takes at least a byte, where there is one. -/
theorem substring_ne_nil {s : Bytes} {begin_ length : Int64} (hlen : ¬ 0 ≤ length)
    (h : clamp begin_ < s.length) : 0 < (substring s begin_ length).length := by
  have hpos := toUInt64_pos hlen
  rw [substring_eq, List.length_take, List.length_drop]
  omega

/-- Two slices that meet are the string. -/
theorem substring_append {s : Bytes} {i n : Int64} (hi : 0 ≤ i) (hn : 0 ≤ n)
    (hlen : i.toInt + n.toInt = s.length) : substring s 0 i ++ substring s i n = s := by
  have hrest : s.length - clamp i = clamp n := by
    have := nonneg_iff.mp hi
    have := nonneg_iff.mp hn
    simp only [clamp]
    omega
  have hfront : substring s 0 i = s.take (clamp i) := by
    rw [substring_of_nonneg s 0 hi, slice_eq]
    rfl
  have hback : substring s i n = s.drop (clamp i) := by
    rw [substring_of_nonneg s i hn, slice_eq, ← hrest, ← List.length_drop, List.take_length]
  rw [hfront, hback, List.take_append_drop]

/-- **`Substring` takes the slice, and no more bytes than asked for, where the length is
not negative or nothing is left to take**; and slices that meet are the string. -/
theorem substring_slices_iff (s : Bytes) (begin_ length : Int64) :
    (substring s begin_ length = slice s begin_ length ∧
        ((substring s begin_ length).length : Int) ≤ max length.toInt 0 ↔
      0 ≤ length ∨ s.length ≤ clamp begin_) ∧
      ∀ i n : Int64, 0 ≤ i → 0 ≤ n → i.toInt + n.toInt = s.length →
        substring s 0 i ++ substring s i n = s := by
  refine ⟨?_, fun i n => substring_append⟩
  have hslice := length_slice_le s begin_ length
  have hmax : max length.toInt 0 = clamp length := by
    simp only [clamp]
    omega
  rw [hmax]
  constructor
  · intro h
    by_contra hno
    obtain ⟨hlen, hin⟩ := not_or.mp hno
    have hpos := substring_ne_nil hlen (Nat.lt_of_not_le hin)
    have hzero : clamp length = 0 := by
      have : ¬ 0 ≤ length.toInt := fun h => hlen (nonneg_iff.mpr h)
      simp only [clamp]
      omega
    omega
  · intro h
    have heq : substring s begin_ length = slice s begin_ length :=
      h.elim (substring_of_nonneg s begin_) fun hpast => substring_of_past hpast length
    rw [heq]
    exact ⟨rfl, Int.ofNat_le.mpr hslice⟩

theorem substring_negative :
    ¬ (substring (text "falcon") 2 (-1) = slice (text "falcon") 2 (-1) ∧
      ((substring (text "falcon") 2 (-1)).length : Int) ≤ max (-1 : Int64).toInt 0) := by
  decide

end FalconStd.Strings
