import Mathlib.Data.List.TakeWhile
import FalconStd.Strings.Strings

/-! Integers and their literals.

`ToInt` reads the longest literal at the front of a string and forgets what follows
it. A literal is read as the number it denotes, and `FromInt` writes a literal. -/
namespace FalconStd.Strings

/-! ### Literals -/

inductive Sign where
  | none
  | plus
  | minus

namespace Sign

def text : Sign → Bytes
  | none => []
  | plus => [0x2B]
  | minus => [0x2D]

def isNegative : Sign → Bool
  | minus => true
  | _ => false

end Sign

/-- Spaces, a sign and digits. -/
structure Parts where
  spaces : Bytes
  sign : Sign
  digits : Bytes
  spaces_valid : ∀ b ∈ spaces, isspace b = true
  digits_ne_nil : digits ≠ []
  digits_valid : ∀ b ∈ digits, isdigit b = true

namespace Parts

def render (p : Parts) : Bytes := p.spaces ++ (p.sign.text ++ p.digits)

def value (p : Parts) : Int :=
  if p.sign.isNegative then -valueOf p.digits else valueOf p.digits

end Parts

/-- The whole string is a literal, which denotes `n`. -/
def Literal (s : Bytes) (n : Int) : Prop := ∃ p : Parts, p.render = s ∧ p.value = n

/-- What can follow a literal without being part of it. -/
def NoDigit (rest : Bytes) : Prop := ∀ b, rest.head? = some b → isdigit b = false

/-! ### Scanning a literal -/

theorem isdigit_iff {b : Byte} : isdigit b = true ↔ 0x30 ≤ b.toNat ∧ b.toNat ≤ 0x39 := by
  simp [isdigit, UInt8.le_iff_toNat_le]

theorem isspace_iff {b : Byte} :
    isspace b = true ↔ b.toNat = 0x20 ∨ 0x09 ≤ b.toNat ∧ b.toNat ≤ 0x0D := by
  simp [isspace, UInt8.le_iff_toNat_le, ← UInt8.toNat_inj]

/-- A digit is no space and no sign. -/
theorem digit_cases {b : Byte} (h : isdigit b = true) :
    isspace b = false ∧ b ≠ 0x2D ∧ b ≠ 0x2B := by
  rw [isdigit_iff] at h
  refine ⟨?_, ?_, ?_⟩
  · rw [Bool.eq_false_iff, Ne, isspace_iff]
    omega
  · intro hb
    rw [hb] at h
    exact absurd h (by decide)
  · intro hb
    rw [hb] at h
    exact absurd h (by decide)

theorem sign_of_digit {b : Byte} (h : isdigit b = true) (s : Bytes) :
    sign (b :: s) = (false, b :: s) := by
  obtain ⟨-, hminus, hplus⟩ := digit_cases h
  rw [sign, if_neg hminus, if_neg hplus]

section Scan
variable {s rest : Bytes} {n : Int}

namespace Parts
variable (p : Parts)

theorem exists_digit : ∃ d ds, p.digits = d :: ds ∧ isdigit d = true := by
  obtain ⟨d, ds, hd⟩ := List.exists_cons_of_ne_nil p.digits_ne_nil
  exact ⟨d, ds, hd, p.digits_valid d (hd ▸ List.mem_cons_self)⟩

theorem dropWhile_isspace (rest : Bytes) :
    (p.render ++ rest).dropWhile isspace = p.sign.text ++ (p.digits ++ rest) := by
  obtain ⟨d, ds, hd, hdigit⟩ := p.exists_digit
  rw [render, List.append_assoc, List.append_assoc, List.dropWhile_append_of_pos p.spaces_valid, hd]
  cases p.sign with
  | none => exact List.dropWhile_cons_of_neg (by simp [(digit_cases hdigit).1])
  | plus => exact List.dropWhile_cons_of_neg (by decide)
  | minus => exact List.dropWhile_cons_of_neg (by decide)

theorem sign_eq (rest : Bytes) :
    Strings.sign (p.sign.text ++ (p.digits ++ rest)) = (p.sign.isNegative, p.digits ++ rest) := by
  obtain ⟨d, ds, hd, hdigit⟩ := p.exists_digit
  cases p.sign with
  | none =>
    rw [hd]
    exact sign_of_digit hdigit _
  | plus => rfl
  | minus => rfl

end Parts

theorem takeWhile_of_noDigit (h : NoDigit rest) : rest.takeWhile isdigit = [] := by
  cases rest with
  | nil => rfl
  | cons b rest => exact List.takeWhile_cons_of_neg (by simp [h b rfl])

theorem dropWhile_of_noDigit (h : NoDigit rest) : rest.dropWhile isdigit = rest := by
  cases rest with
  | nil => rfl
  | cons b rest => exact List.dropWhile_cons_of_neg (by simp [h b rfl])

/-- A literal is scanned as the number it denotes, up to where it ends. -/
theorem strtoll_of_literal (hs : Literal s n) (hrest : NoDigit rest) :
    strtoll (s ++ rest) = some (n, rest) := by
  obtain ⟨p, rfl, rfl⟩ := hs
  have htake : (p.digits ++ rest).takeWhile isdigit = p.digits := by
    rw [List.takeWhile_append_of_pos p.digits_valid, takeWhile_of_noDigit hrest, List.append_nil]
  have hdrop : (p.digits ++ rest).dropWhile isdigit = rest := by
    rw [List.dropWhile_append_of_pos p.digits_valid, dropWhile_of_noDigit hrest]
  simp only [strtoll, p.dropWhile_isspace, p.sign_eq, htake, hdrop, if_neg p.digits_ne_nil]
  rfl

theorem noDigit_dropWhile (s : Bytes) : NoDigit (s.dropWhile isdigit) := by
  intro b hb
  have hnot := List.head?_dropWhile_not isdigit s
  rw [hb] at hnot
  simpa using hnot

/-- The sign that was read. -/
theorem exists_sign (s : Bytes) :
    ∃ sg : Sign, s = sg.text ++ (sign s).2 ∧ sg.isNegative = (sign s).1 := by
  cases s with
  | nil => exact ⟨.none, rfl, rfl⟩
  | cons b s =>
    by_cases hminus : b = 0x2D
    · subst hminus
      exact ⟨.minus, rfl, rfl⟩
    · by_cases hplus : b = 0x2B
      · subst hplus
        exact ⟨.plus, rfl, rfl⟩
      · rw [sign, if_neg hminus, if_neg hplus]
        exact ⟨.none, rfl, rfl⟩

/-- What is scanned is a literal at the front. -/
theorem literal_of_strtoll (h : strtoll s = some (n, rest)) :
    ∃ front, s = front ++ rest ∧ Literal front n ∧ NoDigit rest := by
  obtain ⟨sg, hsign, hneg⟩ := exists_sign (s.dropWhile isspace)
  simp only [strtoll] at h
  split at h
  case isTrue => cases h
  case isFalse hne =>
    cases h
    let p : Parts := ⟨s.takeWhile isspace, sg, _, fun b => List.mem_takeWhile_imp, hne,
      fun b => List.mem_takeWhile_imp⟩
    refine ⟨p.render, ?_, ⟨p, rfl, ?_⟩, noDigit_dropWhile _⟩
    · simp only [p, Parts.render, List.append_assoc, List.takeWhile_append_dropWhile]
      rw [← hsign, List.takeWhile_append_dropWhile]
    · simp only [p, Parts.value, hneg]

end Scan

/-! ### Parsing -/

/-- An `int` at the front is what is returned, whatever follows. -/
theorem toInt_of_literal {s rest : Bytes} {i : Int64} (hs : Literal s i.toInt)
    (hrest : NoDigit rest) : toInt (s ++ rest) = .ok i := by
  have hrange : ¬ (i.toInt < -2 ^ 63 ∨ 2 ^ 63 ≤ i.toInt) := by
    have := i.le_toInt
    have := i.toInt_lt
    omega
  simp only [toInt, stoll, strtoll_of_literal hs hrest, if_neg hrange, Int64.ofInt_toInt]

theorem exists_literal_of_toInt {s : Bytes} {i : Int64} (h : toInt s = .ok i) :
    ∃ front rest, s = front ++ rest ∧ Literal front i.toInt ∧ NoDigit rest := by
  cases hscan : strtoll s with
  | none => simp [toInt, stoll, hscan] at h
  | some found =>
    obtain ⟨n, rest⟩ := found
    obtain ⟨front, hs, hfront, hrest⟩ := literal_of_strtoll hscan
    simp only [toInt, stoll, hscan] at h
    split at h
    case h_1 j hj =>
      split at hj
      case isTrue => cases hj
      case isFalse hrange =>
        cases hj
        cases h
        rw [← Int64.toInt_ofInt_of_le (n := n) (by omega) (by omega)] at hfront
        exact ⟨front, rest, hs, hfront, hrest⟩
    case h_2 => cases h

theorem toInt_error {s : Bytes} {e : ErrorObject} (h : toInt s = .error e) :
    e = ⟨text "Cannot parse int: " ++ s, false⟩ := by
  rw [toInt] at h
  split at h
  · cases h
  · cases h
    rfl

/-- What is asked of a parser of whole strings. -/
structure ParsesWhole (s : Bytes) : Prop where
  accepts : ∀ i : Int64, toInt s = .ok i ↔ Literal s i.toInt
  refuses : (∀ i : Int64, ¬ Literal s i.toInt) →
    toInt s = .error ⟨text "Cannot parse int: " ++ s, false⟩

/-- An `int`, and after it a letter that is no digit. -/
def Trailing (s : Bytes) : Prop :=
  ∃ (front rest : Bytes) (i : Int64), s = front ++ rest ∧ Literal front i.toInt ∧
    rest ≠ [] ∧ NoDigit rest

theorem noDigit_nil : NoDigit [] := by
  intro b hb
  cases hb

theorem parsesWhole_iff (s : Bytes) : ParsesWhole s ↔ ¬ Trailing s := by
  constructor
  · intro h htrailing
    obtain ⟨front, rest, i, rfl, hfront, hne, hrest⟩ := htrailing
    have hwhole := (h.accepts i).mp (toInt_of_literal hfront hrest)
    -- one string, scanned up to its end and up to the letter
    have hend := strtoll_of_literal hwhole noDigit_nil
    rw [List.append_nil, strtoll_of_literal hfront hrest] at hend
    cases hend
    exact hne rfl
  · intro h
    have haccepts : ∀ i : Int64, toInt s = .ok i ↔ Literal s i.toInt := by
      intro i
      constructor
      · intro hi
        obtain ⟨front, rest, rfl, hfront, hrest⟩ := exists_literal_of_toInt hi
        by_cases hne : rest = []
        · rw [hne, List.append_nil]
          exact hfront
        · exact absurd ⟨front, rest, i, rfl, hfront, hne, hrest⟩ h
      · intro hi
        have hparse := toInt_of_literal hi noDigit_nil
        rwa [List.append_nil] at hparse
    refine ⟨haccepts, ?_⟩
    intro hnone
    cases hs : toInt s with
    | ok i => exact absurd ((haccepts i).mp hs) (hnone i)
    | error e => rw [toInt_error hs]

/-! ### Printing -/

theorem decimal_ne_nil (n : Nat) : decimal n ≠ [] := by
  rw [decimal]
  split
  case isTrue => decide
  case isFalse hn => simpa [Nat.digits_eq_nil_iff_eq_zero] using hn

theorem toNat_digit {d : Nat} (h : d < 10) : (UInt8.ofNat (0x30 + d)).toNat = 0x30 + d := by
  rw [UInt8.toNat_ofNat']
  omega

theorem isdigit_decimal {n : Nat} {b : Byte} (hb : b ∈ decimal n) : isdigit b = true := by
  rw [decimal] at hb
  split at hb
  case isTrue =>
    cases List.mem_singleton.mp hb
    decide
  case isFalse =>
    obtain ⟨d, hd, rfl⟩ := List.mem_map.mp hb
    have hlt := Nat.digits_lt_base (by decide) (List.mem_reverse.mp hd)
    rw [isdigit_iff, toNat_digit hlt]
    omega

theorem valueOf_decimal (n : Nat) : valueOf (decimal n) = n := by
  rw [decimal]
  split
  case isTrue hn =>
    rw [hn]
    decide
  case isFalse =>
    have hdigits : (Nat.digits 10 n).map
        ((fun b : Byte => b.toNat - 0x30) ∘ fun d => UInt8.ofNat (0x30 + d)) =
          (Nat.digits 10 n).map id := by
      refine List.map_congr_left fun d hd => ?_
      rw [Function.comp_apply, toNat_digit (Nat.digits_lt_base (by decide) hd)]
      exact Nat.add_sub_cancel_left _ _
    rw [List.map_id] at hdigits
    simp only [valueOf, List.map_reverse, List.reverse_reverse, List.map_map, hdigits,
      Nat.ofDigits_digits]

/-- What `FromInt` writes. -/
def printed (i : Int64) : Parts where
  spaces := []
  sign := if i < 0 then .minus else .none
  digits := decimal i.toInt.natAbs
  spaces_valid := by simp
  digits_ne_nil := decimal_ne_nil _
  digits_valid := fun _ => isdigit_decimal

theorem literal_fromInt (i : Int64) : Literal (fromInt i) i.toInt := by
  refine ⟨printed i, ?_, ?_⟩
  · by_cases hi : i < 0
    · simp only [Parts.render, printed, fromInt, if_pos hi, List.nil_append]
      rfl
    · simp only [Parts.render, printed, fromInt, if_neg hi, List.nil_append]
      rfl
  · have hsign : i < 0 ↔ i.toInt < 0 := Int64.lt_iff_toInt_lt
    by_cases hi : i < 0
    · have hneg := hsign.mp hi
      simp only [Parts.value, printed, valueOf_decimal, if_pos hi, Sign.isNegative, if_true]
      omega
    · have hneg : ¬ i.toInt < 0 := fun h => hi (hsign.mpr h)
      simp only [Parts.value, printed, valueOf_decimal, if_neg hi, Sign.isNegative,
        Bool.false_eq_true, if_false]
      omega

/-- **`ToInt` undoes `FromInt`, and it accepts the literals of an `int` and nothing else
but where an `int` is followed by a letter that is no digit.** -/
theorem toInt_accepts_iff (i : Int64) (s : Bytes) :
    toInt (fromInt i) = .ok i ∧ (ParsesWhole s ↔ ¬ Trailing s) := by
  refine ⟨?_, parsesWhole_iff s⟩
  have hparse := toInt_of_literal (literal_fromInt i) noDigit_nil
  rwa [List.append_nil] at hparse

theorem not_parsesWhole_units : ¬ ParsesWhole (text "12abc") := by
  intro h
  have hwhole : Literal (text "12abc") 12 := (h.accepts 12).mp (by decide)
  have hend := strtoll_of_literal hwhole noDigit_nil
  rw [List.append_nil] at hend
  exact absurd hend (by decide)

/-! ### Booleans -/

/-- `ToBool` compares the whole string with the two spellings of a truth value. -/
theorem toBool_eq_ok_iff {s : Bytes} {b : Bool} :
    toBool s = .ok b ↔ s = fromBool b ∨ s = text (if b then "1" else "0") := by
  constructor
  · intro h
    rw [toBool] at h
    split at h
    case isTrue htrue =>
      cases h
      exact htrue
    case isFalse =>
      split at h
      case isTrue hfalse =>
        cases h
        exact hfalse
      case isFalse => cases h
  · intro h
    rcases h with rfl | rfl
    · cases b <;> decide
    · cases b <;> decide

end FalconStd.Strings
