import Mathlib.Data.List.Basic

/-! Regular expressions as a backtracking engine matches them.

`ends` lists what a match can leave of a text, in the order the engine tries; a
repetition is greedy. `removeAll` removes the matches met from left to right, as a
global replacement by the empty text does. Letters that no part of an expression
admits are never removed. -/
namespace Foundation

/-- Expressions without alternatives, where only sets of letters are repeated. -/
inductive Regex (α : Type*) where
  | empty
  | set (p : α → Bool)
  | many (p : α → Bool)
  | seq (a b : Regex α)

namespace Regex
variable {α : Type*}

/-- A word, letter by letter. -/
def word [BEq α] : List α → Regex α
  | [] => empty
  | x :: w => seq (set (· == x)) (word w)

/-- What a greedy repetition can leave. -/
def manyEnds (p : α → Bool) : List α → List (List α)
  | [] => [[]]
  | x :: s => if p x then manyEnds p s ++ [x :: s] else [x :: s]

def ends : Regex α → List α → List (List α)
  | empty, s => [s]
  | set _, [] => []
  | set p, x :: s => if p x then [s] else []
  | many p, s => manyEnds p s
  | seq a b, s => (a.ends s).flatMap b.ends

/-- The first match at the front that takes a letter. -/
def firstMatch (r : Regex α) (s : List α) : Option (List α) :=
  (r.ends s).find? fun rest => rest.length < s.length

/-- At most as many steps as `fuel`. -/
def removeAtMost (r : Regex α) : Nat → List α → List α
  | 0, s => s
  | _ + 1, [] => []
  | fuel + 1, x :: s =>
    match r.firstMatch (x :: s) with
    | some rest => removeAtMost r fuel rest
    | none => x :: removeAtMost r fuel s

/-- `regex_replace(s, r, "")`: every step takes a letter off the text. -/
def removeAll (r : Regex α) (s : List α) : List α := removeAtMost r s.length s

/-! ### Letters that an expression does not admit -/

/-- The letters that a part of the expression admits. -/
def Admits : Regex α → α → Prop
  | empty, _ => False
  | set p, x | many p, x => p x = true
  | seq a b, x => a.Admits x ∨ b.Admits x

instance decidableAdmits : ∀ (r : Regex α) (x : α), Decidable (r.Admits x)
  | empty, _ => inferInstanceAs (Decidable False)
  | set p, x | many p, x => inferInstanceAs (Decidable (p x = true))
  | seq a b, x =>
    have := decidableAdmits a x
    have := decidableAdmits b x
    inferInstanceAs (Decidable (a.Admits x ∨ b.Admits x))

variable {r : Regex α} {s rest : List α} {c : α}

theorem mem_of_manyEnds {p : α → Bool} (hrest : rest ∈ manyEnds p s) (hp : p c = false)
    (hc : c ∈ s) : c ∈ rest := by
  induction s with
  | nil => cases hc
  | cons x s ih =>
    rw [manyEnds] at hrest
    split at hrest
    case isFalse hx =>
      rw [List.mem_singleton.mp hrest]
      exact hc
    case isTrue hx =>
      rcases List.mem_append.mp hrest with hlong | hnone
      · rcases List.mem_cons.mp hc with rfl | hc
        · rw [hp] at hx
          cases hx
        · exact ih hlong hc
      · rw [List.mem_singleton.mp hnone]
        exact hc

/-- A match leaves the letters that the expression does not admit. -/
theorem mem_of_ends (hrest : rest ∈ r.ends s) (hr : ¬ r.Admits c) (hc : c ∈ s) : c ∈ rest := by
  induction r generalizing s rest with
  | empty =>
    rw [List.mem_singleton.mp hrest]
    exact hc
  | set p =>
    cases s with
    | nil => cases hc
    | cons x s =>
      rw [ends] at hrest
      split at hrest
      case isFalse => cases hrest
      case isTrue hx =>
        rw [List.mem_singleton.mp hrest]
        rcases List.mem_cons.mp hc with rfl | hc
        · exact absurd hx hr
        · exact hc
  | many p => exact mem_of_manyEnds hrest (Bool.eq_false_iff.mpr hr) hc
  | seq a b iha ihb =>
    obtain ⟨middle, hmiddle, hrest⟩ := List.mem_flatMap.mp hrest
    exact ihb hrest (fun h => hr (.inr h)) (iha hmiddle (fun h => hr (.inl h)) hc)

theorem mem_removeAtMost (hr : ¬ r.Admits c) (fuel : Nat) (hc : c ∈ s) :
    c ∈ r.removeAtMost fuel s := by
  induction fuel generalizing s with
  | zero => exact hc
  | succ fuel ih =>
    cases s with
    | nil => cases hc
    | cons x s =>
      rw [removeAtMost]
      split
      case h_1 rest hrest => exact ih (mem_of_ends (List.mem_of_find?_eq_some hrest) hr hc)
      case h_2 =>
        rcases List.mem_cons.mp hc with rfl | hc
        · exact List.mem_cons_self
        · exact List.mem_cons_of_mem _ (ih hc)

/-- Removing matches removes only letters that the expression admits. -/
theorem mem_removeAll (hr : ¬ r.Admits c) (hc : c ∈ s) : c ∈ r.removeAll s :=
  mem_removeAtMost hr _ hc

/-! ### Texts without a match -/

theorem ends_set_of_false {p : α → Bool} {x : α} (h : p x = false) (s : List α) :
    (set p).ends (x :: s) = [] := by
  simp [ends, h]

theorem ends_seq_of_nil {a : Regex α} (h : a.ends s = []) (b : Regex α) :
    (seq a b).ends s = [] := by
  rw [ends, h]
  rfl

theorem firstMatch_of_nil (h : r.ends s = []) : r.firstMatch s = none := by
  rw [firstMatch, h]
  rfl

theorem removeAtMost_of_nil (h : ∀ x ∈ s, ∀ rest, r.ends (x :: rest) = []) (fuel : Nat) :
    r.removeAtMost fuel s = s := by
  induction fuel generalizing s with
  | zero => rfl
  | succ fuel ih =>
    cases s with
    | nil => rfl
    | cons x s =>
      rw [removeAtMost, firstMatch_of_nil (h x List.mem_cons_self s)]
      simp only [ih fun y hy => h y (List.mem_cons_of_mem x hy)]

/-- Nothing is removed where no letter can begin a match. -/
theorem removeAll_of_nil (h : ∀ x ∈ s, ∀ rest, r.ends (x :: rest) = []) : r.removeAll s = s :=
  removeAtMost_of_nil h _

end Regex

end Foundation
