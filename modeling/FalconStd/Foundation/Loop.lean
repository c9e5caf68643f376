import Mathlib.Data.List.Basic

/-! Loops whose body may fail.

`loop` runs a body under a guard as often as its fuel allows, and answers nothing
when the fuel is spent. The rule `loop_returns` is total: an invariant the body
keeps, and a variant it lowers, bound the fuel the loop needs. `forRange` counts
up to a bound; a count over the positions of a list is a fold of the list
(`forRange_eq_foldlM`). -/
namespace Foundation

variable {S E : Type*}

def loop (guard : S → Bool) (body : S → Except E S) : Nat → S → Option (Except E S)
  | 0, _ => none
  | fuel + 1, s =>
    if guard s then
      match body s with
      | .ok s' => loop guard body fuel s'
      | .error failure => some (.error failure)
    else some (.ok s)

theorem loop_done {guard : S → Bool} {body : S → Except E S} {s : S} (h : guard s = false)
    (fuel : Nat) : loop guard body (fuel + 1) s = some (.ok s) := by
  simp [loop, h]

theorem loop_again {guard : S → Bool} {body : S → Except E S} {s s' : S} (h : guard s = true)
    (hbody : body s = .ok s') (fuel : Nat) :
    loop guard body (fuel + 1) s = loop guard body fuel s' := by
  simp [loop, h, hbody]

/-- The rule of total correctness. -/
theorem loop_returns {I : S → Prop} (guard : S → Bool) (variant : S → Nat)
    {body : S → Except E S}
    (hbody : ∀ s, I s → guard s = true → ∃ s', body s = .ok s' ∧ I s' ∧ variant s' < variant s)
    (s : S) (hs : I s) (fuel : Nat) (hfuel : variant s < fuel) :
    ∃ s', loop guard body fuel s = some (.ok s') ∧ I s' ∧ guard s' = false := by
  induction fuel generalizing s with
  | zero => exact absurd hfuel (Nat.not_lt_zero _)
  | succ fuel ih =>
    cases hg : guard s with
    | false => exact ⟨s, loop_done hg fuel, hs, hg⟩
    | true =>
      obtain ⟨s', hb, hs', hlt⟩ := hbody s hs hg
      rw [loop_again hg hb]
      exact ih s' hs' (by omega)

/-! ### Counting up -/

/-- `for (i = 0; i < n; ++i)`. -/
def forRange (body : S → Nat → Except E S) (n : Nat) (s : S) : Except E S :=
  (List.range n).foldlM body s

theorem forRange_zero (body : S → Nat → Except E S) (s : S) : forRange body 0 s = .ok s := rfl

/-- The first pass, and the others as a count of their own. -/
theorem forRange_succ (body : S → Nat → Except E S) (n : Nat) (s : S) :
    forRange body (n + 1) s =
      body s 0 >>= fun s' => forRange (fun s i => body s (i + 1)) n s' := by
  rw [forRange, List.range_succ_eq_map, List.foldlM_cons]
  congr 1
  funext s'
  rw [List.foldlM_map]
  rfl

/-- A body that only looks the list up at the count folds the list. -/
theorem forRange_eq_foldlM {α : Type*} {I : S → Prop} {f : S → α → Except E S}
    {body : S → Nat → Except E S} {l : List α}
    (hbody : ∀ i (hi : i < l.length) s, I s → body s i = f s l[i])
    (hkeep : ∀ s x s', I s → f s x = .ok s' → I s') (s : S) (hs : I s) :
    forRange body l.length s = l.foldlM f s := by
  induction l generalizing body s with
  | nil => rfl
  | cons x rest ih =>
    have hfirst : body s 0 = f s x := hbody 0 (Nat.zero_lt_succ _) s hs
    rw [List.length_cons, forRange_succ, List.foldlM_cons, hfirst]
    cases hf : f s x with
    | error failure => rfl
    | ok s' =>
      refine ih (fun i hi t ht => ?_) s' (hkeep s x s' hs hf)
      exact hbody (i + 1) (Nat.succ_lt_succ hi) t ht

end Foundation
