import FalconStd.Foundation.Loop

/-! Postconditions of calls that may raise.

`Returns x Q` says that whatever `x` returns meets `Q`. The rules follow the way a
call is written: one for a call after another, one for a loop. -/
namespace Foundation

variable {E A : Type*} {α β S : Type} {P Q : α → Prop}

structure Returns (x : Except E α) (Q : α → Prop) : Prop where
  of_ok : ∀ a, x = .ok a → Q a

namespace Returns

theorem ok {a : α} (h : Q a) : Returns (.ok a : Except E α) Q := by
  constructor
  intro b hb
  cases hb
  exact h

theorem error {e : E} : Returns (.error e) Q := by
  constructor
  intro b hb
  cases hb

theorem mono {x : Except E α} (hx : Returns x P) (h : ∀ a, P a → Q a) : Returns x Q :=
  ⟨fun a ha => h a (hx.of_ok a ha)⟩

/-- The rest of a call may use what the first part returned. -/
theorem bind_of {x : Except E α} {f : α → Except E β} {Q : β → Prop}
    (hf : ∀ a, x = .ok a → Returns (f a) Q) : Returns (x >>= f) Q := by
  cases x with
  | error e => exact error
  | ok a => exact hf a rfl

theorem bind {x : Except E α} {f : α → Except E β} {Q : β → Prop} (hx : Returns x P)
    (hf : ∀ a, P a → Returns (f a) Q) : Returns (x >>= f) Q :=
  bind_of fun a ha => hf a (hx.of_ok a ha)

/-- A call that is known to return. -/
theorem bind_ok {x : Except E α} {f : α → Except E β} {Q : β → Prop} {a : α} (hx : x = .ok a)
    (hf : Returns (f a) Q) : Returns (x >>= f) Q := by
  rw [hx]
  exact hf

theorem mapError {E' : Type*} {g : E → E'} {x : Except E α} (hx : Returns x Q) :
    Returns (x.mapError g) Q := by
  cases x with
  | error e => exact error
  | ok a => exact ok (hx.of_ok a rfl)

/-- What every pass of a loop over a list keeps, the loop keeps. -/
theorem foldlM {J : S → Prop} {body : S → A → Except E S} {l : List A}
    (hbody : ∀ a ∈ l, ∀ s, J s → Returns (body s a) J) {s : S} (hs : J s) :
    Returns (l.foldlM body s) J := by
  induction l generalizing s with
  | nil => exact ok hs
  | cons a rest ih =>
    rw [List.foldlM_cons]
    apply Returns.bind (hbody a List.mem_cons_self s hs)
    intro s' hs'
    exact ih (fun b hb => hbody b (List.mem_cons_of_mem _ hb)) hs'

theorem forRange {J : S → Prop} {body : S → Nat → Except E S} {n : Nat}
    (hbody : ∀ i < n, ∀ s, J s → Returns (body s i) J) {s : S} (hs : J s) :
    Returns (Foundation.forRange body n s) J :=
  foldlM (fun i hi => hbody i (List.mem_range.mp hi)) hs

end Returns

end Foundation
