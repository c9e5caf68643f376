import Mathlib.Data.List.TakeWhile

/-! Sessions in a history.

In a history of actions some open a session and some close it; opening while a
session is open changes nothing, and neither does closing while none is. The open
session is read off the history: the actions since the last one that closes, from
the first one there that opens. -/
namespace Foundation

variable {A : Type*}

/-- The actions after the last one that closes. -/
def sinceLast (closes : A → Bool) (history : List A) : List A :=
  (history.reverse.takeWhile fun a => !closes a).reverse

/-- The open session, `[]` if there is none. -/
def session (opens closes : A → Bool) (history : List A) : List A :=
  (sinceLast closes history).dropWhile fun a => !opens a

variable (opens closes : A → Bool) (history : List A)

theorem sinceLast_concat (a : A) : sinceLast closes (history ++ [a]) =
    if closes a then [] else sinceLast closes history ++ [a] := by
  unfold sinceLast
  rw [List.reverse_append, List.reverse_singleton, List.singleton_append, List.takeWhile_cons]
  cases closes a <;> simp

variable {history} in
theorem mem_of_mem_sinceLast {a : A} (h : a ∈ sinceLast closes history) : a ∈ history := by
  unfold sinceLast at h
  exact List.mem_reverse.mp ((List.takeWhile_sublist _).subset (List.mem_reverse.mp h))

theorem session_concat (a : A) : session opens closes (history ++ [a]) =
    if closes a then []
    else if session opens closes history = [] then (if opens a then [a] else [])
    else session opens closes history ++ [a] := by
  unfold session
  rw [sinceLast_concat]
  cases hc : closes a with
  | true => rfl
  | false =>
    simp only [Bool.false_eq_true, if_false, List.dropWhile_append, List.isEmpty_iff]
    split
    · cases ho : opens a <;> simp [ho]
    · rfl

/-- There is an open session iff something opened since the last close. -/
theorem session_eq_nil_iff :
    session opens closes history = [] ↔ ∀ a ∈ sinceLast closes history, opens a = false := by
  unfold session
  rw [List.dropWhile_eq_nil_iff]
  simp

/-- A session starts with the action that opened it. -/
theorem opens_head {a : A} {rest : List A} (h : session opens closes history = a :: rest) :
    opens a = true := by
  have hhead := List.head?_dropWhile_not (fun a => !opens a) (sinceLast closes history)
  unfold session at h
  rw [h] at hhead
  simpa using hhead

end Foundation
