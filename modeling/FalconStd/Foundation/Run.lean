import Mathlib.Data.List.Basic
import Mathlib.Data.List.Induction

/-! Runs of a deterministic step function.

A run is read through its *histories*: a property of a step is a property of the
actions taken before it and of the action itself, and `EveryStep` says that it
holds at every step of a run. The rule for guarded runs, `everyStep_iff`, is the
one exact conditions are proved with: under an invariant that the guard
maintains, a property holds all along a run exactly when the guard does. -/
namespace Foundation

variable {S A : Type*}

def run (step : S → A → S) (s : S) : List A → S
  | [] => s
  | a :: rest => run step (step s a) rest

@[simp] theorem run_nil (step : S → A → S) (s : S) : run step s [] = s := rfl

theorem run_append (step : S → A → S) (s : S) (as bs : List A) :
    run step s (as ++ bs) = run step (run step s as) bs := by
  induction as generalizing s with
  | nil => rfl
  | cons a rest ih => exact ih _

@[simp] theorem run_concat (step : S → A → S) (s : S) (as : List A) (a : A) :
    run step s (as ++ [a]) = step (run step s as) a := by
  rw [run_append]
  rfl

/-- What holds initially and survives every step holds after every run. -/
theorem run_invariant {step : S → A → S} {J : S → Prop} (hstep : ∀ s a, J s → J (step s a))
    (s : S) (hs : J s) (as : List A) : J (run step s as) := by
  induction as generalizing s with
  | nil => exact hs
  | cons a rest ih => exact ih _ (hstep s a hs)

/-- Two systems whose steps keep a relation stay related along every run. -/
theorem run_simulation {T : Type*} {step : S → A → S} {step' : T → A → T} {R : S → T → Prop}
    (hstep : ∀ s t a, R s t → R (step s a) (step' t a)) (s : S) (t : T) (h : R s t)
    (as : List A) : R (run step s as) (run step' t as) := by
  induction as generalizing s t with
  | nil => exact h
  | cons a rest ih => exact ih _ _ (hstep s t a h)

/-! ### Steps with an output -/

variable {O : Type*}

/-- The state part of a step that also answers. -/
def next (step : S → A → O × S) (s : S) (a : A) : S := (step s a).2

def outputs (step : S → A → O × S) (s : S) : List A → List O
  | [] => []
  | a :: rest => (step s a).1 :: outputs step (next step s a) rest

/-- Two answering systems related by `R`, whose related states answer alike, give
the same answers along every run and stay related. -/
theorem outputs_simulation {T : Type*} {step : S → A → O × S} {step' : T → A → O × T}
    {R : S → T → Prop} (hout : ∀ s t a, R s t → (step s a).1 = (step' t a).1)
    (hstep : ∀ s t a, R s t → R (next step s a) (next step' t a)) (s : S) (t : T) (h : R s t)
    (as : List A) : outputs step s as = outputs step' t as := by
  induction as generalizing s t with
  | nil => rfl
  | cons a rest ih => simp only [outputs, hout s t a h, ih _ _ (hstep s t a h)]

/-! ### What the steps of a history bring -/

section Gathered
variable {B : Type*} {f g : List A → A → List B}

/-- What each action brings after the actions before it, in order. -/
def gathered (f : List A → A → List B) (as : List A) : List B :=
  (List.range as.length).flatMap fun i => as[i]?.elim [] (f (as.take i))

@[simp] theorem gathered_nil (f : List A → A → List B) : gathered f [] = [] := rfl

theorem gathered_concat (f : List A → A → List B) (as : List A) (a : A) :
    gathered f (as ++ [a]) = gathered f as ++ f as a := by
  have hold : ∀ i ∈ List.range as.length, (as ++ [a])[i]?.elim [] (f ((as ++ [a]).take i)) =
      as[i]?.elim [] (f (as.take i)) := by
    intro i hi
    have hlt := List.mem_range.mp hi
    rw [List.getElem?_append_left hlt, List.take_append_of_le_length (Nat.le_of_lt hlt)]
  rw [gathered, List.length_append, List.length_singleton, List.range_succ, List.flatMap_append,
    List.flatMap_congr hold, List.flatMap_singleton, List.getElem?_append_right (Nat.le_refl _),
    Nat.sub_self, List.take_left]
  rfl

theorem gathered_filter (p : B → Bool) (h : ∀ past a, g past a = (f past a).filter p)
    (as : List A) : gathered g as = (gathered f as).filter p := by
  induction as using List.reverseRecOn with
  | nil => rfl
  | append_singleton past a ih =>
    rw [gathered_concat, gathered_concat, List.filter_append, ih, h]

end Gathered

/-! ### Properties of every step -/

/-- `Q` holds of every step of the run: of the history before it and the action. -/
def EveryStep (Q : List A → A → Prop) (as : List A) : Prop :=
  ∀ past a future, as = past ++ a :: future → Q past a

theorem everyStep_nil (Q : List A → A → Prop) : EveryStep Q [] := by
  intro past a future h
  simp at h

theorem everyStep_concat (Q : List A → A → Prop) (as : List A) (a : A) :
    EveryStep Q (as ++ [a]) ↔ EveryStep Q as ∧ Q as a := by
  refine ⟨fun h => ⟨fun past b future hb => ?_, h as a [] rfl⟩, ?_⟩
  · exact h past b (future ++ [a]) (by simp [hb])
  · intro h past b future hb
    obtain ⟨hall, hlast⟩ := h
    rcases List.eq_nil_or_concat future with rfl | ⟨init, last, rfl⟩
    · obtain ⟨rfl, hba⟩ := List.append_inj' hb rfl
      obtain rfl : a = b := by simpa using hba
      exact hlast
    · have hsplit : as ++ [a] = (past ++ b :: init) ++ [last] := by simpa using hb
      exact hall past b init (List.append_inj' hsplit rfl).1

/-- What a guard maintains holds after every run that keeps to it. -/
theorem everyStep_invariant {J : List A → Prop} {C : List A → A → Prop} (hnil : J [])
    (hkeep : ∀ past a, J past → C past a → J (past ++ [a])) (as : List A)
    (h : EveryStep C as) : J as := by
  induction as using List.reverseRecOn with
  | nil => exact hnil
  | append_singleton past a ih =>
    obtain ⟨hpast, ha⟩ := (everyStep_concat C past a).mp h
    exact hkeep past a (ih hpast) ha

/-- The rule of guarded runs: `J` is what the guard `C` maintains, and under `J`
the property `P` of a step is its guard. -/
theorem everyStep_iff {J : List A → Prop} {P C : List A → A → Prop} (hnil : J [])
    (hsame : ∀ past a, J past → (P past a ↔ C past a))
    (hkeep : ∀ past a, J past → C past a → J (past ++ [a])) (as : List A) :
    EveryStep P as ↔ EveryStep C as := by
  have main : ∀ as : List A, (EveryStep P as ↔ EveryStep C as) ∧ (EveryStep C as → J as) := by
    intro as
    induction as using List.reverseRecOn with
    | nil => exact ⟨iff_of_true (everyStep_nil P) (everyStep_nil C), fun _ => hnil⟩
    | append_singleton past a ih =>
      rw [everyStep_concat, everyStep_concat]
      refine ⟨⟨fun h => ?_, fun h => ?_⟩, fun h => hkeep past a (ih.2 h.1) h.2⟩
      · have hC := ih.1.mp h.1
        exact ⟨hC, (hsame past a (ih.2 hC)).mp h.2⟩
      · exact ⟨ih.1.mpr h.1, (hsame past a (ih.2 h.1)).mpr h.2⟩
  exact (main as).1

end Foundation
