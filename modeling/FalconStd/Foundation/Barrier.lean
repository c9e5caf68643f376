import FalconStd.Foundation.Substring

/-! Searching a text that was put together.

A word cannot stand across letters that it does not have. So it is found in a text with
such letters in front as in what is behind them, and in a text with such letters in the
middle first before them and then behind them. -/
namespace Foundation.Substring

variable {α : Type*} {w p m r s : List α}

/-- No letter of one is a letter of the other. -/
def Apart (m w : List α) : Prop := ∀ a ∈ m, a ∉ w

instance [DecidableEq α] : Decidable (Apart m w) := List.decidableBAll (· ∉ w) m

theorem Apart.tail {a : α} (h : Apart (a :: m) w) : Apart m w :=
  fun b hb => h b (List.mem_cons_of_mem a hb)

theorem not_prefix_of_apart {a : α} (hw : w ≠ []) (ha : a ∉ w) (s : List α) :
    ¬ w <+: a :: s := by
  obtain ⟨b, w, rfl⟩ := List.exists_cons_of_ne_nil hw
  intro h
  obtain ⟨rfl, -⟩ := List.cons_prefix_cons.mp h
  exact ha (List.mem_cons_self ..)

/-- What is behind foreign letters does not make a word stand before them. -/
theorem prefix_append_iff (hm : m ≠ []) (h : Apart m w) : w <+: p ++ (m ++ r) ↔ w <+: p := by
  refine ⟨fun hpre => ?_, fun hpre => hpre.trans (List.prefix_append ..)⟩
  induction p generalizing w with
  | nil =>
    obtain ⟨a, m, rfl⟩ := List.exists_cons_of_ne_nil hm
    have ha : a ∉ w := h a (List.mem_cons_self ..)
    by_cases hw : w = []
    · exact hw ▸ List.nil_prefix
    · exact absurd hpre (not_prefix_of_apart hw ha _)
  | cons a p ih =>
    cases w with
    | nil => exact List.nil_prefix
    | cons b w =>
      obtain ⟨rfl, hrest⟩ := List.cons_prefix_cons.mp hpre
      have hapart : Apart m w := fun a ha hw => h a ha (List.mem_cons_of_mem _ hw)
      exact List.cons_prefix_cons.mpr ⟨rfl, ih hapart hrest⟩

section Search
variable [DecidableEq α]

theorem find?_nil (hw : w ≠ []) : find? w [] = none := by
  rw [find?, if_neg hw]

theorem find?_foreign (hw : w ≠ []) (h : Apart m w) (s : List α) :
    find? w (m ++ s) = (find? w s).map (· + m.length) := by
  induction m with
  | nil => simp
  | cons a m ih =>
    have hno := not_prefix_of_apart hw (h a (List.mem_cons_self ..)) (m ++ s)
    rw [List.cons_append, find?_cons hno, ih h.tail, Option.map_map]
    rfl

theorem find?_barrier (hw : w ≠ []) (hm : m ≠ []) (h : Apart m w) (p r : List α) :
    find? w (p ++ (m ++ r)) =
      (find? w p).or ((find? w r).map (· + (p.length + m.length))) := by
  induction p with
  | nil =>
    rw [List.nil_append, find?_foreign hw h, find?_nil hw, Option.none_or, List.length_nil,
      Nat.zero_add]
  | cons a p ih =>
    have hpre : w <+: a :: (p ++ (m ++ r)) ↔ w <+: a :: p := prefix_append_iff (p := a :: p) hm h
    rw [List.cons_append, find?, find?]
    by_cases hstart : w <+: a :: p
    · rw [if_pos (hpre.mpr hstart), if_pos hstart, Option.some_or]
    · rw [if_neg (fun h => hstart (hpre.mp h)), if_neg hstart, ih]
      cases find? w p with
      | some i => rfl
      | none =>
        cases find? w r with
        | none => rfl
        | some i =>
          simp only [Option.none_or, Option.map_some, Option.map_none, List.length_cons]
          congr 1
          omega

/-- What is before the first occurrence has none. -/
theorem find?_take {i : Nat} (hw : w ≠ []) (h : find? w s = some i) :
    find? w (s.take i) = none := by
  obtain ⟨hat, hbefore⟩ := find?_eq_some_iff.mp h
  refine find?_eq_none_iff.mpr fun j hj => ?_
  have hend := hj.le_length
  have hpos : 0 < w.length := List.length_pos_iff.mpr hw
  rw [List.length_take] at hend
  refine hbefore j (by omega) ⟨by omega, ?_⟩
  have hsub : (s.take i).drop j <+: s.drop j := by
    rw [List.drop_take]
    exact List.take_prefix _ _
  exact hj.2.trans hsub

end Search

end Foundation.Substring
