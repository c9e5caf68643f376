import FalconStd.Strings.ReplaceLaws

/-! Filling a format in steps.

A hole is filled from the left, and an argument that is not empty and has no brace makes
no new hole with its neighbours. So such arguments may be filled in one after another:
`Format` continues what it has begun, and is `Replace` of the first hole for each of
them. -/
namespace FalconStd.Strings
open Foundation Substring

/-! ### Pieces put together -/

section Pieces
variable {α : Type*}

/-- The words after the last piece are not used. -/
theorem interleave_congr {pieces : List (List α)} {x y : Nat → List α}
    (h : ∀ j, j + 1 < pieces.length → x j = y j) : interleave pieces x = interleave pieces y := by
  induction pieces generalizing x y with
  | nil => rfl
  | cons p pieces ih =>
    cases pieces with
    | nil => rfl
    | cons q rest =>
      have hfirst : x 0 = y 0 := h 0 (by simp)
      have hrest : interleave (q :: rest) (fun j => x (j + 1)) =
          interleave (q :: rest) fun j => y (j + 1) :=
        ih fun j hj => h (j + 1) (by simpa using hj)
      rw [interleave, interleave, hfirst, hrest]

/-- There are no more words than letters. -/
theorem length_split_le [DecidableEq α] {w : List α} (hw : w ≠ []) (s : List α) :
    (split w s).length ≤ s.length + 1 := by
  induction hn : s.length using Nat.strong_induction_on generalizing s with
  | _ n ih =>
    cases hs : find? w s with
    | none =>
      rw [split_of_none hs]
      simp
    | some i =>
      have hlt := length_drop_lt hw hs
      have hrest := ih _ (by omega) (s.drop (i + w.length)) rfl
      rw [split_of_some hw hs, List.length_cons]
      omega

end Pieces

namespace Format
variable {args xs ys : List Bytes} {fmt : Bytes} {k : Nat}

/-! ### What is filled -/

theorem filled_of_none (args : List Bytes) (k : Nat) (h : find? hole fmt = none) :
    filled args k fmt = fmt := by
  rw [filled, split_of_none h]
  rfl

theorem filled_of_some (args : List Bytes) (k : Nat) {i : Nat} (h : find? hole fmt = some i) :
    filled args k fmt = fmt.take i ++
      (args.getD k hole ++ filled args (k + 1) (fmt.drop (i + hole.length))) := by
  have hnext : (fun j => args.getD (k + (j + 1)) hole) = fun j => args.getD (k + 1 + j) hole := by
    funext j
    rw [Nat.add_right_comm, Nat.add_assoc]
  rw [filled, split_of_some hole_ne_nil h, interleave_cons (split_ne_nil hole _), hnext]
  rfl

/-- No argument, no change. -/
theorem filled_of_le (hk : args.length ≤ k) (fmt : Bytes) : filled args k fmt = fmt := by
  have hhole : (fun j => args.getD (k + j) hole) = fun _ => hole := by
    funext j
    exact List.getD_eq_default _ _ (by omega)
  rw [filled, hhole, interleave_split hole_ne_nil]

/-- Arguments that are used up do not count. -/
theorem filled_append (xs ys : List Bytes) (fmt : Bytes) :
    filled (xs ++ ys) xs.length fmt = filled ys 0 fmt := by
  have hlater : (fun j => (xs ++ ys).getD (xs.length + j) hole) = fun j => ys.getD (0 + j) hole := by
    funext j
    rw [List.getD_append_right _ _ _ _ (Nat.le_add_right _ _), Nat.add_sub_cancel_left, Nat.zero_add]
  rw [filled, filled, hlater]

/-- A front that a search passes over is kept. -/
theorem filled_passed {pre : Bytes} (h : Passed hole pre) (args : List Bytes) (k : Nat)
    (rest : Bytes) : filled args k (pre ++ rest) = pre ++ filled args k rest := by
  have hpre := h rest
  cases hrest : find? hole rest with
  | none =>
    rw [hrest] at hpre
    rw [filled_of_none args k hrest, filled_of_none args k hpre]
  | some i =>
    rw [hrest] at hpre
    have htake : (pre ++ rest).take (i + pre.length) = pre ++ rest.take i := by
      rw [Nat.add_comm, List.take_length_add_append]
    have hdrop : (pre ++ rest).drop (i + pre.length + hole.length) = rest.drop (i + hole.length) := by
      rw [Nat.add_right_comm, Nat.add_comm, List.drop_length_add_append]
    rw [filled_of_some args k hrest, filled_of_some args k hpre, htake, hdrop, List.append_assoc]

/-! ### One after another -/

/-- An argument that makes no hole with what is beside it. -/
def Plain (arg : Bytes) : Prop := arg ≠ [] ∧ Apart arg hole

/-- What the first arguments leave is filled by the others. -/
theorem filled_filled (hplain : ∀ x ∈ xs, Plain x) (ys : List Bytes) (k : Nat)
    (hk : k ≤ xs.length) (fmt : Bytes) :
    filled ys 0 (filled xs k fmt) = filled (xs ++ ys) k fmt := by
  induction hn : xs.length - k generalizing k fmt with
  | zero =>
    obtain rfl : k = xs.length := by omega
    rw [filled_of_le le_rfl, filled_append]
  | succ n ih =>
    have hlt : k < xs.length := by omega
    obtain ⟨hne, hapart⟩ := hplain xs[k] (List.getElem_mem hlt)
    cases hs : find? hole fmt with
    | none => rw [filled_of_none xs k hs, filled_of_none ys 0 hs, filled_of_none _ k hs]
    | some i =>
      have hx : xs.getD k hole = xs[k] := List.getD_eq_getElem _ _ hlt
      have hxy : (xs ++ ys).getD k hole = xs[k] := by
        rw [List.getD_append _ _ _ _ hlt, hx]
      rw [filled_of_some xs k hs, filled_of_some (xs ++ ys) k hs, hx, hxy, ← List.append_assoc,
        filled_passed (passed_barrier hole_ne_nil hne hapart hs), ih (k + 1) hlt _ (by omega),
        List.append_assoc]

/-- One argument goes where `Replace` puts it. -/
theorem filled_singleton (x fmt : Bytes) : filled [x] 0 fmt = replace fmt hole x := by
  cases hs : find? hole fmt with
  | none => rw [filled_of_none _ _ hs, replace_of_none x hs]
  | some i =>
    rw [filled_of_some _ _ hs, replace_of_some x hs, filled_of_le (by simp), List.append_assoc]
    rfl

theorem filled_foldl (hplain : ∀ x ∈ xs, Plain x) (fmt : Bytes) :
    filled xs 0 fmt = xs.foldl (fun s x => replace s hole x) fmt := by
  induction xs generalizing fmt with
  | nil => exact filled_of_le (by simp) fmt
  | cons x rest ih =>
    obtain ⟨hx, hrest⟩ := List.forall_mem_cons.mp hplain
    have hfirst : ∀ y ∈ [x], Plain y := by simpa using hx
    have hsteps := filled_filled hfirst rest 0 (Nat.zero_le _) fmt
    rw [List.singleton_append] at hsteps
    rw [List.foldl_cons, ← ih hrest, ← hsteps, filled_singleton]

/-- As many copies as there can be holes. -/
theorem filled_replicate (x : Bytes) {n : Nat} (hn : fmt.length ≤ n) :
    filled (List.replicate n x) 0 fmt = substituted hole x fmt := by
  rw [filled, substituted]
  refine interleave_congr fun j hj => ?_
  have hlen := length_split_le hole_ne_nil fmt
  have hlt : 0 + j < (List.replicate n x).length := by
    rw [List.length_replicate]
    omega
  rw [List.getD_eq_getElem _ _ hlt, List.getElem_replicate]

end Format

theorem format_eq {fmt : Bytes} {fuel : Nat} (hfuel : fmt.length < fuel) (args : List Bytes) :
    format fuel fmt (args.map .string) = some (.ok (Format.filled args 0 fmt)) := by
  rw [format, args_vec_strings]
  exact format_string_eq fmt args fuel hfuel

/-- **`Format` hole by hole**: with arguments that are not empty and have no brace it
does what `Replace` does with one after another, and what it returns can be filled with
further arguments as if they had been given at once. With copies of one argument, whatever
it is, it is `ReplaceAll`. -/
theorem format_hole_by_hole (fmt : Bytes) (xs : List Bytes)
    (hplain : ∀ x ∈ xs, x ≠ [] ∧ ∀ b ∈ x, b ∉ text "{}") :
    ∃ t, (∀ fuel, fmt.length < fuel → format fuel fmt (xs.map .string) = some (.ok t)) ∧
      t = xs.foldl (fun s x => replace s (text "{}") x) fmt ∧
      (∀ ys fuel, fmt.length < fuel → t.length < fuel →
        format fuel t (ys.map .string) = format fuel fmt ((xs ++ ys).map .string)) ∧
      ∀ x n fuel, fmt.length ≤ n → fmt.length < fuel →
        format fuel fmt ((List.replicate n x).map .string) = replaceAll fuel fmt (text "{}") x := by
  refine ⟨Format.filled xs 0 fmt, fun fuel hfuel => format_eq hfuel xs,
    Format.filled_foldl hplain fmt, fun ys fuel hfmt ht => ?_, fun x n fuel hn hfuel => ?_⟩
  · rw [format_eq ht, format_eq hfmt, Format.filled_filled hplain ys 0 (Nat.zero_le _)]
  · rw [format_eq hfuel, Format.filled_replicate x hn]
    exact (replaceAll_eq Format.hole_ne_nil fmt x fuel hfuel).symm

/-- A format with a hole between braces. -/
theorem format_hole_by_hole_braces :
    ∃ t, (∀ fuel, (text "\x7b{}\x7d {}").length < fuel →
        format fuel (text "\x7b{}\x7d {}") ([text "a"].map .string) = some (.ok t)) ∧
      t = [text "a"].foldl (fun s x => replace s (text "{}") x) (text "\x7b{}\x7d {}") ∧
      (∀ ys fuel, (text "\x7b{}\x7d {}").length < fuel → t.length < fuel →
        format fuel t (ys.map .string) =
          format fuel (text "\x7b{}\x7d {}") (([text "a"] ++ ys).map .string)) ∧
      ∀ x n fuel, (text "\x7b{}\x7d {}").length ≤ n → (text "\x7b{}\x7d {}").length < fuel →
        format fuel (text "\x7b{}\x7d {}") ((List.replicate n x).map .string) =
          replaceAll fuel (text "\x7b{}\x7d {}") (text "{}") x := by
  refine format_hole_by_hole (text "\x7b{}\x7d {}") [text "a"] fun x hx => ?_
  obtain rfl : x = text "a" := List.mem_singleton.mp hx
  exact ⟨by decide, show Apart (text "a") (text "{}") by decide⟩

end FalconStd.Strings
