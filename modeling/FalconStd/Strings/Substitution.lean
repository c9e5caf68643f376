import Mathlib.Data.List.GetD
import FalconStd.Strings.Strings

/-! What `ReplaceAll` and `Format` write for the words they find.

Both are loops over a cursor that has passed the inserted text. What is before the
cursor is final, and what is after it is a piece of the argument, so both write the
pieces of the argument with other words between them (`interleave`). -/
namespace FalconStd.Strings
open Foundation Substring

/-! ### Searching -/

theorem contains_iff {s sub : Bytes} : contains s sub = true ↔ ∃ i, OccursAt sub s i := by
  rw [contains, ← Bool.not_eq_false, Option.isSome_eq_false_iff, Option.isNone_iff_eq_none,
    find?_eq_none_iff, not_forall_not]

/-! ### ReplaceAll -/

/-- Every piece between the occurrences, with `to_` after it. -/
def substituted (from_ to_ s : Bytes) : Bytes := interleave (split from_ s) fun _ => to_

theorem substituted_of_none {from_ to_ s : Bytes} (h : find? from_ s = none) :
    substituted from_ to_ s = s := by
  rw [substituted, split_of_none h]
  rfl

theorem substituted_of_some {from_ to_ s : Bytes} {i : Nat} (hfrom : from_ ≠ [])
    (h : find? from_ s = some i) :
    substituted from_ to_ s =
      s.take i ++ to_ ++ substituted from_ to_ (s.drop (i + from_.length)) := by
  rw [substituted, split_of_some hfrom h, interleave_cons (split_ne_nil from_ _),
    List.append_assoc]
  rfl

namespace ReplaceAll
variable {from_ to_ s : Bytes}

/-- The cursor parts what is final from what is still to be searched. -/
def Cursor (from_ to_ s : Bytes) (st : State) : Prop :=
  ∃ before rest, st = ⟨before ++ rest, before.length⟩ ∧
    before ++ substituted from_ to_ rest = substituted from_ to_ s

theorem findFrom?_cursor (w before rest : Bytes) :
    findFrom? w (before ++ rest) before.length = (find? w rest).map (· + before.length) := by
  rw [findFrom?, if_pos (by simp), List.drop_left]

theorem replaceAt_cursor (before rest : Bytes) {i n : Nat} (to_ : Bytes) :
    replaceAt (before ++ rest) (i + before.length) n to_ =
      before ++ rest.take i ++ to_ ++ rest.drop (i + n) := by
  have htake : (before ++ rest).take (i + before.length) = before ++ rest.take i := by
    rw [Nat.add_comm, List.take_length_add_append]
  have hdrop : (before ++ rest).drop (i + before.length + n) = rest.drop (i + n) := by
    rw [show i + before.length + n = before.length + (i + n) by omega,
      List.drop_length_add_append]
  rw [replaceAt, htake, hdrop]

/-- The cursor moves past the inserted text, and what is left is shorter. -/
theorem body_cursor (hfrom : from_ ≠ []) {st : State} (hst : Cursor from_ to_ s st)
    (hg : guard from_ st = true) :
    ∃ st', body from_ to_ st = .ok st' ∧ Cursor from_ to_ s st' ∧
      st'.s.length - st'.pos < st.s.length - st.pos := by
  obtain ⟨before, rest, rfl, hdone⟩ := hst
  rw [guard, findFrom?_cursor] at hg
  cases hfind : find? from_ rest with
  | none => simp [hfind] at hg
  | some i =>
    have hi : i ≤ rest.length := (find?_eq_some_iff.mp hfind).1.1
    have hlt := length_drop_lt hfrom hfind
    have hbefore : (before ++ rest.take i ++ to_).length = i + before.length + to_.length := by
      simp only [List.length_append, List.length_take, Nat.min_eq_left hi]
      omega
    have hbody : body from_ to_ ⟨before ++ rest, before.length⟩ =
        .ok ⟨before ++ rest.take i ++ to_ ++ rest.drop (i + from_.length),
          (before ++ rest.take i ++ to_).length⟩ := by
      simp only [body, findFrom?_cursor, hfind, Option.map_some, replaceAt_cursor, hbefore]
    refine ⟨_, hbody, ⟨_, _, rfl, ?_⟩, ?_⟩
    · rw [← hdone, substituted_of_some hfrom hfind]
      simp only [List.append_assoc]
    · simp only [List.length_append] at hlt ⊢
      omega

theorem cursor_start (from_ to_ s : Bytes) : Cursor from_ to_ s ⟨s, 0⟩ :=
  ⟨[], s, rfl, rfl⟩

theorem cursor_stop {st : State} (hst : Cursor from_ to_ s st) (hg : guard from_ st = false) :
    st.s = substituted from_ to_ s := by
  obtain ⟨before, rest, rfl, hdone⟩ := hst
  rw [guard, findFrom?_cursor] at hg
  have hfind : find? from_ rest = none := by simpa using hg
  rw [← hdone, substituted_of_none hfind]

end ReplaceAll

/-- The loop needs a pass for each occurrence, and one to find none. -/
theorem replaceAll_eq {from_ : Bytes} (hfrom : from_ ≠ []) (s to_ : Bytes) (fuel : Nat)
    (hfuel : s.length < fuel) :
    replaceAll fuel s from_ to_ = some (.ok (substituted from_ to_ s)) := by
  obtain ⟨st, hloop, hst, hstop⟩ := loop_returns (I := ReplaceAll.Cursor from_ to_ s)
    (ReplaceAll.guard from_) (fun st => st.s.length - st.pos)
    (fun st hst hg => ReplaceAll.body_cursor hfrom hst hg) ⟨s, 0⟩
    (ReplaceAll.cursor_start from_ to_ s) fuel hfuel
  rw [replaceAll, if_neg hfrom, hloop]
  simp only [Option.map_some, Except.map, ReplaceAll.cursor_stop hst hstop]

/-- `ReplaceAll` returns with fuel beyond the length, whatever the fuel. It changes
nothing for an empty word or one that does not occur; else it puts `to_` for the first
occurrence, as `Replace` does, and goes on behind it, in the argument. -/
theorem replaceAll_substitutes (from_ to_ : Bytes) :
    ∃ result : Bytes → Bytes,
      (∀ s fuel, s.length < fuel → replaceAll fuel s from_ to_ = some (.ok (result s))) ∧
      (∀ s, (from_ = [] ∨ ∀ i, ¬ OccursAt from_ s i) → result s = s) ∧
      (∀ s i, from_ ≠ [] → FirstAt from_ s i →
        result s = s.take i ++ to_ ++ result (s.drop (i + from_.length))) ∧
      ∀ s i, FirstAt from_ s i →
        replace s from_ to_ = s.take i ++ to_ ++ s.drop (i + from_.length) := by
  have hreplace : ∀ s i, FirstAt from_ s i →
      replace s from_ to_ = s.take i ++ to_ ++ s.drop (i + from_.length) := by
    intro s i hi
    rw [replace, find?_eq_some_iff.mpr hi]
    rfl
  by_cases hfrom : from_ = []
  · refine ⟨id, ?_, fun s _ => rfl, fun s i hne => absurd hfrom hne, hreplace⟩
    intro s fuel _
    rw [replaceAll, if_pos hfrom]
    rfl
  · refine ⟨substituted from_ to_, fun s fuel => replaceAll_eq hfrom s to_ fuel, ?_, ?_, hreplace⟩
    · intro s hs
      have hnone : ∀ i, ¬ OccursAt from_ s i := hs.resolve_left hfrom
      exact substituted_of_none (find?_eq_none_iff.mpr hnone)
    · intro s i hne hi
      exact substituted_of_some hne (find?_eq_some_iff.mpr hi)

/-- An inserted `to_` that contains `from_`, at overlapping occurrences. -/
example : replaceAll 6 (text "aaaaa") (text "aa") (text "aab") = some (.ok (text "aabaaba")) := by
  decide

/-! ### Format -/

namespace Format

def hole : Bytes := text "{}"

theorem hole_eq : hole = [0x7B, 0x7D] := by decide

theorem hole_ne_nil : hole ≠ [] := by decide

/-- The pieces of the format between its holes, filled from the `k`-th argument on. -/
def filled (args : List Bytes) (k : Nat) (fmt : Bytes) : Bytes :=
  interleave (split hole fmt) fun j => args.getD (k + j) hole

section Filled
variable {args : List Bytes} {rest : Bytes} {k : Nat}

theorem filled_nil : filled args k [] = [] := rfl

theorem filled_hole (args : List Bytes) (k : Nat) (rest : Bytes) :
    filled args k (hole ++ rest) = args.getD k hole ++ filled args (k + 1) rest := by
  have hnext : (fun j => args.getD (k + (j + 1)) hole) = fun j => args.getD (k + 1 + j) hole := by
    funext j
    rw [Nat.add_right_comm, Nat.add_assoc]
  rw [filled, interleave_split_append hole_ne_nil, hnext]
  rfl

/-- With no argument left every hole is filled with itself. -/
theorem filled_succ_of_le (hk : args.length ≤ k) (rest : Bytes) :
    filled args (k + 1) rest = filled args k rest := by
  have hhole : ∀ m, k ≤ m → args.getD m hole = hole :=
    fun m hm => List.getD_eq_default _ _ (hk.trans hm)
  rw [filled, filled]
  congr 1
  funext j
  rw [hhole _ (by omega), hhole _ (by omega)]

theorem filled_cons {c : Byte} (h : ¬ hole <+: c :: rest) :
    filled args k (c :: rest) = c :: filled args k rest :=
  interleave_split_cons hole_ne_nil h _

end Filled

/-- The two letters that the source compares. -/
theorem hole_prefix_iff (before rest : Bytes) :
    (before.length + 1 < (before ++ rest).length ∧ (before ++ rest)[before.length]? = some 0x7B ∧
      (before ++ rest)[before.length + 1]? = some 0x7D) ↔ hole <+: rest := by
  have hfirst : (before ++ rest)[before.length]? = rest[0]? := by
    rw [List.getElem?_append_right le_rfl, Nat.sub_self]
  have hsecond : (before ++ rest)[before.length + 1]? = rest[1]? := by
    rw [List.getElem?_append_right (Nat.le_succ _), Nat.succ_sub le_rfl, Nat.sub_self]
  rw [hfirst, hsecond, List.length_append, hole_eq]
  match rest with
  | [] => simp
  | [a] => simp
  | a :: b :: rest => simp [eq_comm]

/-- What is written so far, and the rest of the format still to be filled. -/
def Cursor (args : List Bytes) (fmt : Bytes) (st : State) : Prop :=
  ∃ before rest, fmt = before ++ rest ∧ st.i = before.length ∧
    st.result ++ filled args st.arg_index rest = filled args 0 fmt

section Loop
variable {args : List Bytes} {fmt : Bytes}

/-- A hole at the cursor takes an argument, if there is one. -/
theorem body_hole {before rest : Bytes} {k : Nat} {result : Bytes}
    (hdone : result ++ filled args k (hole ++ rest) = filled args 0 (before ++ (hole ++ rest))) :
    ∃ st', body (before ++ (hole ++ rest)) args ⟨before.length, k, result⟩ = .ok st' ∧
      Cursor args (before ++ (hole ++ rest)) st' ∧ before.length < st'.i := by
  have hlen : (before ++ hole).length = before.length + 2 := by
    rw [List.length_append]
    rfl
  have hif := (hole_prefix_iff before (hole ++ rest)).mpr (List.prefix_append hole rest)
  rw [filled_hole, ← List.append_assoc] at hdone
  rw [body, if_pos hif]
  cases harg : args[k]? with
  | some arg =>
    have hget : args.getD k hole = arg := by simp [harg]
    rw [hget] at hdone
    exact ⟨_, rfl, ⟨before ++ hole, rest, (List.append_assoc ..).symm, hlen.symm, hdone⟩,
      Nat.lt_add_of_pos_right Nat.two_pos⟩
  | none =>
    have hget : args.getD k hole = hole := by simp [harg]
    rw [hget, filled_succ_of_le (List.getElem?_eq_none_iff.mp harg)] at hdone
    exact ⟨_, rfl, ⟨before ++ hole, rest, (List.append_assoc ..).symm, hlen.symm, hdone⟩,
      Nat.lt_add_of_pos_right Nat.two_pos⟩

/-- Any other letter is kept. -/
theorem body_letter {before rest : Bytes} {c : Byte} {k : Nat} {result : Bytes}
    (hno : ¬ hole <+: c :: rest)
    (hdone : result ++ filled args k (c :: rest) = filled args 0 (before ++ c :: rest)) :
    ∃ st', body (before ++ c :: rest) args ⟨before.length, k, result⟩ = .ok st' ∧
      Cursor args (before ++ c :: rest) st' ∧ before.length < st'.i := by
  have hif := fun h => hno ((hole_prefix_iff before (c :: rest)).mp h)
  have hread : unchecked (before ++ c :: rest) before.length = .ok c :=
    Collections.ArrayValue.unchecked_of_lt (by simp)
  have hbody : body (before ++ c :: rest) args ⟨before.length, k, result⟩ =
      .ok ⟨before.length + 1, k, result ++ [c]⟩ := by
    rw [body, if_neg hif, hread]
    rfl
  rw [filled_cons hno] at hdone
  refine ⟨_, hbody, ⟨before ++ [c], rest, ?_, ?_, ?_⟩, Nat.lt_succ_self _⟩
  · simp
  · simp
  · simpa using hdone

theorem body_cursor {st : State} (hst : Cursor args fmt st) (hg : guard fmt st = true) :
    ∃ st', body fmt args st = .ok st' ∧ Cursor args fmt st' ∧
      fmt.length - st'.i < fmt.length - st.i := by
  obtain ⟨i, k, result⟩ := st
  obtain ⟨before, rest, rfl, rfl, hdone⟩ := hst
  have hlt : before.length < (before ++ rest).length := by simpa [guard] using hg
  by_cases hhole : hole <+: rest
  · obtain ⟨rest, rfl⟩ := hhole
    obtain ⟨st', hbody, hst', hmore⟩ := body_hole hdone
    exact ⟨st', hbody, hst', Nat.sub_lt_sub_left hlt hmore⟩
  · cases rest with
    | nil => simp at hlt
    | cons c rest =>
      obtain ⟨st', hbody, hst', hmore⟩ := body_letter hhole hdone
      exact ⟨st', hbody, hst', Nat.sub_lt_sub_left hlt hmore⟩

theorem cursor_start (args : List Bytes) (fmt : Bytes) : Cursor args fmt ⟨0, 0, []⟩ :=
  ⟨[], fmt, rfl, rfl, rfl⟩

theorem cursor_stop {st : State} (hst : Cursor args fmt st) (hg : guard fmt st = false) :
    st.result = filled args 0 fmt := by
  obtain ⟨before, rest, rfl, hi, hdone⟩ := hst
  have hle : (before ++ rest).length ≤ st.i := by simpa [guard] using hg
  have hrest : rest = [] := by
    rw [hi, List.length_append] at hle
    exact List.length_eq_zero_iff.mp (by omega)
  subst hrest
  rw [filled_nil, List.append_nil] at hdone
  exact hdone

end Loop

end Format

theorem format_string_eq (fmt : Bytes) (args : List Bytes) (fuel : Nat)
    (hfuel : fmt.length < fuel) :
    format_string fuel fmt args = some (.ok (Format.filled args 0 fmt)) := by
  obtain ⟨st, hloop, hst, hstop⟩ := loop_returns (I := Format.Cursor args fmt)
    (Format.guard fmt) (fun st => fmt.length - st.i)
    (fun st hst hg => Format.body_cursor hst hg) ⟨0, 0, []⟩ (Format.cursor_start args fmt)
    fuel hfuel
  rw [format_string, hloop]
  simp only [Option.map_some, Except.map, Format.cursor_stop hst hstop]

theorem args_vec_strings (args : List Bytes) : args_vec (args.map .string) = .ok args := by
  induction args with
  | nil => rfl
  | cons arg rest ih =>
    rw [List.map_cons, args_vec, ih]
    rfl

/-- `Format` cuts the format at its `{}`, from left to right, and puts it together
again with the arguments in order, and with `{}` where they have run out. -/
theorem format_fills (fmt : Bytes) (args : List Bytes) (fuel : Nat) (hfuel : fmt.length < fuel) :
    format fuel fmt (args.map .string) =
        some (.ok (interleave (split (text "{}") fmt) fun i => args.getD i (text "{}"))) ∧
      interleave (split (text "{}") fmt) (fun _ => text "{}") = fmt := by
  refine ⟨?_, interleave_split Format.hole_ne_nil fmt⟩
  rw [format, args_vec_strings]
  simp only [format_string_eq fmt args fuel hfuel, Format.filled, Nat.zero_add]
  rfl

theorem format_fills_braces :
    format 20 (text "\x7b{}\x7d {}\x7b") ([text "{}", text "b", text "c"].map .string) =
        some (.ok (interleave (split (text "{}") (text "\x7b{}\x7d {}\x7b")) fun i =>
          [text "{}", text "b", text "c"].getD i (text "{}"))) ∧
      interleave (split (text "{}") (text "\x7b{}\x7d {}\x7b")) (fun _ => text "{}") = text "\x7b{}\x7d {}\x7b" :=
  format_fills (text "\x7b{}\x7d {}\x7b") [text "{}", text "b", text "c"] 20 (by decide)

end FalconStd.Strings
