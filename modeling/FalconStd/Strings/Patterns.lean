import FalconStd.Strings.Strings

/-! Patterns of regular expressions (`strings/strings-wrapper.cpp`).

A pattern is written with its backslashes doubled, and `unescape_pattern` halves them
before `std::regex` reads it. The class `std::regex` is a parameter, `RegexEngine`. -/
namespace FalconStd.Strings
open Foundation

namespace UnescapePattern

structure State where
  i : Nat
  out : Bytes

def guard (pat : Bytes) (st : State) : Bool := st.i < pat.length

/-- Two backslashes are passed at once, any other byte alone. -/
def body (pat : Bytes) (st : State) : Except Failure State := do
  let c ← unchecked pat st.i
  if c = backslash ∧ st.i + 1 < pat.length then
    let d ← unchecked pat (st.i + 1)
    if d = backslash then .ok ⟨st.i + 2, st.out ++ [backslash]⟩
    else .ok ⟨st.i + 1, st.out ++ [c]⟩
  else .ok ⟨st.i + 1, st.out ++ [c]⟩

end UnescapePattern

def unescape_pattern (fuel : Nat) (pat : Bytes) : Option (Except Failure Bytes) :=
  (loop (UnescapePattern.guard pat) (UnescapePattern.body pat) fuel ⟨0, []⟩).map
    (·.map UnescapePattern.State.out)

/-- `std::regex`; a pattern it does not compile throws `std::regex_error`. -/
structure RegexEngine (R : Type) where
  compile : Bytes → Option R
  search : Bytes → R → Bool
  replace : Bytes → R → Bytes → Bytes

/-- The answer is no where the pattern does not compile. -/
def regexTest {R : Type} (std : RegexEngine R) (fuel : Nat) (pattern text : Bytes) :
    Option (Except Failure Bool) :=
  (unescape_pattern fuel pattern).map (·.map fun pat =>
    match std.compile pat with
    | some re => std.search text re
    | none => false)

/-- The string is returned as it is where the pattern does not compile. -/
def regexReplace {R : Type} (std : RegexEngine R) (fuel : Nat) (s pattern replacement : Bytes) :
    Option (Except Failure Bytes) :=
  (unescape_pattern fuel pattern).map (·.map fun pat =>
    match std.compile pat with
    | some re => std.replace s re replacement
    | none => s)

/-! ### The pairs of a run of backslashes -/

/-- Each backslash is written twice. -/
def doubled (p : Bytes) : Bytes := p.flatMap fun b => if b = backslash then [b, b] else [b]

/-- The backslashes paired off from the left. -/
def unescaped : Bytes → Bytes
  | [] => []
  | [c] => [c]
  | c :: d :: s =>
    if c = backslash ∧ d = backslash then backslash :: unescaped s else c :: unescaped (d :: s)

theorem unescaped_pair (s : Bytes) :
    unescaped (backslash :: backslash :: s) = backslash :: unescaped s := by
  rw [unescaped, if_pos ⟨rfl, rfl⟩]

theorem unescaped_cons {c : Byte} {s : Bytes} (h : ¬ [backslash, backslash] <+: c :: s) :
    unescaped (c :: s) = c :: unescaped s := by
  cases s with
  | nil => rfl
  | cons d s =>
    have hno : ¬ (c = backslash ∧ d = backslash) := by
      intro hpair
      exact h ⟨s, by rw [hpair.1, hpair.2]; rfl⟩
    rw [unescaped, if_neg hno]

/-- Doubled backslashes pair off with their own doubles. -/
theorem unescaped_doubled (p : Bytes) : unescaped (doubled p) = p := by
  induction p with
  | nil => rfl
  | cons b p ih =>
    rw [doubled, List.flatMap_cons]
    by_cases hb : b = backslash
    · subst hb
      rw [if_pos rfl]
      exact (unescaped_pair (doubled p)).trans (congrArg (backslash :: ·) ih)
    · rw [if_neg hb]
      refine (unescaped_cons ?_).trans (congrArg (b :: ·) ih)
      intro h
      exact hb (List.cons_prefix_cons.mp h).1.symm

/-- Backslashes that stand alone are kept. -/
theorem unescaped_of_apart {p : Bytes} (h : ¬ [backslash, backslash] <:+: p) :
    unescaped p = p := by
  induction p with
  | nil => rfl
  | cons c p ih =>
    have hhead : ¬ [backslash, backslash] <+: c :: p := fun hp => h hp.isInfix
    have htail : ¬ [backslash, backslash] <:+: p := fun hp => h (List.infix_cons hp)
    rw [unescaped_cons hhead, ih htail]

/-! ### The loop -/

namespace UnescapePattern

/-- What is written so far, and the rest of the pattern. -/
def Cursor (pat : Bytes) (st : State) : Prop :=
  ∃ before rest, pat = before ++ rest ∧ st.i = before.length ∧
    st.out ++ unescaped rest = unescaped pat

theorem unchecked_rest (before rest : Bytes) (c : Byte) :
    unchecked (before ++ c :: rest) before.length = .ok c :=
  Collections.ArrayValue.unchecked_of_lt (by simp)

theorem body_pair (before rest out : Bytes) :
    body (before ++ backslash :: backslash :: rest) ⟨before.length, out⟩ =
      .ok ⟨before.length + 2, out ++ [backslash]⟩ := by
  have hnext : unchecked (before ++ backslash :: backslash :: rest) (before.length + 1) =
      .ok backslash :=
    Collections.ArrayValue.unchecked_of_lt (by simp)
  have hin : before.length + 1 < (before ++ backslash :: backslash :: rest).length := by simp
  simp only [body, unchecked_rest, hnext, bind, Except.bind, hin, and_self, if_true]

theorem body_single (before : Bytes) {rest : Bytes} (out : Bytes) {c : Byte}
    (h : ¬ [backslash, backslash] <+: c :: rest) :
    body (before ++ c :: rest) ⟨before.length, out⟩ = .ok ⟨before.length + 1, out ++ [c]⟩ := by
  cases rest with
  | nil =>
    have hout : ¬ before.length + 1 < (before ++ [c]).length := by simp
    simp only [body, unchecked_rest, bind, Except.bind, hout, and_false, if_false]
  | cons d rest =>
    have hnext : unchecked (before ++ c :: d :: rest) (before.length + 1) = .ok d :=
      Collections.ArrayValue.unchecked_of_lt (by simp)
    by_cases hc : c = backslash
    · have hd : d ≠ backslash := by
        intro hd
        exact h ⟨rest, by rw [hc, hd]; rfl⟩
      simp only [body, unchecked_rest, hnext, bind, Except.bind, hd, if_false, ite_self]
    · simp only [body, unchecked_rest, bind, Except.bind, hc, false_and, if_false]

theorem body_cursor {pat : Bytes} {st : State} (hst : Cursor pat st) (hg : guard pat st = true) :
    ∃ st', body pat st = .ok st' ∧ Cursor pat st' ∧ pat.length - st'.i < pat.length - st.i := by
  obtain ⟨i, out⟩ := st
  obtain ⟨before, rest, rfl, rfl, hdone⟩ := hst
  have hlt : before.length < (before ++ rest).length := by simpa [guard] using hg
  by_cases hpair : [backslash, backslash] <+: rest
  · obtain ⟨rest, rfl⟩ := hpair
    have hbody := body_pair before rest out
    refine ⟨_, hbody, ⟨before ++ [backslash, backslash], rest, ?_, ?_, ?_⟩, ?_⟩
    · simp
    · simp
    · rw [← hdone]
      exact (List.append_assoc ..).trans (congrArg (out ++ ·) (unescaped_pair rest).symm)
    · exact Nat.sub_lt_sub_left hlt (Nat.lt_add_of_pos_right Nat.two_pos)
  · cases rest with
    | nil => simp at hlt
    | cons c rest =>
      have hbody := body_single before out hpair
      refine ⟨_, hbody, ⟨before ++ [c], rest, ?_, ?_, ?_⟩, ?_⟩
      · simp
      · simp
      · rw [← hdone, unescaped_cons hpair]
        exact List.append_assoc ..
      · exact Nat.sub_lt_sub_left hlt (Nat.lt_succ_self _)

theorem cursor_start (pat : Bytes) : Cursor pat ⟨0, []⟩ := ⟨[], pat, rfl, rfl, rfl⟩

theorem cursor_stop {pat : Bytes} {st : State} (hst : Cursor pat st)
    (hg : guard pat st = false) : st.out = unescaped pat := by
  obtain ⟨before, rest, rfl, hi, hdone⟩ := hst
  have hle : (before ++ rest).length ≤ st.i := by simpa [guard] using hg
  have hrest : rest = [] := by
    rw [hi, List.length_append] at hle
    exact List.length_eq_zero_iff.mp (by omega)
  subst hrest
  rw [unescaped, List.append_nil] at hdone
  exact hdone

end UnescapePattern

theorem unescape_pattern_eq (pat : Bytes) (fuel : Nat) (hfuel : pat.length < fuel) :
    unescape_pattern fuel pat = some (.ok (unescaped pat)) := by
  obtain ⟨st, hloop, hst, hstop⟩ := loop_returns (I := UnescapePattern.Cursor pat)
    (UnescapePattern.guard pat) (fun st => pat.length - st.i)
    (fun st hst hg => UnescapePattern.body_cursor hst hg) ⟨0, []⟩
    (UnescapePattern.cursor_start pat) fuel hfuel
  rw [unescape_pattern, hloop]
  simp only [Option.map_some, Except.map, UnescapePattern.cursor_stop hst hstop]

/-- `unescape_pattern` returns, and undoes the doubling of backslashes; a string in which
no two backslashes are adjacent it returns as it is. -/
theorem unescape_pattern_inverts :
    ∃ result : Bytes → Bytes,
      (∀ pat fuel, pat.length < fuel → unescape_pattern fuel pat = some (.ok (result pat))) ∧
      (∀ p, result (doubled p) = p) ∧
      ∀ p, ¬ [backslash, backslash] <:+: p → result p = p :=
  ⟨unescaped, unescape_pattern_eq, unescaped_doubled, fun _ h => unescaped_of_apart h⟩

/-- Five backslashes, the last one without a partner. -/
example : unescape_pattern 8 (text "a\\\\\\\\\\") = some (.ok (text "a\\\\\\")) := by decide

/-! ### What `std::regex` is given -/

section Engine
variable {R : Type} (std : RegexEngine R)

/-- Every pattern reaches `std::regex` when it is written doubled. -/
theorem regexTest_doubled (p text : Bytes) {fuel : Nat} (hfuel : (doubled p).length < fuel) :
    regexTest std fuel (doubled p) text =
      some (.ok ((std.compile p).elim false (std.search text))) := by
  rw [regexTest, unescape_pattern_eq _ _ hfuel, unescaped_doubled]
  cases hre : std.compile p with
  | none => simp [Except.map, hre]
  | some re => simp [Except.map, hre]

theorem regexReplace_doubled (s p replacement : Bytes) {fuel : Nat}
    (hfuel : (doubled p).length < fuel) :
    regexReplace std fuel s (doubled p) replacement =
      some (.ok ((std.compile p).elim s fun re => std.replace s re replacement)) := by
  rw [regexReplace, unescape_pattern_eq _ _ hfuel, unescaped_doubled]
  cases hre : std.compile p with
  | none => simp [Except.map, hre]
  | some re => simp [Except.map, hre]

end Engine

end FalconStd.Strings
