import FalconStd.Collections.ArrayRuns
import FalconStd.Strings.Patterns
import FalconStd.Strings.Substitution

/-! `RegexMatch` objects (`strings/strings-wrapper.cpp`).

`New` searches as `RegexTest` does and keeps what it found. `regex_routines_agree`: on
every pattern, also one that does not compile, the object, the quick test and the
replacement tell one story, the accessors give what the search found and nothing else, and
that is always part of the text. -/
namespace FalconStd.Strings
open Foundation Foundation.Substring

/-- `std::regex_search` with an `std::smatch`: the whole match and the groups after it, an
unmatched group empty; `none` also where the search gives up with `std::regex_error`. The
overload without it finds as much, and `std::regex_replace` replaces what there is to find. -/
structure RegexMatcher (R : Type) extends RegexEngine R where
  results : Bytes → R → Option (Bytes × List Bytes)
  searches : ∀ text re, search text re = (results text re).isSome
  leaves : ∀ text re replacement, results text re = none → replace text re replacement = text
  inside : ∀ text re full groups, results text re = some (full, groups) →
    ∀ part ∈ full :: groups, part <:+: text

structure RegexMatch where
  isMatched : Bool
  fullMatch : Bytes
  groups : List Bytes

namespace RegexMatch

/-- What is kept of a search; a pattern that does not compile matches nothing. -/
def ofResults : Option (Bytes × List Bytes) → RegexMatch
  | some (full, groups) => ⟨true, full, groups⟩
  | none => ⟨false, [], []⟩

def new {R : Type} (std : RegexMatcher R) (fuel : Nat) (pattern text : Bytes) :
    Option (Except Failure RegexMatch) :=
  (unescape_pattern fuel pattern).map (·.map fun pat =>
    match std.compile pat with
    | some re => ofResults (std.results text re)
    | none => ⟨false, [], []⟩)

def matched (m : RegexMatch) : Bool := m.isMatched

def full (m : RegexMatch) : Bytes := m.fullMatch

def groupCount (m : RegexMatch) : Int := m.groups.length

/-- `n >= 1 && (size_t)n <= groups.size()`, and then `groups[(size_t)(n - 1)]`. -/
def group (m : RegexMatch) (n : Int64) : Except Failure Bytes :=
  if 1 ≤ n ∧ n.toUInt64.toNat ≤ m.groups.length then unchecked m.groups (n - 1).toUInt64.toNat
  else .ok []

/-! ### Groups -/

theorem toInt_pred {n : Int64} (h : 1 ≤ n.toInt) : (n - 1).toInt = n.toInt - 1 := by
  have hlt := n.toInt_lt
  rw [Int64.toInt_sub, Int64.toInt_one]
  exact Int.bmod_eq_of_le (by omega) (by omega)

theorem group_of_inside {m : RegexMatch} {n : Int64} (h : 1 ≤ n.toInt)
    (hle : n.toInt ≤ m.groups.length) :
    ∃ part, m.groups[n.toInt.toNat - 1]? = some part ∧ m.group n = .ok part := by
  have hone : 1 ≤ n := Int64.le_iff_toInt_le.mpr h
  have hcast : n.toUInt64.toNat = n.toInt.toNat :=
    Collections.ArrayWrapper.toUInt64_toNat (by omega)
  have hpred : (n - 1).toUInt64.toNat = n.toInt.toNat - 1 := by
    rw [Collections.ArrayWrapper.toUInt64_toNat (by rw [toInt_pred h]; omega), toInt_pred h]
    omega
  have hlt : n.toInt.toNat - 1 < m.groups.length := by omega
  refine ⟨m.groups[n.toInt.toNat - 1], List.getElem?_eq_getElem hlt, ?_⟩
  rw [group, if_pos ⟨hone, by omega⟩, hpred]
  exact Collections.ArrayValue.unchecked_of_lt (List.getElem?_eq_getElem hlt)

theorem group_of_outside {m : RegexMatch} {n : Int64}
    (h : ¬ (1 ≤ n.toInt ∧ n.toInt ≤ m.groups.length)) : m.group n = .ok [] := by
  refine if_neg fun ⟨hone, hle⟩ => h ?_
  have h1 : 1 ≤ n.toInt := Int64.le_iff_toInt_le.mp hone
  have hcast : n.toUInt64.toNat = n.toInt.toNat :=
    Collections.ArrayWrapper.toUInt64_toNat (by omega)
  exact ⟨h1, by omega⟩

end RegexMatch

/-! ### One story -/

/-- What `std::regex` finds in the text: the whole match and the groups. -/
def Found {R : Type} (std : RegexMatcher R) (pattern text full : Bytes) (groups : List Bytes) :
    Prop :=
  ∃ re, std.compile (unescaped pattern) = some re ∧ std.results text re = some (full, groups)

/-- What a match object, the quick test and the replacement say of a pattern and a text. -/
structure OneStory {R : Type} (std : RegexMatcher R) (fuel : Nat) (pattern text : Bytes)
    (m : RegexMatch) : Prop where
  made : RegexMatch.new std fuel pattern text = some (.ok m)
  quick : regexTest std.toRegexEngine fuel pattern text = some (.ok m.matched)
  found : ∀ full groups, Found std pattern text full groups →
    m.matched = true ∧ m.full = full ∧ m.groups = groups
  nothing : m.matched = false →
    (∀ full groups, ¬ Found std pattern text full groups) ∧ m.full = [] ∧ m.groupCount = 0 ∧
      ∀ replacement, regexReplace std.toRegexEngine fuel text pattern replacement = some (.ok text)
  something : m.matched = true → Found std pattern text m.full m.groups
  full_inside : m.full <:+: text
  group_inside : ∀ n, 1 ≤ n.toInt ∧ n.toInt ≤ m.groupCount → ∃ part,
    m.groups[n.toInt.toNat - 1]? = some part ∧ m.group n = .ok part ∧ part <:+: text
  group_outside : ∀ n, ¬ (1 ≤ n.toInt ∧ n.toInt ≤ m.groupCount) → m.group n = .ok []

section Story
variable {R : Type} {std : RegexMatcher R} {fuel : Nat} {pattern text : Bytes}

/-- An object without a match. -/
theorem oneStory_of_nothing
    (hmade : RegexMatch.new std fuel pattern text = some (.ok ⟨false, [], []⟩))
    (hquick : regexTest std.toRegexEngine fuel pattern text = some (.ok false))
    (hno : ∀ full groups, ¬ Found std pattern text full groups)
    (hreplace : ∀ replacement,
      regexReplace std.toRegexEngine fuel text pattern replacement = some (.ok text)) :
    OneStory std fuel pattern text ⟨false, [], []⟩ where
  made := hmade
  quick := hquick
  found full groups h := absurd h (hno full groups)
  nothing _ := ⟨hno, rfl, rfl, hreplace⟩
  something h := by cases h
  full_inside := List.nil_infix
  group_inside n hn := by
    have hle : n.toInt ≤ 0 := hn.2
    omega
  group_outside _ hn := RegexMatch.group_of_outside hn

/-- An object with a match. -/
theorem oneStory_of_found {full : Bytes} {groups : List Bytes}
    (hfound : Found std pattern text full groups)
    (hmade : RegexMatch.new std fuel pattern text = some (.ok ⟨true, full, groups⟩))
    (hquick : regexTest std.toRegexEngine fuel pattern text = some (.ok true)) :
    OneStory std fuel pattern text ⟨true, full, groups⟩ := by
  obtain ⟨re, hre, hresults⟩ := hfound
  have hparts := std.inside text re full groups hresults
  refine ⟨hmade, hquick, fun full' groups' h => ?_, fun h => (by cases h),
    fun _ => ⟨re, hre, hresults⟩, hparts _ List.mem_cons_self, fun n hn => ?_,
    fun _ hn => RegexMatch.group_of_outside hn⟩
  · obtain ⟨re', hre', hresults'⟩ := h
    obtain rfl := Option.some.inj (hre.symm.trans hre')
    obtain ⟨rfl, rfl⟩ := Prod.mk.inj (Option.some.inj (hresults.symm.trans hresults'))
    exact ⟨rfl, rfl, rfl⟩
  · obtain ⟨part, hpart, hgroup⟩ := RegexMatch.group_of_inside hn.1 hn.2
    exact ⟨part, hpart, hgroup, hparts part (List.mem_cons_of_mem _ (List.mem_of_getElem? hpart))⟩

/-- **The regex routines agree** on every pattern and text. -/
theorem regex_routines_agree (std : RegexMatcher R) (pattern text : Bytes) {fuel : Nat}
    (hfuel : pattern.length < fuel) : ∃ m, OneStory std fuel pattern text m := by
  have hpattern := unescape_pattern_eq pattern fuel hfuel
  cases hre : std.compile (unescaped pattern) with
  | none =>
    refine ⟨_, oneStory_of_nothing ?_ ?_ (fun full groups h => ?_) fun replacement => ?_⟩
    · simp [RegexMatch.new, hpattern, Except.map, hre]
    · simp [regexTest, hpattern, Except.map, hre]
    · obtain ⟨re, hre', -⟩ := h
      cases hre.symm.trans hre'
    · simp [regexReplace, hpattern, Except.map, hre]
  | some re =>
    have hnew : RegexMatch.new std fuel pattern text =
        some (.ok (RegexMatch.ofResults (std.results text re))) := by
      simp [RegexMatch.new, hpattern, Except.map, hre]
    have htest : regexTest std.toRegexEngine fuel pattern text =
        some (.ok (std.results text re).isSome) := by
      simp [regexTest, hpattern, Except.map, hre, std.searches]
    cases hresults : std.results text re with
    | none =>
      rw [hresults] at hnew htest
      refine ⟨_, oneStory_of_nothing hnew htest (fun full groups h => ?_) fun replacement => ?_⟩
      · obtain ⟨re', hre', hresults'⟩ := h
        obtain rfl := Option.some.inj (hre.symm.trans hre')
        cases hresults.symm.trans hresults'
      · simp [regexReplace, hpattern, Except.map, hre, std.leaves text re replacement hresults]
    | some found =>
      obtain ⟨full, groups⟩ := found
      rw [hresults] at hnew htest
      exact ⟨_, oneStory_of_found ⟨re, hre, hresults⟩ hnew htest⟩

end Story

/-- A pattern without special characters but one pair of parentheses at its end, if any:
what is before them, and what is in them. -/
def parenthesised (pattern : Bytes) : Bytes × Option Bytes :=
  let (before, rest) := pattern.span (· != 0x28)
  (before, rest.tail?.map (·.takeWhile (· != 0x29)))

/-- `std::regex` on such patterns. -/
def grouping : RegexMatcher (Bytes × Option Bytes) where
  compile pattern := some (parenthesised pattern)
  search s re := contains s (re.1 ++ re.2.getD [])
  replace s re replacement := substituted (re.1 ++ re.2.getD []) replacement s
  results s re :=
    if contains s (re.1 ++ re.2.getD []) then some (re.1 ++ re.2.getD [], re.2.toList) else none
  searches := by
    intro s re
    cases contains s (re.1 ++ re.2.getD []) <;> rfl
  leaves := by
    intro s re replacement h
    cases hfind : find? (re.1 ++ re.2.getD []) s with
    | none => exact substituted_of_none hfind
    | some i => simp [contains, hfind] at h
  inside := by
    intro s re full groups h part hpart
    split at h
    case isTrue hfound =>
      cases h
      obtain ⟨i, hi⟩ := Option.isSome_iff_exists.mp hfound
      have hfull : re.1 ++ re.2.getD [] <:+: s :=
        (find?_eq_some_iff.mp hi).1.2.isInfix.trans (List.drop_suffix i s).isInfix
      rcases List.mem_cons.mp hpart with rfl | hgroup
      · exact hfull
      · rw [Option.mem_toList.mp hgroup] at hfull
        exact (List.suffix_append _ _).isInfix.trans hfull
    case isFalse => cases h

/-- The group of `b(c)` in `abcd`. -/
theorem regex_routines_agree_word :
    ∃ m, OneStory grouping 5 (text "b(c)") (text "abcd") m ∧ m.full = text "bc" ∧
      m.groupCount = 1 ∧ m.group 1 = .ok (text "c") ∧ m.group 2 = .ok [] := by
  have hfuel : (text "b(c)").length < 5 := by decide
  obtain ⟨m, hm⟩ := regex_routines_agree grouping (text "b(c)") (text "abcd") hfuel
  obtain ⟨-, hfull, hgroups⟩ := hm.found (text "bc") [text "c"] ⟨_, rfl, rfl⟩
  have hcount : m.groupCount = 1 := by
    rw [RegexMatch.groupCount, hgroups]
    rfl
  obtain ⟨part, hpart, hgroup, -⟩ := hm.group_inside 1 ⟨by decide, by rw [hcount]; decide⟩
  rw [hgroups] at hpart
  obtain rfl : text "c" = part := Option.some.inj hpart
  refine ⟨m, hm, hfull, hcount, hgroup, hm.group_outside 2 fun hn => ?_⟩
  rw [hcount] at hn
  exact absurd hn.2 (by decide)

end FalconStd.Strings
