import Mathlib.Data.List.DropRight
import FalconStd.Strings.Integers

/-! What `TrimSpace` takes off, and how a trimmed string is read.

A line feed is kept, while `std::stoll` skips it as it skips every blank. So an integer
is read from a string as from the trimmed one. A truth value is compared as a whole, and
is found between blanks only after trimming. -/
namespace FalconStd.Strings

/-! ### The routine -/

def blanks : Bytes := text " \t\r\x0c\x0b"

def find_first_not_of (s set : Bytes) : Option Nat := s.findIdx? fun b => !set.contains b

/-- The search from the back. -/
def find_last_not_of (s set : Bytes) : Option Nat :=
  (s.reverse.findIdx? fun b => !set.contains b).map fun i => s.length - 1 - i

/-- Where there is a first such byte there is a last one. -/
def trimSpace (s : Bytes) : Bytes :=
  match find_first_not_of s blanks, find_last_not_of s blanks with
  | some start, some end_ => substr s start (end_ - start + 1)
  | _, _ => []

/-! ### What it is for -/

/-- Nothing but blanks. -/
def Blank (s : Bytes) : Prop := ∀ b ∈ s, blanks.contains b = true

/-- It neither begins nor ends with a blank. -/
structure Bare (t : Bytes) : Prop where
  head : ∀ b ∈ t.head?, blanks.contains b = false
  last : ∀ b ∈ t.getLast?, blanks.contains b = false

/-- The bare string, with blanks around it. -/
def Padded (s t : Bytes) : Prop := ∃ l r, Blank l ∧ Blank r ∧ s = l ++ t ++ r

theorem blank_cases {b : Byte} (h : blanks.contains b = true) :
    isspace b = true ∧ isdigit b = false := by
  have hmem : b ∈ [0x20, 0x09, 0x0D, 0x0C, 0x0B] := List.contains_iff_mem.mp h
  simp only [List.mem_cons, List.not_mem_nil, or_false] at hmem
  obtain rfl | rfl | rfl | rfl | rfl := hmem <;> decide

section Trim
variable {s t l r : Bytes}

theorem Blank.isspace (h : Blank s) : ∀ b ∈ s, isspace b = true :=
  fun b hb => (blank_cases (h b hb)).1

theorem Blank.isdigit (h : Blank s) : ∀ b ∈ s, isdigit b = false :=
  fun b hb => (blank_cases (h b hb)).2

theorem Blank.append (hl : Blank l) (hr : Blank r) : Blank (l ++ r) :=
  fun b hb => (List.mem_append.mp hb).elim (hl b) (hr b)

theorem Blank.reverse (h : Blank s) : Blank s.reverse :=
  fun b hb => h b (List.mem_reverse.mp hb)

/-! ### Trimming -/

theorem findIdx?_blank (h : Blank s) : s.findIdx? (fun b => !blanks.contains b) = none := by
  rw [List.findIdx?_eq_none_iff]
  intro b hb
  rw [h b hb]
  rfl

theorem findIdx?_bare (hl : Blank l) (hne : t ≠ []) (ht : ∀ b ∈ t.head?, blanks.contains b = false)
    (r : Bytes) : (l ++ (t ++ r)).findIdx? (fun b => !blanks.contains b) = some l.length := by
  obtain ⟨b, t, rfl⟩ := List.exists_cons_of_ne_nil hne
  have hb : (!blanks.contains b) = true := by rw [ht b rfl]; rfl
  rw [List.findIdx?_append, findIdx?_blank hl, List.cons_append, List.findIdx?_cons, hb]
  simp

theorem trimSpace_blank (h : Blank s) : trimSpace s = [] := by
  rw [trimSpace, find_first_not_of, findIdx?_blank h]

/-- Both searches stop at the ends of what is bare. -/
theorem trimSpace_padded (ht : Bare t) (h : Padded s t) : trimSpace s = t := by
  obtain ⟨l, r, hl, hr, rfl⟩ := h
  by_cases hne : t = []
  · subst hne
    exact trimSpace_blank (by rw [List.append_nil]; exact hl.append hr)
  have hfirst : find_first_not_of (l ++ t ++ r) blanks = some l.length := by
    rw [find_first_not_of, List.append_assoc, findIdx?_bare hl hne ht.head]
  have hlast : find_last_not_of (l ++ t ++ r) blanks =
      some ((l ++ t ++ r).length - 1 - r.length) := by
    have hhead : ∀ b ∈ t.reverse.head?, blanks.contains b = false := by
      rw [List.head?_reverse]
      exact ht.last
    have hback := findIdx?_bare hr.reverse (List.reverse_ne_nil_iff.mpr hne) hhead l.reverse
    rw [find_last_not_of, List.reverse_append, List.reverse_append, hback, List.length_reverse,
      Option.map_some]
  have hpos : 0 < t.length := List.length_pos_iff.mpr hne
  have hcount : (l ++ t ++ r).length - 1 - r.length - l.length + 1 = t.length := by
    simp only [List.length_append]
    omega
  simp only [trimSpace, hfirst, hlast, hcount, substr]
  rw [List.append_assoc, List.drop_left, List.take_left]

theorem head?_of_prefix {t x : Bytes} (h : t <+: x) (hx : ∀ b ∈ x.head?, blanks.contains b = false) :
    ∀ b ∈ t.head?, blanks.contains b = false := by
  obtain ⟨r, rfl⟩ := h
  intro b hb
  refine hx b ?_
  rw [List.head?_append, Option.mem_def.mp hb]
  rfl

/-- Blanks dropped at the front, then at the back. -/
theorem exists_bare (s : Bytes) : ∃ t, Bare t ∧ Padded s t := by
  have hmid : ∀ b ∈ (s.dropWhile blanks.contains).head?, blanks.contains b = false := by
    intro b hb
    have hnot := List.head?_dropWhile_not blanks.contains s
    rw [Option.mem_def.mp hb] at hnot
    exact hnot
  refine ⟨(s.dropWhile blanks.contains).rdropWhile blanks.contains, ⟨?_, ?_⟩, ?_⟩
  · exact head?_of_prefix (List.rdropWhile_prefix blanks.contains _) hmid
  · intro b hb
    have hne : (s.dropWhile blanks.contains).rdropWhile blanks.contains ≠ [] := by
      intro hnil
      rw [hnil] at hb
      cases hb
    have hlast := List.rdropWhile_last_not blanks.contains _ hne
    rw [List.getLast?_eq_some_getLast hne] at hb
    cases hb
    exact Bool.eq_false_iff.mpr hlast
  · refine ⟨s.takeWhile blanks.contains, (s.dropWhile blanks.contains).rtakeWhile blanks.contains,
      fun b => List.mem_takeWhile_imp, fun b => List.mem_rtakeWhile_imp, ?_⟩
    rw [List.append_assoc, List.rdropWhile_append_rtakeWhile, List.takeWhile_append_dropWhile]

theorem trimSpace_iff : trimSpace s = t ↔ Bare t ∧ Padded s t := by
  constructor
  · intro h
    obtain ⟨u, hu, hs⟩ := exists_bare s
    rw [← h, trimSpace_padded hu hs]
    exact ⟨hu, hs⟩
  · intro h
    exact trimSpace_padded h.1 h.2

theorem padded_trimSpace (s : Bytes) : Padded s (trimSpace s) := (trimSpace_iff.mp rfl).2

theorem trimSpace_trimSpace (s : Bytes) : trimSpace (trimSpace s) = trimSpace s :=
  trimSpace_padded (trimSpace_iff.mp rfl).1 ⟨[], [], by simp [Blank], by simp [Blank], by simp⟩

/-! ### Reading an integer -/

theorem strtoll_front (hl : Blank l) (s : Bytes) : strtoll (l ++ s) = strtoll s := by
  simp only [strtoll, List.dropWhile_append_of_pos hl.isspace]

/-- A literal ends with a digit, and so not among the blanks behind. -/
theorem literal_front {front rest : Bytes} {n : Int} (hr : Blank r) (hfront : Literal front n)
    (h : s ++ r = front ++ rest) : ∃ mid, s = front ++ mid ∧ rest = mid ++ r := by
  obtain ⟨mid, hs, hrest⟩ | ⟨mid, rfl, hmid⟩ := List.append_eq_append_iff.mp h
  · by_cases hne : mid = []
    · subst hne
      exact ⟨[], by simpa using hs.symm, by simpa using hrest.symm⟩
    obtain ⟨p, rfl, -⟩ := hfront
    exfalso
    have hlast : (p.digits.getLast p.digits_ne_nil) = mid.getLast hne := by
      have hboth := congrArg List.getLast? hs
      rw [Parts.render, List.getLast?_append_of_ne_nil _ hne, ← List.append_assoc,
        List.getLast?_append_of_ne_nil _ p.digits_ne_nil, List.getLast?_eq_some_getLast hne,
        List.getLast?_eq_some_getLast p.digits_ne_nil] at hboth
      exact Option.some.inj hboth
    have hdigit := p.digits_valid _ (List.getLast_mem p.digits_ne_nil)
    have hblank : mid.getLast hne ∈ r := hrest ▸ List.mem_append_left _ (List.getLast_mem hne)
    rw [hlast, hr.isdigit _ hblank] at hdigit
    cases hdigit
  · exact ⟨mid, rfl, hmid⟩

theorem noDigit_append (hr : Blank r) (rest : Bytes) : NoDigit (rest ++ r) ↔ NoDigit rest := by
  cases rest with
  | cons b rest => rfl
  | nil =>
    refine iff_of_true ?_ noDigit_nil
    intro b hb
    exact hr.isdigit b (List.mem_of_head? hb)

theorem strtoll_back (hr : Blank r) (s : Bytes) :
    (strtoll (s ++ r)).map Prod.fst = (strtoll s).map Prod.fst := by
  cases hs : strtoll s with
  | some found =>
    obtain ⟨n, rest⟩ := found
    obtain ⟨front, rfl, hfront, hrest⟩ := literal_of_strtoll hs
    rw [List.append_assoc, strtoll_of_literal hfront ((noDigit_append hr rest).mpr hrest)]
    rfl
  | none =>
    cases hsr : strtoll (s ++ r) with
    | none => rfl
    | some found =>
      obtain ⟨n, rest⟩ := found
      obtain ⟨front, happ, hfront, hrest⟩ := literal_of_strtoll hsr
      obtain ⟨mid, rfl, rfl⟩ := literal_front hr hfront happ
      rw [strtoll_of_literal hfront ((noDigit_append hr mid).mp hrest)] at hs
      cases hs

theorem stoll_congr (h : (strtoll s).map Prod.fst = (strtoll t).map Prod.fst) :
    stoll s = stoll t := by
  cases hs : strtoll s with
  | none =>
    have ht : strtoll t = none := by simpa [hs] using h.symm
    rw [stoll, stoll, hs, ht]
  | some found =>
    obtain ⟨n, rest⟩ := found
    obtain ⟨rest', ht⟩ : ∃ rest', strtoll t = some (n, rest') := by
      rw [hs] at h
      obtain ⟨⟨m, rest'⟩, ht, rfl⟩ := Option.map_eq_some_iff.mp h.symm
      exact ⟨rest', ht⟩
    rw [stoll, stoll, hs, ht]

theorem stoll_padded (h : Padded s t) : stoll s = stoll t := by
  obtain ⟨l, r, hl, hr, rfl⟩ := h
  refine stoll_congr ?_
  rw [List.append_assoc, strtoll_front hl, strtoll_back hr]

end Trim

/-- **What `TrimSpace` returns is the one bare string that the argument is with blanks
around it**, and is its own. An integer is read from both alike, save that an error names
the string it was asked for, and a truth value is read from a trimmed string just where
one of its spellings stands between blanks. -/
theorem trimSpace_reads (s : Bytes) :
    (∀ t, trimSpace s = t ↔ Bare t ∧ Padded s t) ∧
      trimSpace (trimSpace s) = trimSpace s ∧
      (∀ n, toInt (trimSpace s) = .ok n ↔ toInt s = .ok n) ∧
      ∀ b, toBool (trimSpace s) = .ok b ↔
        Padded s (fromBool b) ∨ Padded s (text (if b then "1" else "0")) := by
  have htoInt : ∀ n x, toInt x = .ok n ↔ stoll x = .ok n := by
    intro n x
    rw [toInt]
    cases stoll x <;> simp
  have hbare : ∀ b, Bare (fromBool b) ∧ Bare (text (if b then "1" else "0")) := by
    intro b
    refine ⟨⟨?_, ?_⟩, ⟨?_, ?_⟩⟩ <;> intro c hc <;> cases b <;>
      obtain rfl := Option.some.inj hc <;> decide
  refine ⟨fun t => trimSpace_iff, trimSpace_trimSpace s, ?_, ?_⟩
  · intro n
    rw [htoInt, htoInt, stoll_padded (padded_trimSpace s)]
  · intro b
    rw [toBool_eq_ok_iff, trimSpace_iff, trimSpace_iff, and_iff_right (hbare b).1,
      and_iff_right (hbare b).2]

end FalconStd.Strings
