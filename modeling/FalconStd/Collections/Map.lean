import Mathlib.Data.List.InsertIdx
import FalconStd.Foundation.Assoc
import FalconStd.Collections.Array

/-! `Map<K, V>` (`collections/map/map.fal`): two arrays, searched and mutated
separately. -/
namespace FalconStd.Collections

structure Map (K V : Type) where
  keys_ : List K
  values_ : List V
  deriving DecidableEq, Repr

namespace Map

variable {K V : Type}

def new : Map K V := ⟨ArrayValue.new, ArrayValue.new⟩

def size (m : Map K V) : Int := ArrayValue.size m.keys_

def isEmpty (m : Map K V) : Bool := ArrayValue.size m.keys_ == 0

def clear (m : Map K V) : Map K V := ⟨ArrayValue.clear m.keys_, ArrayValue.clear m.values_⟩

def keys (m : Map K V) : List K := m.keys_

def values (m : Map K V) : List V := m.values_

section Keyed
variable [BEq K]

def get (m : Map K V) (key : K) : Except Failure V :=
  let index := ArrayValue.indexOf m.keys_ key
  ArrayValue.getIndex m.values_ index

def getOr (m : Map K V) (key : K) (default_value : V) : Except Failure V :=
  let index := ArrayValue.indexOf m.keys_ key
  if index != -1 then ArrayValue.getIndex m.values_ index else .ok default_value

def set (m : Map K V) (key : K) (value : V) : Except Failure Unit × Map K V :=
  if ArrayValue.contains m.keys_ key then
    let index := ArrayValue.indexOf m.keys_ key
    let (outcome, values) := ArrayValue.setIndex m.values_ index value
    (outcome, { m with values_ := values })
  else
    (.ok (), ⟨ArrayValue.pushBack m.keys_ key, ArrayValue.pushBack m.values_ value⟩)

def remove (m : Map K V) (key : K) : Except Failure Bool × Map K V :=
  let index := ArrayValue.indexOf m.keys_ key
  if index != -1 then
    match ArrayValue.erase m.keys_ index with
    | (.error e, keys) => (.error e, { m with keys_ := keys })
    | (.ok _, keys) =>
      match ArrayValue.erase m.values_ index with
      | (.error e, values) => (.error e, ⟨keys, values⟩)
      | (.ok _, values) => (.ok true, ⟨keys, values⟩)
  else (.ok false, m)

def contains (m : Map K V) (key : K) : Bool := ArrayValue.contains m.keys_ key

end Keyed

/-! ### Maps of entries

`ofEntries` is the pair of arrays that a list of entries stands for. Every
routine takes such a pair to such a pair, whatever the keys' equality. -/

open Foundation

def ofEntries (l : List (K × V)) : Map K V := ⟨l.map Prod.fst, l.map Prod.snd⟩

def entries (m : Map K V) : List (K × V) := m.keys_.zip m.values_

@[simp] theorem entries_ofEntries (l : List (K × V)) : (ofEntries l).entries = l := by
  simp [entries, ofEntries, List.zip_map']

theorem ofEntries_entries {m : Map K V} (h : m.keys_.length = m.values_.length) :
    ofEntries m.entries = m := by
  have hk : (m.keys_.zip m.values_).map Prod.fst = m.keys_ := List.map_fst_zip (by omega)
  have hv : (m.keys_.zip m.values_).map Prod.snd = m.values_ := List.map_snd_zip (by omega)
  simp [ofEntries, entries, hk, hv]

@[simp] theorem size_ofEntries (l : List (K × V)) : (ofEntries l).size = l.length := by
  simp [size, ofEntries, ArrayValue.size]

variable [BEq K]

/-- The arrays are aligned and the keys pairwise distinct. -/
structure WellFormed (m : Map K V) : Prop where
  aligned : m.keys_.length = m.values_.length
  distinct : m.keys_.Pairwise fun a b => (a == b) = false

theorem wellFormed_ofEntries (l : List (K × V)) :
    (ofEntries l).WellFormed ↔ Assoc.Distinct l := by
  rw [Assoc.distinct_iff_keys]
  exact ⟨fun h => h.distinct, fun h => ⟨by simp [ofEntries], h⟩⟩

theorem WellFormed.distinct_entries {m : Map K V} (h : m.WellFormed) :
    Assoc.Distinct m.entries := by
  rw [← wellFormed_ofEntries, ofEntries_entries h.aligned]
  exact h

theorem indexOf_ofEntries (l : List (K × V)) (key : K) :
    ArrayValue.indexOf (ofEntries l).keys_ key =
      match Assoc.index? key l with
      | some i => i
      | none => -1 := by
  rw [ArrayValue.indexOf, ← Assoc.findIdx?_keys]
  rfl

@[simp] theorem contains_ofEntries (l : List (K × V)) (key : K) :
    (ofEntries l).contains key = Assoc.contains key l := by
  simp [contains, ArrayValue.contains, ofEntries, Assoc.contains, List.any_map, Function.comp_def]

theorem get_ofEntries (l : List (K × V)) (key : K) :
    (ofEntries l).get key =
      match Assoc.get? key l with
      | some v => .ok v
      | none => .error (ArrayValue.outOfBounds "GetIndex" (-1) l.length) := by
  have hiff := Assoc.index?_eq_none_iff key l
  simp only [get, indexOf_ofEntries]
  cases hi : Assoc.index? key l with
  | none =>
    rw [hiff.mp hi]
    simpa [ofEntries] using ArrayValue.getIndex_negative (l.map Prod.snd)
  | some i =>
    have hv := Assoc.get?_eq_values_index hi
    obtain ⟨v, hg⟩ : ∃ v, Assoc.get? key l = some v :=
      Option.ne_none_iff_exists'.mp fun hnone => by simp [hiff.mpr hnone] at hi
    rw [hg] at hv ⊢
    exact ArrayValue.getIndex_of_some hv

theorem getOr_ofEntries (l : List (K × V)) (key : K) (default_value : V) :
    (ofEntries l).getOr key default_value = .ok ((Assoc.get? key l).getD default_value) := by
  have hget := get_ofEntries l key
  simp only [get, getOr, indexOf_ofEntries] at hget ⊢
  cases hi : Assoc.index? key l with
  | none => simp [(Assoc.index?_eq_none_iff key l).mp hi]
  | some i =>
    have hne : ((i : Int) != -1) = true := by
      simp only [bne_iff_ne, ne_eq]
      omega
    rw [hi] at hget
    simp only [hne, if_true]
    rw [hget]
    cases hg : Assoc.get? key l with
    | some v => rfl
    | none => rw [(Assoc.index?_eq_none_iff key l).mpr hg] at hi; cases hi

theorem set_ofEntries (l : List (K × V)) (key : K) (value : V) :
    (ofEntries l).set key value = (.ok (), ofEntries (Assoc.set key value l)) := by
  have hc : ArrayValue.contains (ofEntries l).keys_ key = Assoc.contains key l :=
    contains_ofEntries l key
  have hsome := Assoc.index?_isSome key l
  simp only [set, hc, indexOf_ofEntries]
  cases hi : Assoc.index? key l with
  | none =>
    have hnone := (Assoc.index?_eq_none_iff key l).mp hi
    rw [hi] at hsome
    rw [← hsome, Assoc.set_of_get?_none value hnone]
    simp [ofEntries, ArrayValue.pushBack]
  | some i =>
    have hkeys := Assoc.keys_set key value l
    have hlt : i < (ofEntries l).values_.length := by simpa [ofEntries] using Assoc.index?_lt hi
    rw [hi] at hsome
    rw [← hsome] at hkeys ⊢
    simp only [Option.isSome_some, if_true] at hkeys ⊢
    rw [ArrayValue.setIndex_of_lt hlt]
    simp [ofEntries, hkeys, ← Assoc.values_set_index value hi]

theorem remove_ofEntries (l : List (K × V)) (key : K) :
    (ofEntries l).remove key = (.ok (Assoc.contains key l), ofEntries (Assoc.remove key l)) := by
  have hsome := Assoc.index?_isSome key l
  simp only [remove, indexOf_ofEntries]
  cases hi : Assoc.index? key l with
  | none =>
    have hnone := (Assoc.index?_eq_none_iff key l).mp hi
    rw [hi] at hsome
    simp [← hsome, Assoc.remove_of_get?_none hnone]
  | some i =>
    have hne : ((i : Int) != -1) = true := by
      simp only [bne_iff_ne, ne_eq]
      omega
    have hk : i < (ofEntries l).keys_.length := by simpa [ofEntries] using Assoc.index?_lt hi
    have hv : i < (ofEntries l).values_.length := by simpa [ofEntries] using Assoc.index?_lt hi
    rw [hi] at hsome
    simp only [hne, if_true, ArrayValue.erase_of_lt hk, ArrayValue.erase_of_lt hv, ← hsome,
      Assoc.remove_eq_eraseIdx hi]
    simp [ofEntries, List.eraseIdx_map]

/-! ### Maps that are well formed -/

def lookup (m : Map K V) (key : K) : Option V := Assoc.get? key m.entries

variable {m : Map K V}

theorem WellFormed.exists_entries (h : m.WellFormed) :
    ∃ l, m = ofEntries l ∧ Assoc.Distinct l :=
  ⟨m.entries, (ofEntries_entries h.aligned).symm, h.distinct_entries⟩

/-- Changing the values alone. -/
theorem WellFormed.of_keys {W : Type} {m' : Map K W} (h : m.WellFormed) (hkeys : m'.keys_ = m.keys_)
    (hlen : m'.values_.length = m.values_.length) : m'.WellFormed := by
  refine ⟨?_, ?_⟩
  · rw [hkeys, hlen]
    exact h.aligned
  · rw [hkeys]
    exact h.distinct

theorem contains_of_keys {m' : Map K V} (hkeys : m'.keys_ = m.keys_) (key : K) :
    m'.contains key = m.contains key := by
  rw [contains, contains, hkeys]

theorem wellFormed_new : (new : Map K V).WellFormed := ⟨rfl, List.Pairwise.nil⟩

theorem get_lookup (h : m.WellFormed) (key : K) : (m.get key).toOption = m.lookup key := by
  obtain ⟨l, rfl, _⟩ := h.exists_entries
  rw [get_ofEntries, lookup, entries_ofEntries]
  cases Assoc.get? key l <;> rfl

theorem get_eq_ok_iff (h : m.WellFormed) (key : K) (value : V) :
    m.get key = .ok value ↔ m.lookup key = some value := by
  rw [← get_lookup h]
  cases m.get key <;> simp [Except.toOption]

theorem contains_lookup (h : m.WellFormed) (key : K) : m.contains key = (m.lookup key).isSome := by
  obtain ⟨l, rfl, _⟩ := h.exists_entries
  rw [contains_ofEntries, lookup, entries_ofEntries, Assoc.contains_eq_isSome]

theorem get_ok_iff (h : m.WellFormed) (key : K) :
    (∃ v, m.get key = .ok v) ↔ m.contains key = true := by
  have hget := get_lookup h key
  rw [contains_lookup h, ← hget]
  cases m.get key with
  | ok v => simp [Except.toOption]
  | error e => simp [Except.toOption]

variable [EquivBEq K]

theorem set_spec (h : m.WellFormed) (key : K) (value : V) :
    ∃ m', m.set key value = (.ok (), m') ∧ m'.WellFormed ∧
      ∀ k, m'.lookup k = if key == k then some value else m.lookup k := by
  obtain ⟨l, rfl, hl⟩ := h.exists_entries
  refine ⟨_, set_ofEntries l key value, (wellFormed_ofEntries _).mpr (Assoc.distinct_set key value hl),
    fun k => ?_⟩
  rw [lookup, lookup, entries_ofEntries, entries_ofEntries, Assoc.get?_set]

theorem remove_spec (h : m.WellFormed) (key : K) :
    ∃ m', m.remove key = (.ok (m.contains key), m') ∧ m'.WellFormed ∧
      ∀ k, m'.lookup k = if key == k then none else m.lookup k := by
  obtain ⟨l, rfl, hl⟩ := h.exists_entries
  refine ⟨_, ?_, (wellFormed_ofEntries _).mpr (Assoc.distinct_remove key hl), fun k => ?_⟩
  · rw [contains_ofEntries, remove_ofEntries]
  · rw [lookup, lookup, entries_ofEntries, entries_ofEntries, Assoc.get?_remove hl]

theorem set_outcome (h : m.WellFormed) (key : K) (value : V) : (m.set key value).1 = .ok () := by
  obtain ⟨m', hset, _⟩ := set_spec h key value
  rw [hset]

theorem set_wellFormed (h : m.WellFormed) (key : K) (value : V) :
    (m.set key value).2.WellFormed := by
  obtain ⟨m', hset, hm', _⟩ := set_spec h key value
  rw [hset]
  exact hm'

theorem set_contains (h : m.WellFormed) (key : K) (value : V) (k : K) :
    (m.set key value).2.contains k = (key == k || m.contains k) := by
  obtain ⟨m', hset, hm', hlookup⟩ := set_spec h key value
  rw [hset, contains_lookup hm', hlookup, contains_lookup h]
  cases key == k <;> rfl

theorem remove_outcome (h : m.WellFormed) (key : K) :
    (m.remove key).1 = .ok (m.contains key) := by
  obtain ⟨m', hremove, _⟩ := remove_spec h key
  rw [hremove]

theorem remove_wellFormed (h : m.WellFormed) (key : K) : (m.remove key).2.WellFormed := by
  obtain ⟨m', hremove, hm', _⟩ := remove_spec h key
  rw [hremove]
  exact hm'

theorem remove_contains (h : m.WellFormed) (key k : K) :
    (m.remove key).2.contains k = (!(key == k) && m.contains k) := by
  obtain ⟨m', hremove, hm', hlookup⟩ := remove_spec h key
  rw [hremove, contains_lookup hm', hlookup, contains_lookup h]
  cases key == k <;> rfl

/-! ### The keys alone

What the updates do to the keys does not depend on the values. -/

section Keys
variable {K V W : Type} [BEq K] {m : Map K V} {m' : Map K W}

theorem set_keys (h : m.keys_ = m'.keys_) (key : K) (value : V) (value' : W) :
    (m.set key value).2.keys_ = (m'.set key value').2.keys_ := by
  unfold set
  rw [h]
  split <;> simp

theorem set_keys_of_contains {key : K} (h : m.contains key = true) (value : V) :
    (m.set key value).2.keys_ = m.keys_ := by
  have hin : ArrayValue.contains m.keys_ key = true := h
  simp only [set, hin, if_true]

theorem remove_keys (h : m.keys_ = m'.keys_) (key : K) :
    (m.remove key).2.keys_ = (m'.remove key).2.keys_ := by
  have hkeys : ∀ {X : Type} (m : Map K X), (m.remove key).2.keys_ =
      if ArrayValue.indexOf m.keys_ key != -1 then
        (ArrayValue.erase m.keys_ (ArrayValue.indexOf m.keys_ key)).2
      else m.keys_ := by
    intro X m
    unfold remove
    dsimp only
    split
    · cases herase : ArrayValue.erase m.keys_ (ArrayValue.indexOf m.keys_ key) with
      | mk outcome keys =>
        cases outcome with
        | error e => rfl
        | ok value =>
          dsimp only
          cases hvalues : ArrayValue.erase m.values_ (ArrayValue.indexOf m.keys_ key) with
          | mk outcome values => cases outcome <;> rfl
    · rfl
  rw [hkeys, hkeys, h]

end Keys

/-! ### By position -/

section Position
variable {K V : Type} [BEq K] [LawfulBEq K] {m : Map K V}

/-- What is stored at the place of a key is what the key reads. -/
theorem lookup_at (h : m.WellFormed) {i : Nat} {key : K} (hkey : m.keys_[i]? = some key) :
    m.lookup key = m.values_[i]? := by
  have hlt : i < m.values_.length := by
    have := (List.getElem?_eq_some_iff.mp hkey).1
    have := h.aligned
    omega
  have hvalue := List.getElem?_eq_getElem hlt
  have hmem : (key, m.values_[i]) ∈ m.entries :=
    List.mem_of_getElem? (List.getElem?_zip_eq_some.mpr ⟨hkey, hvalue⟩)
  rw [hvalue]
  exact Assoc.get?_of_mem h.distinct_entries hmem (beq_self_eq_true key)

theorem lookup_of_notMem {key : K} (h : key ∉ m.keys_) : m.lookup key = none := by
  rw [lookup, Assoc.get?_eq_none_iff]
  intro e he
  have hin : e.1 ∈ m.keys_ := (List.of_mem_zip he).1
  exact beq_false_of_ne fun heq => h (heq ▸ hin)

theorem mem_keys_iff (m : Map K V) (key : K) : key ∈ m.keys_ ↔ m.contains key = true := by
  simp [contains, ArrayValue.contains]

theorem WellFormed.nodup (h : m.WellFormed) : m.keys_.Nodup :=
  h.distinct.imp fun hne => by simpa using hne

/-- Two maps with the same keys list them up to order. -/
theorem keys_perm {W : Type} {m' : Map K W} (h : m.WellFormed) (h' : m'.WellFormed)
    (hsame : ∀ key, m.contains key = m'.contains key) : m.keys_.Perm m'.keys_ := by
  refine (List.perm_ext_iff_of_nodup h.nodup h'.nodup).mpr fun key => ?_
  rw [mem_keys_iff, mem_keys_iff, hsame key]

omit [LawfulBEq K] in
theorem contains_of_perm {W : Type} {m' : Map K W} (h : m.keys_.Perm m'.keys_) (key : K) :
    m.contains key = m'.contains key := h.any_eq

end Position

end Map

end FalconStd.Collections
