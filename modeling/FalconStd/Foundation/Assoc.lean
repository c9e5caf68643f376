import Mathlib.Data.List.Basic

/-! Association lists in order of first insertion.

The keys are compared by a boolean equality. `set` overwrites the entry of a key
it finds and appends an entry for a key it does not, `remove` takes one entry out
and keeps the order of the rest, and `get?` reads the first entry of a key. Both
updates keep the keys pairwise distinct; when the equality is an equivalence, a
distinct list holds at most one entry per key (`get?_of_mem`). -/
namespace Foundation.Assoc

variable {K V : Type*} [BEq K]

def get? (k : K) : List (K × V) → Option V
  | [] => none
  | (k', v) :: rest => if k' == k then some v else get? k rest

def contains (k : K) (l : List (K × V)) : Bool := l.any fun e => e.1 == k

def set (k : K) (v : V) : List (K × V) → List (K × V)
  | [] => [(k, v)]
  | (k', v') :: rest => if k' == k then (k', v) :: rest else (k', v') :: set k v rest

def remove (k : K) : List (K × V) → List (K × V)
  | [] => []
  | (k', v') :: rest => if k' == k then rest else (k', v') :: remove k rest

/-- No two entries have equal keys. -/
def Distinct (l : List (K × V)) : Prop := l.Pairwise fun a b => (a.1 == b.1) = false

@[simp] theorem get?_nil (k : K) : get? k ([] : List (K × V)) = none := rfl

@[simp] theorem distinct_nil : Distinct ([] : List (K × V)) := List.Pairwise.nil

theorem distinct_cons {e : K × V} {l : List (K × V)} :
    Distinct (e :: l) ↔ (∀ e' ∈ l, (e.1 == e'.1) = false) ∧ Distinct l :=
  List.pairwise_cons

theorem contains_eq_isSome (k : K) (l : List (K × V)) : contains k l = (get? k l).isSome := by
  induction l with
  | nil => rfl
  | cons e rest ih =>
    have hcons : contains k (e :: rest) = (e.1 == k || contains k rest) := rfl
    rw [hcons, ih]
    cases hk : e.1 == k <;> simp [get?, hk]

theorem get?_eq_none_iff (k : K) (l : List (K × V)) :
    get? k l = none ↔ ∀ e ∈ l, (e.1 == k) = false := by
  induction l with
  | nil => simp
  | cons e rest ih => cases hk : e.1 == k <;> simp [get?, hk, ih]

/-! ### What the updates do to the keys -/

/-- Overwriting moves no key; appending adds one at the end. -/
theorem keys_set (k : K) (v : V) (l : List (K × V)) :
    (set k v l).map Prod.fst =
      if contains k l then l.map Prod.fst else l.map Prod.fst ++ [k] := by
  induction l with
  | nil => rfl
  | cons e rest ih =>
    have hcons : contains k (e :: rest) = (e.1 == k || contains k rest) := rfl
    cases hk : e.1 == k
    · cases hc : contains k rest <;> simp [set, hk, hcons, hc, ih]
    · simp [set, hk, hcons]

theorem mem_keys_set {k : K} {v : V} {l : List (K × V)} {e : K × V} (he : e ∈ set k v l) :
    e.1 = k ∨ ∃ e' ∈ l, e'.1 = e.1 := by
  have hkey : e.1 ∈ (set k v l).map Prod.fst := List.mem_map_of_mem he
  rw [keys_set] at hkey
  split at hkey
  · exact .inr (List.mem_map.mp hkey)
  · rcases List.mem_append.mp hkey with hold | hnew
    · exact .inr (List.mem_map.mp hold)
    · exact .inl (by simpa using hnew)

theorem mem_of_get? {k : K} {v : V} {l : List (K × V)} (h : get? k l = some v) :
    ∃ k', (k', v) ∈ l := by
  induction l with
  | nil => cases h
  | cons e rest ih =>
    rw [get?] at h
    split at h
    · obtain rfl := Option.some.inj h
      exact ⟨e.1, List.mem_cons_self⟩
    · obtain ⟨k', hmem⟩ := ih h
      exact ⟨k', List.mem_cons_of_mem _ hmem⟩

/-- An entry left by `set` was there, or holds the new value. -/
theorem mem_set {k : K} {v : V} {l : List (K × V)} {e : K × V} (he : e ∈ set k v l) :
    e ∈ l ∨ e.2 = v := by
  induction l with
  | nil =>
    rw [set, List.mem_singleton] at he
    exact .inr (congrArg Prod.snd he)
  | cons e' rest ih =>
    rw [set] at he
    split at he
    · rcases List.mem_cons.mp he with rfl | hrest
      · exact .inr rfl
      · exact .inl (List.mem_cons_of_mem _ hrest)
    · rcases List.mem_cons.mp he with rfl | hrest
      · exact .inl List.mem_cons_self
      · exact (ih hrest).imp_left (List.mem_cons_of_mem _)

theorem distinct_iff_keys (l : List (K × V)) :
    Distinct l ↔ (l.map Prod.fst).Pairwise fun a b => (a == b) = false := by
  rw [List.pairwise_map]
  rfl

theorem distinct_set (k : K) (v : V) {l : List (K × V)} (h : Distinct l) :
    Distinct (set k v l) := by
  rw [distinct_iff_keys] at h ⊢
  rw [keys_set]
  split
  case isTrue => exact h
  case isFalse hc =>
    rw [List.pairwise_append]
    refine ⟨h, List.pairwise_singleton _ _, fun a ha b hb => ?_⟩
    obtain rfl : b = k := by simpa using hb
    obtain ⟨e, he, rfl⟩ := List.mem_map.mp ha
    have hnone : get? b l = none := by
      rw [contains_eq_isSome] at hc
      simpa using hc
    exact (get?_eq_none_iff b l).mp hnone e he

theorem remove_sublist (k : K) (l : List (K × V)) : (remove k l).Sublist l := by
  induction l with
  | nil => exact List.Sublist.slnil
  | cons e rest ih =>
    cases hk : e.1 == k
    · simpa [remove, hk] using ih
    · simp [remove, hk]

theorem distinct_remove (k : K) {l : List (K × V)} (h : Distinct l) : Distinct (remove k l) :=
  List.Pairwise.sublist (remove_sublist k l) h

theorem remove_of_get?_none {k : K} {l : List (K × V)} (h : get? k l = none) :
    remove k l = l := by
  induction l with
  | nil => rfl
  | cons e rest ih =>
    have hk : (e.1 == k) = false := (get?_eq_none_iff k _).mp h e (List.mem_cons_self ..)
    have hrest : get? k rest = none := by simpa [get?, hk] using h
    simp [remove, hk, ih hrest]

/-! ### Changing every value -/

def mapValues {W : Type*} (f : V → W) (l : List (K × V)) : List (K × W) :=
  l.map fun e => (e.1, f e.2)

theorem get?_mapValues {W : Type*} (f : V → W) (k : K) (l : List (K × V)) :
    get? k (mapValues f l) = (get? k l).map f := by
  unfold mapValues
  induction l with
  | nil => rfl
  | cons e rest ih => cases hk : e.1 == k <;> simp [get?, hk, ih]

theorem distinct_mapValues {W : Type*} (f : V → W) {l : List (K × V)} (h : Distinct l) :
    Distinct (mapValues f l) := List.Pairwise.map _ (fun _ _ hab => hab) h

/-- Each value is changed by a function of its key. -/
def mapEntries {W : Type*} (f : K → V → W) (l : List (K × V)) : List (K × W) :=
  l.map fun e => (e.1, f e.1 e.2)

omit [BEq K] in
theorem keys_mapEntries {W : Type*} (f : K → V → W) (l : List (K × V)) :
    (mapEntries f l).map Prod.fst = l.map Prod.fst := by
  simp [mapEntries]

omit [BEq K] in
theorem mapEntries_mapEntries {W X : Type*} (f : K → V → W) (g : K → W → X) (l : List (K × V)) :
    mapEntries g (mapEntries f l) = mapEntries (fun k v => g k (f k v)) l := by
  simp [mapEntries]

theorem distinct_mapEntries {W : Type*} (f : K → V → W) {l : List (K × V)} (h : Distinct l) :
    Distinct (mapEntries f l) := List.Pairwise.map _ (fun _ _ hab => hab) h

theorem get?_mapEntries [LawfulBEq K] {W : Type*} (f : K → V → W) (k : K) (l : List (K × V)) :
    get? k (mapEntries f l) = (get? k l).map (f k) := by
  unfold mapEntries
  induction l with
  | nil => rfl
  | cons e rest ih =>
    cases hk : e.1 == k
    · simp [get?, hk, ih]
    · obtain rfl : e.1 = k := eq_of_beq hk
      simp [get?]

/-! ### Positions

A list of entries kept as two parallel lists is updated at the position of the
key, `index?`; these are the updates in terms of it. -/

def index? (k : K) (l : List (K × V)) : Option Nat := l.findIdx? fun e => e.1 == k

theorem index?_cons (k : K) (e : K × V) (l : List (K × V)) :
    index? k (e :: l) = if e.1 == k then some 0 else (index? k l).map (· + 1) :=
  List.findIdx?_cons

theorem findIdx?_keys (k : K) (l : List (K × V)) :
    (l.map Prod.fst).findIdx? (· == k) = index? k l := by
  rw [List.findIdx?_map]
  rfl

theorem index?_eq_none_iff (k : K) (l : List (K × V)) : index? k l = none ↔ get? k l = none := by
  rw [index?, List.findIdx?_eq_none_iff, get?_eq_none_iff]

theorem index?_isSome (k : K) (l : List (K × V)) : (index? k l).isSome = contains k l := by
  have hiff := index?_eq_none_iff k l
  rw [contains_eq_isSome]
  cases hi : index? k l <;> cases hg : get? k l <;> simp_all

theorem index?_lt {k : K} {l : List (K × V)} {i : Nat} (h : index? k l = some i) :
    i < l.length := by
  have := List.findIdx?_eq_some_iff_getElem.mp h
  exact this.1

theorem get?_eq_values_index {k : K} {l : List (K × V)} {i : Nat} (h : index? k l = some i) :
    (l.map Prod.snd)[i]? = get? k l := by
  induction l generalizing i with
  | nil => cases h
  | cons e rest ih =>
    rw [index?_cons] at h
    cases hk : e.1 == k
    · obtain ⟨j, hj, rfl⟩ := Option.map_eq_some_iff.mp (by simpa [hk] using h)
      simpa [get?, hk] using ih hj
    · obtain rfl : 0 = i := by simpa [hk] using h
      simp [get?, hk]

theorem values_set_index {k : K} {l : List (K × V)} {i : Nat} (v : V) (h : index? k l = some i) :
    (l.map Prod.snd).set i v = (set k v l).map Prod.snd := by
  induction l generalizing i with
  | nil => cases h
  | cons e rest ih =>
    rw [index?_cons] at h
    cases hk : e.1 == k
    · obtain ⟨j, hj, rfl⟩ := Option.map_eq_some_iff.mp (by simpa [hk] using h)
      simpa [set, hk] using ih hj
    · obtain rfl : 0 = i := by simpa [hk] using h
      simp [set, hk]

theorem remove_eq_eraseIdx {k : K} {l : List (K × V)} {i : Nat} (h : index? k l = some i) :
    remove k l = l.eraseIdx i := by
  induction l generalizing i with
  | nil => cases h
  | cons e rest ih =>
    rw [index?_cons] at h
    cases hk : e.1 == k
    · obtain ⟨j, hj, rfl⟩ := Option.map_eq_some_iff.mp (by simpa [hk] using h)
      simp [remove, hk, ih hj]
    · obtain rfl : 0 = i := by simpa [hk] using h
      simp [remove, hk]

theorem set_of_get?_none {k : K} {l : List (K × V)} (v : V) (h : get? k l = none) :
    set k v l = l ++ [(k, v)] := by
  induction l with
  | nil => rfl
  | cons e rest ih =>
    have hk : (e.1 == k) = false := (get?_eq_none_iff k _).mp h e (List.mem_cons_self ..)
    have hrest : get? k rest = none := by simpa [get?, hk] using h
    simp [set, hk, ih hrest]

/-! ### Lookups after an update -/

section Lawful
variable [EquivBEq K]

theorem get?_congr {k k' : K} (hk : (k == k') = true) (l : List (K × V)) :
    get? k l = get? k' l := by
  induction l with
  | nil => rfl
  | cons e rest ih =>
    have hsame : (e.1 == k) = (e.1 == k') := BEq.congr_right hk
    simp [get?, hsame, ih]

/-- Beside an entry with this key there is no other. -/
theorem distinct_others {e : K × V} {l : List (K × V)} (h : Distinct (e :: l)) {k : K}
    (hk : (e.1 == k) = true) : ∀ e' ∈ l, (e'.1 == k) = false := by
  intro e' he'
  rw [Bool.eq_false_iff]
  intro htrue
  have hne := (distinct_cons.mp h).1 e' he'
  rw [BEq.trans hk (BEq.symm htrue)] at hne
  cases hne

theorem get?_set (k k' : K) (v : V) (l : List (K × V)) :
    get? k' (set k v l) = if k == k' then some v else get? k' l := by
  induction l with
  | nil => simp [set, get?]
  | cons e rest ih =>
    cases hk : e.1 == k
    · cases hk' : e.1 == k'
      · simp [set, get?, hk, hk', ih]
      · have hne : (k == k') = false := by
          by_contra htrue
          have hkk : (k == k') = true := by simpa using htrue
          rw [BEq.trans hk' (BEq.symm hkk)] at hk
          cases hk
        simp [set, get?, hk, hk', hne]
    · have hsame : (e.1 == k') = (k == k') := BEq.congr_left hk
      cases hkk : k == k' <;> simp [set, get?, hk, hsame, hkk]

/-- In a distinct list every entry is the one its key reads. -/
theorem get?_of_mem {l : List (K × V)} (h : Distinct l) {k k' : K} {v : V} (hmem : (k', v) ∈ l)
    (hk : (k' == k) = true) : get? k l = some v := by
  induction l with
  | nil => cases hmem
  | cons e rest ih =>
    obtain ⟨hhead, htail⟩ := distinct_cons.mp h
    rcases List.mem_cons.mp hmem with rfl | hmem'
    · simp [get?, hk]
    · have hne : (e.1 == k) = false := by
        by_contra htrue
        have hek : (e.1 == k) = true := by simpa using htrue
        have := hhead _ hmem'
        rw [BEq.trans hek (BEq.symm hk)] at this
        cases this
      simp [get?, hne, ih htail hmem']

/-- Changing the value at the position of a key changes the entry of that key, and
no other. -/
theorem modify_index {l : List (K × V)} (h : Distinct l) (k : K) (f : V → V) :
    (match index? k l with
      | some i => (l.map Prod.snd).modify i f
      | none => l.map Prod.snd) =
      (mapEntries (fun k' v => if k' == k then f v else v) l).map Prod.snd := by
  induction l with
  | nil => rfl
  | cons e rest ih =>
    cases hk : e.1 == k
    · have hrest := ih (distinct_cons.mp h).2
      rw [index?_cons, hk]
      cases hi : index? k rest with
      | none =>
        rw [hi] at hrest
        simp only [mapEntries, List.map_cons, hk] at hrest ⊢
        simpa using hrest
      | some i =>
        rw [hi] at hrest
        simp only [mapEntries, List.map_cons, hk] at hrest ⊢
        simpa using hrest
    · have hothers := distinct_others h hk
      have hsame : rest.map (fun e' => if e'.1 == k then f e'.2 else e'.2) = rest.map Prod.snd :=
        List.map_congr_left fun e' he' => by rw [hothers e' he']; rfl
      simp [index?_cons, hk, mapEntries, Function.comp_def, hsame]

/-- A removed key is gone, and no other key is affected. -/
theorem get?_remove {l : List (K × V)} (h : Distinct l) (k k' : K) :
    get? k' (remove k l) = if k == k' then none else get? k' l := by
  induction l with
  | nil => simp [remove]
  | cons e rest ih =>
    obtain ⟨hhead, htail⟩ := distinct_cons.mp h
    cases hk : e.1 == k
    · cases hk' : e.1 == k'
      · simp [remove, get?, hk, hk', ih htail]
      · have hne : (k == k') = false := by
          by_contra htrue
          have hkk : (k == k') = true := by simpa using htrue
          rw [BEq.trans hk' (BEq.symm hkk)] at hk
          cases hk
        simp [remove, get?, hk, hk', hne]
    · have hsame : (e.1 == k') = (k == k') := BEq.congr_left hk
      cases hkk : k == k'
      · simp [remove, get?, hk, hsame, hkk]
      · have hnone : get? k' rest = none :=
          (get?_eq_none_iff k' rest).mpr (distinct_others h (hsame.trans hkk))
        simp [remove, hk, hnone]

end Lawful

/-! ### Merging

`merge` folds the entries of a list into another: `hit` combines the values of a
key both hold, `miss` makes the value of a key only the second holds. -/

section Merge
variable (hit : V → V → V) (miss : V → V)

def mergeEntry (l : List (K × V)) (e : K × V) : List (K × V) :=
  set e.1 (match get? e.1 l with
    | some v => hit v e.2
    | none => miss e.2) l

def merge (l l' : List (K × V)) : List (K × V) := l'.foldl (mergeEntry hit miss) l

def mergeValue : Option V → Option V → Option V
  | some v, some v' => some (hit v v')
  | some v, none => some v
  | none, some v' => some (miss v')
  | none, none => none

theorem distinct_merge {l : List (K × V)} (l' : List (K × V)) (h : Distinct l) :
    Distinct (merge hit miss l l') := by
  unfold merge
  induction l' generalizing l with
  | nil => exact h
  | cons e rest ih => exact ih (distinct_set _ _ h)

theorem get?_merge [EquivBEq K] {l' : List (K × V)} (h : Distinct l') (l : List (K × V)) (k : K) :
    get? k (merge hit miss l l') = mergeValue hit miss (get? k l) (get? k l') := by
  unfold merge
  induction l' generalizing l with
  | nil => cases hl : get? k l <;> simp [mergeValue, hl]
  | cons e rest ih =>
    obtain ⟨hhead, htail⟩ := distinct_cons.mp h
    rw [List.foldl_cons, ih htail, mergeEntry, get?_set]
    cases hk : e.1 == k
    · simp [get?, hk]
    · have hrest : get? k rest = none := (get?_eq_none_iff k rest).mpr (distinct_others h hk)
      rw [hrest, get?_congr hk l]
      cases hl : get? k l <;> simp [get?, hk, mergeValue]

/-- Merging an entry into a list that holds it combines it with itself in place. -/
theorem mergeEntry_self [EquivBEq K] {a b : List (K × V)} {e : K × V}
    (ha : ∀ e' ∈ a, (e'.1 == e.1) = false) :
    mergeEntry hit miss (a ++ e :: b) e = a ++ (e.1, hit e.2 e.2) :: b := by
  have hat : get? e.1 (a ++ e :: b) = some e.2 ∧
      ∀ v, set e.1 v (a ++ e :: b) = a ++ (e.1, v) :: b := by
    induction a with
    | nil => simp [get?, set]
    | cons e' rest ih =>
      have he := ha e' (List.mem_cons_self ..)
      have hrest := ih fun e'' he'' => ha e'' (List.mem_cons_of_mem _ he'')
      simp [get?, set, he, hrest]
  rw [mergeEntry, hat.1, hat.2]

/-- Merging the first entries of a distinct list into the list itself combines
each with itself and moves nothing. -/
theorem merge_take_self [EquivBEq K] {l : List (K × V)} (h : Distinct l) (n : Nat) :
    merge hit miss l (l.take n) =
      (l.take n).map (fun e => (e.1, hit e.2 e.2)) ++ l.drop n := by
  unfold merge
  induction n with
  | zero => rfl
  | succ n ih =>
    by_cases hn : n < l.length
    · have hsplit : l = l.take n ++ l[n] :: l.drop (n + 1) := by
        rw [← List.drop_eq_getElem_cons hn, List.take_append_drop]
      have hnew : ∀ e ∈ (l.take n).map (fun e => (e.1, hit e.2 e.2)),
          (e.1 == l[n].1) = false := by
        intro e he
        obtain ⟨e', he', rfl⟩ := List.mem_map.mp he
        rw [hsplit, Distinct, List.pairwise_append] at h
        exact h.2.2 e' he' _ (List.mem_cons_self ..)
      rw [List.take_succ_eq_append_getElem hn, List.foldl_append, ih, List.foldl_cons,
        List.foldl_nil, List.drop_eq_getElem_cons hn, mergeEntry_self hit miss hnew,
        List.map_append, List.append_assoc]
      rfl
    · have hall : l.length ≤ n := Nat.le_of_not_lt hn
      rw [List.take_of_length_le hall, List.drop_eq_nil_of_le hall] at ih
      rw [List.take_of_length_le (Nat.le_succ_of_le hall),
        List.drop_eq_nil_of_le (Nat.le_succ_of_le hall), ih]

end Merge

/-! ### Keys compared by equality -/

section Eq
variable [LawfulBEq K]

theorem get?_isSome_iff (k : K) (l : List (K × V)) :
    (get? k l).isSome = true ↔ k ∈ l.map Prod.fst := by
  rw [← contains_eq_isSome, contains, List.any_eq_true, List.mem_map]
  simp only [beq_iff_eq]

/-- In a distinct list the entries are what the keys read. -/
theorem mem_iff_get? {l : List (K × V)} (h : Distinct l) (k : K) (v : V) :
    (k, v) ∈ l ↔ get? k l = some v := by
  refine ⟨fun hmem => get?_of_mem h hmem (beq_self_eq_true k), fun hget => ?_⟩
  clear h
  induction l with
  | nil => cases hget
  | cons e rest ih =>
    rw [get?] at hget
    split at hget
    case isTrue hk =>
      obtain rfl := Option.some.inj hget
      obtain rfl : e.1 = k := eq_of_beq hk
      exact List.mem_cons_self
    case isFalse => exact List.mem_cons_of_mem e (ih hget)

theorem distinct_iff_nodup (l : List (K × V)) : Distinct l ↔ (l.map Prod.fst).Nodup := by
  rw [distinct_iff_keys]
  simp [List.Nodup]

theorem mem_keys_merge (hit : V → V → V) (miss : V → V) (l l' : List (K × V)) (k : K) :
    k ∈ (merge hit miss l l').map Prod.fst ↔ k ∈ l.map Prod.fst ∨ k ∈ l'.map Prod.fst := by
  unfold merge
  induction l' generalizing l with
  | nil => simp
  | cons e rest ih =>
    have hentry : k ∈ (mergeEntry hit miss l e).map Prod.fst ↔ k ∈ l.map Prod.fst ∨ k = e.1 := by
      rw [mergeEntry, keys_set]
      split
      case isTrue hc =>
        rw [contains_eq_isSome, get?_isSome_iff] at hc
        exact ⟨.inl, fun h => h.elim id fun hk => hk ▸ hc⟩
      case isFalse => rw [List.mem_append, List.mem_singleton]
    rw [List.foldl_cons, ih, hentry, List.map_cons, List.mem_cons, or_assoc]

end Eq

/-! ### Renaming keys

Reading the keys through `f` may identify keys. Where it does not, for the keys
in question, lookups and updates may be done before or after. -/

section Rename
variable {N : Type*} [BEq N] [LawfulBEq N] [LawfulBEq K]

def rename (f : K → N) (l : List (K × V)) : List (N × V) := l.map fun e => (f e.1, e.2)

/-- `f` identifies no key of the list with a different key `k`. -/
def Faithful (f : K → N) (l : List (K × V)) (k : K) : Prop := ∀ e ∈ l, f e.1 = f k → e.1 = k

variable {f : K → N} {l : List (K × V)} {k : K}

omit [BEq K] [BEq N] [LawfulBEq N] [LawfulBEq K] in
theorem faithful_cons {e : K × V} :
    Faithful f (e :: l) k ↔ (f e.1 = f k → e.1 = k) ∧ Faithful f l k :=
  List.forall_mem_cons

/-- The test of one key, before and after renaming. -/
theorem rename_beq {e : K × V} (h : f e.1 = f k → e.1 = k) : (f e.1 == f k) = (e.1 == k) := by
  rw [Bool.eq_iff_iff, beq_iff_eq, beq_iff_eq]
  exact ⟨h, congrArg f⟩

theorem get?_rename (h : Faithful f l k) : get? (f k) (rename f l) = get? k l := by
  induction l with
  | nil => rfl
  | cons e rest ih =>
    obtain ⟨hhead, htail⟩ := faithful_cons.mp h
    have hrest : get? (f k) (rename f rest) = get? k rest := ih htail
    show (if f e.1 == f k then some e.2 else get? (f k) (rename f rest)) = _
    rw [rename_beq hhead, hrest]
    rfl

theorem rename_set (h : Faithful f l k) (v : V) :
    rename f (set k v l) = set (f k) v (rename f l) := by
  induction l with
  | nil => rfl
  | cons e rest ih =>
    obtain ⟨hhead, htail⟩ := faithful_cons.mp h
    show rename f (if e.1 == k then (e.1, v) :: rest else e :: set k v rest) =
      if f e.1 == f k then (f e.1, v) :: rename f rest
        else (f e.1, e.2) :: set (f k) v (rename f rest)
    rw [rename_beq hhead, ← ih htail]
    split <;> rfl

theorem rename_mergeEntry (hit : V → V → V) (miss : V → V) {e : K × V} (h : Faithful f l e.1) :
    rename f (mergeEntry hit miss l e) = mergeEntry hit miss (rename f l) (f e.1, e.2) := by
  rw [mergeEntry, mergeEntry, get?_rename h, rename_set h]

/-- Merging commutes with a renaming that is faithful between the two lists and
on the second. -/
theorem rename_merge (hit : V → V → V) (miss : V → V) {l' : List (K × V)}
    (h : ∀ e ∈ l', Faithful f l e.1) (hl' : Distinct (rename f l')) :
    rename f (merge hit miss l l') = merge hit miss (rename f l) (rename f l') := by
  unfold merge
  induction l' generalizing l with
  | nil => rfl
  | cons e rest ih =>
    obtain ⟨hhead, htail⟩ := distinct_cons.mp hl'
    have he := h e (List.mem_cons_self ..)
    show rename f (rest.foldl (mergeEntry hit miss) (mergeEntry hit miss l e)) =
      (rename f rest).foldl (mergeEntry hit miss) (mergeEntry hit miss (rename f l) (f e.1, e.2))
    rw [← rename_mergeEntry hit miss he]
    refine ih (fun e' he' => ?_) htail
    intro e'' hmem hname
    rcases mem_keys_set hmem with hkey | ⟨e₀, hmem₀, hkey⟩
    · have hne := hhead (f e'.1, e'.2) (List.mem_map_of_mem he')
      rw [hkey] at hname
      simp [hname] at hne
    · rw [← hkey] at hname ⊢
      exact h e' (List.mem_cons_of_mem _ he') e₀ hmem₀ hname

end Rename

end Foundation.Assoc
