import FalconStd.FalconCore.InterpretationContainer

/-! What `InterpretationContainer.New` builds.

`FaithfulOrFails` says of a DSL `Map` that `New` raises an error on it or builds the
container of its pairs, each value the number that is stored. The loop is read as a
walk over the two arrays (`insertAll`), and the map that records its insertions shows
what was handed to falcon_core. -/
namespace FalconStd.FalconCore.InterpretationContainer
open Foundation Testing

/-- A map of the DSL, with its two arrays. -/
structure DslMap (K : Type) where
  objects : Instances K
  map : Value
  keys_ : List Value
  values_ : List Value
  holds : arraysOf objects map = .ok (keys_, values_)

section Pairs
variable {K : Type} (objects : Instances K)

/-- The value is a struct whose handle is this object. -/
def HoldsKey (v : Value) (k : K) : Prop :=
  ∃ inst, v = .struct (some inst) ∧ (objects inst).native_handle = some (.key k)

/-- The number that is stored. -/
inductive Denotes : Value → Double → Prop where
  | float (x : Double) : Denotes (.float x) x
  | int (n : Int64) : Denotes (.int n) (.finite n.toInt)

/-- The pairs of keys and values at the same positions of two arrays of one length, with
the numbers that the relation allows for the values. -/
inductive PairedBy (R : Value → Double → Prop) :
    List Value → List Value → List (K × Double) → Prop where
  | nil : PairedBy R [] [] []
  | cons {k v : Value} {e : K × Double} {keys values : List Value} {pairs : List (K × Double)}
      (hk : HoldsKey objects k e.1) (hv : R v e.2) (h : PairedBy R keys values pairs) :
      PairedBy R (k :: keys) (v :: values) (e :: pairs)

end Pairs

section Walk
variable {K M C : Type} (core : Core K M C)

/-- The container of these pairs, inserted one after another. -/
def Core.build (pairs : List (K × Double)) : Except NativeFault C := do
  let m ← pairs.foldlM (fun m e => call (core.insert m e.1 e.2)) core.empty
  call (core.container m)

/-- An error, or the container of the pairs of the map. -/
def FaithfulOrFails (map : DslMap K) : Prop :=
  ∀ (M C : Type) (core : Core K M C),
    (∃ message, new core map.objects map.map = .error (.raised message)) ∨
      ∃ pairs c, PairedBy map.objects Denotes map.keys_ map.values_ pairs ∧
        core.build pairs = .ok c ∧ new core map.objects map.map = .ok c

/-- The passes of the loop, from the heads of the arrays on. -/
def insertAll (keyOf : Value → Except NativeFault K) (valueOf : Value → Except NativeFault Double) :
    List Value → List Value → M → Except NativeFault M
  | [], _, m => .ok m
  | k :: _, [], _ => keyOf k >>= fun _ => .error .undefined
  | k :: keys, v :: values, m => do
    let key ← keyOf k
    let val ← valueOf v
    let m' ← call (core.insert m key val)
    insertAll keyOf valueOf keys values m'

theorem forRange_body (keyOf : Value → Except NativeFault K)
    (valueOf : Value → Except NativeFault Double) (keys values : List Value) (m : M) :
    forRange (body core keyOf valueOf keys values) keys.length m =
      insertAll core keyOf valueOf keys values m := by
  induction keys generalizing values m with
  | nil => rfl
  | cons k keys ih =>
    rw [List.length_cons, forRange_succ]
    cases values with
    | nil =>
      show (keyOf k >>= fun _ => .error .undefined) >>= _ = _
      rw [insertAll]
      cases keyOf k <;> rfl
    | cons v values =>
      have hshift : (fun s i => body core keyOf valueOf (k :: keys) (v :: values) s (i + 1)) =
          body core keyOf valueOf keys values := rfl
      rw [hshift]
      show (keyOf k >>= fun key => valueOf v >>= fun val => call (core.insert m key val)) >>= _ = _
      rw [insertAll]
      simp only [bind_assoc, ih]

end Walk

/-! ### Keys and numbers -/

section Elements
variable {K : Type} {objects : Instances K} {v : Value} {x : Double}

/-- A struct without a handle, or not a struct: the access throws. -/
def NoContext (objects : Instances K) (v : Value) : Prop :=
  (∀ inst, v ≠ .struct inst) ∨
    ∃ inst, v = .struct (some inst) ∧ (objects inst).native_handle = none

/-- What `double` can hold. -/
inductive Numeric : Value → Prop where
  | float (x : Double) : Numeric (.float x)
  | int (n : Int64) (h : Representable 53 n.toInt.natAbs) : Numeric (.int n)

theorem contextOf_struct (inst : Handle) :
    contextOf objects (.struct (some inst)) =
      match (objects inst).native_handle with
      | none => .error (.raised "std::bad_optional_access")
      | some handle => handle.asKey := by
  show ((objects inst).handle >>= NativeObject.asKey) = _
  rw [Instance.handle]
  cases (objects inst).native_handle <;> rfl

theorem contextOf_eq_ok_iff {k : K} : contextOf objects v = .ok k ↔ HoldsKey objects v k := by
  refine ⟨fun h => ?_, fun h => ?_⟩
  · cases v with
    | struct inst =>
      cases inst with
      | none => cases h
      | some inst =>
        rw [contextOf_struct] at h
        refine ⟨inst, rfl, ?_⟩
        cases hhandle : (objects inst).native_handle with
        | none => simp [hhandle] at h
        | some handle =>
          rw [hhandle] at h
          cases handle with
          | key c =>
            cases h
            rfl
          | _ => cases h
    | _ => cases h
  · obtain ⟨inst, rfl, hhandle⟩ := h
    rw [contextOf_struct, hhandle]
    rfl

theorem contextOf_raised_iff :
    (∃ message, contextOf objects v = .error (.raised message)) ↔ NoContext objects v := by
  refine ⟨fun h => ?_, fun h => ?_⟩
  · obtain ⟨message, h⟩ := h
    cases v with
    | struct inst =>
      cases inst with
      | none => cases h
      | some inst =>
        rw [contextOf_struct] at h
        refine .inr ⟨inst, rfl, ?_⟩
        cases hhandle : (objects inst).native_handle with
        | none => rfl
        | some handle =>
          rw [hhandle] at h
          cases handle <;> cases h
    | _ => exact .inl fun inst => by simp
  · rcases h with h | ⟨inst, rfl, hhandle⟩
    · cases v with
      | struct inst => exact absurd rfl (h inst)
      | _ => exact ⟨_, rfl⟩
    · exact ⟨_, by rw [contextOf_struct, hhandle]⟩

/-- The number handed on is the one stored exactly for the floats, and the ints that
`double` can hold. -/
theorem denotes_numberOf_iff : Denotes v (numberOf v) ↔ Numeric v := by
  refine ⟨fun h => ?_, fun h => ?_⟩
  · cases v with
    | float x => exact .float x
    | int n =>
      have hround : roundInt 53 n.toInt = n.toInt := by
        generalize hx : numberOf (.int n) = x at h
        cases h
        simpa [numberOf] using hx
      exact .int n (roundInt_eq_self_iff.mp hround)
    | _ => cases h
  · cases h with
    | float x => exact .float x
    | int n h =>
      rw [numberOf, roundInt_eq_self_iff.mpr h]
      exact .int n

end Elements

/-! ### The walk -/

section Outcomes
variable {K M C : Type} {objects : Instances K} {keys values : List Value}

/-- A key that throws, met before the values end and after keys that are contexts. -/
def Refused (objects : Instances K) (keys values : List Value) : Prop :=
  ∃ before k after, keys = before ++ k :: after ∧ (∀ b ∈ before, ∃ c, HoldsKey objects b c) ∧
    NoContext objects k ∧ before.length ≤ values.length

theorem Refused.cons {k v : Value} {c : K} (hk : HoldsKey objects k c)
    (h : Refused objects keys values) : Refused objects (k :: keys) (v :: values) := by
  obtain ⟨before, k', after, rfl, hbefore, hk', hlen⟩ := h
  exact ⟨k :: before, k', after, rfl, List.forall_mem_cons.mpr ⟨⟨c, hk⟩, hbefore⟩, hk',
    Nat.succ_le_succ hlen⟩

/-- One pass whose key and value are there. -/
theorem insertAll_cons (core : Core K M C) {keyOf : Value → Except NativeFault K}
    {valueOf : Value → Except NativeFault Double} {k v : Value} {c : K} {x : Double}
    (hkey : keyOf k = .ok c) (hval : valueOf v = .ok x) (m : M) :
    insertAll core keyOf valueOf (k :: keys) (v :: values) m =
      call (core.insert m c x) >>= fun m' => insertAll core keyOf valueOf keys values m' := by
  rw [insertAll, hkey, hval]
  rfl

theorem call_cases {α : Type} (x : Except String α) :
    (∃ a, call x = .ok a) ∨ ∃ message, call x = .error (.raised message) := by
  cases x with
  | ok a => exact .inl ⟨a, rfl⟩
  | error message => exact .inr ⟨message, rfl⟩

/-- On a refused map the walk ends with an error, of falcon_core or of the access. -/
theorem insertAll_refused (core : Core K M C) (h : Refused objects keys values) (m : M) :
    ∃ message, insertAll core (contextOf objects) (fun v => .ok (numberOf v)) keys values m =
      .error (.raised message) := by
  obtain ⟨before, k, after, rfl, hbefore, hk, hlen⟩ := h
  induction before generalizing values m with
  | nil =>
    obtain ⟨message, hmessage⟩ := contextOf_raised_iff.mpr hk
    refine ⟨message, ?_⟩
    cases values with
    | nil =>
      rw [List.nil_append, insertAll, hmessage]
      rfl
    | cons v values =>
      rw [List.nil_append, insertAll, hmessage]
      rfl
  | cons b before ih =>
    obtain ⟨⟨c, hb⟩, hrest⟩ := List.forall_mem_cons.mp hbefore
    cases values with
    | nil => exact absurd hlen (Nat.not_succ_le_zero _)
    | cons v values =>
      rw [List.cons_append, insertAll_cons core (contextOf_eq_ok_iff.mpr hb) rfl]
      rcases call_cases (core.insert m c (numberOf v)) with ⟨m', hm'⟩ | ⟨message, hm'⟩
      · rw [hm']
        exact ih m' hrest (Nat.le_of_succ_le_succ hlen)
      · exact ⟨message, by rw [hm']; rfl⟩

/-- On paired arrays the walk inserts the pairs. -/
theorem insertAll_paired (core : Core K M C) {pairs : List (K × Double)}
    (h : PairedBy objects (fun v x => numberOf v = x) keys values pairs) (m : M) :
    insertAll core (contextOf objects) (fun v => .ok (numberOf v)) keys values m =
      pairs.foldlM (fun m e => call (core.insert m e.1 e.2)) m := by
  induction h generalizing m with
  | nil => rfl
  | cons hk hv _ ih =>
    rw [insertAll_cons core (contextOf_eq_ok_iff.mpr hk) rfl, List.foldlM_cons, hv]
    exact congrArg _ (funext ih)

/-- The map that records its insertions. -/
def recording : Core K (List (K × Double)) (List (K × Double)) where
  empty := []
  insert m k x := .ok (m ++ [(k, x)])
  container m := .ok m

theorem foldlM_recording (pairs m : List (K × Double)) :
    pairs.foldlM (fun m e => call (recording.insert m e.1 e.2)) m = .ok (m ++ pairs) := by
  induction pairs generalizing m with
  | nil => simp [pure, Except.pure]
  | cons e pairs ih =>
    rw [List.foldlM_cons]
    exact (ih (m ++ [e])).trans (by simp)

/-- Recording, the walk raises on refused maps only. -/
theorem recording_raised {m : List (K × Double)} {message : String}
    (h : insertAll recording (contextOf objects) (fun v => .ok (numberOf v)) keys values m =
      .error (.raised message)) : Refused objects keys values := by
  induction keys generalizing values m with
  | nil => cases h
  | cons k keys ih =>
    have hcontext : NoContext objects k ∨ ∃ c, HoldsKey objects k c := by
      cases hk : contextOf objects k with
      | ok c => exact .inr ⟨c, contextOf_eq_ok_iff.mp hk⟩
      | error fault =>
        cases fault with
        | raised message => exact .inl (contextOf_raised_iff.mp ⟨message, hk⟩)
        | undefined => cases values <;> simp [insertAll, hk, bind, Except.bind] at h
    rcases hcontext with hk | ⟨c, hk⟩
    · exact ⟨[], k, keys, rfl, by simp, hk, Nat.zero_le _⟩
    · cases values with
      | nil =>
        rw [insertAll, contextOf_eq_ok_iff.mpr hk] at h
        cases h
      | cons v values =>
        rw [insertAll_cons recording (contextOf_eq_ok_iff.mpr hk) rfl] at h
        exact (ih h).cons hk

/-- What it records is paired with the keys, as far as these go. -/
theorem recording_ok {m m' : List (K × Double)}
    (h : insertAll recording (contextOf objects) (fun v => .ok (numberOf v)) keys values m =
      .ok m') :
    ∃ pairs, m' = m ++ pairs ∧
      PairedBy objects (fun v x => numberOf v = x) keys (values.take keys.length) pairs := by
  induction keys generalizing values m with
  | nil =>
    cases h
    exact ⟨[], (List.append_nil _).symm, .nil⟩
  | cons k keys ih =>
    cases hk : contextOf objects k with
    | error fault => cases values <;> simp [insertAll, hk, bind, Except.bind] at h
    | ok c =>
      cases values with
      | nil =>
        rw [insertAll, hk] at h
        cases h
      | cons v values =>
        rw [insertAll_cons recording hk rfl] at h
        obtain ⟨pairs, rfl, hpairs⟩ := ih h
        exact ⟨(c, numberOf v) :: pairs, by simp, .cons (contextOf_eq_ok_iff.mp hk) rfl hpairs⟩

end Outcomes

/-! ### The exact condition -/

section Maps
variable {K : Type} {map : DslMap K}

/-- Keys that are contexts, as many values, and no value that `double` cannot hold. -/
structure Sound (map : DslMap K) : Prop where
  contexts : ∀ k ∈ map.keys_, ∃ c, HoldsKey map.objects k c
  aligned : map.keys_.length = map.values_.length
  numeric : ∀ v ∈ map.values_, Numeric v

theorem new_eq {M C : Type} (core : Core K M C) (map : DslMap K) :
    new core map.objects map.map =
      insertAll core (contextOf map.objects) (fun v => .ok (numberOf v)) map.keys_ map.values_
          core.empty >>= fun m => call (core.container m) := by
  rw [new, map.holds, ← forRange_body]
  rfl

theorem new_recording (map : DslMap K) :
    new recording map.objects map.map =
      insertAll recording (contextOf map.objects) (fun v => .ok (numberOf v)) map.keys_
        map.values_ [] := by
  rw [new_eq]
  exact (congrArg _ (funext fun m => rfl)).trans (bind_pure _)

theorem build_recording (pairs : List (K × Double)) :
    recording.build pairs = .ok pairs := by
  rw [Core.build]
  exact congrArg (· >>= fun m => call (recording.container m)) (foldlM_recording pairs [])

/-- Building ends with a container or with an error of falcon_core. -/
theorem build_cases {M C : Type} (core : Core K M C) (pairs : List (K × Double)) :
    (∃ c, core.build pairs = .ok c) ∨ ∃ message, core.build pairs = .error (.raised message) := by
  rw [Core.build]
  generalize core.empty = m
  induction pairs generalizing m with
  | nil => exact call_cases (core.container m)
  | cons e pairs ih =>
    rw [List.foldlM_cons]
    rcases call_cases (core.insert m e.1 e.2) with ⟨m', hm'⟩ | ⟨message, hm'⟩
    · rw [hm']
      exact ih m'
    · exact .inr ⟨message, by rw [hm']; rfl⟩

theorem PairedBy.length_eq {objects : Instances K} {R : Value → Double → Prop}
    {keys values : List Value} {pairs : List (K × Double)}
    (h : PairedBy objects R keys values pairs) : keys.length = values.length := by
  induction h with
  | nil => rfl
  | cons _ _ _ ih => rw [List.length_cons, List.length_cons, ih]

theorem PairedBy.contexts {objects : Instances K} {R : Value → Double → Prop}
    {keys values : List Value} {pairs : List (K × Double)}
    (h : PairedBy objects R keys values pairs) : ∀ k ∈ keys, ∃ c, HoldsKey objects k c := by
  induction h with
  | nil => simp
  | cons hk _ _ ih => exact List.forall_mem_cons.mpr ⟨⟨_, hk⟩, ih⟩

/-- Pairs that are handed on and are the ones stored. -/
theorem PairedBy.numeric {objects : Instances K} {keys values : List Value}
    {pairs : List (K × Double)} (h : PairedBy objects Denotes keys values pairs)
    (hhanded : PairedBy objects (fun v x => numberOf v = x) keys values pairs) :
    ∀ v ∈ values, Numeric v := by
  induction h with
  | nil => simp
  | cons _ hv _ ih =>
    cases hhanded with
    | cons _ hx hrest =>
      rw [← hx] at hv
      exact List.forall_mem_cons.mpr ⟨denotes_numberOf_iff.mp hv, ih hrest⟩

/-- The pairs of a sound map. -/
theorem exists_paired {objects : Instances K} {keys values : List Value}
    (hkeys : ∀ k ∈ keys, ∃ c, HoldsKey objects k c) (hlen : keys.length = values.length)
    (hvalues : ∀ v ∈ values, Numeric v) :
    ∃ pairs : List (K × Double), PairedBy objects Denotes keys values pairs ∧
      PairedBy objects (fun v x => numberOf v = x) keys values pairs := by
  induction keys generalizing values with
  | nil =>
    obtain rfl : values = [] := List.length_eq_zero_iff.mp hlen.symm
    exact ⟨[], .nil, .nil⟩
  | cons k keys ih =>
    cases values with
    | nil => simp at hlen
    | cons v values =>
      obtain ⟨⟨c, hk⟩, hkeys⟩ := List.forall_mem_cons.mp hkeys
      obtain ⟨hv, hvalues⟩ := List.forall_mem_cons.mp hvalues
      obtain ⟨pairs, hstored, hhanded⟩ := ih hkeys (Nat.succ.inj hlen) hvalues
      exact ⟨(c, numberOf v) :: pairs, .cons hk (denotes_numberOf_iff.mpr hv) hstored,
        .cons hk rfl hhanded⟩

/-- **`New` raises an error or builds the container of the pairs that are stored exactly
on the maps where a key throws in time, and on the sound ones.** -/
theorem faithfulOrFails_iff (map : DslMap K) :
    FaithfulOrFails map ↔ Refused map.objects map.keys_ map.values_ ∨ Sound map := by
  refine ⟨fun h => ?_, fun h M C core => ?_⟩
  · rcases h _ _ recording with ⟨message, hnew⟩ | ⟨pairs, c, hpairs, hbuild, hnew⟩
    · rw [new_recording] at hnew
      exact .inl (recording_raised hnew)
    · rw [build_recording] at hbuild
      cases hbuild
      rw [new_recording] at hnew
      obtain ⟨handed, rfl, hhanded⟩ := recording_ok hnew
      have hlen := hpairs.length_eq
      rw [hlen, List.take_length] at hhanded
      exact .inr ⟨hpairs.contexts, hlen, hpairs.numeric hhanded⟩
  · rw [new_eq]
    rcases h with h | h
    · obtain ⟨message, hwalk⟩ := insertAll_refused core h core.empty
      exact .inl ⟨message, by rw [hwalk]; rfl⟩
    · obtain ⟨pairs, hstored, hhanded⟩ := exists_paired h.contexts h.aligned h.numeric
      rw [insertAll_paired core hhanded]
      show (∃ message, core.build pairs = _) ∨ ∃ pairs' c, _ ∧ _ ∧ core.build pairs = _
      rcases build_cases core pairs with ⟨c, hbuild⟩ | ⟨message, hbuild⟩
      · exact .inr ⟨pairs, c, hstored, hbuild, hbuild⟩
      · exact .inl ⟨message, hbuild⟩

end Maps

/-- A map from one context to a text. -/
def textMap : DslMap Nat where
  objects
    | 0 => ⟨none, some [("keys_", .struct (some 1)), ("values_", .struct (some 2))]⟩
    | 1 => ⟨some (.array [.struct (some 3)]), none⟩
    | 2 => ⟨some (.array [.string "high"]), none⟩
    | _ => ⟨some (.key 7), none⟩
  map := .struct (some 0)
  keys_ := [.struct (some 3)]
  values_ := [.string "high"]
  holds := rfl

/-- The text is replaced by zero. -/
theorem not_faithfulOrFails_text : ¬ FaithfulOrFails textMap := by
  intro h
  have hnew : new recording textMap.objects textMap.map = .ok [(7, .finite 0)] := rfl
  rcases h _ _ recording with ⟨message, hraised⟩ | ⟨pairs, c, hpairs, -, -⟩
  · rw [hnew] at hraised
    cases hraised
  · cases hpairs with
    | cons _ hv _ => cases hv

/-! ### The sibling

`Point.NewFromRaw` compares the lengths first and takes floats only. -/

section Raw
variable {K M C : Type} {objects : Instances K} {keys values : List Value}

/-- The struct has no handle, or one to a connection. -/
def Typed (objects : Instances K) (v : Value) : Prop :=
  ∀ inst handle, v = .struct (some inst) → (objects inst).native_handle = some handle →
    ∃ c, handle = .key c

theorem connectionOf_cases {v : Value} (h : Typed objects v) :
    (∃ c, HoldsKey objects v c ∧ connectionOf objects v = .ok c) ∨
      ∃ message, connectionOf objects v = .error (.raised message) := by
  cases v with
  | struct inst =>
    cases inst with
    | none => exact .inr ⟨_, rfl⟩
    | some inst =>
      rw [connectionOf]
      cases hhandle : (objects inst).native_handle with
      | none => exact .inr ⟨_, rfl⟩
      | some handle =>
        obtain ⟨c, rfl⟩ := h inst handle rfl hhandle
        exact .inl ⟨c, ⟨inst, rfl, hhandle⟩, rfl⟩
  | _ => exact .inr ⟨_, rfl⟩

theorem getDouble_cases (v : Value) :
    (∃ x, v = .float x ∧ getDouble v = .ok x) ∨
      ∃ message, getDouble v = .error (.raised message) := by
  cases v with
  | float x => exact .inl ⟨x, rfl, rfl⟩
  | _ => exact .inr ⟨_, rfl⟩

theorem insertAll_raw (core : Core K M C) (hkeys : ∀ k ∈ keys, Typed objects k)
    (hlen : keys.length = values.length) (m : M) :
    (∃ message, insertAll core (connectionOf objects) getDouble keys values m =
        .error (.raised message)) ∨
      ∃ pairs, PairedBy objects (fun v x => v = .float x) keys values pairs ∧
        insertAll core (connectionOf objects) getDouble keys values m =
          pairs.foldlM (fun m e => call (core.insert m e.1 e.2)) m := by
  induction keys generalizing values m with
  | nil =>
    obtain rfl : values = [] := List.length_eq_zero_iff.mp hlen.symm
    exact .inr ⟨[], .nil, rfl⟩
  | cons k keys ih =>
    cases values with
    | nil => simp at hlen
    | cons v values =>
      obtain ⟨hk, hkeys⟩ := List.forall_mem_cons.mp hkeys
      rcases connectionOf_cases hk with ⟨c, hc, hkey⟩ | ⟨message, hkey⟩
      · rcases getDouble_cases v with ⟨x, hx, hval⟩ | ⟨message, hval⟩
        · rw [insertAll_cons core hkey hval]
          rcases call_cases (core.insert m c x) with ⟨m', hm'⟩ | ⟨message, hm'⟩
          · rw [hm']
            rcases ih hkeys (Nat.succ.inj hlen) m' with hraised | ⟨pairs, hpairs, hrest⟩
            · exact .inl hraised
            · refine .inr ⟨(c, x) :: pairs, .cons hc hx hpairs, ?_⟩
              rw [List.foldlM_cons, hm']
              exact hrest
          · exact .inl ⟨message, by rw [hm']; rfl⟩
        · exact .inl ⟨message, by rw [insertAll, hkey, hval]; rfl⟩
      · exact .inl ⟨message, by rw [insertAll, hkey]; rfl⟩

/-- Every map with typed keys is rejected or built from exactly its pairs. -/
theorem newFromRaw_faithful (core : Core K M C) {map_inst : Option Handle}
    (hkeys : get_struct_field_array objects map_inst "keys_" = .ok keys)
    (hvalues : get_struct_field_array objects map_inst "values_" = .ok values)
    (htyped : ∀ k ∈ keys, Typed objects k) :
    (∃ message, newFromRaw core objects map_inst = .error (.raised message)) ∨
      ∃ pairs c, PairedBy objects (fun v x => v = .float x) keys values pairs ∧
        core.build pairs = .ok c ∧ newFromRaw core objects map_inst = .ok c := by
  rw [newFromRaw, hkeys, hvalues]
  show (∃ message, (if keys.length ≠ values.length then _ else _) = _) ∨
    ∃ pairs c, _ ∧ _ ∧ (if keys.length ≠ values.length then _ else _) = _
  by_cases hlen : keys.length = values.length
  · rw [if_neg (not_not.mpr hlen), forRange_body]
    rcases insertAll_raw core htyped hlen core.empty with ⟨message, hwalk⟩ | ⟨pairs, hpairs, hwalk⟩
    · exact .inl ⟨message, by rw [hwalk]; rfl⟩
    · rw [hwalk]
      rcases build_cases core pairs with ⟨c, hbuild⟩ | ⟨message, hbuild⟩
      · exact .inr ⟨pairs, c, hpairs, hbuild, hbuild⟩
      · exact .inl ⟨message, hbuild⟩
  · rw [if_pos hlen]
    exact .inl ⟨_, rfl⟩

/-- On paired arrays of floats the walk inserts the pairs. -/
theorem insertAll_floats (core : Core K M C) {pairs : List (K × Double)}
    (h : PairedBy objects (fun v x => v = .float x) keys values pairs) (m : M) :
    insertAll core (connectionOf objects) getDouble keys values m =
      pairs.foldlM (fun m e => call (core.insert m e.1 e.2)) m := by
  induction h generalizing m with
  | nil => rfl
  | @cons k v e keys values pairs hk hv _ ih =>
    have hkey : connectionOf objects k = .ok e.1 := by
      obtain ⟨inst, rfl, hhandle⟩ := hk
      rw [connectionOf, hhandle]
      rfl
    have hval : getDouble v = .ok e.2 := by
      rw [hv]
      rfl
    rw [insertAll_cons core hkey hval, List.foldlM_cons]
    exact congrArg _ (funext ih)

/-- **`Point.NewFromRaw` returns** what falcon_core makes of the pairs, exactly on aligned
arrays of connections and floats, and raises on all others. -/
theorem newFromRaw_returns_iff (core : Core K M C) {map_inst : Option Handle}
    (hkeys : get_struct_field_array objects map_inst "keys_" = .ok keys)
    (hvalues : get_struct_field_array objects map_inst "values_" = .ok values)
    (htyped : ∀ k ∈ keys, Typed objects k) :
    (∀ c, newFromRaw core objects map_inst = .ok c ↔
      ∃ pairs, PairedBy objects (fun v x => v = .float x) keys values pairs ∧
        core.build pairs = .ok c) ∧
    ∀ fault, newFromRaw core objects map_inst = .error fault →
      ∃ message, fault = .raised message := by
  have hfaithful := newFromRaw_faithful core hkeys hvalues htyped
  refine ⟨fun c => ⟨fun hc => ?_, fun hpairs => ?_⟩, fun fault hfault => ?_⟩
  · rcases hfaithful with ⟨message, hraised⟩ | ⟨pairs, c', hpairs, hbuild, hc'⟩
    · cases hc.symm.trans hraised
    · cases hc.symm.trans hc'
      exact ⟨pairs, hpairs, hbuild⟩
  · obtain ⟨pairs, hpairs, hbuild⟩ := hpairs
    have hlen : ¬ keys.length ≠ values.length := not_not.mpr hpairs.length_eq
    rw [newFromRaw, hkeys, hvalues]
    show (if keys.length ≠ values.length then _ else _) = _
    rw [if_neg hlen, forRange_body, insertAll_floats core hpairs]
    exact hbuild
  · rcases hfaithful with ⟨message, hraised⟩ | ⟨pairs, c', -, -, hc'⟩
    · cases hfault.symm.trans hraised
      exact ⟨message, rfl⟩
    · cases hfault.symm.trans hc'

end Raw

/-- The map at 0 has the connection of 3 at one volt. -/
def oneVolt : Instances Nat
  | 0 => ⟨none, some [("keys_", .struct (some 1)), ("values_", .struct (some 2))]⟩
  | 1 => ⟨some (.array [.struct (some 3)]), none⟩
  | 2 => ⟨some (.array [.float (.finite 1)]), none⟩
  | 3 => ⟨some (.key 7), none⟩
  | _ => ⟨none, none⟩

theorem newFromRaw_returns_one :
    newFromRaw recording oneVolt (some 0) = .ok [(7, .finite 1)] := by
  have htyped : ∀ k ∈ [(.struct (some 3) : Value)], Typed oneVolt k := by
    refine List.forall_mem_singleton.mpr fun inst handle hinst hhandle => ?_
    cases hinst
    cases hhandle
    exact ⟨7, rfl⟩
  have hkeys : get_struct_field_array oneVolt (some 0) "keys_" = .ok [.struct (some 3)] := rfl
  have hvalues : get_struct_field_array oneVolt (some 0) "values_" = .ok [.float (.finite 1)] := rfl
  have hreturns := newFromRaw_returns_iff recording hkeys hvalues htyped
  refine (hreturns.1 _).mpr ⟨[(7, .finite 1)], .cons ⟨3, rfl, rfl⟩ rfl .nil, ?_⟩
  exact build_recording _

end FalconStd.FalconCore.InterpretationContainer
