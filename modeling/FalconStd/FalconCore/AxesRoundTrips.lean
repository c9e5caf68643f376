import FalconStd.FalconCore.AxesAgreement

/-! Maps of falcon_core packed for the DSL and read again.

`DiscreteSpace.Increasing` makes new structs for the maps. Read by `build_map_axes` they
give the maps back up to the order of their items, and a DSL `Map` that went through
falcon_core answers as before (`increasing_round_trip`). -/
namespace FalconStd.FalconCore.AxesArguments
open Foundation InterpretationContainer Collections

variable {K M : Type} {core : CoreMap String Bool M}

/-! ### Maps that answer alike -/

/-- The second map is well formed and answers as the first. -/
structure Alike (dsl dsl' : Map String Bool) : Prop where
  wellFormed : dsl'.WellFormed
  size : dsl'.size = dsl.size
  contains : ∀ key, dsl'.contains key = dsl.contains key
  get : ∀ key, dsl'.get key = dsl.get key
  getOr : ∀ key default_value, dsl'.getOr key default_value = dsl.getOr key default_value

theorem Alike.of_perm {entries entries' : List (String × Bool)} (h : entries'.Perm entries)
    (hdistinct : Assoc.Distinct entries) :
    Assoc.Distinct entries' ∧ Alike (.ofEntries entries) (.ofEntries entries') := by
  have hdistinct' : Assoc.Distinct entries' := by
    rw [Assoc.distinct_iff_nodup] at hdistinct ⊢
    exact (h.map Prod.fst).nodup_iff.mpr hdistinct
  have hget : ∀ key, Assoc.get? key entries' = Assoc.get? key entries := by
    intro key
    refine Option.ext fun value => ?_
    rw [← Assoc.mem_iff_get? hdistinct', ← Assoc.mem_iff_get? hdistinct, h.mem_iff]
  refine ⟨hdistinct', (Map.wellFormed_ofEntries _).mpr hdistinct', ?_, fun key => ?_, fun key => ?_,
    fun key default_value => ?_⟩
  · rw [Map.size_ofEntries, Map.size_ofEntries, h.length_eq]
  · rw [Map.contains_ofEntries, Map.contains_ofEntries, Assoc.contains_eq_isSome, hget,
      Assoc.contains_eq_isSome]
  · rw [Map.get_ofEntries, Map.get_ofEntries, hget, h.length_eq]
  · rw [Map.getOr_ofEntries, Map.getOr_ofEntries, hget]

/-! ### Structs that hold maps -/

/-- The elements are structs that hold these maps. -/
def HoldsMaps (objects : Instances K) (elements : List Value) (maps : List (Map String Bool)) :
    Prop :=
  List.Forall₂ (fun v dsl => ∃ i, v = .struct (some i) ∧ HoldsMap objects i dsl) elements maps

theorem mapOf_holds {objects : Instances K} (key : String) {i : Handle}
    {dsl : Map String Bool} (hmap : HoldsMap objects i dsl) (hwell : dsl.WellFormed) :
    mapOf objects core key (.struct (some i)) = .ok (nativeMap core dsl.entries) := by
  show dsl_map_to_bool_map objects core (some i) = _
  rw [dsl_map_to_bool_map_eq_ok_iff]
  refine ⟨i, dsl.entries, rfl, ?_, rfl⟩
  rw [Map.ofEntries_entries hwell.aligned]
  exact hmap

theorem maps_read {objects : Instances K} (key : String) {elements : List Value}
    {maps : List (Map String Bool)} (h : HoldsMaps objects elements maps)
    (hwell : ∀ dsl ∈ maps, dsl.WellFormed) :
    elements.mapM (mapOf objects core key) =
      .ok (maps.map fun dsl => nativeMap core dsl.entries) := by
  rw [mapM_eq_ok_iff, List.forall₂_map_right_iff]
  induction h with
  | nil => exact .nil
  | cons hv _ ih =>
    obtain ⟨i, rfl, hmap⟩ := hv
    obtain ⟨hdsl, hrest⟩ := List.forall_mem_cons.mp hwell
    exact .cons (mapOf_holds key hmap hdsl) (ih hrest)

/-! ### Packing -/

theorem packMap_next (h : Heap (Instance K)) (items : List (String × Bool)) :
    (packMap h items).2.next = h.next + 3 := rfl

theorem packMap_cell_old (h : Heap (Instance K)) (items : List (String × Bool)) {r : Handle}
    (hr : r < h.next) : (packMap h items).2.cell r = h.cell r := by
  rw [packMap]
  refine (Heap.alloc_cell_old _ _ (Nat.lt_add_right 2 hr)).trans ?_
  refine (Heap.alloc_cell_old _ _ (Nat.lt_add_right 1 hr)).trans ?_
  exact Heap.alloc_cell_old h _ hr

section Cells
variable (h : Heap (Instance K)) (items : List (String × Bool))

theorem packMap_cell_keys :
    ((packMap h items).2.cell h.next).native_handle =
      some (.array (items.map fun kv => .string kv.1)) := by
  have hne : h.next ≠ h.next + 1 + 1 := Nat.ne_of_lt (Nat.lt_add_of_pos_right Nat.two_pos)
  simp [packMap, Heap.alloc, hne]

theorem packMap_cell_values :
    ((packMap h items).2.cell (h.next + 1)).native_handle =
      some (.array (items.map fun kv => .bool kv.2)) := by
  simp [packMap, Heap.alloc]

theorem packMap_cell_map :
    ((packMap h items).2.cell (h.next + 2)).fields =
      some [("keys_", .struct (some h.next)), ("values_", .struct (some (h.next + 1)))] := by
  simp [packMap, Heap.alloc]

end Cells

/-- The new structs hold the map, in any heap that still has them. -/
theorem packMap_holds {h : Heap (Instance K)} {items : List (String × Bool)}
    {objects : Instances K}
    (hagree : ∀ r < h.next + 3, objects r = (packMap h items).2.cell r) :
    HoldsMap objects (packMap h items).1 (.ofEntries items) := by
  have hkeys := packMap_cell_keys h items
  have hvalues := packMap_cell_values h items
  have hfields := packMap_cell_map h items
  rw [← hagree _ (Nat.lt_add_of_pos_right (Nat.succ_pos 2))] at hkeys
  rw [← hagree _ (Nat.add_lt_add_left (Nat.succ_lt_succ (Nat.succ_pos 1)) _)] at hvalues
  rw [← hagree _ (Nat.lt_succ_self _)] at hfields
  refine ⟨⟨_, h.next, hfields, rfl, ?_⟩, ⟨_, h.next + 1, hfields, rfl, ?_⟩⟩
  · rw [hkeys, Map.ofEntries, List.map_map]
    rfl
  · rw [hvalues, Map.ofEntries, List.map_map]
    rfl

/-- New structs for the maps, and the old ones as they were. -/
theorem increasing_packs (core : CoreMap String Bool M) (natives : List M)
    (h : Heap (Instance K)) :
    h.next ≤ (increasing core h natives).2.next ∧
      (∀ r < h.next, (increasing core h natives).2.cell r = h.cell r) ∧
      (∀ v ∈ (increasing core h natives).1, ∃ i, v = .struct (some i) ∧ h.next ≤ i) ∧
      ∀ objects : Instances K, (∀ r < (increasing core h natives).2.next,
          objects r = (increasing core h natives).2.cell r) →
        HoldsMaps objects (increasing core h natives).1
          (natives.map fun m => .ofEntries (core.items m)) := by
  induction natives generalizing h with
  | nil => exact ⟨Nat.le_refl _, fun r _ => rfl, by simp [increasing], fun _ _ => .nil⟩
  | cons m rest ih =>
    obtain ⟨hnext, hold, hnew, hmaps⟩ := ih (packMap h (core.items m)).2
    rw [packMap_next] at hnext hold hnew
    refine ⟨(Nat.le_add_right _ 3).trans hnext, fun r hr => ?_, ?_, fun objects hagree => ?_⟩
    · exact (hold r (Nat.lt_add_right 3 hr)).trans (packMap_cell_old h _ hr)
    · refine List.forall_mem_cons.mpr ⟨⟨_, rfl, Nat.le_add_right _ 2⟩, fun v hv => ?_⟩
      obtain ⟨i, hi, hle⟩ := hnew v hv
      exact ⟨i, hi, (Nat.le_add_right _ 3).trans hle⟩
    · have hfirst : ∀ r < h.next + 3, objects r = (packMap h (core.items m)).2.cell r :=
        fun r hr => (hagree r (Nat.lt_of_lt_of_le hr hnext)).trans (hold r hr)
      exact .cons ⟨_, rfl, packMap_holds hfirst⟩ (hmaps objects hagree)

/-- Read again, the maps have the items that they had. -/
theorem increasing_reads (hcore : core.Lawful) (hsame : ∀ a b, core.same a b ↔ a = b)
    (h : Heap (Instance K)) (key : String) {natives : List M}
    (hdistinct : ∀ m ∈ natives, Assoc.Distinct (core.items m)) {objects : Instances K}
    (hagree : ∀ r < (increasing core h natives).2.next,
      objects r = (increasing core h natives).2.cell r) :
    ∃ natives', (increasing core h natives).1.mapM (mapOf objects core key) = .ok natives' ∧
      List.Forall₂ (fun m m' => (core.items m').Perm (core.items m)) natives natives' := by
  obtain ⟨-, -, -, hmaps⟩ := increasing_packs core natives h
  refine ⟨_, maps_read key (hmaps objects hagree) ?_, ?_⟩
  · intro dsl hdsl
    obtain ⟨m, hm, rfl⟩ := List.mem_map.mp hdsl
    exact (Map.wellFormed_ofEntries _).mpr (hdistinct m hm)
  · rw [List.map_map, List.forall₂_map_right_iff, List.forall₂_same]
    intro m hm
    have hitems := nativeMap_items hcore hsame (hdistinct m hm)
    rwa [Function.comp_apply, Map.entries_ofEntries]

theorem get_array_from_params_array (objects : Instances K) {params : Params} {key : String}
    {elements : List Value} (hparams : params.lookup key = some (.pointer "Array" (.array elements))) :
    get_array_from_params objects params key = .ok elements := by
  rw [get_array_from_params, hparams]
  rfl

/-- **DSL maps come back**: well-formed maps that a constructor of `DiscreteSpace` is given,
and that `Increasing` packs, are found in new structs and answer as before; nothing else
changes, and given to a constructor again they are the same to falcon_core. -/
theorem increasing_round_trip (core : CoreMap String Bool M) (hcore : core.Lawful)
    (hsame : ∀ a b, core.same a b ↔ a = b) (h : Heap (Instance K)) {params : Params}
    {key : String} {elements : List Value} {maps : List (Map String Bool)}
    (hparams : get_array_from_params h.cell params key = .ok elements)
    (hmaps : HoldsMaps h.cell elements maps) (hwell : ∀ dsl ∈ maps, dsl.WellFormed) :
    ∃ natives maps',
      build_map_axes h.cell core params key = .ok natives ∧
      HoldsMaps (increasing core h natives).2.cell (increasing core h natives).1 maps' ∧
      List.Forall₂ Alike maps maps' ∧
      (∀ r < h.next, (increasing core h natives).2.cell r = h.cell r) ∧
      (∀ v ∈ (increasing core h natives).1, ∃ i, v = .struct (some i) ∧ h.next ≤ i) ∧
      ∀ (params' : Params) (key' : String),
        params'.lookup key' = some (.pointer "Array" (.array (increasing core h natives).1)) →
          ∃ natives', build_map_axes (increasing core h natives).2.cell core params' key' =
              .ok natives' ∧
            List.Forall₂ (fun m m' => (core.items m').Perm (core.items m)) natives natives' := by
  have halike : ∀ dsl ∈ maps, Assoc.Distinct (core.items (nativeMap core dsl.entries)) ∧
      Alike dsl (.ofEntries (core.items (nativeMap core dsl.entries))) := by
    intro dsl hdsl
    obtain ⟨entries, rfl, hdistinct⟩ := (hwell dsl hdsl).exists_entries
    rw [Map.entries_ofEntries]
    exact Alike.of_perm (nativeMap_items hcore hsame hdistinct) hdistinct
  have hdistinct : ∀ m ∈ maps.map fun dsl => nativeMap core dsl.entries,
      Assoc.Distinct (core.items m) := by
    intro m hm
    obtain ⟨dsl, hdsl, rfl⟩ := List.mem_map.mp hm
    exact (halike dsl hdsl).1
  obtain ⟨-, hold, hnew, hpacked⟩ :=
    increasing_packs core (maps.map fun dsl => nativeMap core dsl.entries) h
  refine ⟨_, _, ?_, hpacked _ fun r _ => rfl, ?_, hold, hnew, fun params' key' hparams' => ?_⟩
  · rw [build_map_axes, hparams]
    exact maps_read key hmaps hwell
  · rw [List.map_map, List.forall₂_map_right_iff, List.forall₂_same]
    exact fun dsl hdsl => (halike dsl hdsl).2
  · rw [build_map_axes, get_array_from_params_array _ hparams']
    exact increasing_reads hcore hsame h key' hdistinct fun r _ => rfl

/-- The map of the store, packed into structs from 5 on. -/
theorem increasing_round_trip_one :
    ∃ natives maps',
      build_map_axes oneMap boolMap [("increasing", .pointer "Axes" (.struct (some 0)))]
        "increasing" = .ok natives ∧
      HoldsMaps (increasing boolMap ⟨oneMap, 5⟩ natives).2.cell
        (increasing boolMap ⟨oneMap, 5⟩ natives).1 maps' ∧
      List.Forall₂ Alike [.ofEntries [("P1", true)]] maps' := by
  let params : Params := [("increasing", .pointer "Axes" (.struct (some 0)))]
  have hparams : get_array_from_params oneMap params "increasing" = .ok [.struct (some 2)] := rfl
  have hwell : (Map.ofEntries [("P1", true)]).WellFormed := ⟨rfl, List.pairwise_singleton _ _⟩
  obtain ⟨natives, maps', hread, hpacked, halike, -⟩ := increasing_round_trip boolMap boolMap_lawful
    (fun _ _ => Iff.rfl) ⟨oneMap, 5⟩ hparams (.cons ⟨2, rfl, oneMap_holds⟩ .nil)
    (List.forall_mem_singleton.mpr hwell)
  exact ⟨natives, maps', hread, hpacked, halike⟩

/-! ### Accessors in any order -/

/-- What an accessor packs: the objects of a list (`IndependentVariables`,
`DependentVariables`, `GetProjection`), or the maps of a space (`Increasing`). -/
inductive Packed (K M : Type) where
  | objects (ks : List K)
  | maps (natives : List M)

def pack (core : CoreMap String Bool M) (h : Heap (Instance K)) :
    Packed K M → List Value × Heap (Instance K)
  | .objects ks => pack_mc_array h ks
  | .maps natives => increasing core h natives

def packAll (core : CoreMap String Bool M) (h : Heap (Instance K)) :
    List (Packed K M) → List (List Value) × Heap (Instance K)
  | [] => ([], h)
  | p :: rest =>
    let (elements, h') := pack core h p
    let (arrays, h'') := packAll core h' rest
    (elements :: arrays, h'')

/-- Given the array as a parameter, the readers return what was packed. -/
def ReadsBack (core : CoreMap String Bool M) (objects : Instances K) (elements : List Value) :
    Packed K M → Prop
  | .objects ks => ∀ (access : FieldAccess K) (params : Params) (key : String),
      params.lookup key = some (.pointer "Array" (.array elements)) →
        build_cld_axes objects params key = .ok ks ∧ build_ip_axes objects params key = .ok ks ∧
          extract_array_value objects access params key >>= array_value_to_mc_vector objects = .ok ks
  | .maps natives => ∀ (params : Params) (key : String),
      params.lookup key = some (.pointer "Array" (.array elements)) →
        ∃ natives', build_map_axes objects core params key = .ok natives' ∧
          List.Forall₂ (fun m m' => (core.items m').Perm (core.items m)) natives natives'

/-- The keys of each map are distinct. -/
def Packed.Distinct (core : CoreMap String Bool M) : Packed K M → Prop
  | .objects _ => True
  | .maps natives => ∀ m ∈ natives, Assoc.Distinct (core.items m)

theorem pack_mc_array_packs (ks : List K) (h : Heap (Instance K)) :
    h.next ≤ (pack_mc_array h ks).2.next ∧
      (∀ r < h.next, (pack_mc_array h ks).2.cell r = h.cell r) ∧
      ∀ objects : Instances K, (∀ r < (pack_mc_array h ks).2.next,
          objects r = (pack_mc_array h ks).2.cell r) →
        List.Forall₂ (HoldsKey objects) (pack_mc_array h ks).1 ks := by
  induction ks generalizing h with
  | nil => exact ⟨Nat.le_refl _, fun r _ => rfl, fun _ _ => .nil⟩
  | cons k rest ih =>
    obtain ⟨hnext, hold, hkeys⟩ := ih (h.alloc ⟨some (.key k), some []⟩).2
    rw [Heap.alloc_next] at hnext hold
    refine ⟨(Nat.le_add_right _ 1).trans hnext, fun r hr => ?_, fun objects hagree => ?_⟩
    · exact (hold r (Nat.lt_add_right 1 hr)).trans (Heap.alloc_cell_old h _ hr)
    · have hfirst : objects h.next = ⟨some (.key k), some []⟩ := by
        refine (hagree _ (Nat.lt_of_succ_le hnext)).trans ?_
        exact (hold _ (Nat.lt_succ_self _)).trans (Heap.alloc_cell_new h _)
      exact .cons ⟨_, rfl, by rw [hfirst]⟩ (hkeys objects hagree)

theorem readsBack_objects {objects : Instances K} {elements : List Value} {ks : List K}
    (h : List.Forall₂ (HoldsKey objects) elements ks) :
    ReadsBack core objects elements (.objects ks) := by
  intro access params key hparams
  have hspace := get_array_from_params_array objects hparams
  have hcontext : extract_array_value objects access params key = .ok elements := by
    rw [extract_array_value, hparams]
    rfl
  rw [build_cld_axes, build_ip_axes, build_native_axes, build_native_axes, hspace, hcontext]
  refine ⟨?_, ?_, ?_⟩
  · exact mapM_eq_ok_iff.mpr (h.imp fun _ _ => nativeOf_eq_ok_iff.mpr)
  · exact mapM_eq_ok_iff.mpr (h.imp fun _ _ => nativeOf_eq_ok_iff.mpr)
  · exact mapM_eq_ok_iff.mpr (h.imp fun _ _ => contextOf_eq_ok_iff.mpr)

/-- One accessor: what it packs is read back as long as its structs are there. -/
theorem pack_reads_back (hcore : core.Lawful) (hsame : ∀ a b, core.same a b ↔ a = b)
    (h : Heap (Instance K)) {p : Packed K M} (hp : p.Distinct core) :
    h.next ≤ (pack core h p).2.next ∧ (∀ r < h.next, (pack core h p).2.cell r = h.cell r) ∧
      ∀ objects : Instances K, (∀ r < (pack core h p).2.next,
          objects r = (pack core h p).2.cell r) → ReadsBack core objects (pack core h p).1 p := by
  cases p with
  | objects ks =>
    obtain ⟨hnext, hold, hkeys⟩ := pack_mc_array_packs ks h
    exact ⟨hnext, hold, fun objects hagree => readsBack_objects (hkeys objects hagree)⟩
  | maps natives =>
    obtain ⟨hnext, hold, -, -⟩ := increasing_packs core natives h
    refine ⟨hnext, hold, fun objects hagree params key hparams => ?_⟩
    rw [build_map_axes, get_array_from_params_array objects hparams]
    exact increasing_reads hcore hsame h key hp hagree

/-- Later accessors leave the structs of the earlier ones. -/
theorem packAll_reads_back (hcore : core.Lawful) (hsame : ∀ a b, core.same a b ↔ a = b)
    {ps : List (Packed K M)} (hps : ∀ p ∈ ps, p.Distinct core) (h : Heap (Instance K)) :
    h.next ≤ (packAll core h ps).2.next ∧
      (∀ r < h.next, (packAll core h ps).2.cell r = h.cell r) ∧
      ∀ objects : Instances K, (∀ r < (packAll core h ps).2.next,
          objects r = (packAll core h ps).2.cell r) →
        List.Forall₂ (fun p elements => ReadsBack core objects elements p) ps
          (packAll core h ps).1 := by
  induction ps generalizing h with
  | nil => exact ⟨Nat.le_refl _, fun r _ => rfl, fun _ _ => .nil⟩
  | cons p rest ih =>
    obtain ⟨hp, hrest⟩ := List.forall_mem_cons.mp hps
    obtain ⟨hnext, hold, hread⟩ := pack_reads_back hcore hsame h hp
    obtain ⟨hnext', hold', hread'⟩ := ih hrest (pack core h p).2
    refine ⟨hnext.trans hnext', fun r hr => ?_, fun objects hagree => ?_⟩
    · exact (hold' r (Nat.lt_of_lt_of_le hr hnext)).trans (hold r hr)
    · have hfirst : ∀ r < (pack core h p).2.next, objects r = (pack core h p).2.cell r :=
        fun r hr => (hagree r (Nat.lt_of_lt_of_le hr hnext')).trans (hold' r hr)
      exact .cons (hread objects hfirst) (hread' objects hagree)

/-- **Packed values keep their meaning**: after any accessors in any order, every array that
one of them returned is read as what was packed, by each reader that takes such an array. -/
theorem packed_read_back (core : CoreMap String Bool M) (hcore : core.Lawful)
    (hsame : ∀ a b, core.same a b ↔ a = b) (h : Heap (Instance K)) (ps : List (Packed K M))
    (hps : ∀ p ∈ ps, p.Distinct core) :
    (∀ r < h.next, (packAll core h ps).2.cell r = h.cell r) ∧
      List.Forall₂ (fun p elements => ReadsBack core (packAll core h ps).2.cell elements p) ps
        (packAll core h ps).1 := by
  obtain ⟨-, hold, hread⟩ := packAll_reads_back hcore hsame hps h
  exact ⟨hold, hread _ fun r _ => rfl⟩

/-- The dependent variables, the map of a space, and the independent variables. -/
theorem packed_read_back_three :
    let ps : List (Packed Nat (List (String × Bool))) :=
      [.objects [7, 8], .maps [[("P1", true)]], .objects [9]]
    (∀ r < 5, (packAll boolMap ⟨oneMap, 5⟩ ps).2.cell r = oneMap r) ∧
      List.Forall₂ (fun p elements =>
          ReadsBack boolMap (packAll boolMap ⟨oneMap, 5⟩ ps).2.cell elements p) ps
        (packAll boolMap ⟨oneMap, 5⟩ ps).1 := by
  intro ps
  have hmap : (Packed.maps [[("P1", true)]] : Packed Nat _).Distinct boolMap :=
    List.forall_mem_singleton.mpr (List.pairwise_singleton _ _)
  have hps : ∀ p ∈ ps, p.Distinct boolMap := List.forall_mem_cons.mpr
    ⟨trivial, List.forall_mem_cons.mpr ⟨hmap, List.forall_mem_singleton.mpr trivial⟩⟩
  exact packed_read_back boolMap boolMap_lawful (fun _ _ => Iff.rfl) ⟨oneMap, 5⟩ ps hps

end FalconStd.FalconCore.AxesArguments
