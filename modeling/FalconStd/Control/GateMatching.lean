import FalconStd.Control.Direction

/-! How the `Direction` algebra matches gates.

A gate is a shared pointer `P` to a struct whose contents are its name. The map
under a direction compares contents; the loops of `Dot`, `Add` and `Subtract`
compare pointers. `matches_by_name_iff` says when that makes no difference: when
the two operands hold the gates they have in common as the same instances. -/
namespace FalconStd.Control.GateMatching
open Collections Foundation

variable {P N R : Type} [DecidableEq P] [DecidableEq N] (name_ : P → N)

/-- `*lhs == *rhs` of two gates. -/
@[reducible] def contents : BEq P := ⟨fun p q => decide (name_ p = name_ q)⟩

/-- A direction built by `SetCoefficient`, whose map compares contents. -/
def built (sets : List (P × R)) : Direction P R :=
  sets.foldl (fun d e => (@Direction.setCoefficient P R (contents name_) d e.1 e.2).2)
    Direction.new

/-- The direction as a vector over gate names. -/
def byName [Zero R] (d : Direction P R) : FiniteMap N R :=
  FiniteMap.ofList (Assoc.rename name_ d.dir_.entries)

/-- The loops match gates as the map does: by name. -/
structure MatchesByName [Field R] (a b : Direction P R) : Prop where
  dot : a.dot b = (byName name_ a).dot (byName name_ b)
  add_names : ((a.add b).gates.map name_).Nodup
  add_coefficients : ∀ n,
    (byName name_ (a.add b)).val n = (byName name_ a).val n + (byName name_ b).val n
  subtract_names : ((a.subtract b).gates.map name_).Nodup
  subtract_coefficients : ∀ n,
    (byName name_ (a.subtract b)).val n = (byName name_ a).val n - (byName name_ b).val n

/-- Gates of the same name in both operands are the same instance. -/
def SharedInstances (a b : Direction P R) : Prop :=
  ∀ g ∈ a.gates, ∀ h ∈ b.gates, name_ g = name_ h → g = h

/-! ### Directions as lists of entries with distinct names -/

variable {name_}

omit [DecidableEq P] in
theorem built_ofEntries (name_ : P → N) (sets : List (P × R)) :
    ∃ l, built name_ sets = Direction.ofEntries l ∧ Assoc.Distinct (Assoc.rename name_ l) := by
  suffices h : ∀ (l : List (P × R)), Assoc.Distinct (Assoc.rename name_ l) →
      ∃ l', sets.foldl (fun d e => (@Direction.setCoefficient P R (contents name_) d e.1 e.2).2)
        (Direction.ofEntries l) = Direction.ofEntries l' ∧
          Assoc.Distinct (Assoc.rename name_ l') from h [] Assoc.distinct_nil
  induction sets with
  | nil => exact fun l hl => ⟨l, rfl, hl⟩
  | cons e rest ih =>
    intro l hl
    have hset : (@Direction.setCoefficient P R (contents name_) (Direction.ofEntries l) e.1 e.2).2 =
        Direction.ofEntries (@Assoc.set P R (contents name_) e.1 e.2 l) :=
      congrArg (fun r : Except Failure Unit × Map P R => (⟨r.2⟩ : Direction P R))
        (@Map.set_ofEntries P R (contents name_) l e.1 e.2)
    have hdistinct : @Assoc.Distinct P R (contents name_) l := List.pairwise_map.mp hl
    rw [List.foldl_cons, hset]
    exact ih _ (List.pairwise_map.mpr
      (@Assoc.distinct_set P R (contents name_) e.1 e.2 l hdistinct))

omit [DecidableEq P] in
/-- Reading by name is reading the map. -/
theorem getCoefficient_byName (sets : List (P × R)) (g : P) (c : R) :
    @Direction.getCoefficient P R (contents name_) (built name_ sets) g = .ok c ↔
      Assoc.get? (name_ g) (Assoc.rename name_ (built name_ sets).dir_.entries) = some c := by
  obtain ⟨l, hl, _⟩ := built_ofEntries name_ sets
  have hread : ∀ l : List (P × R),
      @Assoc.get? P R (contents name_) g l = Assoc.get? (name_ g) (Assoc.rename name_ l) := by
    intro l
    induction l with
    | nil => rfl
    | cons e rest ih =>
      show (if decide (name_ e.1 = name_ g) = true then some e.2 else _) =
        if decide (name_ e.1 = name_ g) = true then some e.2 else _
      rw [ih]
      rfl
  rw [hl, Direction.entries_ofEntries, ← hread]
  show @Map.get P R (contents name_) (Map.ofEntries l) g = .ok c ↔ _
  rw [@Map.get_ofEntries P R (contents name_)]
  cases @Assoc.get? P R (contents name_) g l <;> simp

section Lists
variable {a b : List (P × R)}

omit [DecidableEq P] in
theorem names_nodup {l : List (P × R)} (h : Assoc.Distinct (Assoc.rename name_ l)) :
    ((l.map Prod.fst).map name_).Nodup := by
  rw [Assoc.distinct_iff_nodup] at h
  simpa [Assoc.rename, Function.comp_def] using h

omit [DecidableEq P] [DecidableEq N] in
theorem faithful_of_shared
    (h : SharedInstances name_ (Direction.ofEntries a) (Direction.ofEntries b)) :
    ∀ e ∈ b, Assoc.Faithful name_ a e.1 :=
  fun e he e' he' hname => h e'.1 (List.mem_map_of_mem he') e.1 (List.mem_map_of_mem he) hname

/-- Combining by instance is combining by name when common gates are shared. -/
theorem byName_combine (hit : R → R → R) (miss : R → R)
    (h : SharedInstances name_ (Direction.ofEntries a) (Direction.ofEntries b))
    (ha : Assoc.Distinct (Assoc.rename name_ a)) (hb : Assoc.Distinct (Assoc.rename name_ b)) :
    ∃ l, Direction.combine hit miss (Direction.ofEntries a) (Direction.ofEntries b) =
        Direction.ofEntries l ∧
      Assoc.rename name_ l = Assoc.merge hit miss (Assoc.rename name_ a) (Assoc.rename name_ b) ∧
      Assoc.Distinct (Assoc.rename name_ l) := by
  have hmerge := Assoc.rename_merge hit miss (faithful_of_shared h) hb
  refine ⟨Assoc.merge hit miss a b, Direction.combine_ofEntries hit miss a b, hmerge, ?_⟩
  rw [hmerge]
  exact Assoc.distinct_merge hit miss _ ha

omit [DecidableEq N] in
/-- A gate of the same name held as two instances is listed twice in the sum. -/
theorem shared_of_combine {hit : R → R → R} {miss : R → R}
    (h : ((Direction.combine hit miss (Direction.ofEntries a)
      (Direction.ofEntries b)).gates.map name_).Nodup) :
    SharedInstances name_ (Direction.ofEntries a) (Direction.ofEntries b) := by
  intro g hg g' hg' hname
  rw [Direction.combine_ofEntries] at h
  have hin : g ∈ (Assoc.merge hit miss a b).map Prod.fst :=
    (Assoc.mem_keys_merge hit miss a b g).mpr (.inl hg)
  have hin' : g' ∈ (Assoc.merge hit miss a b).map Prod.fst :=
    (Assoc.mem_keys_merge hit miss a b g').mpr (.inr hg')
  exact List.inj_on_of_nodup_map h hin hin' hname

variable [Field R]

theorem dot_byName (h : SharedInstances name_ (Direction.ofEntries a) (Direction.ofEntries b))
    (ha : Assoc.Distinct (Assoc.rename name_ a)) :
    (Direction.ofEntries a).dot (Direction.ofEntries b) =
      (byName name_ (Direction.ofEntries a)).dot (byName name_ (Direction.ofEntries b)) := by
  rw [byName, byName, Direction.entries_ofEntries, Direction.entries_ofEntries, Direction.dot,
    Direction.entries_ofEntries, Direction.dot_fold, zero_add,
    FiniteMap.dot_eq_sum _ _ (Finset.Subset.refl _), ← FiniteMap.sum_entries ha]
  refine congrArg List.sum ?_
  show a.map _ = (a.map fun e => (name_ e.1, e.2)).map _
  rw [List.map_map]
  refine List.map_congr_left fun e he => ?_
  have hfaithful : Assoc.Faithful name_ b e.1 := fun e' he' hname =>
    (h e.1 (List.mem_map_of_mem he) e'.1 (List.mem_map_of_mem he') hname.symm).symm
  show e.2 * (Assoc.get? e.1 b).getD 0 =
    e.2 * (Assoc.get? (name_ e.1) (Assoc.rename name_ b)).getD 0
  rw [Assoc.get?_rename hfaithful]

end Lists

/-- **The loops match gates by name exactly when the gates in common are the same
instances.** -/
theorem matches_by_name_iff [Field R] (as bs : List (P × R)) :
    MatchesByName name_ (built name_ as) (built name_ bs) ↔
      SharedInstances name_ (built name_ as) (built name_ bs) := by
  obtain ⟨a, ha, hda⟩ := built_ofEntries name_ as
  obtain ⟨b, hb, hdb⟩ := built_ofEntries name_ bs
  rw [ha, hb]
  refine ⟨fun h => shared_of_combine h.add_names, fun h => ?_⟩
  obtain ⟨sum, hsum, hsumNames, hsumDistinct⟩ :=
    byName_combine (fun lhs rhs => lhs + rhs) (fun rhs => rhs) h hda hdb
  obtain ⟨diff, hdiff, hdiffNames, hdiffDistinct⟩ :=
    byName_combine (fun lhs rhs => lhs - rhs) (fun rhs => -rhs) h hda hdb
  constructor
  case dot => exact dot_byName h hda
  case add_names =>
    rw [Direction.add, hsum]
    exact names_nodup hsumDistinct
  case add_coefficients =>
    intro n
    rw [Direction.add, hsum]
    simp only [byName, Direction.entries_ofEntries, hsumNames, FiniteMap.ofList_merge_add _ hdb]
    rfl
  case subtract_names =>
    rw [Direction.subtract, hdiff]
    exact names_nodup hdiffDistinct
  case subtract_coefficients =>
    intro n
    rw [Direction.subtract, hdiff]
    simp only [byName, Direction.entries_ofEntries, hdiffNames, FiniteMap.ofList_merge_sub _ hdb]
    rfl

/-- Instances `0` and `1` of one gate `P1`: the loops miss the match. -/
theorem two_instances_not_matched :
    ¬ MatchesByName (fun _ => "P1") (built (fun _ => "P1") [((0 : Nat), (1 : ℚ))])
      (built (fun _ => "P1") [(1, 2)]) := by
  intro h
  have hnames := h.add_names
  revert hnames
  decide

end FalconStd.Control.GateMatching
