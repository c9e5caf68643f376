import FalconStd.Control.ValueSemantics

/-! When `Orthogonalize` does what it is for.

It projects the receiver on the argument, and `Project` gets the projection from
`Scale`, which writes it into the argument's own arrays; of an argument of length
zero there is no projection, and `Subtract` raises. What is left is right exactly
when the projection is the argument itself (`orthogonalize_iff`). -/
namespace FalconStd.Control.Machine
open Collections Foundation

variable {Var G R : Type} [DecidableEq Var] [DecidableEq G] [Field R] [DecidableEq R]
  {s s' : Machine Var G R} (sqrt : R → R)

/-- What `Orthogonalize` owes for the state `s` before it and the receiver `r` after
it, of a receiver `d` and an argument `o`. -/
structure Orthogonalized (s s' : Machine Var G R) (r d o : DirectionRef) : Prop where
  orthogonal : (s'.store.read r).dot (s.store.read o) = 0
  sum : ∀ g, (s'.value r).val g + ((s.value d).project (s.value o)).val g = (s.value d).val g
  argument_kept : s'.store.read o = s.store.read o
  receiver_kept : (s.store.read o).normSquared = 0 → s'.store.read r = s.store.read d

/-- The call returns, and what it owes holds. -/
def Orthogonalizes (s : Machine Var G R) (x y : Var) (d o : DirectionRef) : Prop :=
  ∃ s' r, s.exec sqrt (.orthogonalize x y) = some s' ∧ s'.env x = some r ∧
    Orthogonalized s s' r d o

section Call
variable {x y : Var} {d o : DirectionRef}

/-- The state after the call, of an argument of nonzero length. -/
def orthogonalized (s : Machine Var G R) (x y : Var) (d o : DirectionRef) : Machine Var G R :=
  (s.projected y d o).inPlace x d
    (((s.projected y d o).store.read d).subtract ((s.projected y d o).store.read o))

theorem exec_orthogonalize_of_ne_zero (hs : Inv s) (hd : s.env x = some d) (ho : s.env y = some o)
    (hne : (s.value o).dot (s.value o) ≠ 0) :
    s.exec sqrt (.orthogonalize x y) = some (s.orthogonalized x y d o) := by
  have hd₁ : (s.projected y d o).env x = some d := by rw [projected_env ho, hd]
  have ho₁ : (s.projected y d o).env y = some o := by rw [projected_env ho, ho]
  rw [exec_orthogonalize sqrt hs hd ho, if_pos hne]
  show (s.projected y d o).exec sqrt (.subtract x x y) = _
  simp only [exec, hd₁, ho₁, Option.bind_eq_bind, Option.bind_some]
  exact congrArg some (combine_inPlace (inv_projected hs ho) hd₁ ho₁ _ _ x)

omit [DecidableEq R] in
theorem read_projected (s : Machine Var G R) (y : Var) (d o : DirectionRef) :
    (s.projected y d o).store.read o = (s.store.read o).scale (s.factor d o) :=
  Store.read_write_same _ _ _

omit [DecidableEq R] in
/-- The arrays of another argument stay with the projection in them. -/
theorem read_orthogonalized (h : ¬ Store.Shares o d) :
    (s.orthogonalized x y d o).store.read o = (s.store.read o).scale (s.factor d o) := by
  rw [← read_projected s y d o]
  exact Store.read_write_of_not_shares _ _ h

omit [DecidableEq R] in
theorem read_receiver (s : Machine Var G R) (x y : Var) (d o : DirectionRef) :
    (s.orthogonalized x y d o).store.read d =
      ((s.projected y d o).store.read d).subtract ((s.projected y d o).store.read o) :=
  Store.read_write_same _ _ _

omit [DecidableEq R] in
theorem receiver_wellFormed (hs : Inv s) (hd : s.env x = some d) (ho : s.env y = some o) :
    ((s.orthogonalized x y d o).store.read d).WellFormed := by
  have hprojected := inv_projected (d := d) hs ho
  rw [read_receiver]
  exact Direction.subtract_wellFormed
    (hprojected.wellFormed x d (by rw [projected_env ho, hd]))
    (hprojected.wellFormed y o (by rw [projected_env ho, ho]))

omit [DecidableEq R] in
theorem value_orthogonalized (hs : Inv s) (hd : s.env x = some d) (ho : s.env y = some o)
    (h : ¬ Store.Shares o d) :
    (s.orthogonalized x y d o).value d =
      (s.value d).sub ((s.value o).scale (s.factor d o)) := by
  have hapart : ¬ Store.Shares d o := fun hshares => h (hshares.imp Eq.symm Eq.symm)
  have hwo := hs.wellFormed y o ho
  have hread : (s.projected y d o).store.read d = s.store.read d :=
    Store.read_write_of_not_shares _ _ hapart
  rw [value, read_receiver, hread, read_projected,
    Direction.subtract_meaning (hs.wellFormed x d hd) (Direction.scale_wellFormed hwo _),
    Direction.scale_meaning hwo]
  rfl

omit [DecidableEq Var] [DecidableEq G] [DecidableEq R] in
theorem scale_one_contents (c : Direction G R) : c.scale 1 = c := by
  simp [Direction.scale]

omit [DecidableEq R] in
/-- Subtracted from itself, a direction keeps its contents only if it has length zero. -/
theorem kept_shared (hs : Inv s) (hd : s.env x = some d)
    (h : (s.orthogonalized x x d d).store.read d = s.store.read d) :
    (s.value d).dot (s.value d) = 0 := by
  have hwf := hs.wellFormed x d hd
  have hscaled := Direction.scale_wellFormed hwf (s.factor d d)
  have hvalue : s.value d =
      ((s.value d).scale (s.factor d d)).sub ((s.value d).scale (s.factor d d)) := by
    have hmeaning := congrArg Direction.meaning ((read_receiver s x x d d).symm.trans h)
    rw [read_projected, Direction.subtract_meaning hscaled hscaled,
      Direction.scale_meaning hwf] at hmeaning
    exact hmeaning.symm
  refine FiniteMap.dot_self_of_isZero fun g => ?_
  rw [hvalue]
  exact sub_self _

/-- **Orthogonalizing** is right exactly when the argument has a length, its arrays
are not the receiver's, and it is itself the projection of the receiver on it. -/
theorem orthogonalizes_iff (hs : Inv s) (hd : s.env x = some d) (ho : s.env y = some o) :
    Orthogonalizes sqrt s x y d o ↔
      (s.value o).dot (s.value o) ≠ 0 ∧
        (s.value d).dot (s.value o) = (s.value o).dot (s.value o) ∧ ¬ Store.Shares o d := by
  have hwo := hs.wellFormed y o ho
  refine ⟨?_, fun ⟨hne, hdot, hapart⟩ => ?_⟩
  · intro h
    obtain ⟨s', r, hexec, hr, h⟩ := h
    have hne : (s.value o).dot (s.value o) ≠ 0 := by
      intro hzero
      rw [exec_orthogonalize sqrt hs hd ho, if_neg (not_not.mpr hzero)] at hexec
      cases hexec
    obtain rfl : s.orthogonalized x y d o = s' :=
      Option.some.inj ((exec_orthogonalize_of_ne_zero sqrt hs hd ho hne).symm.trans hexec)
    rcases hs.eq_or_apart hd ho with rfl | hapart
    · exact absurd (kept_shared hs hd h.argument_kept) hne
    · have hscaled := congrArg Direction.meaning
        ((read_orthogonalized hapart).symm.trans h.argument_kept)
      rw [Direction.scale_meaning hwo] at hscaled
      exact ⟨hne, (factor_eq_one hne).mp ((scale_eq_self hne _).mp hscaled), hapart⟩
  · have hfactor : s.factor d o = 1 := (factor_eq_one hne).mpr hdot
    have hproject : (s.value d).project (s.value o) = (s.value o).scale (s.factor d o) :=
      FiniteMap.project_of_ne_zero _ hne
    have hvalue := value_orthogonalized (y := y) hs hd ho hapart
    have henv : (s.orthogonalized x y d o).env x = some d := by
      simp [orthogonalized, inPlace, assign]
    refine ⟨_, d, exec_orthogonalize_of_ne_zero sqrt hs hd ho hne, henv, ?_⟩
    constructor
    case orthogonal =>
      rw [Direction.dot_meaning (receiver_wellFormed hs hd ho) hwo]
      show ((s.orthogonalized x y d o).value d).dot (s.value o) = 0
      rw [hvalue, ← hproject]
      exact FiniteMap.sub_project_dot _ hne
    case sum =>
      intro g
      rw [hvalue, hproject]
      exact sub_add_cancel _ _
    case argument_kept => rw [read_orthogonalized hapart, hfactor, scale_one_contents]
    case receiver_kept =>
      intro hzero
      exact absurd ((Direction.dot_meaning hwo hwo).symm.trans hzero) hne

end Call

/-! ### Reachable states -/

theorem inv_after (program : List (Stmt Var G R)) :
    ∀ s, after sqrt program = some s → Inv s := by
  refine run_invariant (J := fun o => ∀ s, o = some s → Inv s) (fun o stmt hinv => ?_) (some start)
    (fun s hs => Option.some.inj hs ▸ inv_start) program
  cases o with
  | none =>
    intro s hs
    cases hs
  | some s =>
    have hrepresents : Represents s fun x => (s.env x).map fun d => (s.store.read d).meaning :=
      fun _ => rfl
    exact (exec_exact sqrt (hinv s rfl) hrepresents stmt).keeps

/-- The same of any two directions that a program has built. -/
theorem orthogonalizes_after_iff (program : List (Stmt Var G R)) (s : Machine Var G R)
    (hs : after sqrt program = some s) (x y : Var) (d o : DirectionRef) (hd : s.env x = some d)
    (ho : s.env y = some o) :
    Orthogonalizes sqrt s x y d o ↔
      (s.store.dot o o ≠ 0 ∧ s.store.dot d o = s.store.dot o o ∧ ¬ Store.Shares o d) := by
  have hinv := inv_after sqrt program s hs
  rw [dot_value hinv ho ho, dot_value hinv hd ho]
  exact orthogonalizes_iff sqrt hinv hd ho

/-- `x` is one along `P1` and `y` two. -/
def alongOneGate : List (Stmt String String ℚ) :=
  [.new "x", .setCoefficient "x" "P1" 1, .new "y", .setCoefficient "y" "P1" 2]

/-- `x` is one along `P1` and `P2`, and `y` one along `P1`: its projection on `y` is `y`. -/
def alongTwoGates : List (Stmt String String ℚ) :=
  [.new "x", .setCoefficient "x" "P1" 1, .setCoefficient "x" "P2" 1, .new "y",
    .setCoefficient "y" "P1" 1]

/-- The two programs are on either side of the condition. -/
theorem orthogonalizes_after_iff_along :
    (∃ s, after id alongTwoGates = some s ∧ s.env "x" = some ⟨0, 0⟩ ∧ s.env "y" = some ⟨1, 1⟩ ∧
      Orthogonalizes id s "x" "y" ⟨0, 0⟩ ⟨1, 1⟩) ∧
    ∃ s, after id alongOneGate = some s ∧ s.env "x" = some ⟨0, 0⟩ ∧ s.env "y" = some ⟨1, 1⟩ ∧
      ¬ Orthogonalizes id s "x" "y" ⟨0, 0⟩ ⟨1, 1⟩ := by
  constructor
  · refine ⟨(after id alongTwoGates).get rfl, (Option.some_get _).symm, rfl, rfl, ?_⟩
    refine (orthogonalizes_after_iff id alongTwoGates _ (Option.some_get _).symm "x" "y" _ _
      rfl rfl).mpr ⟨?_, ?_, ?_⟩
    · decide +kernel
    · decide +kernel
    · rintro (h | h) <;> cases h
  · refine ⟨(after id alongOneGate).get rfl, (Option.some_get _).symm, rfl, rfl, ?_⟩
    intro h
    obtain ⟨-, hdot, -⟩ := (orthogonalizes_after_iff id alongOneGate _ (Option.some_get _).symm
      "x" "y" _ _ rfl rfl).mp h
    revert hdot
    decide +kernel

/-- Orthogonalizing `x` scales `y` to the projection. -/
theorem orthogonalize_scales_argument :
    ¬ ∀ (program : List (Stmt String String ℚ)) (s : Machine String String ℚ),
      after id program = some s → ∀ (x y : String) (d o : DirectionRef), s.env x = some d →
        s.env y = some o → Orthogonalizes id s x y d o := by
  intro h
  obtain ⟨s', r, hexec, _, hout⟩ := h alongOneGate ((after id alongOneGate).get rfl)
    (Option.some_get _).symm "x" "y" ⟨0, 0⟩ ⟨1, 1⟩ rfl rfl
  have hargument := congrArg (Option.map fun s => s.store.read ⟨1, 1⟩) hexec
  rw [Option.map_some, hout.argument_kept] at hargument
  exact absurd hargument (by decide +kernel)

end FalconStd.Control.Machine
