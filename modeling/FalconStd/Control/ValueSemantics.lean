import FalconStd.Control.DirectionStoreProofs

/-! When programs over `Direction` variables have the intended value semantics.

A program agrees with the semantics when, after every statement, all that can be
observed of the variables is the same. -/
namespace FalconStd.Control
open Collections Foundation

namespace Machine

variable {Var G R : Type} [DecidableEq Var] [DecidableEq G] [Field R] [DecidableEq R]
  {s s' : Machine Var G R} {p : Values Var G R} (sqrt : R → R)

/-! ### Two new arrays -/

/-- The state after `x = Direction.New()`. -/
def afterNew (s : Machine Var G R) (x : Var) : Machine Var G R :=
  s.assign x (some s.store.new.1) s.store.new.2

omit [DecidableEq Var] [Field R] [DecidableEq R] in
/-- The new arrays are none of those in use. -/
theorem read_new_old (hs : Inv s) {x : Var} {d : DirectionRef} (hd : s.env x = some d) :
    s.store.new.2.read d = s.store.read d := by
  have hk := hs.allocated x d hd
  have hv : d.values_ < s.store.coefficients.next := by
    rw [← hs.paired x d hd, ← hs.sync]
    exact hk
  simp [Store.new, Store.read, Heap.alloc_cell_old _ _ hk, Heap.alloc_cell_old _ _ hv]

omit [DecidableEq Var] [DecidableEq G] [Field R] [DecidableEq R] in
theorem read_new (s : Machine Var G R) :
    s.store.new.2.read s.store.new.1 = (Direction.new : Direction G R) := by
  simp [Store.new, Store.read, Direction.new, Map.new]

omit [Field R] [DecidableEq R] in
theorem inv_afterNew (hs : Inv s) (x : Var) : Inv (s.afterNew x) := by
  have hbefore : ∀ z d, (s.afterNew x).env z = some d →
      d = s.store.new.1 ∨ s.env z = some d := by
    intro z d hz
    by_cases hzx : z = x
    · subst hzx
      left
      simpa [afterNew, assign, eq_comm] using hz
    · right
      simpa [afterNew, assign, hzx] using hz
  have hnext : (s.afterNew x).store.gates.next = s.store.gates.next + 1 := rfl
  constructor
  case sync =>
    show s.store.gates.next + 1 = s.store.coefficients.next + 1
    rw [hs.sync]
  case paired =>
    intro z d hz
    rcases hbefore z d hz with rfl | hold
    · exact hs.sync
    · exact hs.paired z d hold
  case allocated =>
    intro z d hz
    rw [hnext]
    rcases hbefore z d hz with rfl | hold
    · exact Nat.lt_succ_self _
    · exact Nat.lt_succ_of_lt (hs.allocated z d hold)
  case wellFormed =>
    intro z d hz
    show (s.store.new.2.read d).WellFormed
    rcases hbefore z d hz with rfl | hold
    · rw [read_new]
      exact Direction.new_wellFormed
    · rw [read_new_old hs hold]
      exact hs.wellFormed z d hold

omit [DecidableEq R] in
theorem represents_afterNew (hs : Inv s) (hr : Represents s p) (x : Var) :
    Represents (s.afterNew x) (Function.update p x (some FiniteMap.empty)) := by
  intro z
  by_cases hzx : z = x
  · subst hzx
    simp only [afterNew, assign, Function.update_self, Option.map_some, read_new,
      Direction.new_meaning]
  · have hrz := hr z
    simp only [afterNew, assign, Function.update_of_ne hzx]
    rw [← hrz]
    cases hz : s.env z with
    | none => rfl
    | some d => rw [Option.map_some, Option.map_some, read_new_old hs hz]

omit [Field R] [DecidableEq R] in
/-- Leaving a variable unassigned. -/
theorem inv_unassign (hs : Inv s) (x : Var) : Inv (s.assign x none s.store) := by
  have hbefore : ∀ z d, (s.assign x none s.store).env z = some d → s.env z = some d := by
    intro z d hz
    by_cases hzx : z = x
    · subst hzx
      simp [assign] at hz
    · simpa [assign, hzx] using hz
  constructor
  case sync => exact hs.sync
  case paired => exact fun z d hz => hs.paired z d (hbefore z d hz)
  case allocated => exact fun z d hz => hs.allocated z d (hbefore z d hz)
  case wellFormed => exact fun z d hz => hs.wellFormed z d (hbefore z d hz)

/-! ### One statement -/

/-- The states of the two semantics, `none` after an exception. -/
def Corresponds : Option (Machine Var G R) → Option (Values Var G R) → Prop
  | none, none => True
  | some s, some p => Represents s p
  | _, _ => False

/-- What is proved of a statement: it keeps the invariant, whatever it does to the
values, and does to the values what is intended exactly when it meets its condition. -/
structure Exact (sqrt : R → R) (s : Machine Var G R) (p : Values Var G R) (stmt : Stmt Var G R) :
    Prop where
  keeps : ∀ s', s.exec sqrt stmt = some s' → Inv s'
  corresponds : Corresponds (s.exec sqrt stmt) (Values.exec sqrt p stmt) ↔ s.Meets sqrt stmt

omit [DecidableEq Var] [DecidableEq R] in
/-- An operand is unassigned in both semantics, or holds what is intended. -/
theorem Represents.operand (hr : Represents s p) (x : Var) :
    (s.env x = none ∧ p x = none) ∨ ∃ d, s.env x = some d ∧ p x = some (s.value d) := by
  have h := hr x
  cases hd : s.env x with
  | none =>
    rw [hd] at h
    exact .inl ⟨rfl, h.symm⟩
  | some d =>
    rw [hd] at h
    exact .inr ⟨d, rfl, h.symm⟩

/-- An unassigned operand raises in both semantics. -/
theorem exact_of_raises {stmt : Stmt Var G R} (hexec : s.exec sqrt stmt = none)
    (hpure : Values.exec sqrt p stmt = none) (hmeets : s.Meets sqrt stmt) :
    Exact sqrt s p stmt := by
  constructor
  case keeps =>
    intro s' h
    rw [hexec] at h
    cases h
  case corresponds =>
    rw [hexec, hpure]
    exact iff_of_true trivial hmeets

/-- A statement that writes in place what the semantics assigns. -/
theorem exact_of_inPlace (hs : Inv s) (hr : Represents s p) {stmt : Stmt Var G R} {x y : Var}
    {d : DirectionRef} {c : Direction G R} (hd : s.env y = some d)
    (hexec : s.exec sqrt stmt = some (s.inPlace x d c)) (hc : c.WellFormed)
    (hpure : Values.exec sqrt p stmt = some (Function.update p x (some c.meaning)))
    (hmeets : s.Meets sqrt stmt ↔ c.meaning = s.value d ∨ Unshared s x d) :
    Exact sqrt s p stmt := by
  constructor
  case keeps =>
    intro s' h
    obtain rfl := Option.some.inj (hexec.symm.trans h)
    exact inv_inPlace hs hd hc
  case corresponds =>
    rw [hexec, hpure, hmeets]
    exact represents_inPlace hs hr hd c

theorem exact_new (hs : Inv s) (hr : Represents s p) (x : Var) : Exact sqrt s p (.new x) := by
  constructor
  case keeps =>
    intro s' h
    obtain rfl : s.afterNew x = s' := Option.some.inj h
    exact inv_afterNew hs x
  case corresponds => exact iff_of_true (represents_afterNew hs hr x) trivial

theorem exact_setCoefficient (hs : Inv s) (hr : Represents s p) (x : Var) (gate : G)
    (coefficient : R) : Exact sqrt s p (.setCoefficient x gate coefficient) := by
  rcases hr.operand x with ⟨hd, hp⟩ | ⟨d, hd, hp⟩
  · exact exact_of_raises sqrt (by simp [exec, hd]) (by simp [Values.exec, hp]) (by simp [Meets, hd])
  · obtain ⟨c, hexec, hc, hmeaning⟩ := exec_setCoefficient sqrt hs hd gate coefficient
    apply exact_of_inPlace sqrt hs hr hd hexec hc
    · simp [Values.exec, hp, hmeaning]
    · simp [Meets, hd, hmeaning, FiniteMap.set_eq_self_iff]

theorem exact_removeGate (hs : Inv s) (hr : Represents s p) (x : Var) (gate : G) :
    Exact sqrt s p (.removeGate x gate) := by
  rcases hr.operand x with ⟨hd, hp⟩ | ⟨d, hd, hp⟩
  · exact exact_of_raises sqrt (by simp [exec, hd]) (by simp [Values.exec, hp]) (by simp [Meets, hd])
  · obtain ⟨c, hexec, hc, hmeaning⟩ := exec_removeGate sqrt hs hd gate
    apply exact_of_inPlace sqrt hs hr hd hexec hc
    · simp [Values.exec, hp, hmeaning]
    · simp [Meets, hd, hmeaning, FiniteMap.remove_eq_self_iff]

theorem exact_scale (hs : Inv s) (hr : Represents s p) (x y : Var) (factor : R) :
    Exact sqrt s p (.scale x y factor) := by
  rcases hr.operand y with ⟨hd, hp⟩ | ⟨d, hd, hp⟩
  · exact exact_of_raises sqrt (by simp [exec, hd]) (by simp [Values.exec, hp]) (by simp [Meets, hd])
  · have hwf := hs.wellFormed y d hd
    have hmeaning : ((s.store.read d).scale factor).meaning = (s.value d).scale factor :=
      Direction.scale_meaning hwf factor
    apply exact_of_inPlace sqrt hs hr hd (exec_scale sqrt hd x factor)
      (Direction.scale_wellFormed hwf factor)
    · simp [Values.exec, hp, hmeaning]
    · simp [Meets, hd, hmeaning, FiniteMap.scale_eq_self_iff]

theorem exact_normalize (hs : Inv s) (hr : Represents s p) (x : Var) :
    Exact sqrt s p (.normalize x) := by
  rcases hr.operand x with ⟨hd, hp⟩ | ⟨d, hd, hp⟩
  · exact exact_of_raises sqrt (by simp [exec, hd]) (by simp [Values.exec, hp]) (by simp [Meets, hd])
  · have hwf := hs.wellFormed x d hd
    have hmeaning : ((s.store.read d).normalize sqrt).meaning = (s.value d).normalize sqrt :=
      Direction.normalize_meaning sqrt hwf
    apply exact_of_inPlace sqrt hs hr hd (exec_normalize sqrt hd)
      (Direction.normalize_wellFormed sqrt hwf)
    · simp [Values.exec, hp, hmeaning]
    · simp [Meets, hd, hmeaning, FiniteMap.normalize_eq_self_iff]

/-- A statement that runs the loop of `Add` and `Subtract`, for an operation `op`
that changes nothing of the receiver's when the argument has no gate of its own and
nothing but zeros. -/
theorem exact_combine (op : FiniteMap G R → FiniteMap G R → FiniteMap G R) (hs : Inv s)
    (hr : Represents s p) {stmt : Stmt Var G R} {x y z : Var} {hit : R → R → R} {miss : R → R}
    (hexec : s.exec sqrt stmt = (s.env y).bind fun d => (s.env z).bind fun d' =>
      some (s.assign x (some (s.store.combine hit miss d d').1) (s.store.combine hit miss d d').2))
    (hpure : Values.exec sqrt p stmt = (p y).bind fun m => (p z).bind fun m' =>
      some (Function.update p x (some (op m m'))))
    (hmeaning : ∀ a b : Direction G R, a.WellFormed → b.WellFormed →
      (Direction.combine hit miss a b).meaning = op a.meaning b.meaning)
    (hmeets : s.Meets sqrt stmt ↔ ∀ d d', s.env y = some d → s.env z = some d' →
      op (s.value d) (s.value d') = s.value d ∨ Unshared s x d) : Exact sqrt s p stmt := by
  rcases hr.operand y with ⟨hd, hp⟩ | ⟨d, hd, hp⟩
  · exact exact_of_raises sqrt (by simp [hexec, hd]) (by simp [hpure, hp]) (by simp [hmeets, hd])
  rcases hr.operand z with ⟨hd', hp'⟩ | ⟨d', hd', hp'⟩
  · exact exact_of_raises sqrt (by simp [hexec, hd, hd']) (by simp [hpure, hp, hp'])
      (by simp [hmeets, hd'])
  · have hwf := hs.wellFormed y d hd
    have hwf' := hs.wellFormed z d' hd'
    rw [hd, hd', Option.bind_some, Option.bind_some, combine_inPlace hs hd hd'] at hexec
    have hvalue : (Direction.combine hit miss (s.store.read d) (s.store.read d')).meaning =
        op (s.value d) (s.value d') := hmeaning _ _ hwf hwf'
    apply exact_of_inPlace sqrt hs hr hd hexec (Direction.combine_wellFormed hit miss hwf hwf')
    · simp [hpure, hp, hp', hvalue]
    · simp [hmeets, hd, hd', hvalue]

theorem exact_add (hs : Inv s) (hr : Represents s p) (x y z : Var) :
    Exact sqrt s p (.add x y z) := by
  apply exact_combine sqrt FiniteMap.add hs hr rfl rfl
  · exact fun a b ha hb => Direction.add_meaning ha hb
  · simp only [Meets, FiniteMap.add_eq_self_iff]

theorem exact_subtract (hs : Inv s) (hr : Represents s p) (x y z : Var) :
    Exact sqrt s p (.subtract x y z) := by
  apply exact_combine sqrt FiniteMap.sub hs hr rfl rfl
  · exact fun a b ha hb => Direction.subtract_meaning ha hb
  · simp only [Meets, FiniteMap.sub_eq_self_iff]

omit [DecidableEq Var] [DecidableEq R] in
/-- Where nothing is divided by zero, a factor of one is an equality of products. -/
theorem factor_eq_one {d d' : DirectionRef} (hne : (s.value d').dot (s.value d') ≠ 0) :
    s.factor d d' = 1 ↔ (s.value d).dot (s.value d') = (s.value d').dot (s.value d') :=
  div_eq_one_iff_eq hne

omit [DecidableEq Var] [DecidableEq R] in
/-- A vector of nonzero length is its own multiple by one only. -/
theorem scale_eq_self {d' : DirectionRef} (hne : (s.value d').dot (s.value d') ≠ 0) (k : R) :
    (s.value d').scale k = s.value d' ↔ k = 1 := by
  rw [FiniteMap.scale_eq_self_iff]
  exact or_iff_left fun hzero => hne (FiniteMap.dot_self_of_isZero hzero)

/-- `Project` writes into its argument, and returns nothing for one of length zero. -/
theorem exact_project (hs : Inv s) (hr : Represents s p) (x y z : Var) :
    Exact sqrt s p (.project x y z) := by
  rcases hr.operand y with ⟨hd, hp⟩ | ⟨d, hd, hp⟩
  · exact exact_of_raises sqrt (by simp [exec, hd]) (by simp [Values.exec, hp]) (by simp [Meets, hd])
  rcases hr.operand z with ⟨hd', hp'⟩ | ⟨d', hd', hp'⟩
  · exact exact_of_raises sqrt (by simp [exec, hd, hd']) (by simp [Values.exec, hp, hp'])
      (by simp [Meets, hd'])
  have hexec := exec_project sqrt hs hd hd' x
  by_cases h : (s.value d').dot (s.value d') = 0
  · rw [if_neg (not_not.mpr h)] at hexec
    constructor
    case keeps =>
      intro s' hs'
      obtain rfl := Option.some.inj (hexec.symm.trans hs')
      exact inv_unassign hs x
    case corresponds =>
      rw [hexec]
      refine iff_of_false ?_ fun hmeets => (hmeets d d' hd hd').1 h
      simp only [Values.exec, hp, hp', Option.bind_eq_bind, Option.bind_some]
      intro hc
      have hx := hc x
      simp [assign] at hx
  · rw [if_pos h] at hexec
    have hwf' := hs.wellFormed z d' hd'
    have hmeaning : ((s.store.read d').scale (s.factor d d')).meaning =
        (s.value d').scale (s.factor d d') := Direction.scale_meaning hwf' _
    have hproject : (s.value d).project (s.value d') = (s.value d').scale (s.factor d d') :=
      if_pos h
    apply exact_of_inPlace sqrt hs hr hd' hexec (Direction.scale_wellFormed hwf' _)
    · simp [Values.exec, hp, hp', hmeaning, hproject]
    · simp [Meets, hd, hd', hmeaning, h, scale_eq_self h, factor_eq_one h]

/-! ### Orthogonalize -/

section Orthogonalize
variable {x y : Var} {d d' : DirectionRef}

/-- The state in which `Project` has scaled the argument. -/
def projected (s : Machine Var G R) (y : Var) (d d' : DirectionRef) : Machine Var G R :=
  s.inPlace y d' ((s.store.read d').scale (s.factor d d'))

omit [DecidableEq R] in
theorem projected_env (hd' : s.env y = some d') (z : Var) :
    (s.projected y d d').env z = s.env z := by
  rw [projected, inPlace_env_self hd']

omit [DecidableEq R] in
theorem inv_projected (hs : Inv s) (hd' : s.env y = some d') : Inv (s.projected y d d') :=
  inv_inPlace hs hd' (Direction.scale_wellFormed (hs.wellFormed y d' hd') _)

omit [DecidableEq R] in
/-- A projection of factor one leaves its argument as it was. -/
theorem represents_projected (hs : Inv s) (hr : Represents s p) (hd' : s.env y = some d')
    (hfactor : s.factor d d' = 1) : Represents (s.projected y d d') p := by
  have hmeaning : ((s.store.read d').scale (s.factor d d')).meaning = (s.store.read d').meaning := by
    rw [Direction.scale_meaning (hs.wellFormed y d' hd'), hfactor, FiniteMap.scale_one]
  have h : Represents (s.projected y d d')
      (Function.update p y (some ((s.store.read d').scale (s.factor d d')).meaning)) :=
    (represents_inPlace hs hr hd' _).mpr (.inl hmeaning)
  have hp : p y = some (s.store.read d').meaning := by
    rw [← hr y, hd']
    rfl
  rwa [hmeaning, ← hp, Function.update_eq_self] at h

/-- With a factor of one only the subtraction is seen: it is right when no other
variable has the receiver's arrays, and takes away a vector of nonzero length. -/
theorem corresponds_of_factor_one (hs : Inv s) (hr : Represents s p) (hd : s.env x = some d)
    (hd' : s.env y = some d') (hne : (s.value d').dot (s.value d') ≠ 0)
    (hfactor : s.factor d d' = 1) :
    Corresponds ((s.projected y d d').exec sqrt (.subtract x x y))
      (some (Function.update p x (some ((s.value d).sub (s.value d'))))) ↔ Unshared s x d := by
  have hs₁ := inv_projected (d := d) hs hd'
  have hr₁ := represents_projected hs hr hd' hfactor
  have hd₁ : (s.projected y d d').env x = some d := by rw [projected_env hd', hd]
  have hd₁' : (s.projected y d d').env y = some d' := by rw [projected_env hd', hd']
  have hvalue : ∀ z e, s.env z = some e → (s.projected y d d').value e = s.value e := by
    intro z e he
    have h₁ := hr₁ z
    have h := hr z
    rw [projected_env hd', he] at h₁
    rw [he] at h
    exact Option.some.inj (h₁.trans h.symm)
  have hexact := (exact_subtract sqrt hs₁ hr₁ x x y).corresponds
  have hpure : Values.exec sqrt p (.subtract x x y) =
      some (Function.update p x (some ((s.value d).sub (s.value d')))) := by
    have h := hr x
    have h' := hr y
    rw [hd] at h
    rw [hd'] at h'
    simp [Values.exec, ← h, ← h', value]
  rw [hpure] at hexact
  rw [hexact]
  refine ⟨fun hmeets z e hzx hz => ?_, fun hunshared e e' he he' => ?_⟩
  · have hcond := hmeets d d' hd₁ hd₁'
    rw [hvalue x d hd, hvalue y d' hd'] at hcond
    rcases hcond with ⟨_, hzero⟩ | hunshared
    · exact absurd (FiniteMap.dot_self_of_isZero hzero) hne
    · exact hunshared z e hzx (by rw [projected_env hd', hz])
  · obtain rfl : d = e := Option.some.inj (hd₁.symm.trans he)
    refine .inr fun z e hzx hz => hunshared z e hzx ?_
    rw [← projected_env hd', hz]

/-- If the outcome is right, the argument has kept its contents. -/
theorem factor_eq_one_of_corresponds (hs : Inv s) (hr : Represents s p) (hd : s.env x = some d)
    (hd' : s.env y = some d') (hne : (s.value d').dot (s.value d') ≠ 0) {m : FiniteMap G R}
    (h : Corresponds ((s.projected y d d').exec sqrt (.subtract x x y))
      (some (Function.update p x (some m)))) : s.factor d d' = 1 := by
  have hs₁ := inv_projected (d := d) hs hd'
  have hd₁ : (s.projected y d d').env x = some d := by rw [projected_env hd', hd]
  have hd₁' : (s.projected y d d').env y = some d' := by rw [projected_env hd', hd']
  rcases hs.eq_or_apart hd hd' with rfl | hapart
  · exact div_self hne
  · have hyx : y ≠ x := by
      intro heq
      subst heq
      exact hapart (.inl (congrArg DirectionRef.keys_ (Option.some.inj (hd'.symm.trans hd))))
    have hexec : (s.projected y d d').exec sqrt (.subtract x x y) =
        some ((s.projected y d d').inPlace x d (((s.projected y d d').store.read d).subtract
          ((s.projected y d d').store.read d'))) := by
      simp only [exec, hd₁, hd₁', Option.bind_eq_bind, Option.bind_some]
      exact congrArg some (combine_inPlace hs₁ hd₁ hd₁' _ _ x)
    rw [hexec] at h
    have hy := h y
    have hry := hr y
    rw [hd'] at hry
    simp only [inPlace, assign, Function.update_of_ne hyx, hd₁', Option.map_some,
      Store.read_write_of_not_shares _ _ hapart, ← hry] at hy
    have hkept : (s.value d').scale (s.factor d d') = s.value d' := by
      have hread : (s.projected y d d').store.read d' =
          (s.store.read d').scale (s.factor d d') := Store.read_write_same _ _ _
      rw [hread, Direction.scale_meaning (hs.wellFormed y d' hd')] at hy
      exact Option.some.inj hy
    exact (scale_eq_self hne _).mp hkept

theorem exact_orthogonalize (hs : Inv s) (hr : Represents s p) (x y : Var) :
    Exact sqrt s p (.orthogonalize x y) := by
  rcases hr.operand x with ⟨hd, hp⟩ | ⟨d, hd, hp⟩
  · exact exact_of_raises sqrt (by simp [exec, hd]) (by simp [Values.exec, hp]) (by simp [Meets, hd])
  rcases hr.operand y with ⟨hd', hp'⟩ | ⟨d', hd', hp'⟩
  · exact exact_of_raises sqrt (by simp [exec, hd, hd']) (by simp [Values.exec, hp, hp'])
      (by simp [Meets, hd'])
  have hexec := exec_orthogonalize sqrt hs hd hd'
  have hpure : Values.exec sqrt p (.orthogonalize x y) =
      some (Function.update p x (some ((s.value d).sub ((s.value d).project (s.value d'))))) := by
    simp [Values.exec, hp, hp']
  have hmeets : s.Meets sqrt (.orthogonalize x y) ↔
      (s.value d').dot (s.value d') ≠ 0 ∧
      (s.value d).dot (s.value d') = (s.value d').dot (s.value d') ∧ Unshared s x d := by
    simp [Meets, hd, hd']
  by_cases hne : (s.value d').dot (s.value d') ≠ 0
  · have hexec : s.exec sqrt (.orthogonalize x y) =
        (s.projected y d d').exec sqrt (.subtract x x y) := hexec.trans (if_pos hne)
    constructor
    case keeps =>
      intro s' h
      rw [hexec] at h
      have hs₁ := inv_projected (d := d) hs hd'
      exact (exact_subtract sqrt hs₁ (fun _ => rfl) x x y).keeps s' h
    case corresponds =>
      have hproject : (s.value d).project (s.value d') = (s.value d').scale (s.factor d d') :=
        if_pos hne
      rw [hexec, hpure, hmeets, ← factor_eq_one hne, hproject]
      refine ⟨fun h => ?_, fun h => ?_⟩
      · have hfactor := factor_eq_one_of_corresponds sqrt hs hr hd hd' hne h
        rw [hfactor, FiniteMap.scale_one] at h
        exact ⟨hne, hfactor, (corresponds_of_factor_one sqrt hs hr hd hd' hne hfactor).mp h⟩
      · obtain ⟨_, hfactor, hunshared⟩ := h
        rw [hfactor, FiniteMap.scale_one]
        exact (corresponds_of_factor_one sqrt hs hr hd hd' hne hfactor).mpr hunshared
  · rw [if_neg hne] at hexec
    constructor
    case keeps =>
      intro s' h
      rw [hexec] at h
      cases h
    case corresponds =>
      rw [hexec, hpure, hmeets]
      exact iff_of_false (fun h => h) fun h => hne h.1

end Orthogonalize

/-- **One statement**: it keeps the invariant, and does what is intended exactly
when it meets its condition. -/
theorem exec_exact (hs : Inv s) (hr : Represents s p) (stmt : Stmt Var G R) :
    Exact sqrt s p stmt := by
  cases stmt with
  | new x => exact exact_new sqrt hs hr x
  | setCoefficient x gate coefficient => exact exact_setCoefficient sqrt hs hr x gate coefficient
  | removeGate x gate => exact exact_removeGate sqrt hs hr x gate
  | scale x y factor => exact exact_scale sqrt hs hr x y factor
  | add x y z => exact exact_add sqrt hs hr x y z
  | subtract x y z => exact exact_subtract sqrt hs hr x y z
  | normalize x => exact exact_normalize sqrt hs hr x
  | project x y z => exact exact_project sqrt hs hr x y z
  | orthogonalize x y => exact exact_orthogonalize sqrt hs hr x y

/-! ### What can be observed -/

/-- The observations of the variables in the two semantics, `none` for one that raises. -/
structure Observed (s : Machine Var G R) (p : Values Var G R) : Prop where
  containsGate : ∀ x gate, (s.env x).map (fun d => (s.store.read d).containsGate gate) =
    (p x).map fun m => decide (gate ∈ m.dom)
  getCoefficient : ∀ x gate,
    ((s.env x).bind fun d => ((s.store.read d).getCoefficient gate).toOption) =
      (p x).bind fun m => m.get? gate
  domainSize : ∀ x, (s.env x).map (fun d => (s.store.read d).domainSize) =
    (p x).map fun m => (m.dom.card : Int)
  dot : ∀ x y, ((s.env x).bind fun d => (s.env y).map fun d' => s.store.dot d d') =
    (p x).bind fun m => (p y).map fun m' => m.dot m'

omit [DecidableEq Var] [DecidableEq R] in
/-- The variables hold the same values exactly when no observation tells them apart. -/
theorem observed_iff (hs : Inv s) : Observed s p ↔ Represents s p := by
  refine ⟨fun h x => ?_, fun hr => ?_⟩
  · have hsize := h.domainSize x
    have hget := h.getCoefficient x
    cases hd : s.env x with
    | none =>
      rw [hd] at hsize
      exact (Option.map_eq_none_iff.mp hsize.symm).symm
    | some d =>
      rw [hd] at hsize hget
      obtain ⟨m, hm, _⟩ := Option.map_eq_some_iff.mp hsize.symm
      rw [hm, Option.map_some]
      congr 1
      apply FiniteMap.ext_get?
      intro gate
      rw [← Direction.getCoefficient_meaning (hs.wellFormed x d hd)]
      have hg := hget gate
      rwa [hm] at hg
  · constructor
    case containsGate =>
      intro x gate
      rcases hr.operand x with ⟨hd, hp⟩ | ⟨d, hd, hp⟩
      · rw [hd, hp]
        rfl
      · rw [hd, hp]
        exact congrArg some (Direction.containsGate_meaning (hs.wellFormed x d hd) gate)
    case getCoefficient =>
      intro x gate
      rcases hr.operand x with ⟨hd, hp⟩ | ⟨d, hd, hp⟩
      · rw [hd, hp]
        rfl
      · rw [hd, hp]
        exact Direction.getCoefficient_meaning (hs.wellFormed x d hd) gate
    case domainSize =>
      intro x
      rcases hr.operand x with ⟨hd, hp⟩ | ⟨d, hd, hp⟩
      · rw [hd, hp]
        rfl
      · rw [hd, hp]
        exact congrArg some (Direction.domainSize_meaning (hs.wellFormed x d hd))
    case dot =>
      intro x y
      rcases hr.operand x with ⟨hd, hp⟩ | ⟨d, hd, hp⟩
      · rw [hd, hp]
        rfl
      rcases hr.operand y with ⟨hd', hp'⟩ | ⟨d', hd', hp'⟩
      · rw [hd, hd', hp, hp']
        rfl
      · rw [hd, hd', hp, hp']
        exact congrArg some (dot_value hs hd hd')

/-- The observations agree, and no exception is raised in one semantics alone. -/
def Agree : Option (Machine Var G R) → Option (Values Var G R) → Prop
  | none, none => True
  | some s, some p => Observed s p
  | _, _ => False

omit [DecidableEq Var] [DecidableEq R] in
theorem agree_iff {o : Option (Machine Var G R)} {o' : Option (Values Var G R)}
    (h : ∀ s, o = some s → Inv s) : Agree o o' ↔ Corresponds o o' := by
  cases o with
  | none => cases o' <;> rfl
  | some s =>
    cases o' with
    | none => rfl
    | some p => exact observed_iff (h s rfl)

/-! ### Programs -/

omit [DecidableEq Var] [Field R] [DecidableEq R] in
theorem inv_start : Inv (start : Machine Var G R) := by
  constructor
  case sync => rfl
  all_goals
    intro x d h
    cases h

/-- The states after a program. -/
def after (sqrt : R → R) (program : List (Stmt Var G R)) : Option (Machine Var G R) :=
  run (step sqrt) (some start) program

def valuesAfter (sqrt : R → R) (program : List (Stmt Var G R)) : Option (Values Var G R) :=
  run (Values.step sqrt) (some fun _ => none) program

/-- What holds as long as every statement has met its condition. -/
structure InStep (o : Option (Machine Var G R)) (o' : Option (Values Var G R)) : Prop where
  inv : ∀ s, o = some s → Inv s
  corresponds : Corresponds o o'

theorem step_corresponds {o : Option (Machine Var G R)} {o' : Option (Values Var G R)}
    (h : InStep o o') (stmt : Stmt Var G R) :
    (∀ s, step sqrt o stmt = some s → Inv s) ∧
      (Corresponds (step sqrt o stmt) (Values.step sqrt o' stmt) ↔
        ∀ s, o = some s → s.Meets sqrt stmt) := by
  cases o with
  | none =>
    cases o' with
    | none =>
      refine ⟨?_, iff_of_true trivial ?_⟩
      all_goals
        intro s hs
        cases hs
    | some p => exact absurd h.corresponds id
  | some s =>
    cases o' with
    | none => exact absurd h.corresponds id
    | some p =>
      have hexact := exec_exact sqrt (h.inv s rfl) h.corresponds stmt
      refine ⟨hexact.keeps, hexact.corresponds.trans ?_⟩
      simp

/-- **Value semantics**: all along a program the observations are the intended ones
exactly when every statement meets its condition in the state it finds. -/
theorem value_semantics_iff (sqrt : R → R) (program : List (Stmt Var G R)) :
    EveryStep (fun past stmt =>
      Agree (after sqrt (past ++ [stmt])) (valuesAfter sqrt (past ++ [stmt]))) program ↔
    EveryStep (fun past stmt => ∀ s, after sqrt past = some s → s.Meets sqrt stmt) program := by
  apply everyStep_iff (J := fun past => InStep (after sqrt past) (valuesAfter sqrt past))
  · exact ⟨fun s hs => Option.some.inj hs ▸ inv_start, fun _ => rfl⟩
  · intro past stmt hJ
    obtain ⟨hinv, hcorresponds⟩ := step_corresponds sqrt hJ stmt
    simp only [after, valuesAfter, run_concat]
    exact (agree_iff hinv).trans hcorresponds
  · intro past stmt hJ hC
    obtain ⟨hinv, hcorresponds⟩ := step_corresponds sqrt hJ stmt
    simp only [after, valuesAfter, run_concat]
    exact ⟨hinv, hcorresponds.mpr hC⟩

/-- Scaling `x` into `y` changes what is read of `x`. -/
theorem scale_changes_receiver :
    ¬ EveryStep (fun past stmt =>
        Agree (after id (past ++ [stmt])) (valuesAfter id (past ++ [stmt])))
      ([.new "x", .setCoefficient "x" "P1" 2, .scale "y" "x" 3] : List (Stmt String String ℚ)) := by
  intro h
  have hstep := h [.new "x", .setCoefficient "x" "P1" 2] (.scale "y" "x" 3) [] rfl
  have hget := hstep.getCoefficient "x" "P1"
  exact absurd hget (by decide +kernel)

end Machine

end FalconStd.Control
