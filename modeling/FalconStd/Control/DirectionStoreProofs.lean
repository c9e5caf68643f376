import FalconStd.Foundation.Run
import FalconStd.Control.DirectionStore

/-! When programs over `Direction` variables have the intended value semantics.

A routine that writes in place agrees with the semantics when it leaves the
contents it writes as they were, or when no variable but the target shares the
arrays (`represents_inPlace`). Here are what each statement does and the condition
under which that is right (`Meets`); `ValueSemantics` follows it along a run. -/
namespace FalconStd.Control
open Collections Foundation

/-! ### Reading and writing through a direction -/

namespace Store

variable {G R : Type}

/-- Writing through one changes what is read through the other. -/
def Shares (d d' : DirectionRef) : Prop := d.keys_ = d'.keys_ ∨ d.values_ = d'.values_

@[simp] theorem read_write_same (σ : Store G R) (d : DirectionRef) (c : Direction G R) :
    (σ.write d c).read d = c := by
  simp [read, write]

theorem read_write_of_not_shares (σ : Store G R) {d d' : DirectionRef} (c : Direction G R)
    (h : ¬ Shares d' d) : (σ.write d c).read d' = σ.read d' := by
  have hk : d'.keys_ ≠ d.keys_ := fun he => h (.inl he)
  have hv : d'.values_ ≠ d.values_ := fun he => h (.inr he)
  simp [read, write, Heap.write_cell_ne _ _ hk, Heap.write_cell_ne _ _ hv]

@[simp] theorem write_read (σ : Store G R) (d : DirectionRef) : σ.write d (σ.read d) = σ := by
  simp [read, write]

@[simp] theorem write_write (σ : Store G R) (d : DirectionRef) (c c' : Direction G R) :
    (σ.write d c).write d c' = σ.write d c' := by
  simp [write]

/-! ### The loop of `Add` and `Subtract` -/

variable [DecidableEq G]

/-- After `n` passes, if the entry read by each pass is the one `other` had at the
start, the arrays hold the merge of `other`'s first `n` entries. -/
theorem combineAt_range (hit : R → R → R) (miss : R → R) {σ : Store G R} {d d' : DirectionRef}
    {l l' : List (G × R)} (hl : σ.read d = Direction.ofEntries l)
    (hpass : ∀ n, n < l'.length →
      ((σ.write d (Direction.ofEntries (Assoc.merge hit miss l (l'.take n)))).read d').dir_.entries[n]? =
        l'[n]?) (n : Nat) (hn : n ≤ l'.length) :
    (List.range n).foldl (combineAt hit miss d d') σ =
      σ.write d (Direction.ofEntries (Assoc.merge hit miss l (l'.take n))) := by
  induction n with
  | zero =>
    show σ = σ.write d (Direction.ofEntries l)
    rw [← hl, write_read]
  | succ n ih =>
    have hlt : n < l'.length := hn
    rw [List.range_succ, List.foldl_append, ih (Nat.le_of_lt hlt), List.foldl_cons, List.foldl_nil,
      combineAt, hpass n hlt, List.getElem?_eq_getElem hlt]
    simp only [read_write_same, write_write]
    rw [Direction.ofEntries, Direction.combineEntry_ofEntries, List.take_succ_eq_append_getElem hlt]
    simp only [Assoc.merge, List.foldl_append, List.foldl_cons, List.foldl_nil, Direction.ofEntries]

/-- The loop computes what `Direction.combine` does of the contents before it,
both when the operands share no array and when they share both. -/
theorem combine_eq (hit : R → R → R) (miss : R → R) {σ : Store G R} {d d' : DirectionRef}
    (hd : (σ.read d).WellFormed) (hd' : (σ.read d').WellFormed) (h : d = d' ∨ ¬ Shares d' d) :
    σ.combine hit miss d d' =
      (d, σ.write d (Direction.combine hit miss (σ.read d) (σ.read d'))) := by
  obtain ⟨l, hl, hdistinct⟩ := Direction.exists_entries hd
  obtain ⟨l', hl', _⟩ := Direction.exists_entries hd'
  have hpass : ∀ n, n < l'.length →
      ((σ.write d (Direction.ofEntries (Assoc.merge hit miss l (l'.take n)))).read d').dir_.entries[n]? =
        l'[n]? := by
    intro n hn
    rcases h with rfl | hapart
    · obtain rfl : l = l' := by
        have := congrArg (fun c : Direction G R => c.dir_.entries) (hl.symm.trans hl')
        simpa using this
      rw [read_write_same, Direction.entries_ofEntries, Assoc.merge_take_self _ _ hdistinct]
      have hlen : ((l.take n).map fun e => (e.1, hit e.2 e.2)).length = n := by
        simp [Nat.le_of_lt hn]
      rw [List.getElem?_append_right (Nat.le_of_eq hlen), hlen, Nat.sub_self,
        List.getElem?_drop, Nat.add_zero]
    · rw [read_write_of_not_shares _ _ hapart, hl', Direction.entries_ofEntries]
  have hloop := combineAt_range hit miss hl hpass l'.length (Nat.le_refl _)
  rw [combine, hl', Direction.entries_ofEntries, hl, Direction.combine_ofEntries]
  rw [List.take_length] at hloop
  exact congrArg (Prod.mk d) hloop

end Store

namespace Machine

variable {Var G R : Type}

/-! ### What every state satisfies -/

section States
variable [DecidableEq G] [Zero R]

/-- Arrays are handed out in pairs, and hold aligned contents with distinct gates. -/
structure Inv (s : Machine Var G R) : Prop where
  sync : s.store.gates.next = s.store.coefficients.next
  paired : ∀ x d, s.env x = some d → d.keys_ = d.values_
  allocated : ∀ x d, s.env x = some d → d.keys_ < s.store.gates.next
  wellFormed : ∀ x d, s.env x = some d → (s.store.read d).WellFormed

/-- The variables hold the given values. -/
def Represents (s : Machine Var G R) (p : Values Var G R) : Prop :=
  ∀ x, (s.env x).map (fun d => (s.store.read d).meaning) = p x

variable {s : Machine Var G R} {p : Values Var G R}

omit [Zero R] in
/-- In a state of paired arrays, sharing one array is sharing both. -/
theorem Inv.eq_or_apart (hs : Inv s) {x y : Var} {d d' : DirectionRef} (hd : s.env x = some d)
    (hd' : s.env y = some d') : d = d' ∨ ¬ Store.Shares d' d := by
  have hp := hs.paired x d hd
  have hp' := hs.paired y d' hd'
  by_cases h : d = d'
  · exact .inl h
  · right
    intro h
    rcases h with hk | hv
    · apply h
      cases d
      cases d'
      simp_all
    · apply h
      cases d
      cases d'
      simp_all

section Update
variable [DecidableEq Var]

/-- A statement that writes the arrays of `d` in place and assigns `d` to `x`. -/
def inPlace (s : Machine Var G R) (x : Var) (d : DirectionRef) (c : Direction G R) :
    Machine Var G R := s.assign x (some d) (s.store.write d c)

omit [DecidableEq G] [Zero R] in
theorem inPlace_env_self {x : Var} {d : DirectionRef} (hd : s.env x = some d)
    (c : Direction G R) : s.inPlace x d c = { s with store := s.store.write d c } := by
  rw [inPlace, assign, ← hd, Function.update_eq_self]

omit [Zero R] in
theorem inv_inPlace (hs : Inv s) {x y : Var} {d : DirectionRef} (hd : s.env y = some d)
    {c : Direction G R} (hc : c.WellFormed) : Inv (s.inPlace x d c) := by
  have hbefore : ∀ z d', (s.inPlace x d c).env z = some d' → ∃ w, s.env w = some d' := by
    intro z d' hz
    by_cases hzx : z = x
    · subst hzx
      obtain rfl : d = d' := by simpa [inPlace, assign] using hz
      exact ⟨y, hd⟩
    · exact ⟨z, by simpa [inPlace, assign, hzx] using hz⟩
  constructor
  case sync => exact hs.sync
  case paired =>
    intro z d' hz
    obtain ⟨w, hw⟩ := hbefore z d' hz
    exact hs.paired w d' hw
  case allocated =>
    intro z d' hz
    obtain ⟨w, hw⟩ := hbefore z d' hz
    exact hs.allocated w d' hw
  case wellFormed =>
    intro z d' hz
    obtain ⟨w, hw⟩ := hbefore z d' hz
    show ((s.store.write d c).read d').WellFormed
    rcases hs.eq_or_apart hd hw with rfl | hapart
    · rw [Store.read_write_same]
      exact hc
    · rw [Store.read_write_of_not_shares _ _ hapart]
      exact hs.wellFormed w d' hw

/-- No variable but `x` holds an array of `d`. -/
def Unshared (s : Machine Var G R) (x : Var) (d : DirectionRef) : Prop :=
  ∀ z d', z ≠ x → s.env z = some d' → ¬ Store.Shares d' d

/-- **Writing in place** realizes an assignment exactly when the contents stay as
they were or no other variable shares the arrays. -/
theorem represents_inPlace (hs : Inv s) (hr : Represents s p) {x y : Var}
    {d : DirectionRef} (hd : s.env y = some d) (c : Direction G R) :
    Represents (s.inPlace x d c) (Function.update p x (some c.meaning)) ↔
      c.meaning = (s.store.read d).meaning ∨ Unshared s x d := by
  refine ⟨fun h => ?_, fun h z => ?_⟩
  · by_cases hsame : c.meaning = (s.store.read d).meaning
    · exact .inl hsame
    · refine .inr fun z d' hzx hz hshares => hsame ?_
      rcases hs.eq_or_apart hd hz with rfl | hapart
      · have hz' := h z
        have hrz := hr z
        simp only [inPlace, assign, Function.update_of_ne hzx, hz, Option.map_some,
          Store.read_write_same] at hz' hrz
        exact Option.some.inj (hz'.trans hrz.symm)
      · exact absurd hshares hapart
  · by_cases hzx : z = x
    · subst hzx
      simp [inPlace, assign]
    · have hrz := hr z
      simp only [inPlace, assign, Function.update_of_ne hzx]
      rw [← hrz]
      cases hz : s.env z with
      | none => rfl
      | some d' =>
        rcases hs.eq_or_apart hd hz with rfl | hapart
        · rcases h with hsame | hunshared
          · simp [hsame]
          · exact absurd (.inl rfl) (hunshared z d hzx hz)
        · simp [Store.read_write_of_not_shares _ _ hapart]

end Update

end States

/-! ### The condition of a statement -/

variable [DecidableEq Var] [DecidableEq G] [Field R] [DecidableEq R] (sqrt : R → R)

/-- What the arrays of a direction hold. -/
def value (s : Machine Var G R) (d : DirectionRef) : FiniteMap G R := (s.store.read d).meaning

/-- The factor of the projection of `d` on `d'`. -/
def factor (s : Machine Var G R) (d d' : DirectionRef) : R :=
  (s.value d).dot (s.value d') / (s.value d').dot (s.value d')

/-- The condition under which a statement does what the semantics says: the write
changes nothing, or nobody but the target sees it. -/
def Meets (s : Machine Var G R) : Stmt Var G R → Prop
  | .new _ => True
  | .setCoefficient x gate coefficient => ∀ d, s.env x = some d →
    (s.value d).get? gate = some coefficient ∨ Unshared s x d
  | .removeGate x gate => ∀ d, s.env x = some d → gate ∉ (s.value d).dom ∨ Unshared s x d
  | .scale x y factor => ∀ d, s.env y = some d →
    (factor = 1 ∨ (s.value d).IsZero) ∨ Unshared s x d
  | .add x y z => ∀ d d', s.env y = some d → s.env z = some d' →
    ((s.value d').dom ⊆ (s.value d).dom ∧ (s.value d').IsZero) ∨ Unshared s x d
  | .subtract x y z => ∀ d d', s.env y = some d → s.env z = some d' →
    ((s.value d').dom ⊆ (s.value d).dom ∧ (s.value d').IsZero) ∨ Unshared s x d
  | .normalize x => ∀ d, s.env x = some d →
    (sqrt ((s.value d).dot (s.value d)) = 0 ∨ sqrt ((s.value d).dot (s.value d)) = 1 ∨
      (s.value d).IsZero) ∨ Unshared s x d
  -- `Project` writes into its argument, and returns nothing for one of length zero.
  | .project x y z => ∀ d d', s.env y = some d → s.env z = some d' →
    (s.value d').dot (s.value d') ≠ 0 ∧
      ((s.value d).dot (s.value d') = (s.value d').dot (s.value d') ∨ Unshared s x d')
  -- The projection is scaled for good: its factor has to be one.
  | .orthogonalize x y => ∀ d d', s.env x = some d → s.env y = some d' →
    (s.value d').dot (s.value d') ≠ 0 ∧
      (s.value d).dot (s.value d') = (s.value d').dot (s.value d') ∧ Unshared s x d

/-! ### The statements, one by one -/

variable {s : Machine Var G R} {p : Values Var G R}

theorem exec_setCoefficient (hs : Inv s) {x : Var} {d : DirectionRef} (hd : s.env x = some d)
    (gate : G) (coefficient : R) :
    ∃ c : Direction G R, s.exec sqrt (.setCoefficient x gate coefficient) = some (s.inPlace x d c) ∧
      c.WellFormed ∧ c.meaning = (s.value d).set gate coefficient := by
  obtain ⟨c, hset, hc, hmeaning⟩ :=
    Direction.setCoefficient_spec (hs.wellFormed x d hd) gate coefficient
  refine ⟨c, ?_, hc, hmeaning⟩
  rw [inPlace_env_self hd]
  simp only [exec, hd, Option.bind_eq_bind, Option.bind_some, Store.setCoefficient, hset]
  rfl

theorem exec_removeGate (hs : Inv s) {x : Var} {d : DirectionRef} (hd : s.env x = some d)
    (gate : G) :
    ∃ c : Direction G R, s.exec sqrt (.removeGate x gate) = some (s.inPlace x d c) ∧
      c.WellFormed ∧ c.meaning = (s.value d).remove gate := by
  obtain ⟨c, hremove, hc, hmeaning⟩ := Direction.removeGate_spec (hs.wellFormed x d hd) gate
  refine ⟨c, ?_, hc, hmeaning⟩
  rw [inPlace_env_self hd]
  simp only [exec, hd, Option.bind_eq_bind, Option.bind_some, Store.removeGate, hremove]
  rfl

theorem exec_scale {y : Var} {d : DirectionRef} (hd : s.env y = some d) (x : Var) (factor : R) :
    s.exec sqrt (.scale x y factor) = some (s.inPlace x d ((s.store.read d).scale factor)) := by
  simp only [exec, hd, Store.scale, Store.cloneStruct]
  rfl

omit [Field R] [DecidableEq R] in
/-- The loop of `Add` and `Subtract` writes into the arrays of the receiver. -/
theorem combine_inPlace [Zero R] (hs : Inv s) {y z : Var} {d d' : DirectionRef}
    (hd : s.env y = some d) (hd' : s.env z = some d') (hit : R → R → R) (miss : R → R) (x : Var) :
    s.assign x (some (s.store.combine hit miss d d').1) (s.store.combine hit miss d d').2 =
      s.inPlace x d (Direction.combine hit miss (s.store.read d) (s.store.read d')) := by
  rw [Store.combine_eq hit miss (hs.wellFormed y d hd) (hs.wellFormed z d' hd')
    (hs.eq_or_apart hd hd')]
  rfl

theorem exec_normalize {x : Var} {d : DirectionRef} (hd : s.env x = some d) :
    s.exec sqrt (.normalize x) = some (s.inPlace x d ((s.store.read d).normalize sqrt)) := by
  rw [inPlace_env_self hd]
  simp only [exec, hd, Store.normalize]
  rfl

omit [DecidableEq Var] [DecidableEq R] in
theorem dot_value (hs : Inv s) {y z : Var} {d d' : DirectionRef} (hd : s.env y = some d)
    (hd' : s.env z = some d') : s.store.dot d d' = (s.value d).dot (s.value d') :=
  Direction.dot_meaning (hs.wellFormed y d hd) (hs.wellFormed z d' hd')

theorem exec_project (hs : Inv s) {y z : Var} {d d' : DirectionRef} (hd : s.env y = some d)
    (hd' : s.env z = some d') (x : Var) :
    s.exec sqrt (.project x y z) =
      if (s.value d').dot (s.value d') ≠ 0
      then some (s.inPlace x d' ((s.store.read d').scale (s.factor d d')))
      else some (s.assign x none s.store) := by
  have hfactor : s.store.dot d d' / s.store.dot d' d' = s.factor d d' := by
    rw [dot_value hs hd hd', dot_value hs hd' hd', factor]
  simp only [exec, hd, hd', Option.bind_eq_bind, Option.bind_some, Store.project,
    dot_value hs hd' hd'] at hfactor ⊢
  by_cases h : (s.value d').dot (s.value d') = 0
  · simp [h]
  · rw [if_pos h, if_pos h, hfactor]
    rfl

/-- The state in which `other` has been scaled to the projection. -/
theorem exec_orthogonalize (hs : Inv s) {x y : Var} {d d' : DirectionRef} (hd : s.env x = some d)
    (hd' : s.env y = some d') :
    s.exec sqrt (.orthogonalize x y) =
      if (s.value d').dot (s.value d') ≠ 0
      then (s.inPlace y d' ((s.store.read d').scale (s.factor d d'))).exec sqrt (.subtract x x y)
      else none := by
  have hfactor : s.store.dot d d' / s.store.dot d' d' = s.factor d d' := by
    rw [dot_value hs hd hd', dot_value hs hd' hd', factor]
  simp only [exec, hd, hd', Option.bind_eq_bind, Option.bind_some, Store.orthogonalize,
    Store.project, dot_value hs hd' hd'] at hfactor ⊢
  by_cases h : (s.value d').dot (s.value d') = 0
  · simp [h, Except.toOption]
  · rw [inPlace_env_self hd', if_pos h, if_pos h, hfactor, hd, hd']
    rfl

end Machine

end FalconStd.Control
