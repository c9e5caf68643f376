import Mathlib.Data.Rat.Cast.Defs
import Mathlib.Algebra.Order.Ring.Rat
import FalconStd.Collections.Array
import FalconStd.Foundation.Rounding

/-! The operands of the arithmetic routines (`falconCore/math/quantity`,
`falconCore/math/vector`, `falconCore/generic/farray`).

A factor, a divisor or an extension is a float or an int of the DSL, and the wrapper
picks the overload of falcon_core by its kind. The operators of falcon_core are
parameters whose two overloads agree on the value they are given (`Operator`);
arithmetic is exact, so a float is a rational. A cast of an int is not exact. -/
namespace FalconStd.FalconCore
open Foundation

/-- The operand of a routine of a class `T`. -/
inductive Operand (T : Type) where
  | float (x : ℚ)
  | int (n : Int64)
  | object (other : T)

/-- An operator of falcon_core, with an overload for `double` and one for `int`. -/
structure Operator (T : Type) where
  byDouble : T → ℚ → Except NativeFault T
  byInt : T → Int32 → Except NativeFault T
  agree : ∀ t k, byInt t k = byDouble t k.toInt

/-- `static_cast<double>`, to the nearest of 53 bits. -/
def castDouble (n : Int64) : ℚ := roundInt 53 n.toInt

/-- What `std::get` throws. -/
def badVariantAccess : NativeFault := .raised "std::bad_variant_access"

/-! ### The wrappers -/

namespace Quantity

structure Core (Q : Type) where
  times : Operator Q
  timesQuantity : Q → Q → Except NativeFault Q
  divides : Operator Q
  dividesQuantity : Q → Q → Except NativeFault Q

variable {Q : Type}

/-- `static_cast<int>` before the call of the `int` overload. -/
def apply (op : Operator Q) (opQuantity : Q → Q → Except NativeFault Q) (self : Q) :
    Operand Q → Except NativeFault Q
  | .float f => op.byDouble self f
  | .int n => op.byInt self n.toInt32
  | .object other => opQuantity self other

def times (core : Core Q) (self : Q) (factor : Operand Q) : Except NativeFault Q :=
  apply core.times core.timesQuantity self factor

def divides (core : Core Q) (self : Q) (divisor : Operand Q) : Except NativeFault Q :=
  apply core.divides core.dividesQuantity self divisor

end Quantity

namespace Vector

structure Core (V : Type) where
  times : Operator V
  divides : Operator V
  extend : Operator V
  shrink : Operator V

variable {V : Type}

/-- What is not a float is taken for an int. -/
def apply (op : Operator V) (self : V) : Operand V → Except NativeFault V
  | .float x => op.byDouble self x
  | .int n => op.byInt self n.toInt32
  | .object _ => .error badVariantAccess

def times (core : Core V) (self : V) (factor : Operand V) : Except NativeFault V :=
  apply core.times self factor

def divides (core : Core V) (self : V) (divisor : Operand V) : Except NativeFault V :=
  apply core.divides self divisor

def extend (core : Core V) (self : V) (extension : Operand V) : Except NativeFault V :=
  apply core.extend self extension

def shrink (core : Core V) (self : V) (extension : Operand V) : Except NativeFault V :=
  apply core.shrink self extension

end Vector

namespace FArray

structure Core (A : Type) where
  times : Operator A
  divides : Operator A

variable {A : Type}

/-- The operand as a `double`; `what` is its name. -/
def toDouble (what : String) : Operand A → Except NativeFault ℚ
  | .float x => .ok x
  | .int n => .ok (castDouble n)
  | .object _ => .error (.raised (what ++ " must be int or float"))

def times (core : Core A) (self : A) (factor : Operand A) : Except NativeFault A := do
  let fac ← toDouble "factor" factor
  core.times.byDouble self fac

def divides (core : Core A) (self : A) (divisor : Operand A) : Except NativeFault A := do
  let div ← toDouble "divisor" divisor
  core.divides.byDouble self div

end FArray

/-! ### The cast to `int` -/

/-- The value is one of `int`. -/
def FitsInt (n : Int64) : Prop := -2 ^ 31 ≤ n.toInt ∧ n.toInt < 2 ^ 31

instance (n : Int64) : Decidable (FitsInt n) := inferInstanceAs (Decidable (_ ∧ _))

theorem toInt32_eq_iff (n : Int64) : n.toInt32.toInt = n.toInt ↔ FitsInt n := by
  constructor
  · intro h
    have hle := Int32.le_toInt n.toInt32
    have hlt := Int32.toInt_lt n.toInt32
    rw [h] at hle hlt
    exact ⟨hle, hlt⟩
  · intro h
    rw [Int64.toInt_toInt32]
    exact Int.bmod_eq_of_le h.1 h.2

/-- The cast gives zero at the multiples of `2 ^ 32`. -/
theorem toInt32_eq_zero_iff (n : Int64) : n.toInt32.toInt = 0 ↔ (2 ^ 32 : Int) ∣ n.toInt := by
  rw [Int64.toInt_toInt32]
  exact Int.dvd_iff_bmod_eq_zero.symm

/-! ### The cast to `double` -/

/-- The value is one of `double`. -/
def FitsDouble (n : Int64) : Prop := Representable 53 n.toInt.natAbs

instance (n : Int64) : Decidable (FitsDouble n) := inferInstanceAs (Decidable (Representable _ _))

theorem castDouble_eq_iff (n : Int64) : castDouble n = n.toInt ↔ FitsDouble n := by
  rw [castDouble, Int.cast_inj]
  exact roundInt_eq_self_iff

/-- `2 ^ 53 + 1` becomes `2 ^ 53`. -/
example : castDouble 9007199254740993 = 9007199254740992 := by decide

/-! ### The two paths -/

namespace Operator

/-- The operator that answers with the value it is given. -/
def value : Operator ℚ where
  byDouble _ x := .ok x
  byInt _ k := .ok k.toInt
  agree _ _ := rfl

/-- The int path hands on another value exactly where the cast changes it. -/
theorem narrowed_agrees_iff (n : Int64) :
    (∀ (T : Type) (op : Operator T) (t : T), op.byInt t n.toInt32 = op.byDouble t n.toInt) ↔
      FitsInt n := by
  rw [← toInt32_eq_iff]
  constructor
  · intro h
    have hvalue := Except.ok.inj (h ℚ value 0)
    exact_mod_cast hvalue
  · intro h T op t
    rw [op.agree, h]

/-- Only a zero divisor makes the operator fail. -/
def DividesByNonzero {T : Type} (op : Operator T) : Prop :=
  ∀ t x, x ≠ 0 → ∃ t', op.byDouble t x = .ok t'

/-- Exact division, which fails on zero. -/
def division : Operator ℚ where
  byDouble t x := if x = 0 then .error (.raised "division by zero") else .ok (t / x)
  byInt t k := if (k.toInt : ℚ) = 0 then .error (.raised "division by zero") else .ok (t / k.toInt)
  agree _ _ := rfl

theorem division_dividesByNonzero : division.DividesByNonzero := by
  intro t x hx
  exact ⟨t / x, if_neg hx⟩

theorem narrowed_divides_iff (n : Int64) :
    (∀ (T : Type) (op : Operator T) (t : T), op.DividesByNonzero →
        ∃ t', op.byInt t n.toInt32 = .ok t') ↔ ¬ (2 ^ 32 : Int) ∣ n.toInt := by
  rw [← toInt32_eq_zero_iff]
  constructor
  · intro h hzero
    obtain ⟨t', ht'⟩ := h ℚ division 0 division_dividesByNonzero
    simp [division, hzero] at ht'
  · intro h T op t hop
    rw [op.agree]
    exact hop t _ (by exact_mod_cast h)

end Operator

/-! ### The routines -/

section Routines
variable {Core : Type → Type}

/-- The routine gives on an int what it gives on the float of that value, whatever
falcon_core computes. -/
def PathsAgree (call : ∀ T : Type, Core T → T → Operand T → Except NativeFault T) (n : Int64) :
    Prop :=
  ∀ (T : Type) (core : Core T) (self : T),
    call T core self (.int n) = call T core self (.float n.toInt)

/-- An operator that fails on zero only does not fail on the int. -/
def KeepsDivisor (call : ∀ T : Type, Core T → T → Operand T → Except NativeFault T)
    (handed : ∀ T : Type, Core T → Operator T) (n : Int64) : Prop :=
  ∀ (T : Type) (core : Core T) (self : T), (handed T core).DividesByNonzero →
    ∃ t, call T core self (.int n) = .ok t

/-- The routine hands its operand to an operator of falcon_core, an int through the cast. -/
structure Narrows (call : ∀ T : Type, Core T → T → Operand T → Except NativeFault T)
    (handed : ∀ T : Type, Core T → Operator T) : Prop where
  any : ∀ (T : Type) (op : Operator T), ∃ core, handed T core = op
  float : ∀ T core self x, call T core self (.float x) = (handed T core).byDouble self x
  int : ∀ T core self n, call T core self (.int n) = (handed T core).byInt self n.toInt32

variable {call : ∀ T : Type, Core T → T → Operand T → Except NativeFault T}
  {handed : ∀ T : Type, Core T → Operator T}

theorem Narrows.pathsAgree_iff (hcall : Narrows call handed) (n : Int64) :
    PathsAgree call n ↔ FitsInt n := by
  rw [← Operator.narrowed_agrees_iff]
  constructor
  · intro h T op t
    obtain ⟨core, rfl⟩ := hcall.any T op
    rw [← hcall.int, ← hcall.float]
    exact h T core t
  · intro h T core self
    rw [hcall.int, hcall.float]
    exact h T (handed T core) self

theorem Narrows.keepsDivisor_iff (hcall : Narrows call handed) (n : Int64) :
    KeepsDivisor call handed n ↔ ¬ (2 ^ 32 : Int) ∣ n.toInt := by
  rw [← Operator.narrowed_divides_iff]
  constructor
  · intro h T op t hop
    obtain ⟨core, rfl⟩ := hcall.any T op
    rw [← hcall.int]
    exact h T core t hop
  · intro h T core self hop
    rw [hcall.int]
    exact h T (handed T core) self hop

end Routines

theorem Quantity.times_narrows :
    Narrows (fun Q => Quantity.times (Q := Q)) (fun _ core => core.times) :=
  ⟨fun _ op => ⟨⟨op, fun q _ => .ok q, op, fun q _ => .ok q⟩, rfl⟩, fun _ _ _ _ => rfl,
    fun _ _ _ _ => rfl⟩

theorem Quantity.divides_narrows :
    Narrows (fun Q => Quantity.divides (Q := Q)) (fun _ core => core.divides) :=
  ⟨fun _ op => ⟨⟨op, fun q _ => .ok q, op, fun q _ => .ok q⟩, rfl⟩, fun _ _ _ _ => rfl,
    fun _ _ _ _ => rfl⟩

theorem Vector.times_narrows :
    Narrows (fun V => Vector.times (V := V)) (fun _ core => core.times) :=
  ⟨fun _ op => ⟨⟨op, op, op, op⟩, rfl⟩, fun _ _ _ _ => rfl, fun _ _ _ _ => rfl⟩

theorem Vector.divides_narrows :
    Narrows (fun V => Vector.divides (V := V)) (fun _ core => core.divides) :=
  ⟨fun _ op => ⟨⟨op, op, op, op⟩, rfl⟩, fun _ _ _ _ => rfl, fun _ _ _ _ => rfl⟩

theorem Vector.extend_narrows :
    Narrows (fun V => Vector.extend (V := V)) (fun _ core => core.extend) :=
  ⟨fun _ op => ⟨⟨op, op, op, op⟩, rfl⟩, fun _ _ _ _ => rfl, fun _ _ _ _ => rfl⟩

theorem Vector.shrink_narrows :
    Narrows (fun V => Vector.shrink (V := V)) (fun _ core => core.shrink) :=
  ⟨fun _ op => ⟨⟨op, op, op, op⟩, rfl⟩, fun _ _ _ _ => rfl, fun _ _ _ _ => rfl⟩

/-- What an int operand owes to every routine. -/
structure OperandsAgree (n : Int64) : Prop where
  quantity_times : PathsAgree (fun Q => Quantity.times (Q := Q)) n
  quantity_divides : n ≠ 0 → PathsAgree (fun Q => Quantity.divides (Q := Q)) n
  vector_times : PathsAgree (fun V => Vector.times (V := V)) n
  vector_divides : n ≠ 0 → PathsAgree (fun V => Vector.divides (V := V)) n
  vector_extend : PathsAgree (fun V => Vector.extend (V := V)) n
  vector_shrink : PathsAgree (fun V => Vector.shrink (V := V)) n
  quantity_divisor : n ≠ 0 →
    KeepsDivisor (fun Q => Quantity.divides (Q := Q)) (fun _ core => core.divides) n
  vector_divisor : n ≠ 0 →
    KeepsDivisor (fun V => Vector.divides (V := V)) (fun _ core => core.divides) n

/-- A nonzero value of `int` is no multiple of `2 ^ 32`. -/
theorem FitsInt.not_dvd {n : Int64} (hfits : FitsInt n) (hn : n ≠ 0) :
    ¬ (2 ^ 32 : Int) ∣ n.toInt := by
  obtain ⟨hle, hlt⟩ := hfits
  have hzero : n.toInt ≠ 0 := fun h => hn (Int64.toInt_inj.mp h)
  omega

/-- **The int path of the routines agrees with the float path exactly on the values of
`int`**, where a nonzero divisor also stays one. -/
theorem operands_agree_iff (n : Int64) : OperandsAgree n ↔ FitsInt n := by
  constructor
  · intro h
    exact (Quantity.times_narrows.pathsAgree_iff n).mp h.quantity_times
  · intro h
    exact
      { quantity_times := (Quantity.times_narrows.pathsAgree_iff n).mpr h
        quantity_divides := fun _ => (Quantity.divides_narrows.pathsAgree_iff n).mpr h
        vector_times := (Vector.times_narrows.pathsAgree_iff n).mpr h
        vector_divides := fun _ => (Vector.divides_narrows.pathsAgree_iff n).mpr h
        vector_extend := (Vector.extend_narrows.pathsAgree_iff n).mpr h
        vector_shrink := (Vector.shrink_narrows.pathsAgree_iff n).mpr h
        quantity_divisor := fun hn =>
          (Quantity.divides_narrows.keepsDivisor_iff n).mpr (h.not_dvd hn)
        vector_divisor := fun hn => (Vector.divides_narrows.keepsDivisor_iff n).mpr (h.not_dvd hn) }

/-- A divisor of `2 ^ 32` divides by zero. -/
theorem not_operandsAgree_wrapped : ¬ OperandsAgree 4294967296 := by
  intro h
  have hdivides := (Quantity.divides_narrows.keepsDivisor_iff _).mp (h.quantity_divisor (by decide))
  exact hdivides (by decide)

end FalconStd.FalconCore
