import FalconStd.Foundation.Returns
import FalconStd.FalconCore.ArrayArithmetic

/-! Expressions over the arrays of falcon_core.

An expression of the DSL nests the routines of the nine wrappers, and each array operand
goes through a struct. `eval` is what the wrappers compute, `meaning` what the operators
of falcon_core give on the operands as they are: an array of the class itself, one that
the class wraps, or else the `FArray` that every array is, and a number as a number. -/
namespace FalconStd.FalconCore.ArrayArithmetic
open Collections

/-- `Add`, or `Minus`, which is `Subtract` of an `FArray`. -/
inductive Sign where
  | plus
  | minus
  deriving DecidableEq

inductive Scaling where
  | times
  | divides

/-- What a wrapper makes of an int before it hands it on. -/
inductive Cast where
  | toInt
  | toDouble

/-- A number of the DSL. -/
inductive Number where
  | float (x : ℚ)
  | int (n : Int64)

namespace Number

def value : Number → ℚ
  | .float x => x
  | .int n => n.toInt

def toOperand (T : Type) : Number → Operand T
  | .float x => .float x
  | .int n => .int n

def toRuntime (core : Core) : Number → RuntimeValue core
  | .float x => .float x
  | .int n => .int n

/-- The number that is handed on. -/
def castBy : Cast → Number → Number
  | .toInt, .int n => .int n.toInt32.toInt64
  | .toDouble, .int n => .float (castDouble n)
  | _, .float x => .float x

def Fits : Cast → Number → Prop
  | .toInt, .int n => FitsInt n
  | .toDouble, .int n => FitsDouble n
  | _, .float _ => True

/-- An exponent that `FArray` reads. -/
def IsInt (x : Number) : Prop := ∃ n, x = .int n

@[simp] theorem value_castBy_toInt (n : Int64) :
    (castBy .toInt (.int n)).value = n.toInt32.toInt := by
  rw [castBy, value, Int32.toInt_toInt64]

theorem value_castBy_iff (cast : Cast) (x : Number) :
    (x.castBy cast).value = x.value ↔ x.Fits cast := by
  cases x with
  | float x => cases cast <;> exact iff_of_true rfl trivial
  | int n =>
    cases cast with
    | toInt =>
      rw [value_castBy_toInt, value, Fits, ← toInt32_eq_iff]
      exact Int.cast_inj
    | toDouble => exact castDouble_eq_iff n

end Number

/-- An expression whose value is an array of the class. The operand of an `FArray` is an
`FArray` or a number, and the routines of `math/arrays` are not those of an `FArray`. -/
inductive Expr : ArrayClass → Type where
  | var (c : ArrayClass) (x : Nat) : Expr c
  | new (c : ArrayClass) (arr : Expr .fArray) (hc : c ≠ .fArray) : Expr c
  | additive {c d : ArrayClass} (sign : Sign) (self : Expr c) (other : Expr d)
      (hd : c = .fArray → d = .fArray) : Expr c
  | shift {c : ArrayClass} (sign : Sign) (self : Expr c) (other : Number) : Expr c
  | scale {c : ArrayClass} (scaling : Scaling) (self : Expr c) (factor : Number) : Expr c
  | power {c : ArrayClass} (self : Expr c) (exponent : Number) : Expr c
  | negate {c : ArrayClass} (self : Expr c) : Expr c
  | abs {c : ArrayClass} (self : Expr c) : Expr c
  | reshape {c : ArrayClass} (self : Expr c) (shape : List Int64) (hc : c ≠ .fArray) : Expr c
  | flip {c : ArrayClass} (self : Expr c) (axis : Int64) (hc : c ≠ .fArray) : Expr c
  | gradient {c : ArrayClass} (self : Expr c) (axis : Int64) (hc : c ≠ .fArray) : Expr .fArray

/-- The env, by their class. -/
abbrev Env (core : Core) := ∀ c, Nat → core.Obj c

/-! ### What the wrappers compute -/

section Calls
variable (core : Core)

/-- What `get_opaque<FArray>` makes of the operand of an `FArray`. No other struct than
one of an `FArray` gets there from an expression. -/
def nativeFArray : RuntimeValue core → Operand (Option (core.Obj .fArray))
  | .float x => .float x
  | .int n => .int n
  | .struct (some ⟨_, some ⟨.fArray, object⟩⟩) => .object (some object)
  | _ => .object none

/-- The wrapper that is called for an object of the class. -/
def callAdditive : Sign → (c : ArrayClass) → core.Obj c → RuntimeValue core →
    Except NativeFault (core.Obj c)
  | .plus, .fArray => fun self other => FArray.add core self (nativeFArray core other)
  | .minus, .fArray => fun self other => FArray.subtract core self (nativeFArray core other)
  | .plus, .controlArray => ControlArray.add core
  | .minus, .controlArray => ControlArray.minus core
  | .plus, .controlArray1D => ControlArray1D.add core
  | .minus, .controlArray1D => ControlArray1D.minus core
  | .plus, .labelledControlArray => LabelledControlArray.add core
  | .minus, .labelledControlArray => LabelledControlArray.minus core
  | .plus, .labelledControlArray1D => LabelledControlArray1D.add core
  | .minus, .labelledControlArray1D => LabelledControlArray1D.minus core
  | .plus, .measuredArray => MeasuredArray.add core
  | .minus, .measuredArray => MeasuredArray.minus core
  | .plus, .measuredArray1D => MeasuredArray1D.add core
  | .minus, .measuredArray1D => MeasuredArray1D.minus core
  | .plus, .labelledMeasuredArray => LabelledMeasuredArray.add core
  | .minus, .labelledMeasuredArray => LabelledMeasuredArray.minus core
  | .plus, .labelledMeasuredArray1D => LabelledMeasuredArray1D.add core
  | .minus, .labelledMeasuredArray1D => LabelledMeasuredArray1D.minus core

def callScale (scaling : Scaling) (c : ArrayClass) (self : core.Obj c) (factor : Number) :
    Except NativeFault (core.Obj c) :=
  match scaling, c with
  | .times, .fArray =>
    FalconCore.FArray.times ⟨core.times _, core.divides _⟩ self (factor.toOperand _)
  | .divides, .fArray =>
    FalconCore.FArray.divides ⟨core.times _, core.divides _⟩ self (factor.toOperand _)
  | .times, _ => times self (factor.toRuntime core)
  | .divides, _ => divides self (factor.toRuntime core)

def callPower : (c : ArrayClass) → core.Obj c → Number → Except NativeFault (core.Obj c)
  | .fArray, self, exponent => FArray.power core self (exponent.toRuntime core)
  | _, self, exponent => power self (exponent.toRuntime core)

def Expr.eval (env : Env core) :
    {c : ArrayClass} → Expr c → Except NativeFault (core.Obj c)
  | _, .var c x => .ok (env c x)
  | _, .new c arr _ => do
    let fa ← arr.eval env
    core.make c fa
  | c, .additive (d := d) sign self other _ => do
    let object ← self.eval env
    let operand ← other.eval env
    callAdditive core sign c object (.struct (some (pack d operand)))
  | c, .shift sign self other => do
    let object ← self.eval env
    callAdditive core sign c object (other.toRuntime core)
  | c, .scale scaling self factor => do
    let object ← self.eval env
    callScale core scaling c object factor
  | c, .power self exponent => do
    let object ← self.eval env
    callPower core c object exponent
  | c, .negate self => do
    let object ← self.eval env
    core.negate c object
  | c, .abs self => do
    let object ← self.eval env
    core.abs c object
  | _, .reshape self shape _ => do
    let object ← self.eval env
    ArrayArithmetic.reshape object (shape.map .int)
  | _, .flip self axis _ => do
    let object ← self.eval env
    ArrayArithmetic.flip object (.int axis)
  | _, .gradient self axis _ => do
    let object ← self.eval env
    ArrayArithmetic.gradient object (.int axis)

end Calls

/-! ### What an expression means -/

section Meaning
variable (core : Core)

def Core.overloads (sign : Sign) (c : ArrayClass) : Overloads (core.Obj c) (core.Obj .fArray) :=
  match sign with
  | .plus => core.plus c
  | .minus => core.minus c

def Core.scaling (scaling : Scaling) (c : ArrayClass) : Operator (core.Obj c) :=
  match scaling with
  | .times => core.times c
  | .divides => core.divides c

/-- `+` or `-` of two arrays. -/
def Core.combine (sign : Sign) : (c d : ArrayClass) → core.Obj c → core.Obj d →
    Except NativeFault (core.Obj c)
  | c, .fArray, self, other => (core.overloads sign c).byFArray self other
  | .controlArray1D, .controlArray, self, other => do
    let other_1d ← core.controlArray1D other
    (core.overloads sign _).same self other_1d
  | .measuredArray1D, .measuredArray, self, other => do
    let other_1d ← core.measuredArray1D other
    (core.overloads sign _).same self other_1d
  | c, d, self, other =>
    if h : d = c then (core.overloads sign c).same self (h ▸ other)
    else (core.overloads sign c).byFArray self (core.base d other)

def Expr.meaning (env : Env core) :
    {c : ArrayClass} → Expr c → Except NativeFault (core.Obj c)
  | _, .var c x => .ok (env c x)
  | _, .new c arr _ => do
    let fa ← arr.meaning env
    core.make c fa
  | c, .additive (d := d) sign self other _ => do
    let object ← self.meaning env
    let operand ← other.meaning env
    core.combine sign c d object operand
  | c, .shift sign self other => do
    let object ← self.meaning env
    (core.overloads sign c).number.byDouble object other.value
  | c, .scale scaling self factor => do
    let object ← self.meaning env
    (core.scaling scaling c).byDouble object factor.value
  | c, .power self exponent => do
    let object ← self.meaning env
    (core.power c).byDouble object exponent.value
  | c, .negate self => do
    let object ← self.meaning env
    core.negate c object
  | c, .abs self => do
    let object ← self.meaning env
    core.abs c object
  | c, .reshape self shape _ => do
    let object ← self.meaning env
    core.reshape c object (shape.map Int64.toUInt64)
  | c, .flip self axis _ => do
    let object ← self.meaning env
    core.flip c object axis.toUInt64
  | _, .gradient (c := c) self axis _ => do
    let object ← self.meaning env
    core.gradient c object axis.toUInt64

end Meaning

/-! ### Where the two agree -/

/-- The operand is read as an object of its class: an `FArray`, the own class, except where
`Add` of a one-dimensional one takes it for the class that it wraps (`Minus` of
`MeasuredArray1D` too), the class that is wrapped, and the base of a measured one. -/
def ReadAsIs (sign : Sign) (c d : ArrayClass) : Prop :=
  d = .fArray ∨
  (d = c ∧ ¬ (c = .controlArray1D ∧ sign = .plus) ∧ c ≠ .measuredArray1D) ∨
  (c = .controlArray1D ∧ sign = .plus ∧ d = .controlArray) ∨
  (d = .measuredArray ∧
    (c = .measuredArray1D ∨ c = .labelledMeasuredArray ∨ c = .labelledMeasuredArray1D))

instance (sign : Sign) (c d : ArrayClass) : Decidable (ReadAsIs sign c d) :=
  inferInstanceAs (Decidable (_ ∨ _ ∨ _ ∨ _))

/-- The struct operands that the `.fal` files declare. -/
def Declared : Sign → ArrayClass → ArrayClass → Prop
  | _, _, .fArray => True
  | _, .controlArray, d => d = .controlArray
  | .plus, .controlArray1D, d => d = .controlArray
  | .minus, .controlArray1D, d => d = .controlArray1D
  | .plus, .labelledControlArray, d => d = .controlArray
  | .minus, .labelledControlArray, d => d = .labelledControlArray
  | .plus, .labelledControlArray1D, d => d = .controlArray
  | .minus, .labelledControlArray1D, d => d = .labelledControlArray1D
  | _, .measuredArray, d => d = .measuredArray
  | _, .measuredArray1D, d => d = .measuredArray
  | _, .labelledMeasuredArray, d => d = .measuredArray
  | _, .labelledMeasuredArray1D, d => d = .measuredArray
  | _, .fArray, _ => False

/-- A `ControlArray` is added to a labelled one. -/
def AddsControlArray (sign : Sign) (c d : ArrayClass) : Prop :=
  sign = .plus ∧ d = .controlArray ∧ (c = .labelledControlArray ∨ c = .labelledControlArray1D)

instance (sign : Sign) (c d : ArrayClass) : Decidable (AddsControlArray sign c d) :=
  inferInstanceAs (Decidable (_ ∧ _ ∧ _))

/-- Of what is declared only that is misread. -/
theorem readAsIs_of_declared_iff (sign : Sign) (c d : ArrayClass) (h : Declared sign c d) :
    ReadAsIs sign c d ↔ ¬ AddsControlArray sign c d := by
  cases sign <;> cases c <;> cases d <;> first | decide | cases h

/-- The array operands of the sums satisfy `operand`, and the exponents of `FArray`s
`exponent`. -/
def Expr.Each (operand : Sign → ArrayClass → ArrayClass → Prop) (exponent : Number → Prop) :
    {c : ArrayClass} → Expr c → Prop
  | _, .var _ _ => True
  | _, .new _ arr _ => arr.Each operand exponent
  | c, .additive (d := d) sign self other _ =>
    self.Each operand exponent ∧ other.Each operand exponent ∧ operand sign c d
  | _, .shift _ self _ => self.Each operand exponent
  | _, .scale _ self _ => self.Each operand exponent
  | c, .power self x => self.Each operand exponent ∧ (c = .fArray → exponent x)
  | _, .negate self => self.Each operand exponent
  | _, .abs self => self.Each operand exponent
  | _, .reshape self _ _ => self.Each operand exponent
  | _, .flip self _ _ => self.Each operand exponent
  | _, .gradient self _ _ => self.Each operand exponent

/-- Every array operand is read as what it is, and the exponents of `FArray`s are ints. -/
abbrev Expr.Read {c : ArrayClass} (e : Expr c) : Prop := e.Each ReadAsIs Number.IsInt

/-- Every array operand is one that the `.fal` files declare. -/
abbrev Expr.Declared {c : ArrayClass} (e : Expr c) : Prop :=
  e.Each ArrayArithmetic.Declared fun _ => True

/-- No `ControlArray` is added to a labelled one, and the exponents of `FArray`s are ints. -/
abbrev Expr.Unmixed {c : ArrayClass} (e : Expr c) : Prop :=
  e.Each (fun sign c d => ¬ AddsControlArray sign c d) Number.IsInt

/-- The cast of the terms of `Add` and `Minus`. -/
def termCast (c : ArrayClass) : Cast := if c = .fArray then .toDouble else .toInt

/-- The cast of the exponents. -/
def exponentCast (c : ArrayClass) : Cast := if c = .fArray then .toInt else .toDouble

/-- The expression with every number cast. -/
def Expr.casted : {c : ArrayClass} → Expr c → Expr c
  | _, .var c x => .var c x
  | _, .new c arr hc => .new c arr.casted hc
  | _, .additive sign self other hd => .additive sign self.casted other.casted hd
  | c, .shift sign self other => .shift sign self.casted (other.castBy (termCast c))
  | _, .scale scaling self factor => .scale scaling self.casted (factor.castBy .toDouble)
  | c, .power self exponent => .power self.casted (exponent.castBy (exponentCast c))
  | _, .negate self => .negate self.casted
  | _, .abs self => .abs self.casted
  | _, .reshape self shape hc => .reshape self.casted shape hc
  | _, .flip self axis hc => .flip self.casted axis hc
  | _, .gradient self axis hc => .gradient self.casted axis hc

/-- The ints are values of the type to which they are cast. -/
def Expr.Fits : {c : ArrayClass} → Expr c → Prop
  | _, .var _ _ => True
  | _, .new _ arr _ => arr.Fits
  | _, .additive _ self other _ => self.Fits ∧ other.Fits
  | c, .shift _ self other => self.Fits ∧ other.Fits (termCast c)
  | _, .scale _ self factor => self.Fits ∧ factor.Fits .toDouble
  | c, .power self exponent => self.Fits ∧ exponent.Fits (exponentCast c)
  | _, .negate self => self.Fits
  | _, .abs self => self.Fits
  | _, .reshape self _ _ => self.Fits
  | _, .flip self _ _ => self.Fits
  | _, .gradient self _ _ => self.Fits

/-- A condition on the operands may be replaced where another one holds. -/
theorem Expr.Each.congr {declared operand operand' : Sign → ArrayClass → ArrayClass → Prop}
    {any exponent : Number → Prop}
    (hiff : ∀ sign c d, declared sign c d → (operand sign c d ↔ operand' sign c d))
    {c : ArrayClass} {e : Expr c} (he : e.Each declared any) :
    e.Each operand exponent ↔ e.Each operand' exponent := by
  induction e with
  | var c x => exact Iff.rfl
  | new c arr hc ih => exact ih he
  | additive sign self other hd ihs iho =>
    obtain ⟨hself, hother, hdeclared⟩ := he
    exact and_congr (ihs hself) (and_congr (iho hother) (hiff _ _ _ hdeclared))
  | shift sign self other ih => exact ih he
  | scale scaling self factor ih => exact ih he
  | power self x ih => exact and_congr_left' (ih he.1)
  | negate self ih => exact ih he
  | abs self ih => exact ih he
  | reshape self shape hc ih => exact ih he
  | flip self axis hc ih => exact ih he
  | gradient self axis hc ih => exact ih he

section Calls
variable (core : Core)

/-- A struct operand is either read as what it is, or undefined. -/
theorem callAdditive_pack (sign : Sign) {c d : ArrayClass} (hd : c = .fArray → d = .fArray)
    (self : core.Obj c) (other : core.Obj d) :
    callAdditive core sign c self (.struct (some (pack d other))) =
      if ReadAsIs sign c d then core.combine sign c d self other else .error .undefined := by
  cases c
  case fArray =>
    obtain rfl := hd rfl
    cases sign <;> rfl
  all_goals cases sign <;> cases d <;> rfl

theorem callAdditive_number (sign : Sign) (c : ArrayClass) (self : core.Obj c) (other : Number) :
    callAdditive core sign c self (other.toRuntime core) =
      (core.overloads sign c).number.byDouble self (other.castBy (termCast c)).value := by
  cases other with
  | float x => cases sign <;> cases c <;> rfl
  | int n =>
    by_cases hc : c = .fArray
    · subst hc
      cases sign <;> rfl
    · rw [termCast, if_neg hc, Number.value_castBy_toInt, ← Operator.agree]
      cases c
      case fArray => exact absurd rfl hc
      all_goals cases sign <;> rfl

theorem callScale_eq (scaling : Scaling) (c : ArrayClass) (self : core.Obj c) (factor : Number) :
    callScale core scaling c self factor =
      (core.scaling scaling c).byDouble self (factor.castBy .toDouble).value := by
  cases factor <;> cases scaling <;> cases c <;> rfl

theorem callPower_eq (c : ArrayClass) (self : core.Obj c) (exponent : Number)
    (hint : c = .fArray → exponent.IsInt) :
    callPower core c self exponent =
      (core.power c).byDouble self (exponent.castBy (exponentCast c)).value := by
  by_cases hc : c = .fArray
  · subst hc
    obtain ⟨n, rfl⟩ := hint rfl
    rw [exponentCast, if_pos rfl, Number.value_castBy_toInt, ← Operator.agree]
    rfl
  · rw [exponentCast, if_neg hc]
    cases c
    case fArray => exact absurd rfl hc
    all_goals cases exponent <;> rfl

theorem getSizes (shape : List Int64) :
    (shape.map .int).mapM (getSize : RuntimeValue core → Except NativeFault UInt64) =
      .ok (shape.map Int64.toUInt64) := by
  induction shape with
  | nil => rfl
  | cons n rest ih =>
    rw [List.map_cons, List.mapM_cons, ih]
    rfl

variable (env : Env core) {c : ArrayClass}

/-- What is read is the expression with its numbers cast. -/
theorem Expr.eval_eq_casted (e : Expr c) (he : e.Read) :
    e.eval core env = e.casted.meaning core env := by
  induction e with
  | var c x => rfl
  | new c arr hc ih => simp only [eval, casted, meaning, ih he]
  | additive sign self other hd ihs iho =>
    obtain ⟨hself, hother, hread⟩ := he
    simp only [eval, casted, meaning, ihs hself, iho hother, callAdditive_pack core sign hd,
      if_pos hread]
  | shift sign self other ih => simp only [eval, casted, meaning, ih he, callAdditive_number]
  | scale scaling self factor ih => simp only [eval, casted, meaning, ih he, callScale_eq]
  | power self exponent ih =>
    obtain ⟨hself, hint⟩ := he
    simp only [eval, casted, meaning, ih hself, callPower_eq core _ _ _ hint]
  | negate self ih => simp only [eval, casted, meaning, ih he]
  | abs self ih => simp only [eval, casted, meaning, ih he]
  | reshape self shape hc ih =>
    simp only [eval, casted, meaning, ih he, ArrayArithmetic.reshape, getSizes]
    rfl
  | flip self axis hc ih =>
    simp only [eval, casted, meaning, ih he, ArrayArithmetic.flip, getSize]
    rfl
  | gradient self axis hc ih =>
    simp only [eval, casted, meaning, ih he, ArrayArithmetic.gradient, getSize]
    rfl

/-- What returns has been read. -/
theorem Expr.read_of_eval {e : Expr c} {v : core.Obj c} (h : e.eval core env = .ok v) :
    e.Read := by
  induction e with
  | var c x => trivial
  | new c arr hc ih =>
    obtain ⟨fa, hfa, -⟩ := bind_ok_iff.mp h
    exact ih hfa
  | additive sign self other hd ihs iho =>
    obtain ⟨object, hobject, h⟩ := bind_ok_iff.mp h
    obtain ⟨operand, hoperand, h⟩ := bind_ok_iff.mp h
    refine ⟨ihs hobject, iho hoperand, ?_⟩
    rw [callAdditive_pack core sign hd] at h
    by_contra hread
    rw [if_neg hread] at h
    cases h
  | shift sign self other ih =>
    obtain ⟨object, hobject, -⟩ := bind_ok_iff.mp h
    exact ih hobject
  | scale scaling self factor ih =>
    obtain ⟨object, hobject, -⟩ := bind_ok_iff.mp h
    exact ih hobject
  | power self exponent ih =>
    obtain ⟨object, hobject, h⟩ := bind_ok_iff.mp h
    refine ⟨ih hobject, ?_⟩
    rintro rfl
    cases exponent with
    | float x => cases h
    | int n => exact ⟨n, rfl⟩
  | negate self ih =>
    obtain ⟨object, hobject, -⟩ := bind_ok_iff.mp h
    exact ih hobject
  | abs self ih =>
    obtain ⟨object, hobject, -⟩ := bind_ok_iff.mp h
    exact ih hobject
  | reshape self shape hc ih =>
    obtain ⟨object, hobject, -⟩ := bind_ok_iff.mp h
    exact ih hobject
  | flip self axis hc ih =>
    obtain ⟨object, hobject, -⟩ := bind_ok_iff.mp h
    exact ih hobject
  | gradient self axis hc ih =>
    obtain ⟨object, hobject, -⟩ := bind_ok_iff.mp h
    exact ih hobject

/-- Ints that fit are not changed by a cast. -/
theorem Expr.meaning_casted (e : Expr c) (he : e.Fits) :
    e.casted.meaning core env = e.meaning core env := by
  induction e with
  | var c x => rfl
  | new c arr hc ih => simp only [casted, meaning, ih he]
  | additive sign self other hd ihs iho => simp only [casted, meaning, ihs he.1, iho he.2]
  | shift sign self other ih =>
    obtain ⟨hself, hfits⟩ := he
    simp only [casted, meaning, ih hself, (other.value_castBy_iff _).mpr hfits]
  | scale scaling self factor ih =>
    obtain ⟨hself, hfits⟩ := he
    simp only [casted, meaning, ih hself, (factor.value_castBy_iff _).mpr hfits]
  | power self exponent ih =>
    obtain ⟨hself, hfits⟩ := he
    simp only [casted, meaning, ih hself, (exponent.value_castBy_iff _).mpr hfits]
  | negate self ih => simp only [casted, meaning, ih he]
  | abs self ih => simp only [casted, meaning, ih he]
  | reshape self shape hc ih => simp only [casted, meaning, ih he]
  | flip self axis hc ih => simp only [casted, meaning, ih he]
  | gradient self axis hc ih => simp only [casted, meaning, ih he]

end Calls

/-! ### The terms

Where nothing fails and nothing is computed, an array is the way in which it was made. -/

inductive Term where
  | var (c : ArrayClass) (x : Nat)
  | make (c : ArrayClass) (arr : Term)
  | wrap (other : Term)
  | base (other : Term)
  | number (sign : Sign) (self : Term) (x : ℚ)
  | same (sign : Sign) (self other : Term)
  | byFArray (sign : Sign) (self other : Term)
  | scale (scaling : Scaling) (self : Term) (x : ℚ)
  | power (self : Term) (x : ℚ)
  | negate (self : Term)
  | abs (self : Term)
  | reshape (self : Term) (shape : List UInt64)
  | flip (self : Term) (axis : UInt64)
  | gradient (self : Term) (axis : UInt64)

namespace Term

def operator (node : Term → ℚ → Term) : Operator Term where
  byDouble t x := .ok (node t x)
  byInt t k := .ok (node t k.toInt)
  agree _ _ := rfl

def overloads (sign : Sign) : Overloads Term Term where
  number := operator (.number sign)
  same self other := .ok (.same sign self other)
  byFArray self other := .ok (.byFArray sign self other)

def core : Core where
  Obj _ := Term
  make c arr := .ok (.make c arr)
  controlArray1D other := .ok (.wrap other)
  measuredArray1D other := .ok (.wrap other)
  base _ other := .base other
  plus _ := overloads .plus
  minus _ := overloads .minus
  times _ := operator (.scale .times)
  divides _ := operator (.scale .divides)
  power _ := operator .power
  negate _ self := .ok (.negate self)
  abs _ self := .ok (.abs self)
  reshape _ self shape := .ok (.reshape self shape)
  flip _ self axis := .ok (.flip self axis)
  gradient _ self axis := .ok (.gradient self axis)

def env : Env core := fun c x => .var c x

/-- A sum shows its operands. -/
def combined (sign : Sign) (c d : ArrayClass) (self other : Term) : Term :=
  if d = .fArray then .byFArray sign self other
  else if d = c then .same sign self other
  else if (c = .controlArray1D ∧ d = .controlArray) ∨ (c = .measuredArray1D ∧ d = .measuredArray)
    then .same sign self (.wrap other)
  else .byFArray sign self (.base other)

theorem combine_eq (sign : Sign) (c d : ArrayClass) (self other : Term) :
    core.combine sign c d self other = .ok (combined sign c d self other) := by
  cases sign <;> cases c <;> cases d <;> rfl

theorem combined_inj {sign : Sign} {c d : ArrayClass} {self other self' other' : Term}
    (h : combined sign c d self other = combined sign c d self' other') :
    self = self' ∧ other = other' := by
  unfold combined at h
  split_ifs at h <;> cases h <;> exact ⟨rfl, rfl⟩

theorem number_eq (sign : Sign) (c : ArrayClass) (self : Term) (x : ℚ) :
    (core.overloads sign c).number.byDouble self x = .ok (.number sign self x) := by
  cases sign <;> rfl

theorem scale_eq (scaling : Scaling) (c : ArrayClass) (self : Term) (x : ℚ) :
    (core.scaling scaling c).byDouble self x = .ok (.scale scaling self x) := by
  cases scaling <;> rfl

/-- The term of an expression. -/
def of : {c : ArrayClass} → Expr c → Term
  | _, .var c x => .var c x
  | _, .new c arr _ => .make c (of arr)
  | c, .additive (d := d) sign self other _ => combined sign c d (of self) (of other)
  | _, .shift sign self other => .number sign (of self) other.value
  | _, .scale scaling self factor => .scale scaling (of self) factor.value
  | _, .power self exponent => .power (of self) exponent.value
  | _, .negate self => .negate (of self)
  | _, .abs self => .abs (of self)
  | _, .reshape self shape _ => .reshape (of self) (shape.map Int64.toUInt64)
  | _, .flip self axis _ => .flip (of self) axis.toUInt64
  | _, .gradient self axis _ => .gradient (of self) axis.toUInt64

theorem meaning_eq {c : ArrayClass} (e : Expr c) : e.meaning core env = .ok (of e) := by
  induction e with
  | var c x => rfl
  | new c arr hc ih =>
    rw [Expr.meaning, ih]
    rfl
  | additive sign self other hd ihs iho =>
    rw [Expr.meaning, ihs, iho]
    exact combine_eq ..
  | shift sign self other ih =>
    rw [Expr.meaning, ih]
    exact number_eq ..
  | scale scaling self factor ih =>
    rw [Expr.meaning, ih]
    exact scale_eq ..
  | power self exponent ih =>
    rw [Expr.meaning, ih]
    rfl
  | negate self ih =>
    rw [Expr.meaning, ih]
    rfl
  | abs self ih =>
    rw [Expr.meaning, ih]
    rfl
  | reshape self shape hc ih =>
    rw [Expr.meaning, ih]
    rfl
  | flip self axis hc ih =>
    rw [Expr.meaning, ih]
    rfl
  | gradient self axis hc ih =>
    rw [Expr.meaning, ih]
    rfl

/-- The term of an expression shows an int that a cast changes. -/
theorem fits_of_casted {c : ArrayClass} (e : Expr c) (h : of e.casted = of e) : e.Fits := by
  induction e with
  | var c x => trivial
  | new c arr hc ih =>
    injection h with _ h
    exact ih h
  | additive sign self other hd ihs iho =>
    obtain ⟨hself, hother⟩ := combined_inj h
    exact ⟨ihs hself, iho hother⟩
  | shift sign self other ih =>
    injection h with _ hself hvalue
    exact ⟨ih hself, (other.value_castBy_iff _).mp hvalue⟩
  | scale scaling self factor ih =>
    injection h with _ hself hvalue
    exact ⟨ih hself, (factor.value_castBy_iff _).mp hvalue⟩
  | power self exponent ih =>
    injection h with hself hvalue
    exact ⟨ih hself, (exponent.value_castBy_iff _).mp hvalue⟩
  | negate self ih =>
    injection h with hself
    exact ih hself
  | abs self ih =>
    injection h with hself
    exact ih hself
  | reshape self shape hc ih =>
    injection h with hself
    exact ih hself
  | flip self axis hc ih =>
    injection h with hself
    exact ih hself
  | gradient self axis hc ih =>
    injection h with hself
    exact ih hself

end Term

/-! ### The theorem -/

/-- What the wrappers make of an expression, whatever falcon_core computes. -/
structure Evaluates {c : ArrayClass} (e : Expr c) : Prop where
  casted : e.Read → ∀ (core : Core) (env : Env core),
    e.eval core env = e.casted.meaning core env
  unread : ¬ e.Read → ∀ (core : Core) (env : Env core) (v : core.Obj c),
    e.eval core env ≠ .ok v
  faithful_iff : (∀ (core : Core) (env : Env core), e.eval core env = e.meaning core env) ↔
    e.Read ∧ e.Fits
  declared : e.Declared → (e.Read ↔ e.Unmixed)

/-- **An expression is computed as it is meant exactly where every array operand is read as
what it is and every int is a value of the type to which it is cast**; where only an int is
not, it is computed with the numbers cast, and elsewhere nothing is returned. -/
theorem expressions_evaluate {c : ArrayClass} (e : Expr c) : Evaluates e where
  casted he core env := e.eval_eq_casted core env he
  unread he core env _ h := he (Expr.read_of_eval core env h)
  faithful_iff := by
    constructor
    · intro h
      have hterm := h Term.core Term.env
      rw [Term.meaning_eq] at hterm
      have hread := Expr.read_of_eval _ _ hterm
      refine ⟨hread, Term.fits_of_casted e ?_⟩
      rw [e.eval_eq_casted _ _ hread, Term.meaning_eq] at hterm
      exact Except.ok.inj hterm
    · rintro ⟨hread, hfits⟩ core env
      rw [e.eval_eq_casted core env hread, e.meaning_casted core env hfits]
  declared he := Expr.Each.congr readAsIs_of_declared_iff he

end FalconStd.FalconCore.ArrayArithmetic
