import FalconStd.Foundation.Heap
import FalconStd.Control.Direction

/-! `Direction` with its arrays in a store (`direction-wrapper.cpp`).

A direction is a struct whose map holds two arrays, and an array is a handle into
the store. `clone_struct` copies the handles as it finds them, so `Scale`, `Add`
and `Subtract` write into the arrays of the direction they are called on. An
output struct that a routine never assigns has no arrays, `none` here. -/
namespace FalconStd.Control
open Collections Foundation

/-- The native handles of `dir_.keys_` and `dir_.values_`. -/
structure DirectionRef where
  keys_ : Handle
  values_ : Handle
  deriving DecidableEq, Repr

structure Store (G R : Type) where
  gates : Heap (List G)
  coefficients : Heap (List R)

namespace Store

variable {G R : Type}

def read (σ : Store G R) (d : DirectionRef) : Direction G R :=
  ⟨⟨σ.gates.cell d.keys_, σ.coefficients.cell d.values_⟩⟩

def write (σ : Store G R) (d : DirectionRef) (contents : Direction G R) : Store G R :=
  ⟨σ.gates.write d.keys_ contents.dir_.keys_,
    σ.coefficients.write d.values_ contents.dir_.values_⟩

/-- `Direction.New`: a map of two new arrays. -/
def new (σ : Store G R) : DirectionRef × Store G R :=
  let (keys, gates) := σ.gates.alloc ArrayValue.new
  let (values, coefficients) := σ.coefficients.alloc ArrayValue.new
  (⟨keys, values⟩, ⟨gates, coefficients⟩)

/-- `clone_struct`: a new struct, `native_handle` copied. -/
def cloneStruct (src : DirectionRef) : DirectionRef := ⟨src.keys_, src.values_⟩

variable [DecidableEq G]

def setCoefficient (σ : Store G R) (this : DirectionRef) (gate : G) (coefficient : R) :
    Except Failure (Store G R) :=
  let (outcome, d) := (σ.read this).setCoefficient gate coefficient
  outcome.map fun _ => σ.write this d

def removeGate (σ : Store G R) (this : DirectionRef) (gate : G) : Except Failure (Store G R) :=
  let (outcome, d) := (σ.read this).removeGate gate
  outcome.map fun _ => σ.write this d

/-- One pass of the loop of `Add` and `Subtract`, on the arrays as they are then. -/
def combineAt (hit : R → R → R) (miss : R → R) (result other : DirectionRef) (σ : Store G R)
    (i : Nat) : Store G R :=
  match (σ.read other).dir_.entries[i]? with
  | some e => σ.write result ⟨Direction.combineEntry hit miss (σ.read result).dir_ e.1 e.2⟩
  | none => σ

/-- The bound of the source's loop is the current size of `other`'s keys; it does
not move, since a gate read from the array that would grow is found there. -/
def combine (hit : R → R → R) (miss : R → R) (σ : Store G R) (this other : DirectionRef) :
    DirectionRef × Store G R :=
  let result := cloneStruct this
  (result, (List.range (σ.read other).dir_.entries.length).foldl
    (combineAt hit miss result other) σ)

variable [Field R]

def scale (σ : Store G R) (this : DirectionRef) (factor : R) : DirectionRef × Store G R :=
  let result := cloneStruct this
  (result, σ.write result ((σ.read result).scale factor))

def add (σ : Store G R) (this other : DirectionRef) : DirectionRef × Store G R :=
  combine (fun lhs rhs => lhs + rhs) (fun rhs => rhs) σ this other

def subtract (σ : Store G R) (this other : DirectionRef) : DirectionRef × Store G R :=
  combine (fun lhs rhs => lhs - rhs) (fun rhs => -rhs) σ this other

def dot (σ : Store G R) (this other : DirectionRef) : R := (σ.read this).dot (σ.read other)

variable [DecidableEq R]

def normalize (sqrt : R → R) (σ : Store G R) (this : DirectionRef) : Store G R :=
  σ.write this ((σ.read this).normalize sqrt)

/-- Of a direction of length zero the projection stays unassigned. -/
def project (σ : Store G R) (this other : DirectionRef) : Option DirectionRef × Store G R :=
  let denom := σ.dot other other
  if denom ≠ 0 then
    let factor := σ.dot this other / denom
    let (projected, σ') := σ.scale other factor
    (some projected, σ')
  else (none, σ)

/-- Subtracting an unassigned projection raises. -/
def orthogonalize (σ : Store G R) (this other : DirectionRef) :
    Except Failure (DirectionRef × Store G R) :=
  match σ.project this other with
  | (none, _) => .error (.missingField "dir_")
  | (some projection, σ') => .ok (σ'.subtract this projection)

end Store

/-! ### Programs over direction variables -/

inductive Stmt (Var G R : Type) where
  | new (x : Var)
  | setCoefficient (x : Var) (gate : G) (coefficient : R)
  | removeGate (x : Var) (gate : G)
  | scale (x y : Var) (factor : R)
  | add (x y z : Var)
  | subtract (x y z : Var)
  | normalize (x : Var)
  | project (x y z : Var)
  | orthogonalize (x y : Var)

/-- A variable holds `none` until it is assigned a direction with arrays. -/
structure Machine (Var G R : Type) where
  store : Store G R
  env : Var → Option DirectionRef

namespace Machine

variable {Var G R : Type} [DecidableEq Var]

def start : Machine Var G R := ⟨⟨⟨fun _ => [], 0⟩, ⟨fun _ => [], 0⟩⟩, fun _ => none⟩

def assign (s : Machine Var G R) (x : Var) (d : Option DirectionRef) (σ : Store G R) :
    Machine Var G R := ⟨σ, Function.update s.env x d⟩

variable [DecidableEq G] [Field R] [DecidableEq R] (sqrt : R → R)

/-- One statement; `none` is an exception. -/
def exec (s : Machine Var G R) : Stmt Var G R → Option (Machine Var G R)
  | .new x =>
    let (d, σ) := s.store.new
    some (s.assign x (some d) σ)
  | .setCoefficient x gate coefficient => do
    let d ← s.env x
    let σ ← (s.store.setCoefficient d gate coefficient).toOption
    some { s with store := σ }
  | .removeGate x gate => do
    let d ← s.env x
    let σ ← (s.store.removeGate d gate).toOption
    some { s with store := σ }
  | .scale x y factor => do
    let d ← s.env y
    let (result, σ) := s.store.scale d factor
    some (s.assign x (some result) σ)
  | .add x y z => do
    let d ← s.env y
    let d' ← s.env z
    let (result, σ) := s.store.add d d'
    some (s.assign x (some result) σ)
  | .subtract x y z => do
    let d ← s.env y
    let d' ← s.env z
    let (result, σ) := s.store.subtract d d'
    some (s.assign x (some result) σ)
  | .normalize x => do
    let d ← s.env x
    some { s with store := s.store.normalize sqrt d }
  | .project x y z => do
    let d ← s.env y
    let d' ← s.env z
    let (projected, σ) := s.store.project d d'
    some (s.assign x projected σ)
  | .orthogonalize x y => do
    let d ← s.env x
    let d' ← s.env y
    let (result, σ) ← (s.store.orthogonalize d d').toOption
    some (s.assign x (some result) σ)

/-- A program that has raised stays stopped. -/
def step (s : Option (Machine Var G R)) (stmt : Stmt Var G R) : Option (Machine Var G R) :=
  s.bind fun s => s.exec sqrt stmt

end Machine

/-! ### The semantics intended for them: variables hold finite maps -/

abbrev Values (Var G R : Type) [Zero R] := Var → Option (FiniteMap G R)

namespace Values

variable {Var G R : Type} [DecidableEq Var] [DecidableEq G] [Field R] [DecidableEq R]
  (sqrt : R → R)

def exec (p : Values Var G R) : Stmt Var G R → Option (Values Var G R)
  | .new x => some (Function.update p x (some FiniteMap.empty))
  | .setCoefficient x gate coefficient => do
    let m ← p x
    some (Function.update p x (some (m.set gate coefficient)))
  | .removeGate x gate => do
    let m ← p x
    some (Function.update p x (some (m.remove gate)))
  | .scale x y factor => do
    let m ← p y
    some (Function.update p x (some (m.scale factor)))
  | .add x y z => do
    let m ← p y
    let m' ← p z
    some (Function.update p x (some (m.add m')))
  | .subtract x y z => do
    let m ← p y
    let m' ← p z
    some (Function.update p x (some (m.sub m')))
  | .normalize x => do
    let m ← p x
    some (Function.update p x (some (m.normalize sqrt)))
  | .project x y z => do
    let m ← p y
    let m' ← p z
    some (Function.update p x (some (m.project m')))
  | .orthogonalize x y => do
    let m ← p x
    let m' ← p y
    some (Function.update p x (some (m.sub (m.project m'))))

def step (p : Option (Values Var G R)) (stmt : Stmt Var G R) : Option (Values Var G R) :=
  p.bind fun p => exec sqrt p stmt

end Values

end FalconStd.Control
