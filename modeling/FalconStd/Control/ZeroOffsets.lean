import Mathlib.Algebra.Field.Rat
import FalconStd.Control.AxisFamily

/-! Whom `ZeroOffsets` changes.

A family of axes, points and voltages is what a program of the DSL holds in its
variables. `SetOffset` and its siblings replace what they store; `ZeroOffsets` writes
the stored voltages, which the caller may have stored elsewhere too. So it is local
exactly when those it shares are zero already (`zeroOffsets_local_iff`). -/
namespace FalconStd.Control
open Collections Foundation

/-! ### Families -/

/-- A variable of a program, with its type. -/
inductive Variable (Var : Type) where
  | gate (x : Var)
  | voltage (x : Var)
  | point (x : Var)
  | axis (x : Var)
  deriving DecidableEq

/-- Points and axes own what they hold, gates and voltages are held. -/
def Variable.Owner {Var : Type} : Variable Var → Prop
  | .point _ | .axis _ => True
  | .gate _ | .voltage _ => False

structure Family (Var R : Type) where
  objects : Objects R
  env : Variable Var → Option Handle

namespace Family

inductive Stmt (Var R : Type) where
  | newGate (x : Var) (name : String)
  | newVoltage (x : Var) (value : R)
  | newPoint (x : Var)
  | newAxis (x : Var)
  | pointSet (point gate voltage : Var)
  | extendDomain (axis gate offset amp : Var)
  | setOffset (axis gate offset : Var)
  | shiftOffset (axis gate delta : Var)
  | zeroOffsets (axis : Var)

variable {Var R : Type} [DecidableEq Var]

def start : Family Var R := ⟨⟨fun _ => .tuple [], 0⟩, fun _ => none⟩

/-- An unassigned variable holds nothing to call. -/
def get (s : Family Var R) (v : Variable Var) : Except Fault Handle :=
  match s.env v with
  | some h => .ok h
  | none => .error .badVariantAccess

def assign (s : Family Var R) (v : Variable Var) (made : Handle × Objects R) : Family Var R :=
  ⟨made.2, Function.update s.env v (some made.1)⟩

section Exec
variable [Field R] (same : Objects R → RuntimeValue R → RuntimeValue R → Bool)

def exec (s : Family Var R) : Stmt Var R → Except Fault (Family Var R)
  | .newGate x name => .ok (s.assign (.gate x) (s.objects.makeShared (.gate name)))
  | .newVoltage x value => .ok (s.assign (.voltage x) (s.objects.newVoltage value))
  | .newPoint x => .ok (s.assign (.point x) s.objects.newPoint)
  | .newAxis x => .ok (s.assign (.axis x) s.objects.newAxis)
  | .pointSet point gate voltage => do
    let point ← s.get (.point point)
    let gate ← s.get (.gate gate)
    let voltage ← s.get (.voltage voltage)
    let H ← s.objects.pointSet same point gate voltage
    .ok { s with objects := H }
  | .extendDomain axis gate offset amp => do
    let axis ← s.get (.axis axis)
    let gate ← s.get (.gate gate)
    let offset ← s.get (.voltage offset)
    let amp ← s.get (.voltage amp)
    let H ← s.objects.extendDomain same axis gate offset amp
    .ok { s with objects := H }
  | .setOffset axis gate offset => do
    let axis ← s.get (.axis axis)
    let gate ← s.get (.gate gate)
    let offset ← s.get (.voltage offset)
    let H ← s.objects.setOffset same axis gate offset
    .ok { s with objects := H }
  | .shiftOffset axis gate delta => do
    let axis ← s.get (.axis axis)
    let gate ← s.get (.gate gate)
    let delta ← s.get (.voltage delta)
    let H ← s.objects.shiftOffset same axis gate delta
    .ok { s with objects := H }
  | .zeroOffsets axis => do
    let axis ← s.get (.axis axis)
    let H ← s.objects.zeroOffsets axis
    .ok { s with objects := H }

def run (program : List (Stmt Var R)) : Except Fault (Family Var R) :=
  program.foldlM (exec same) start

end Exec

/-- The variable whose offsets a statement replaces. -/
def Stmt.receiver : Stmt Var R → Option (Variable Var)
  | .pointSet point _ _ => some (.point point)
  | .extendDomain axis _ _ _ | .setOffset axis _ _ | .shiftOffset axis _ _ => some (.axis axis)
  | _ => none

end Family

/-! ### What is seen of a variable -/

namespace Objects
variable {Var R : Type}

/-- The gates of a point, and the voltages it stores. -/
def stored (H : Objects R) (point : Handle) :
    Except Fault (List (RuntimeValue R) × List (RuntimeValue R)) := do
  let keys ← H.pointKeys point
  let values ← H.pointValues point
  let gates ← H.elements keys
  let entries ← H.elements values
  .ok (gates, entries)

/-- The gates and the voltages that what is in a variable holds. -/
def held (H : Objects R) : Variable Var → Handle →
    Except Fault (List (RuntimeValue R) × List (RuntimeValue R))
  | .gate _, _ => .ok ([], [])
  | .voltage _, voltage => .ok ([], [.struct voltage])
  | .point _, point => H.stored point
  | .axis _, axis => do
    let point ← H.axisOffset axis
    H.stored point

def readEntry (H : Objects R) (entry : RuntimeValue R) : Except Fault R := do
  let voltage ← entry.asStruct
  H.voltageValue voltage

/-- The offsets of an axis or a point, or the value of a voltage. -/
def observe (H : Objects R) (v : Variable Var) (h : Handle) :
    Except Fault (List (RuntimeValue R) × List R) := do
  let (gates, entries) ← H.held v h
  let voltages ← entries.mapM H.readEntry
  .ok (gates, voltages)

/-- A voltage is stored in what a variable holds, or is what it holds. -/
def Holds (H : Objects R) (v : Variable Var) (h voltage : Handle) : Prop :=
  ∃ gates entries, H.held v h = .ok (gates, entries) ∧ .struct voltage ∈ entries

end Objects

namespace Family
variable {Var R : Type} [DecidableEq Var]

/-- No variable but `v` sees that the objects become `H`. -/
def Unchanged (s : Family Var R) (v : Variable Var) (H : Objects R) : Prop :=
  ∀ w h, w ≠ v → s.env w = some h → H.observe w h = s.objects.observe w h

/-- `ZeroOffsets` on an axis makes its offsets zero, and no other variable sees it. -/
def ZeroesLocally [Field R] (s : Family Var R) (x : Var) (axis : Handle) : Prop :=
  ∃ H gates voltages, s.objects.zeroOffsets axis = .ok H ∧
    s.objects.observe (.axis x) axis = .ok (gates, voltages) ∧
    H.observe (.axis x) axis = .ok (gates, voltages.map fun _ => 0) ∧
    s.Unchanged (.axis x) H

/-- Every voltage that the axis stores and another variable holds is zero. -/
def SharedAreZero [Field R] (s : Family Var R) (x : Var) (axis : Handle) : Prop :=
  ∀ w h voltage, w ≠ .axis x → s.env w = some h → s.objects.Holds w h voltage →
    s.objects.Holds (.axis x) axis voltage → s.objects.voltageValue voltage = .ok 0

end Family

/-! ### Variables hold what their types say -/

namespace Objects
variable {Var R : Type} {H H' : Objects R} {v : Variable Var} {h : Handle}
  {gates entries : List (RuntimeValue R)}

def Typed (H : Objects R) : Variable Var → Handle → Prop
  | .gate _, gate => ∃ name, H.cell gate = .gate name
  | .voltage _, voltage => ∃ x, H.cell voltage = .voltage x
  | .point _, point => ∃ keys values gates entries, PointAt H point keys values gates entries
  | .axis _, axis => ∃ point keys values gates entries,
      AxisAt H axis point keys values gates entries

theorem PointAt.stored_eq {point keys values : Handle}
    (hp : PointAt H point keys values gates entries) : H.stored point = .ok (gates, entries) := by
  rw [stored, hp.keys_eq, hp.values_eq]
  simp [bind, Except.bind, hp.gates_eq, hp.entries_eq]

/-- A point leads to the voltages it stores. -/
theorem PointAt.reaches {point keys values : Handle}
    (hp : PointAt H point keys values gates entries) :
    ∀ voltage, .struct voltage ∈ entries → H.Reaches Object.refs point voltage := by
  intro voltage hmem
  have hpoints := (returns_elements H values).of_ok entries hp.entries_eq _ hmem
  exact (reaches_arrayOf hp.values_eq).tail (hpoints voltage List.mem_cons_self)

/-- What is in a variable holds voltages, which it leads to. -/
theorem Typed.held_ok (ht : H.Typed v h) : ∃ gates entries, H.held v h = .ok (gates, entries) ∧
    H.Voltages entries ∧ ∀ voltage, .struct voltage ∈ entries → H.Reaches Object.refs h voltage := by
  cases v with
  | gate x => exact ⟨[], [], rfl, by simp [Voltages], by simp⟩
  | voltage x =>
    obtain ⟨y, hy⟩ := ht
    refine ⟨[], [.struct h], rfl, ?_, ?_⟩
    · intro e he
      exact ⟨h, y, List.mem_singleton.mp he, hy⟩
    · intro voltage hmem
      cases List.mem_singleton.mp hmem
      exact .refl
  | point x =>
    obtain ⟨keys, values, gates, entries, hp⟩ := ht
    exact ⟨gates, entries, hp.stored_eq, hp.voltages, hp.reaches⟩
  | axis x =>
    obtain ⟨point, keys, values, gates, entries, ha⟩ := ht
    have hp := ha.at_point
    refine ⟨gates, entries, ?_, hp.voltages, fun voltage hmem => ?_⟩
    · rw [held, ha.offset_eq]
      exact hp.stored_eq
    · have hpoints := (returns_getStructField H h _).of_ok point ha.offset_eq
      exact .head hpoints (hp.reaches voltage hmem)

/-- A variable whose objects are as they were holds what it held. -/
theorem Typed.kept (ht : H.Typed v h)
    (hsame : ∀ x, H.Reaches Object.refs h x → H'.cell x = H.cell x) :
    H'.Typed v h ∧ H'.held v h = H.held v h := by
  cases v with
  | gate x =>
    obtain ⟨name, hname⟩ := ht
    exact ⟨⟨name, (hsame h .refl).trans hname⟩, rfl⟩
  | voltage x =>
    obtain ⟨y, hy⟩ := ht
    exact ⟨⟨y, (hsame h .refl).trans hy⟩, rfl⟩
  | point x =>
    obtain ⟨keys, values, gates, entries, hp⟩ := ht
    have hp' := hp.kept hsame
    exact ⟨⟨keys, values, gates, entries, hp'⟩, hp'.stored_eq.trans hp.stored_eq.symm⟩
  | axis x =>
    obtain ⟨point, keys, values, gates, entries, ha⟩ := ht
    have ha' := ha.kept hsame
    refine ⟨⟨point, keys, values, gates, entries, ha'⟩, ?_⟩
    rw [held, held, ha.offset_eq, ha'.offset_eq]
    exact ha'.at_point.stored_eq.trans ha.at_point.stored_eq.symm

theorem voltageValue_of {voltage : Handle} {x : R} (hcell : H.cell voltage = .voltage x) :
    H.voltageValue voltage = .ok x := by
  simp [voltageValue, getField, hcell, Object.voltage, Assoc.get?, bind, Except.bind,
    RuntimeValue.asFloat]

theorem Voltages.readEntry_ok (hv : H.Voltages entries) :
    ∀ e ∈ entries, ∃ x, H.readEntry e = .ok x := by
  intro e he
  obtain ⟨voltage, x, rfl, hcell⟩ := hv e he
  exact ⟨x, voltageValue_of hcell⟩

theorem observe_of_held (hheld : H.held v h = .ok (gates, entries)) :
    H.observe v h = entries.mapM H.readEntry >>= fun voltages => .ok (gates, voltages) := by
  rw [observe, hheld]
  rfl

theorem observe_voltage {x : Var} {voltage : Handle} {y : R}
    (hy : H.voltageValue voltage = .ok y) : H.observe (.voltage x) voltage = .ok ([], [y]) := by
  rw [observe_of_held rfl, List.mapM_cons]
  simp [readEntry, RuntimeValue.asStruct, hy, bind, Except.bind, pure, Except.pure]

/-- What is seen of a variable that holds the same is the same when the values are. -/
theorem observe_eq_iff (hheld : H.held v h = .ok (gates, entries)) (hv : H.Voltages entries)
    (hheld' : H'.held v h = .ok (gates, entries)) (hv' : H'.Voltages entries) :
    H'.observe v h = H.observe v h ↔ ∀ e ∈ entries, H'.readEntry e = H.readEntry e := by
  rw [← mapM_eq_iff hv'.readEntry_ok hv.readEntry_ok, observe_of_held hheld, observe_of_held hheld']
  cases entries.mapM H'.readEntry <;> cases entries.mapM H.readEntry <;>
    simp [bind, Except.bind]

theorem Typed.observe_kept (ht : H.Typed v h)
    (hsame : ∀ x, H.Reaches Object.refs h x → H'.cell x = H.cell x) :
    H'.observe v h = H.observe v h := by
  obtain ⟨gates, entries, hheld, hv, hreach⟩ := ht.held_ok
  have hcell : ∀ voltage, .struct voltage ∈ entries → H'.cell voltage = H.cell voltage :=
    fun voltage hmem => hsame voltage (hreach voltage hmem)
  have hv' : H'.Voltages entries := by
    intro e he
    obtain ⟨voltage, x, rfl, hx⟩ := hv e he
    exact ⟨voltage, x, rfl, (hcell voltage he).trans hx⟩
  rw [observe_eq_iff hheld hv ((ht.kept hsame).2.trans hheld) hv']
  intro e he
  obtain ⟨voltage, x, rfl, hx⟩ := hv e he
  exact (voltageValue_of ((hcell voltage he).trans hx)).trans (voltageValue_of hx).symm

end Objects

/-! ### Replacing what is stored -/

/-- Nobody but `ZeroOffsets` writes a stored voltage. -/
def Immutable.leaves {R : Type} : Immutable R where
  Holds o := (∃ name, o = Object.gate name) ∨ ∃ x, o = Object.voltage x
  leaf := by
    intro o h
    rcases h with ⟨name, rfl⟩ | ⟨x, rfl⟩
    · exact Object.refs_gate name
    · exact Object.refs_voltage x
  not_array := by
    intro ty elements h
    rcases h with ⟨name, h⟩ | ⟨x, h⟩ <;> cases h

namespace Objects
variable {R : Type} [Field R] {same : Objects R → RuntimeValue R → RuntimeValue R → Bool}

/-- A modifier that replaces, called with a gate and a voltage that the caller has. -/
def Replaces (same : Objects R → RuntimeValue R → RuntimeValue R → Bool) (root : Handle)
    (H H' : Objects R) : Prop :=
  ∃ gate name voltage x, gate < H.next ∧ H.cell gate = .gate name ∧ voltage < H.next ∧
    H.cell voltage = .voltage x ∧
    (H.pointSet same root gate voltage = .ok H' ∨ H.setOffset same root gate voltage = .ok H' ∨
      H.shiftOffset same root gate voltage = .ok H' ∨
      ∃ amp, H.extendDomain same root gate voltage amp = .ok H')

theorem replaces_local : Heap.Local Immutable.leaves.layout (Replaces same) := by
  intro root H H' side ho hroot hreplaces
  obtain ⟨gate, name, voltage, x, hg, hgate, hv, hvoltage, hcall⟩ := hreplaces
  have hgate : H.Within Immutable.leaves.layout side gate := ⟨hg, .inr (.inl ⟨name, hgate⟩)⟩
  have hvoltage : H.Within Immutable.leaves.layout side voltage := ⟨hv, .inr (.inr ⟨x, hvoltage⟩)⟩
  rcases hcall with h | h | h | ⟨amp, h⟩
  · exact (acts_pointSet ho hroot.within hgate hvoltage).of_ok H' h
  · exact (acts_setOffset ho hroot.within hgate hvoltage).of_ok H' h
  · exact (acts_shiftOffset ho hroot.within hgate voltage).of_ok H' h
  · exact (acts_extendDomain ho hroot.within hgate hvoltage amp).of_ok H' h

end Objects

/-! ### The invariant of programs -/

namespace Family
variable {Var R : Type} {s : Family Var R} {v w : Variable Var} {h a b : Handle}

/-- Every variable holds an object of its type, and owners share only what they hold. -/
structure Inv (s : Family Var R) : Prop where
  sound : s.objects.Sound Object.refs
  typed : ∀ v h, s.env v = some h → h < s.objects.next ∧ s.objects.Typed v h
  apart : ∀ v w a b, v.Owner → w.Owner → v ≠ w → s.env v = some a → s.env w = some b →
    Heap.Apart Immutable.leaves.layout s.objects a b

theorem inv_start : Inv (start : Family Var R) := by
  constructor
  case sound => exact fun r hr => absurd hr (Nat.not_lt_zero r)
  case typed => exact fun v h hv => nomatch hv
  case apart => exact fun v w a b _ _ _ ha => nomatch ha

variable [DecidableEq Var]

/-- A new object keeps the invariant. -/
theorem Inv.assign {made : Handle × Objects R} (hs : Inv s)
    (hmade : ∀ side, s.objects.Owns Immutable.leaves.layout side →
      Objects.Made Immutable.leaves side s.objects made)
    (htyped : made.2.Typed v made.1) : Inv (s.assign v made) := by
  have ho : s.objects.Owns Immutable.leaves.layout {r | s.objects.next ≤ r} :=
    Heap.Sound.owns hs.sound
  obtain ⟨hacts, hnew⟩ := hmade _ ho
  have hbefore : ∀ {w h}, (s.assign v made).env w = some h →
      (w = v ∧ h = made.1) ∨ (w ≠ v ∧ s.env w = some h) := by
    intro w h hw
    by_cases hwv : w = v
    · subst hwv
      left
      exact ⟨rfl, by simpa [Family.assign, eq_comm] using hw⟩
    · right
      exact ⟨hwv, by simpa [Family.assign, hwv] using hw⟩
  -- an old object is not on the side of the new one
  have hfresh : ∀ {w h}, s.env w = some h → Heap.Apart Immutable.leaves.layout made.2 made.1 h := by
    intro w h hw
    have hlt := (hs.typed w h hw).1
    exact ⟨hnew.1, hlt.trans_le hacts.next_le, _, hacts.owns, hnew.2, Nat.not_le.mpr hlt⟩
  constructor
  case sound => exact hacts.owns.sound
  case typed =>
    intro w h hw
    rcases hbefore hw with ⟨rfl, rfl⟩ | ⟨_, hw⟩
    · exact ⟨hnew.1, htyped⟩
    · obtain ⟨hlt, ht⟩ := hs.typed w h hw
      refine ⟨hlt.trans_le hacts.next_le, (ht.kept fun x hx => ?_).1⟩
      have hx := hs.sound.reaches hlt hx
      exact hacts.frame x hx (.inl (Nat.not_le.mpr hx))
  case apart =>
    intro v' w a b hv' hw hne ha hb
    rcases hbefore ha with ⟨rfl, rfl⟩ | ⟨_, holda⟩
    · rcases hbefore hb with ⟨rfl, rfl⟩ | ⟨_, holdb⟩
      · exact absurd rfl hne
      · exact hfresh holdb
    · rcases hbefore hb with ⟨rfl, rfl⟩ | ⟨_, holdb⟩
      · exact (hfresh holda).symm
      · have hab := hs.apart v' w a b hv' hw hne holda holdb
        exact hab.made fun side ho => (hmade side ho).1

omit [DecidableEq Var] in
theorem get_ok (hget : s.get v = .ok h) : s.env v = some h := by
  rw [get] at hget
  split at hget
  case h_2 => cases hget
  case h_1 h' hv =>
    cases hget
    exact hv

omit [DecidableEq Var] in
/-- A variable that is read holds an object of its type. -/
theorem returns_get (hs : Inv s) (v : Variable Var) :
    Returns (s.get v) fun h => s.env v = some h ∧ h < s.objects.next ∧ s.objects.Typed v h := by
  constructor
  intro h hget
  have henv := get_ok hget
  exact ⟨henv, hs.typed v h henv⟩

omit [DecidableEq Var] in
/-- A statement that reads its receiver, a gate and a voltage. -/
theorem returns_operands {σ : Type} {P : σ → Prop} (hs : Inv s) (v : Variable Var)
    (gate voltage : Var) {f : Handle → Handle → Handle → Except Fault σ}
    (hf : ∀ r g c, s.env v = some r → r < s.objects.next → s.objects.Typed v r →
      g < s.objects.next → (∃ name, s.objects.cell g = .gate name) →
      c < s.objects.next → (∃ x, s.objects.cell c = .voltage x) → Returns (f r g c) P) :
    Returns (s.get v >>= fun r => s.get (.gate gate) >>= fun g =>
      s.get (.voltage voltage) >>= fun c => f r g c) P := by
  apply Returns.bind (returns_get hs v)
  intro r hr
  apply Returns.bind (returns_get hs (.gate gate))
  intro g hg
  apply Returns.bind (returns_get hs (.voltage voltage))
  intro c hc
  exact hf r g c hr.1 hr.2.1 hr.2.2 hg.2.1 hg.2.2 hc.2.1 hc.2.2

section Replacing
variable [Field R] {same : Objects R → RuntimeValue R → RuntimeValue R → Bool} {s' : Family Var R}
  {root : Handle} {H : Objects R}

omit [DecidableEq Var] in
/-- What replaces offsets of one variable is not seen from the others. -/
theorem Inv.replaces (hs : Inv s) (hown : v.Owner) (hroot : s.env v = some root)
    (hstep : Objects.Replaces same root s.objects H) (htyped : H.Typed v root) :
    Inv ⟨H, s.env⟩ ∧ s.Unchanged v H := by
  have hlocal : Heap.Local Immutable.leaves.layout (Objects.Replaces same) :=
    Objects.replaces_local
  have hlt := (hs.typed v root hroot).1
  have ho : s.objects.Owns Immutable.leaves.layout {r | s.objects.next ≤ r} :=
    Heap.Sound.owns hs.sound
  have hside : root ∈ s.objects.others {r | s.objects.next ≤ r} :=
    (Heap.mem_others hlt).mpr (Nat.not_le.mpr hlt)
  have hacts := hlocal ho.others ⟨hlt, hside⟩ hstep
  have hkept : ∀ w h, w ≠ v → s.env w = some h →
      ∀ x, s.objects.Reaches Object.refs h x → H.cell x = s.objects.cell x := by
    intro w h hne hw x hx
    obtain ⟨hwlt, hwtyped⟩ := hs.typed w h hw
    by_cases hwown : w.Owner
    · have hapart := hs.apart v w root h hown hwown hne.symm hroot hw
      exact Heap.cell_of_graph (hapart.graph_eq hlocal hstep) hx
    · cases w with
      | gate y => exact hacts.kept_frozen hwlt (.inl hwtyped) hx
      | voltage y => exact hacts.kept_frozen hwlt (.inr hwtyped) hx
      | point y | axis y => exact absurd trivial hwown
  refine ⟨⟨hacts.owns.sound, ?_, ?_⟩, ?_⟩
  · intro w h hw
    by_cases hwv : w = v
    · subst hwv
      obtain rfl := Option.some.inj (hroot.symm.trans hw)
      exact ⟨hlt.trans_le hacts.next_le, htyped⟩
    · obtain ⟨hwlt, hwtyped⟩ := hs.typed w h hw
      exact ⟨hwlt.trans_le hacts.next_le, (hwtyped.kept (hkept w h hwv hw)).1⟩
  · intro v' w a b hv' hw hne ha hb
    exact (hs.apart v' w a b hv' hw hne ha hb).step hlocal hlt hstep
  · intro w h hne hw
    exact (hs.typed w h hw).2.observe_kept (hkept w h hne hw)

/-- The four statements that replace call a modifier on their receiver. -/
theorem exec_receiver (hs : Inv s) {stmt : Stmt Var R} (hv : stmt.receiver = some v) :
    Returns (s.exec same stmt) fun s' => v.Owner ∧ s'.env = s.env ∧ ∃ root,
      s.env v = some root ∧ Objects.Replaces same root s.objects s'.objects ∧
      s'.objects.Typed v root := by
  cases stmt with
  | newGate _ _ | newVoltage _ _ | newPoint _ | newAxis _ | zeroOffsets _ => cases hv
  | pointSet point gate voltage =>
    cases hv
    refine returns_operands hs _ gate voltage fun p g c hp _ htyped hglt hgate hclt hvoltage => ?_
    obtain ⟨keys, values, gates, entries, hat⟩ := htyped
    obtain ⟨name, hgate⟩ := hgate
    obtain ⟨x, hvoltage⟩ := hvoltage
    apply Returns.bind_of
    intro H hset
    obtain ⟨_, gates', entries', hat'⟩ := (hat.pointSet hvoltage g).of_ok H hset
    refine .ok ⟨trivial, rfl, p, hp, ?_, keys, values, gates', entries', hat'⟩
    exact ⟨g, name, c, x, hglt, hgate, hclt, hvoltage, .inl hset⟩
  | setOffset axis gate offset =>
    cases hv
    refine returns_operands hs _ gate offset fun a g c ha _ htyped hglt hgate hclt hvoltage => ?_
    obtain ⟨point, keys, values, gates, entries, hat⟩ := htyped
    obtain ⟨name, hgate⟩ := hgate
    obtain ⟨x, hvoltage⟩ := hvoltage
    apply Returns.bind_of
    intro H hset
    obtain ⟨gates', entries', hat'⟩ := (hat.setOffset hvoltage g).of_ok H hset
    refine .ok ⟨trivial, rfl, a, ha, ?_, point, keys, values, gates', entries', hat'⟩
    exact ⟨g, name, c, x, hglt, hgate, hclt, hvoltage, .inr (.inl hset)⟩
  | shiftOffset axis gate delta =>
    cases hv
    refine returns_operands hs _ gate delta fun a g c ha halt htyped hglt hgate hclt hvoltage => ?_
    obtain ⟨point, keys, values, gates, entries, hat⟩ := htyped
    obtain ⟨name, hgate⟩ := hgate
    obtain ⟨x, hvoltage⟩ := hvoltage
    apply Returns.bind_of
    intro H hset
    obtain ⟨gates', entries', hat'⟩ := (hat.shiftOffset hs.sound halt g c).of_ok H hset
    refine .ok ⟨trivial, rfl, a, ha, ?_, point, keys, values, gates', entries', hat'⟩
    exact ⟨g, name, c, x, hglt, hgate, hclt, hvoltage, .inr (.inr (.inl hset))⟩
  | extendDomain axis gate offset amp =>
    cases hv
    refine returns_operands hs _ gate offset fun a g c ha _ htyped hglt hgate hclt hvoltage => ?_
    obtain ⟨point, keys, values, gates, entries, hat⟩ := htyped
    obtain ⟨name, hgate⟩ := hgate
    obtain ⟨x, hvoltage⟩ := hvoltage
    apply Returns.bind_of
    intro amp _
    apply Returns.bind_of
    intro H hset
    obtain ⟨gates', entries', hat'⟩ := (hat.extendDomain hvoltage g amp).of_ok H hset
    refine .ok ⟨trivial, rfl, a, ha, ?_, point, keys, values, gates', entries', hat'⟩
    exact ⟨g, name, c, x, hglt, hgate, hclt, hvoltage, .inr (.inr (.inr ⟨amp, hset⟩))⟩

end Replacing

end Family

/-! ### Writing the stored voltages -/

namespace Objects
variable {Var R : Type} [Field R] {H H' : Objects R} {gates entries : List (RuntimeValue R)}

/-- The voltages among `entries` have become zero, and nothing else has changed. -/
structure Zeroes (entries : List (RuntimeValue R)) (H H' : Objects R) : Prop where
  next_eq : H'.next = H.next
  zero : ∀ r, .struct r ∈ entries → H'.cell r = .voltage 0
  other : ∀ r, .struct r ∉ entries → H'.cell r = H.cell r

theorem zeroEntries_ok (hv : H.Voltages entries) :
    ∃ H', entries.foldlM zeroEntry H = .ok H' ∧ Zeroes entries H H' := by
  induction entries generalizing H with
  | nil => exact ⟨H, rfl, rfl, by simp, by simp⟩
  | cons e rest ih =>
    obtain ⟨voltage, x, rfl, hcell⟩ := hv e List.mem_cons_self
    have hrest : H.Voltages rest := fun e he => hv e (List.mem_cons_of_mem _ he)
    obtain ⟨H', hloop, hz⟩ := ih (hrest.write voltage 0)
    have hpass : H.zeroEntry (.struct voltage) = .ok (H.write voltage (.voltage 0)) :=
      setVoltageValue_voltage hcell 0
    refine ⟨H', ?_, hz.next_eq, ?_, ?_⟩
    · rw [List.foldlM_cons, hpass]
      exact hloop
    · intro r hr
      by_cases hmem : .struct r ∈ rest
      · exact hz.zero r hmem
      · obtain rfl : r = voltage := by simpa [hmem] using hr
        rw [hz.other r hmem, Heap.write_cell_same]
    · intro r hr
      rw [List.mem_cons, not_or] at hr
      rw [hz.other r hr.2, Heap.write_cell_ne]
      intro heq
      subst heq
      exact hr.1 rfl

theorem Zeroes.alike (hz : Zeroes entries H H') (hv : H.Voltages entries) : Alike H H' := by
  intro r
  by_cases hr : .struct r ∈ entries
  · obtain ⟨voltage, x, heq, hcell⟩ := hv _ hr
    cases heq
    exact .inr (.inr ⟨x, 0, hcell, hz.zero r hr⟩)
  · exact .inl (hz.other r hr)

theorem Zeroes.elements (hz : Zeroes entries H H') (hv : H.Voltages entries) (items : Handle) :
    H'.elements items = H.elements items := by
  by_cases hr : .struct items ∈ entries
  · obtain ⟨voltage, x, heq, hcell⟩ := hv _ hr
    cases heq
    rw [Objects.elements, Objects.elements, hz.zero items hr, hcell]
    rfl
  · exact elements_same (hz.other items hr)

/-- Variables hold what they held. -/
theorem Zeroes.held (hz : Zeroes entries H H') (hv : H.Voltages entries) (v : Variable Var)
    (h : Handle) : H'.held v h = H.held v h := by
  have halike := hz.alike hv
  have hstored : ∀ point, H'.stored point = H.stored point := by
    intro point
    have hkeys : H'.pointKeys point = H.pointKeys point := halike.arrayOf point _ _
    have hvalues : H'.pointValues point = H.pointValues point := halike.arrayOf point _ _
    simp only [stored, hkeys, hvalues, hz.elements hv]
  cases v with
  | gate x | voltage x => rfl
  | point x => exact hstored h
  | axis x =>
    have hoffset : H'.axisOffset h = H.axisOffset h := halike.getStructField h _
    simp only [Objects.held, hoffset, hstored]

theorem Zeroes.typed (hz : Zeroes entries H H') (hv : H.Voltages entries) {v : Variable Var}
    {h : Handle} (ht : H.Typed v h) : H'.Typed v h := by
  have halike := hz.alike hv
  have hpoint : ∀ {point keys values : Handle} {gates entries : List (RuntimeValue R)},
      PointAt H point keys values gates entries → PointAt H' point keys values gates entries :=
    fun hp => hp.alike halike ((hz.elements hv _).trans hp.gates_eq)
      ((hz.elements hv _).trans hp.entries_eq) (halike.voltages hp.voltages)
  cases v with
  | gate x =>
    obtain ⟨name, hname⟩ := ht
    refine ⟨name, ?_⟩
    rcases halike h with hsame | ⟨_, _, _, _, hold, _⟩ | ⟨x, _, hold, _⟩
    · exact hsame.trans hname
    · rw [hname] at hold
      cases hold
    · rw [hname] at hold
      simp [Object.gate, Object.voltage] at hold
  | voltage x =>
    obtain ⟨y, hy⟩ := ht
    exact halike.voltage hy
  | point x =>
    obtain ⟨keys, values, gates, es, hp⟩ := ht
    exact ⟨keys, values, gates, es, hpoint hp⟩
  | axis x =>
    obtain ⟨point, keys, values, gates, es, ha⟩ := ht
    exact ⟨point, keys, values, gates, es, ha.alike halike (hpoint ha.at_point)⟩

end Objects

namespace Family
variable {Var R : Type} [DecidableEq Var] [Field R] {s : Family Var R} {x : Var} {axis : Handle}
  {H : Objects R} {entries : List (RuntimeValue R)}

omit [DecidableEq Var] in
theorem Inv.zeroes (hs : Inv s) (hz : Objects.Zeroes entries s.objects H)
    (hv : s.objects.Voltages entries) : Inv ⟨H, s.env⟩ := by
  have hcell : ∀ r, H.cell r = s.objects.cell r ∨
      (∃ x, s.objects.cell r = .voltage x) ∧ H.cell r = .voltage 0 := by
    intro r
    by_cases hr : .struct r ∈ entries
    · obtain ⟨voltage, x, heq, hcell⟩ := hv _ hr
      cases heq
      exact .inr ⟨⟨x, hcell⟩, hz.zero r hr⟩
    · exact .inl (hz.other r hr)
  have hrefs : ∀ r, (H.cell r).refs = (s.objects.cell r).refs := by
    intro r
    rcases hcell r with hsame | ⟨⟨x, hold⟩, hnew⟩
    · rw [hsame]
    · rw [hold, hnew, Object.refs_voltage, Object.refs_voltage]
  constructor
  case sound =>
    intro r hr r' hmem
    rw [hrefs] at hmem
    rw [hz.next_eq] at hr ⊢
    exact hs.sound r hr r' hmem
  case typed =>
    intro v h hvar
    obtain ⟨hlt, ht⟩ := hs.typed v h hvar
    exact ⟨hz.next_eq ▸ hlt, hz.typed hv ht⟩
  case apart =>
    intro v w a b hvo hwo hne ha hb
    refine (hs.apart v w a b hvo hwo hne ha hb).alike hz.next_eq hrefs ?_
    intro r hf
    rcases hcell r with hsame | ⟨_, hnew⟩
    · rw [hsame]
      exact hf
    · exact .inr ⟨0, hnew⟩

omit [DecidableEq Var] in
/-- `ZeroOffsets` zeroes the voltages that the axis stores. -/
theorem zeroOffsets_ok (hs : Inv s) (hx : s.env (.axis x) = some axis) :
    ∃ H gates entries, s.objects.zeroOffsets axis = .ok H ∧
      s.objects.held (.axis x) axis = .ok (gates, entries) ∧ s.objects.Voltages entries ∧
      Objects.Zeroes entries s.objects H := by
  obtain ⟨_, point, keys, values, gates, entries, ha⟩ := hs.typed _ _ hx
  have hp := ha.at_point
  obtain ⟨H, hloop, hz⟩ := Objects.zeroEntries_ok hp.voltages
  refine ⟨H, gates, entries, ?_, ?_, hp.voltages, hz⟩
  · rw [Objects.zeroOffsets, ha.offset_eq]
    simp only [bind, Except.bind, hp.values_eq, hp.entries_eq]
    exact hloop
  · rw [Objects.held, ha.offset_eq]
    exact hp.stored_eq

omit [DecidableEq Var] in
/-- Seen from the other variables, a voltage that becomes zero was zero. -/
theorem zeroesLocally_iff (hs : Inv s) (hx : s.env (.axis x) = some axis) :
    s.ZeroesLocally x axis ↔ s.SharedAreZero x axis := by
  obtain ⟨H, gates, entries, hcall, hheld, hv, hz⟩ := zeroOffsets_ok hs hx
  have halike := hz.alike hv
  have hzero : ∀ voltage, .struct voltage ∈ entries → H.voltageValue voltage = .ok 0 :=
    fun voltage hmem => Objects.voltageValue_of (hz.zero voltage hmem)
  constructor
  · intro hmeets w h voltage hw henv hother hthis
    obtain ⟨H', _, _, hcall', _, _, hunchanged⟩ := hmeets
    obtain rfl := Except.ok.inj (hcall.symm.trans hcall')
    obtain ⟨gs, es, hheldw, hmem⟩ := hother
    obtain ⟨_, _, hheldx, hmemx⟩ := hthis
    cases hheld.symm.trans hheldx
    obtain ⟨_, _, hheldw', hvw, _⟩ := (hs.typed w h henv).2.held_ok
    cases hheldw.symm.trans hheldw'
    have hread := (Objects.observe_eq_iff hheldw hvw ((hz.held hv w h).trans hheldw)
      (halike.voltages hvw)).mp (hunchanged w h hw henv) _ hmem
    exact hread.symm.trans (hzero voltage hmemx)
  · intro hshared
    obtain ⟨voltages, hvoltages, hlen⟩ := mapM_returns hv.readEntry_ok
    refine ⟨H, gates, voltages, hcall, ?_, ?_, ?_⟩
    · rw [Objects.observe_of_held hheld, hvoltages]
      rfl
    · have hzeros : entries.mapM H.readEntry = .ok (entries.map fun _ => 0) := by
        refine mapM_const fun e he => ?_
        obtain ⟨voltage, _, rfl, _⟩ := hv e he
        exact hzero voltage he
      rw [Objects.observe_of_held ((hz.held hv _ axis).trans hheld), hzeros]
      simp [bind, Except.bind, List.map_const', hlen]
    · intro w h hw henv
      obtain ⟨gs, es, hheldw, hvw, _⟩ := (hs.typed w h henv).2.held_ok
      refine (Objects.observe_eq_iff hheldw hvw ((hz.held hv w h).trans hheldw)
        (halike.voltages hvw)).mpr fun e he => ?_
      obtain ⟨voltage, y, rfl, hcell⟩ := hvw e he
      by_cases hmem : .struct voltage ∈ entries
      · have hold := hshared w h voltage hw henv ⟨gs, es, hheldw, he⟩ ⟨gates, entries, hheld, hmem⟩
        exact (hzero voltage hmem).trans hold.symm
      · have hkept := (hz.other voltage hmem).trans hcell
        exact (Objects.voltageValue_of hkept).trans (Objects.voltageValue_of hcell).symm

/-! ### Programs -/

variable {same : Objects R → RuntimeValue R → RuntimeValue R → Bool} {s' : Family Var R}

theorem Inv.exec (hs : Inv s) (stmt : Stmt Var R) : Returns (s.exec same stmt) Inv := by
  cases stmt with
  | newGate y name =>
    apply Returns.ok
    apply hs.assign (fun side ho => Objects.made_makeShared ho (by simp))
    exact ⟨name, Heap.alloc_cell_new s.objects _⟩
  | newVoltage y value =>
    apply Returns.ok
    apply hs.assign (fun side ho => Objects.newVoltage_new ho value)
    exact ⟨value, Heap.alloc_cell_new s.objects _⟩
  | newPoint y =>
    apply Returns.ok
    apply hs.assign (fun side ho => Objects.newPoint_new ho)
    exact ⟨_, _, _, _, Objects.newPoint_at s.objects⟩
  | newAxis y =>
    apply Returns.ok
    apply hs.assign (fun side ho => Objects.newAxis_new ho)
    exact ⟨_, _, _, _, _, Objects.newAxis_at s.objects⟩
  | pointSet _ _ _ | extendDomain _ _ _ _ | setOffset _ _ _ | shiftOffset _ _ _ =>
    apply (exec_receiver hs rfl).mono
    intro s' h
    obtain ⟨hown, henv, root, hroot, hstep, htyped⟩ := h
    obtain ⟨hs', _⟩ := hs.replaces hown hroot hstep htyped
    rw [← henv] at hs'
    exact hs'
  | zeroOffsets y =>
    apply Returns.bind (returns_get hs _)
    intro axis h
    obtain ⟨haxis, _⟩ := h
    obtain ⟨H, _, _, hcall, _, hv, hz⟩ := zeroOffsets_ok hs haxis
    apply Returns.bind_ok hcall
    exact .ok (hs.zeroes hz hv)

theorem Inv.run (program : List (Stmt Var R)) : Returns (run same program) Inv :=
  Returns.foldlM (fun stmt _ _ hs => hs.exec stmt) inv_start

/-- After any program, `ZeroOffsets` on an axis is local exactly when the voltages it
shares are zero; the modifiers that replace are always local. -/
theorem zeroOffsets_local_iff {program : List (Stmt Var R)} (hrun : run same program = .ok s) :
    (∀ x axis, s.env (.axis x) = some axis → (s.ZeroesLocally x axis ↔ s.SharedAreZero x axis)) ∧
      ∀ stmt v s', stmt.receiver = some v → s.exec same stmt = .ok s' →
        s.Unchanged v s'.objects := by
  have hs := (Inv.run program).of_ok s hrun
  refine ⟨fun x axis hx => zeroesLocally_iff hs hx, ?_⟩
  intro stmt v s' hv hexec
  obtain ⟨hown, _, root, hroot, hstep, htyped⟩ := (exec_receiver hs hv).of_ok s' hexec
  exact (hs.replaces hown hroot hstep htyped).2

/-- An axis whose offset the caller still holds. -/
def sharedOffset : List (Stmt Nat ℚ) :=
  [.newGate 0 "P1", .newVoltage 0 5, .newAxis 0, .setOffset 0 0 0]

/-- The same with a voltage that is zero. -/
def sharedZero : List (Stmt Nat ℚ) :=
  [.newGate 0 "P1", .newVoltage 0 0, .newAxis 0, .setOffset 0 0 0]

/-- A shared voltage may be zero, and is written otherwise. -/
theorem zeroOffsets_local_iff_shared :
    (∃ s axis, run Objects.sameName sharedZero = .ok s ∧ s.env (.axis 0) = some axis ∧
      s.ZeroesLocally 0 axis) ∧
    ∃ s axis, run Objects.sameName sharedOffset = .ok s ∧ s.env (.axis 0) = some axis ∧
      ¬ s.ZeroesLocally 0 axis := by
  constructor
  · have hrun : run Objects.sameName sharedZero = .ok _ := rfl
    refine ⟨_, _, hrun, rfl, ((zeroOffsets_local_iff hrun).1 0 _ rfl).mpr ?_⟩
    intro w h voltage hne henv hholds _
    obtain ⟨gates, entries, hheld, hmem⟩ := hholds
    rcases w with n | n | n | n
    · cases hheld
      cases hmem
    · cases hheld
      obtain rfl : voltage = h := by
        cases List.mem_singleton.mp hmem
        rfl
      rcases n with _ | n
      · obtain rfl := Option.some.inj henv
        rfl
      · cases henv
    · cases henv
    · rcases n with _ | n
      · exact absurd rfl hne
      · cases henv
  · have hrun : run Objects.sameName sharedOffset = .ok _ := rfl
    refine ⟨_, _, hrun, rfl, fun hlocal => ?_⟩
    have hshared := ((zeroOffsets_local_iff hrun).1 0 _ rfl).mp hlocal
    have hvalue := hshared (.voltage 0) _ _ (by decide) rfl
      ⟨[], _, rfl, List.mem_singleton_self _⟩ ⟨_, _, rfl, List.mem_singleton_self _⟩
    cases hvalue

/-- The caller's voltage is 5 volts before the call and 0 after it. -/
theorem zeroOffsets_writes_shared :
    ∃ s axis, run Objects.sameName sharedOffset = .ok s ∧ s.env (.axis 0) = some axis ∧
      ¬ s.ZeroesLocally 0 axis := by
  have hvalues : (do
      let s ← run Objects.sameName sharedOffset
      let axis ← s.get (.axis 0)
      let voltage ← s.get (.voltage 0)
      let before ← s.objects.voltageValue voltage
      let H ← s.objects.zeroOffsets axis
      let after ← H.voltageValue voltage
      .ok (before, after)) = .ok (5, 0) := by decide
  obtain ⟨s, hrun, hvalues⟩ := bind_ok_iff.mp hvalues
  obtain ⟨axis, haxis, hvalues⟩ := bind_ok_iff.mp hvalues
  obtain ⟨voltage, hvoltage, hvalues⟩ := bind_ok_iff.mp hvalues
  obtain ⟨before, hbefore, hvalues⟩ := bind_ok_iff.mp hvalues
  obtain ⟨H, hcall, hvalues⟩ := bind_ok_iff.mp hvalues
  obtain ⟨after, hafter, hvalues⟩ := bind_ok_iff.mp hvalues
  cases hvalues
  refine ⟨s, axis, hrun, get_ok haxis, ?_⟩
  intro h
  obtain ⟨H', _, _, hcall', _, _, hunchanged⟩ := h
  obtain rfl := Except.ok.inj (hcall.symm.trans hcall')
  have hsame := hunchanged (.voltage 0) voltage (by decide) (get_ok hvoltage)
  rw [Objects.observe_voltage hafter, Objects.observe_voltage hbefore] at hsame
  cases hsame

end Family

end FalconStd.Control
