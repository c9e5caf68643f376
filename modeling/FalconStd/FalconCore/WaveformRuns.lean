import FalconStd.FalconCore.WaveformStore

/-! Waveforms as lists of values.

To its user a waveform is a list of transforms, and a variable a transform. The store
reads so along a run exactly as long as no `SetIndex` changes an object that a variable
or another position holds (`reads_as_values_iff`). Such objects come from the arrays that
constructors are given: without them the lists are lists of values
(`reads_as_values_of_copies`). -/
namespace FalconStd.FalconCore
open Foundation

variable {X W T : Type}

/-- What the names stand for, object identities forgotten. -/
structure WaveformValues (X W T : Type) where
  transform : X → T
  waveform : W → List T

/-- The index is one of the list, and the cast to `int32_t` keeps it. -/
def Position (index : Int64) (bound : Nat) : Prop :=
  Waveform.Inside index bound ∧ index.toInt < 2 ^ 31

theorem Position.toNat_lt {index : Int64} {bound : Nat} (h : Position index bound) :
    index.toInt.toNat < bound := by
  have := h.1.1
  have := h.1.2
  omega

namespace WaveformValues

/-- The index of a call is a position of its list. -/
def InRange (v : WaveformValues X W T) : WaveformStore.Call X W T → Prop
  | .getIndex _ w index => Position index (v.waveform w).length
  | .setIndex w index _ => Position index (v.waveform w).length
  | .insert w index _ => Position index ((v.waveform w).length + 1)
  | .erase w index => Position index (v.waveform w).length
  | _ => True

variable [DecidableEq X] [DecidableEq W]

def hold (v : WaveformValues X W T) (x : X) (value : T) : WaveformValues X W T :=
  { v with transform := Function.update v.transform x value }

def put (v : WaveformValues X W T) (w : W) (values : List T) : WaveformValues X W T :=
  { v with waveform := Function.update v.waveform w values }

/-- What a call does to values, `none` where it raises: at an index that is no position
of the list, and when the last element of an empty list is to be taken. -/
def call (v : WaveformValues X W T) : WaveformStore.Call X W T → Option (WaveformValues X W T)
  | .construct x value => some (v.hold x value)
  | .assign x y => some (v.hold x (v.transform y))
  | .new w transforms => some (v.put w (transforms.map v.transform))
  | .newIdentity w values => some (v.put w values)
  | .getIndex x w index =>
    if 0 ≤ index.toInt then (v.waveform w)[index.toInt.toNat]?.map (v.hold x) else none
  | .setIndex w index x =>
    if Waveform.Inside index (v.waveform w).length then
      some (v.put w ((v.waveform w).set index.toInt.toNat (v.transform x)))
    else none
  | .pushBack w x => some (v.put w (v.waveform w ++ [v.transform x]))
  | .popBack x w =>
    (v.waveform w).getLast?.map fun last => (v.put w (v.waveform w).dropLast).hold x last
  | .insert w index x =>
    if Waveform.Inside index ((v.waveform w).length + 1) then
      some (v.put w ((v.waveform w).insertIdx index.toInt.toNat (v.transform x)))
    else none
  | .erase w index =>
    if Waveform.Inside index (v.waveform w).length then
      some (v.put w ((v.waveform w).eraseIdx index.toInt.toNat))
    else none
  | .clear w => some (v.put w [])

def next (v : WaveformValues X W T) (c : WaveformStore.Call X W T) : WaveformValues X W T :=
  (v.call c).getD v

def after (v : WaveformValues X W T) (calls : List (WaveformStore.Call X W T)) :
    WaveformValues X W T :=
  run next v calls

end WaveformValues

namespace WaveformStore
variable {s s' : WaveformStore X W T}

def read (s : WaveformStore X W T) : WaveformValues X W T := ⟨s.value, fun w => (s.view w).values⟩

/-! ### What the updates read as -/

section Named
variable [DecidableEq X] [DecidableEq W]

omit [DecidableEq W] in
theorem read_hold (s : WaveformStore X W T) (x : X) {r : Handle} (hr : r < s.heap.next) :
    (s.hold x r hr).read = s.read.hold x (s.heap.cell r) := by
  have htransform : (s.hold x r hr).value = Function.update s.value x (s.heap.cell r) := by
    funext y
    by_cases hy : y = x
    · subst hy
      simp [value, hold]
    · simp [value, hold, hy]
  rw [read, htransform]
  rfl

omit [DecidableEq X] in
theorem read_put (s : WaveformStore X W T) (w : W) {handles : List Handle}
    (hhandles : ∀ r ∈ handles, r < s.heap.next) :
    (s.put w handles hhandles).read = s.read.put w (handles.map s.heap.cell) := by
  have hwaveform : (fun v => ((s.put w handles hhandles).view v).values) =
      Function.update (fun v => (s.view v).values) w (handles.map s.heap.cell) := by
    funext v
    by_cases hv : v = w
    · subst hv
      simp [view, put, Waveform.values]
    · simp [view, put, Waveform.values, hv]
  rw [read, hwaveform]
  rfl

end Named

/-- Cells that the program's names point to are all that is read. -/
theorem read_heap {heap : Heap T} {bound allocated}
    (hcell : ∀ r < s.heap.next, heap.cell r = s.heap.cell r) :
    (⟨heap, s.transform, s.waveform, bound, allocated⟩ : WaveformStore X W T).read = s.read := by
  have htransform : ∀ x, heap.cell (s.transform x) = s.value x := fun x => hcell _ (s.bound x)
  have hwaveform : ∀ w, (s.waveform w).map heap.cell = (s.view w).values :=
    fun w => List.map_congr_left fun r hr => hcell r (s.allocated w r hr)
  exact congrArg₂ WaveformValues.mk (funext htransform) (funext hwaveform)

theorem read_alloc (s : WaveformStore X W T) (value : T) : (s.alloc value).read = s.read :=
  read_heap fun _ hr => Heap.alloc_cell_old s.heap value hr

theorem read_allocAll (s : WaveformStore X W T) (values : List T) :
    (s.allocAll values).read = s.read :=
  read_heap fun _ hr => Heap.allocAll_cell_old s.heap values hr

/-! ### Writing an object -/

/-- No variable and no other position has the object. -/
def HeldOnce (s : WaveformStore X W T) (w : W) (i : Nat) (r : Handle) : Prop :=
  (∀ x, s.transform x ≠ r) ∧ ∀ v j, (s.waveform v)[j]? = some r → v = w ∧ j = i

theorem write_value (s : WaveformStore X W T) (r : Handle) (value : T) (x : X) :
    (s.write r value).value x = if s.transform x = r then value else s.value x := by
  by_cases hx : s.transform x = r
  · rw [if_pos hx, ← hx]
    exact Heap.write_cell_same _ _ _
  · rw [if_neg hx]
    exact Heap.write_cell_ne _ _ hx

theorem write_values (s : WaveformStore X W T) (r : Handle) (value : T) (w : W) (i : Nat) :
    ((s.write r value).view w).values[i]? =
      (s.waveform w)[i]?.map fun r' => if r' = r then value else s.heap.cell r' :=
  Waveform.values_write_getElem? (s.view w) r value i

theorem values_at {w : W} {i : Nat} {r : Handle} (hr : (s.waveform w)[i]? = some r) :
    (s.view w).values[i]? = some (s.heap.cell r) := by
  have hview : (s.view w).transforms[i]? = some r := hr
  rw [Waveform.values_getElem?, hview]
  rfl

section Write
variable [DecidableEq W] {w : W} {i : Nat} {r : Handle}

/-- An object that is held once is written at its own position. -/
theorem write_read_of_heldOnce (hr : (s.waveform w)[i]? = some r) (hheld : s.HeldOnce w i r)
    (value : T) : (s.write r value).read = s.read.put w ((s.view w).values.set i value) := by
  have hlt : i < (s.view w).values.length := (List.getElem?_eq_some_iff.mp (values_at hr)).1
  have htransform : (s.write r value).value = s.value := by
    funext x
    rw [write_value, if_neg (hheld.1 x)]
  have hwaveform : (fun v => ((s.write r value).view v).values) =
      Function.update (fun v => (s.view v).values) w ((s.view w).values.set i value) := by
    funext v
    refine List.ext_getElem? fun j => ?_
    rw [write_values]
    by_cases hv : v = w
    · subst hv
      rw [Function.update_self, List.getElem?_set]
      by_cases hij : i = j
      · subst hij
        rw [if_pos rfl, if_pos hlt, hr, Option.map_some, if_pos rfl]
      · rw [if_neg hij, Waveform.values_getElem?]
        cases hj : (s.waveform v)[j]? with
        | none => simp [view, hj]
        | some r' =>
          have hne : r' ≠ r := fun h => hij (hheld.2 v j (h ▸ hj)).2.symm
          simp [view, hj, hne]
    · rw [Function.update_of_ne hv, Waveform.values_getElem?]
      cases hj : (s.waveform v)[j]? with
      | none => simp [view, hj]
      | some r' =>
        have hne : r' ≠ r := fun h => hv (hheld.2 v j (h ▸ hj)).1
        simp [view, hj, hne]
  exact congrArg₂ WaveformValues.mk htransform hwaveform

/-- Writing what an object has changes nothing. -/
theorem write_read_of_same (hr : (s.waveform w)[i]? = some r) :
    (s.write r (s.heap.cell r)).read = s.read.put w ((s.view w).values.set i (s.heap.cell r)) := by
  have hset : (s.view w).values.set i (s.heap.cell r) = (s.view w).values := by
    obtain ⟨hlt, hvalue⟩ := List.getElem?_eq_some_iff.mp (values_at hr)
    rw [← hvalue, List.set_getElem_self]
  have hput : s.read.put w (s.view w).values = s.read :=
    congrArg (WaveformValues.mk s.value) (Function.update_eq_self w fun v => (s.view v).values)
  have hwrite : s.write r (s.heap.cell r) = s := by simp [write]
  rw [hset, hwrite, hput]

/-- **One write** changes the position it is at alone, if the object is held once or has
the value. -/
theorem write_read_iff (hr : (s.waveform w)[i]? = some r) (value : T) :
    (s.write r value).read = s.read.put w ((s.view w).values.set i value) ↔
      s.heap.cell r = value ∨ s.HeldOnce w i r := by
  constructor
  · intro hread
    by_cases hsame : s.heap.cell r = value
    · exact .inl hsame
    · refine .inr ⟨fun x hx => ?_, fun v j hj => ?_⟩
      · have hvalue := congrFun (congrArg WaveformValues.transform hread) x
        have hwritten : (s.write r value).value x = value := by rw [write_value, if_pos hx]
        have hold : s.value x = s.heap.cell r := congrArg s.heap.cell hx
        exact hsame (hold.symm.trans (hvalue.symm.trans hwritten))
      · have hvalues := congrFun (congrArg WaveformValues.waveform hread) v
        have hwritten : ((s.write r value).view v).values[j]? = some value := by
          rw [write_values, hj, Option.map_some, if_pos rfl]
        have hold := values_at hj
        have hput : (Function.update (fun v => (s.view v).values) w
            ((s.view w).values.set i value) v)[j]? = some value :=
          (congrArg (·[j]?) hvalues).symm.trans hwritten
        by_cases hv : v = w
        · subst hv
          refine ⟨rfl, ?_⟩
          by_contra hij
          rw [Function.update_self, List.getElem?_set_ne fun h => hij h.symm, hold] at hput
          exact hsame (Option.some.inj hput)
        · rw [Function.update_of_ne hv, hold] at hput
          exact absurd (Option.some.inj hput) hsame
  · intro h
    rcases h with rfl | hheld
    · exact write_read_of_same hr
    · exact write_read_of_heldOnce hr hheld value

end Write

/-! ### One call -/

variable [DecidableEq X] [DecidableEq W]

/-- What `SetIndex` writes is held once, or has the value already. -/
def WritesAlone (s : WaveformStore X W T) : Call X W T → Prop
  | .setIndex w index x => ∀ r, (s.waveform w)[index.toInt.toNat]? = some r →
      s.heap.cell r = s.value x ∨ s.HeldOnce w index.toInt.toNat r
  | _ => True

/-- The call returns and leaves what it leaves of the values, or both raise. -/
def Follows (s : WaveformStore X W T) (v : WaveformValues X W T) (c : Call X W T) : Prop :=
  (∃ s', s.call c = .ok s' ∧ v.call c = some s'.read) ∨
    ∃ message, s.call c = .error (.raised message) ∧ v.call c = none

theorem Follows.next_read {v : WaveformValues X W T} {c : Call X W T} (h : s.Follows v c)
    (hv : s.read = v) : (s.next c).read = v.next c := by
  rcases h with ⟨s', hcall, hvalues⟩ | ⟨message, hcall, hvalues⟩
  · rw [next, hcall, WaveformValues.next, hvalues]
    rfl
  · rw [next, hcall, WaveformValues.next, hvalues]
    exact hv

section Indexed
variable {w : W} {index : Int64}

omit [DecidableEq X] [DecidableEq W] in
theorem length_values (s : WaveformStore X W T) (w : W) :
    (s.read.waveform w).length = (s.waveform w).length :=
  List.length_map _

omit [DecidableEq X] [DecidableEq W] in
/-- The object at a position. -/
theorem deref_position (h : Position index (s.read.waveform w).length) :
    ∃ r, (s.waveform w)[index.toInt.toNat]? = some r ∧ (s.view w).deref index = .ok r := by
  rw [length_values] at h
  have hr := List.getElem?_eq_getElem h.toNat_lt
  exact ⟨_, hr, Waveform.deref_of_some (Waveform.truncated_of_lt h.1.1 h.2) hr⟩

theorem follows_getIndex (h : Position index (s.read.waveform w).length) (x : X) :
    s.Follows s.read (.getIndex x w index) := by
  obtain ⟨r, hr, hderef⟩ := deref_position h
  have hget : (s.view w).getIndex index = .ok (s.heap.cell r) := by
    rw [Waveform.getIndex, hderef]
    rfl
  refine .inl ⟨(s.alloc (s.heap.cell r)).hold x s.heap.next (s.lt_alloc _), ?_, ?_⟩
  · rw [call, hget]
    rfl
  · have hvalue : (s.read.waveform w)[index.toInt.toNat]? = some (s.heap.cell r) := values_at hr
    have hcell : (s.alloc (s.heap.cell r)).heap.cell s.heap.next = s.heap.cell r :=
      Heap.alloc_cell_new s.heap _
    rw [WaveformValues.call, if_pos h.1.1, hvalue, read_hold, read_alloc, hcell]
    rfl

/-- `SetIndex` is the routine that may not follow the values. -/
theorem follows_setIndex_iff (h : Position index (s.read.waveform w).length) (x : X) :
    s.Follows s.read (.setIndex w index x) ↔ s.WritesAlone (.setIndex w index x) := by
  obtain ⟨r, hr, hderef⟩ := deref_position h
  have hcall : s.call (.setIndex w index x) = .ok (s.write r (s.value x)) := by
    rw [call, hderef]
    rfl
  have hvalues : s.read.call (.setIndex w index x) =
      some (s.read.put w ((s.view w).values.set index.toInt.toNat (s.value x))) := by
    rw [WaveformValues.call, if_pos h.1]
    rfl
  have halone : s.WritesAlone (.setIndex w index x) ↔
      s.heap.cell r = s.value x ∨ s.HeldOnce w index.toInt.toNat r := by
    refine ⟨fun halone => halone r hr, fun halone r' hr' => ?_⟩
    obtain rfl : r = r' := Option.some.inj (hr.symm.trans hr')
    exact halone
  rw [halone, ← write_read_iff hr, Follows, hcall, hvalues]
  constructor
  · intro hfollows
    rcases hfollows with ⟨s', hs', hread⟩ | ⟨message, hraised, -⟩
    · cases hs'
      exact (Option.some.inj hread).symm
    · cases hraised
  · intro hread
    exact .inl ⟨_, rfl, congrArg some hread.symm⟩

theorem follows_pushBack (s : WaveformStore X W T) (w : W) (x : X) :
    s.Follows s.read (.pushBack w x) := by
  refine .inl ⟨_, rfl, ?_⟩
  have hvalues : (s.waveform w ++ [s.heap.next]).map (s.alloc (s.value x)).heap.cell =
      s.read.waveform w ++ [s.read.transform x] := by
    have hold : (s.waveform w).map (s.alloc (s.value x)).heap.cell = s.read.waveform w :=
      congrFun (congrArg WaveformValues.waveform (read_alloc s (s.value x))) w
    rw [List.map_append, hold, List.map_singleton]
    exact congrArg (_ ++ [·]) (Heap.alloc_cell_new s.heap _)
  rw [read_put, read_alloc, hvalues]
  rfl

theorem follows_popBack (s : WaveformStore X W T) (x : X) (w : W) :
    s.Follows s.read (.popBack x w) := by
  have hlast : (s.read.waveform w).getLast? = (s.waveform w).getLast?.map s.heap.cell :=
    List.getLast?_map
  simp only [Follows, call]
  split
  case h_1 hnone =>
    refine .inr ⟨_, rfl, ?_⟩
    rw [WaveformValues.call, hlast, hnone]
    rfl
  case h_2 last hsome =>
    have hvalues : s.read.call (.popBack x w) =
        some ((s.read.put w (s.read.waveform w).dropLast).hold x (s.heap.cell last)) := by
      rw [WaveformValues.call, hlast, hsome]
      rfl
    have hinit : (s.waveform w).dropLast.map s.heap.cell = (s.read.waveform w).dropLast :=
      List.map_dropLast
    refine .inl ⟨_, rfl, hvalues.trans ?_⟩
    rw [read_hold, read_put, hinit]
    rfl

theorem follows_insert (h : Position index ((s.read.waveform w).length + 1)) (x : X) :
    s.Follows s.read (.insert w index x) := by
  have htrunc := Waveform.truncated_of_lt h.1.1 h.2
  have hlt := h.toNat_lt
  have hlen := length_values s w
  have hcall : s.call (.insert w index x) = .ok ((s.alloc (s.value x)).put w
      ((s.waveform w).insertIdx (Waveform.truncated index).toNat s.heap.next)
        (s.mem_insertIdx w _ _)) := by
    rw [call, if_neg (by omega)]
  have hvalues : ((s.waveform w).insertIdx (Waveform.truncated index).toNat s.heap.next).map
      (s.alloc (s.value x)).heap.cell =
        (s.read.waveform w).insertIdx index.toInt.toNat (s.value x) := by
    rw [htrunc, Int.toNat_natCast]
    exact Waveform.values_insert (s.view w) (s.value x) index.toInt.toNat
  refine .inl ⟨_, hcall, ?_⟩
  rw [WaveformValues.call, if_pos h.1, read_put, read_alloc, hvalues]
  rfl

theorem follows_erase (h : Position index (s.read.waveform w).length) :
    s.Follows s.read (.erase w index) := by
  have htrunc := Waveform.truncated_of_lt h.1.1 h.2
  have hlt := h.toNat_lt
  have hlen := length_values s w
  have hcall : s.call (.erase w index) =
      .ok (s.put w ((s.waveform w).eraseIdx (Waveform.truncated index).toNat)
        (s.mem_eraseIdx w _)) := by
    rw [call, if_neg (by omega)]
  have hvalues : ((s.waveform w).eraseIdx (Waveform.truncated index).toNat).map s.heap.cell =
      (s.read.waveform w).eraseIdx index.toInt.toNat := by
    rw [htrunc, Int.toNat_natCast]
    exact (List.eraseIdx_map _ _ _).symm
  refine .inl ⟨_, hcall, ?_⟩
  rw [WaveformValues.call, if_pos h.1, read_put, hvalues]

end Indexed

/-- **One call** at positions of the lists follows the values exactly when it writes
alone. -/
theorem follows_iff {c : Call X W T} (h : s.read.InRange c) :
    s.Follows s.read c ↔ s.WritesAlone c := by
  cases c with
  | construct x value =>
    refine iff_of_true (.inl ⟨_, rfl, ?_⟩) trivial
    have hcell : (s.alloc value).heap.cell s.heap.next = value := Heap.alloc_cell_new s.heap _
    rw [read_hold, read_alloc, hcell]
    rfl
  | assign x y =>
    refine iff_of_true (.inl ⟨_, rfl, ?_⟩) trivial
    rw [read_hold]
    rfl
  | new w transforms =>
    refine iff_of_true (.inl ⟨_, rfl, ?_⟩) trivial
    rw [read_put, List.map_map]
    rfl
  | newIdentity w values =>
    refine iff_of_true (.inl ⟨_, rfl, ?_⟩) trivial
    have hcells : (s.heap.allocAll values).1.map (s.allocAll values).heap.cell = values :=
      Heap.allocAll_cells s.heap values
    rw [read_put, read_allocAll, hcells]
    rfl
  | getIndex x w index => exact iff_of_true (follows_getIndex h x) trivial
  | setIndex w index x => exact follows_setIndex_iff h x
  | pushBack w x => exact iff_of_true (follows_pushBack s w x) trivial
  | popBack x w => exact iff_of_true (follows_popBack s x w) trivial
  | insert w index x => exact iff_of_true (follows_insert h x) trivial
  | erase w index => exact iff_of_true (follows_erase h) trivial
  | clear w =>
    refine iff_of_true (.inl ⟨_, rfl, ?_⟩) trivial
    rw [read_put]
    rfl

/-! ### Runs -/

/-- **The store reads as values** along a run whose indices are positions of the lists,
exactly when every `SetIndex` writes an object that nobody else holds, or the value that
the object has. -/
theorem reads_as_values_iff (s : WaveformStore X W T) (calls : List (Call X W T)) :
    EveryStep (fun past c => (s.read.after past).InRange c ∧
        (s.after past).Follows (s.read.after past) c) calls ↔
      EveryStep (fun past c => (s.read.after past).InRange c ∧
        (s.after past).WritesAlone c) calls := by
  apply everyStep_iff (J := fun past => (s.after past).read = s.read.after past)
  · rfl
  · intro past c hread
    rw [← hread]
    exact and_congr_right follows_iff
  · intro past c hread hc
    have hrange : (s.after past).read.InRange c := hread ▸ hc.1
    have hfollows := (follows_iff hrange).mpr hc.2
    rw [hread] at hfollows
    rw [after, run_concat, WaveformValues.after, run_concat]
    exact hfollows.next_read hread

/-! ### Without objects of the program -/

/-- An object has one position in the lists, or is a variable's. -/
structure Separated (s : WaveformStore X W T) : Prop where
  nodup : ∀ w, (s.waveform w).Nodup
  apart : ∀ w v, w ≠ v → ∀ r ∈ s.waveform w, r ∉ s.waveform v
  own : ∀ w x, s.transform x ∉ s.waveform w

/-- Constructors are given no transforms of the program. -/
def GivesNone : Call X W T → Prop
  | .new _ transforms => transforms = []
  | _ => True

/-- Nobody has the object. -/
def Unheld (s : WaveformStore X W T) (r : Handle) : Prop :=
  (∀ x, s.transform x ≠ r) ∧ ∀ w, r ∉ s.waveform w

omit [DecidableEq X] [DecidableEq W] in
theorem unheld_of_le {r : Handle} (hr : s.heap.next ≤ r) : s.Unheld r := by
  refine ⟨fun x hx => ?_, fun w hw => ?_⟩
  · exact absurd (hx ▸ s.bound x) (Nat.not_lt.mpr hr)
  · exact absurd (s.allocated w r hw) (Nat.not_lt.mpr hr)

omit [DecidableEq X] [DecidableEq W] in
theorem Separated.heldOnce (h : s.Separated) {w : W} {i : Nat} {r : Handle}
    (hr : (s.waveform w)[i]? = some r) : s.HeldOnce w i r := by
  have hmem := List.mem_of_getElem? hr
  refine ⟨fun x hx => h.own w x (hx ▸ hmem), fun v j hj => ?_⟩
  by_cases hv : v = w
  · subst hv
    obtain ⟨hlt, -⟩ := List.getElem?_eq_some_iff.mp hj
    exact ⟨rfl, (List.getElem?_inj hlt (h.nodup v)).mp (hj.trans hr.symm)⟩
  · exact absurd (List.mem_of_getElem? hj) (h.apart w v (fun heq => hv heq.symm) r hmem)

omit [DecidableEq X] [DecidableEq W] in
theorem Separated.writesAlone (h : s.Separated) (c : Call X W T) : s.WritesAlone c := by
  cases c with
  | setIndex w index x => exact fun r hr => .inr (h.heldOnce hr)
  | _ => trivial

omit [DecidableEq W] in
theorem Separated.hold (h : s.Separated) (x : X) {r : Handle} (hr : r < s.heap.next)
    (hout : ∀ w, r ∉ s.waveform w) : (s.hold x r hr).Separated := by
  refine ⟨h.nodup, h.apart, fun w y => ?_⟩
  by_cases hy : y = x
  · subst hy
    simpa [WaveformStore.hold] using hout w
  · simpa [WaveformStore.hold, hy] using h.own w y

omit [DecidableEq X] in
/-- A list keeps its objects, or takes some that nobody has. -/
theorem Separated.put (h : s.Separated) (w : W) {handles : List Handle}
    (hhandles : ∀ r ∈ handles, r < s.heap.next) (hnodup : handles.Nodup)
    (hown : ∀ r ∈ handles, r ∈ s.waveform w ∨ s.Unheld r) :
    (s.put w handles hhandles).Separated := by
  have hother : ∀ v, v ≠ w → ∀ r ∈ handles, r ∉ s.waveform v := by
    intro v hv r hr
    rcases hown r hr with hold | hfresh
    · exact h.apart w v (fun heq => hv heq.symm) r hold
    · exact hfresh.2 v
  constructor
  case nodup =>
    intro v
    by_cases hv : v = w
    · simpa [WaveformStore.put, hv] using hnodup
    · simpa [WaveformStore.put, hv] using h.nodup v
  case apart =>
    intro v u hne r hr
    by_cases hv : v = w
    · have hu : u ≠ w := fun hu => hne (hv.trans hu.symm)
      simp only [WaveformStore.put, hv, Function.update_self, Function.update_of_ne hu] at hr ⊢
      exact hother u hu r hr
    · simp only [WaveformStore.put, Function.update_of_ne hv] at hr ⊢
      by_cases hu : u = w
      · rw [hu, Function.update_self]
        exact fun hmem => hother v hv r hmem hr
      · rw [Function.update_of_ne hu]
        exact h.apart v u hne r hr
  case own =>
    intro v x
    by_cases hv : v = w
    · simp only [WaveformStore.put, hv, Function.update_self]
      intro hmem
      rcases hown _ hmem with hold | hfresh
      · exact h.own w x hold
      · exact hfresh.1 x rfl
    · simp only [WaveformStore.put, Function.update_of_ne hv]
      exact h.own v x

omit [DecidableEq X] in
theorem Separated.put_sublist (h : s.Separated) (w : W) {handles : List Handle}
    (hhandles : ∀ r ∈ handles, r < s.heap.next) (hsub : handles.Sublist (s.waveform w)) :
    (s.put w handles hhandles).Separated :=
  h.put w hhandles ((h.nodup w).sublist hsub) fun _ hr => .inl (hsub.subset hr)

omit [DecidableEq X] in
/-- A list takes a new object. -/
theorem Separated.put_alloc (h : s.Separated) (w : W) (value : T) {handles : List Handle}
    (hhandles : ∀ r ∈ handles, r < (s.alloc value).heap.next)
    (hperm : handles.Perm (s.heap.next :: s.waveform w)) :
    ((s.alloc value).put w handles hhandles).Separated := by
  have hfresh : s.Unheld s.heap.next := unheld_of_le (Nat.le_refl _)
  have hseparated : (s.alloc value).Separated := ⟨h.nodup, h.apart, h.own⟩
  refine hseparated.put w hhandles ?_ fun r hr => ?_
  · exact hperm.nodup_iff.mpr (List.nodup_cons.mpr ⟨hfresh.2 w, h.nodup w⟩)
  · rcases List.mem_cons.mp (hperm.mem_iff.mp hr) with rfl | hold
    · exact .inr hfresh
    · exact .inl hold

omit [DecidableEq W] in
theorem Separated.hold_alloc (h : s.Separated) (x : X) (value : T) :
    ((s.alloc value).hold x s.heap.next (s.lt_alloc value)).Separated := by
  have hseparated : (s.alloc value).Separated := ⟨h.nodup, h.apart, h.own⟩
  have hfresh : s.Unheld s.heap.next := unheld_of_le (Nat.le_refl _)
  exact hseparated.hold x (s.lt_alloc value) hfresh.2

theorem Separated.popBack (h : s.Separated) {x : X} {w : W}
    (hcall : s.call (.popBack x w) = .ok s') : s'.Separated := by
  simp only [call] at hcall
  split at hcall
  case h_1 => cases hcall
  case h_2 last hlast =>
    cases hcall
    have hsplit : s.waveform w = (s.waveform w).dropLast ++ [last] :=
      (List.dropLast_append_getLast? last hlast).symm
    have hout : last ∉ (s.waveform w).dropLast := by
      have hnodup := h.nodup w
      rw [hsplit, List.nodup_append] at hnodup
      exact fun hmem => hnodup.2.2 last hmem last (List.mem_singleton_self _) rfl
    refine (h.put_sublist w _ (List.dropLast_sublist _)).hold x _ fun v => ?_
    by_cases hv : v = w
    · simpa [WaveformStore.put, hv] using hout
    · simpa [WaveformStore.put, hv] using
        h.apart w v (fun heq => hv heq.symm) last (List.mem_of_getLast? hlast)

/-- **Every call** that is given no transforms of the program leaves the lists apart. -/
theorem Separated.call (h : s.Separated) {c : Call X W T} (hc : GivesNone c)
    (hcall : s.call c = .ok s') : s'.Separated := by
  cases c with
  | construct x value =>
    cases hcall
    exact h.hold_alloc x value
  | assign x y =>
    cases hcall
    exact h.hold x (s.bound y) fun w => h.own w y
  | new w transforms =>
    obtain rfl : transforms = [] := hc
    cases hcall
    exact h.put_sublist w (s.mem_map []) (List.nil_sublist _)
  | newIdentity w values =>
    cases hcall
    have hseparated : (s.allocAll values).Separated := ⟨h.nodup, h.apart, h.own⟩
    refine hseparated.put w (s.mem_allocAll values) ?_ fun r hr => .inr ?_
    · rw [Heap.allocAll_fst]
      exact List.nodup_range'
    · rw [Heap.allocAll_fst, List.mem_range'_1] at hr
      have hfresh : s.Unheld r := unheld_of_le hr.1
      exact hfresh
  | getIndex x w index =>
    obtain ⟨value, -, hs'⟩ := bind_ok_iff.mp hcall
    cases hs'
    exact h.hold_alloc x value
  | setIndex w index x =>
    obtain ⟨r, -, hs'⟩ := bind_ok_iff.mp hcall
    cases hs'
    exact ⟨h.nodup, h.apart, h.own⟩
  | pushBack w x =>
    cases hcall
    exact h.put_alloc w _ _ (List.perm_append_singleton _ _)
  | popBack x w => exact h.popBack hcall
  | insert w index x =>
    rw [WaveformStore.call] at hcall
    split at hcall
    case isTrue => cases hcall
    case isFalse hinside =>
      cases hcall
      exact h.put_alloc w _ _ (List.perm_insertIdx _ _ (by omega))
  | erase w index =>
    rw [WaveformStore.call] at hcall
    split at hcall
    case isTrue => cases hcall
    case isFalse =>
      cases hcall
      exact h.put_sublist w _ (List.eraseIdx_sublist _ _)
  | clear w =>
    cases hcall
    exact h.put_sublist w _ (List.nil_sublist _)

theorem Separated.next (h : s.Separated) {c : Call X W T} (hc : GivesNone c) :
    (s.next c).Separated := by
  rw [WaveformStore.next]
  cases hcall : s.call c with
  | error fault => exact h
  | ok s' => exact h.call hc hcall

/-- **Waveforms are lists of values** along every run at positions of the lists, from lists
that hold objects of their own, if no constructor is given transforms of the program. -/
theorem reads_as_values_of_copies (s : WaveformStore X W T) (hs : s.Separated)
    (calls : List (Call X W T)) (hnone : ∀ c ∈ calls, GivesNone c)
    (hrange : EveryStep (fun past c => (s.read.after past).InRange c) calls) :
    EveryStep (fun past c => (s.after past).Follows (s.read.after past) c) calls ∧
      (s.after calls).read = s.read.after calls := by
  let J := fun past => (s.after past).Separated ∧ (s.after past).read = s.read.after past
  let C := fun past c => GivesNone c ∧ (s.read.after past).InRange c
  have hfollows : ∀ past c, J past → C past c → (s.after past).Follows (s.read.after past) c := by
    intro past c hJ hC
    rw [← hJ.2]
    refine (follows_iff ?_).mpr (hJ.1.writesAlone c)
    rw [hJ.2]
    exact hC.2
  have hkeep : ∀ past c, J past → C past c → J (past ++ [c]) := by
    intro past c hJ hC
    have hread := (hfollows past c hJ hC).next_read hJ.2
    refine ⟨?_, ?_⟩
    · rw [after, run_concat]
      exact hJ.1.next hC.1
    · rw [after, run_concat, WaveformValues.after, run_concat]
      exact hread
  have hC : EveryStep C calls := by
    intro past c future hsplit
    exact ⟨hnone c (by simp [hsplit]), hrange past c future hsplit⟩
  refine ⟨?_, (everyStep_invariant (J := J) ⟨hs, rfl⟩ hkeep calls hC).2⟩
  have hboth : EveryStep (fun past c => C past c ∧
      (s.after past).Follows (s.read.after past) c) calls := by
    refine (everyStep_iff (J := J) ⟨hs, rfl⟩ ?_ hkeep calls).mpr hC
    exact fun past c hJ => and_iff_left_of_imp (hfollows past c hJ)
  exact fun past c future hsplit => (hboth past c future hsplit).2

/-- A transform is pushed, another one written over it. -/
theorem reads_as_values_pushed :
    let s : WaveformStore String String Nat :=
      ⟨⟨fun _ => 0, 1⟩, fun _ => 0, fun _ => [], fun _ => Nat.zero_lt_one,
        fun _ _ hr => absurd hr List.not_mem_nil⟩
    let calls : List (Call String String Nat) :=
      [.construct "t" 5, .pushBack "w" "t", .construct "u" 7, .setIndex "w" 0 "u"]
    EveryStep (fun past c => (s.after past).Follows (s.read.after past) c) calls ∧
      (s.after calls).read = s.read.after calls := by
  intro s calls
  have hs : s.Separated := ⟨fun _ => List.nodup_nil, fun _ _ _ _ hr => absurd hr List.not_mem_nil,
    fun _ _ => List.not_mem_nil⟩
  have hnone : ∀ c ∈ calls, GivesNone c := List.forall_mem_cons.mpr ⟨trivial,
    List.forall_mem_cons.mpr ⟨trivial, List.forall_mem_cons.mpr ⟨trivial,
      List.forall_mem_singleton.mpr trivial⟩⟩⟩
  refine reads_as_values_of_copies s hs calls hnone ?_
  have hsplit : calls = ((([] ++ [.construct "t" 5]) ++ [.pushBack "w" "t"]) ++
      [.construct "u" 7]) ++ [.setIndex "w" 0 "u"] := rfl
  rw [hsplit]
  simp only [everyStep_concat]
  have hposition : Position 0 ((s.read.after [.construct "t" 5, .pushBack "w" "t",
      .construct "u" 7]).waveform "w").length := ⟨by decide +kernel, by decide +kernel⟩
  exact ⟨⟨⟨⟨everyStep_nil _, trivial⟩, trivial⟩, trivial⟩, hposition⟩

end WaveformStore

end FalconStd.FalconCore
