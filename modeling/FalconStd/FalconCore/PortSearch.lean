import Mathlib.Data.List.Induction
import FalconStd.FalconCore.PortQuery

/-! What a query finds.

`matches_query` decides whether a port meets every constraint of a query, but it reads
the connection of a port that meets the six constraints before it, also where the port
has none. The two searches stop at the same port. What a query asks for is told by the
setters that built it (`Wanted`): each field's last one is met. -/
namespace FalconStd.FalconCore
open Foundation

variable {K : Core}

namespace PortQuery

/-! ### Constraints -/

/-- The value equals the constraint, if one is set. -/
def Meets {α : Type} [BEq α] (constraint : Option α) (value : α) : Prop :=
  ∀ c, constraint = some c → (value == c) = true

/-- The constraints that are compared before the connection. -/
structure MeetsEarlier (query : PortQuery K) (port : InstrumentPort K) : Prop where
  default_name : Meets query.default_name port.default_name
  instrument_name : Meets query.instrument_name port.instrument_name
  instrument : Meets query.instrument port.instrument_type
  scope : Meets query.scope port.scope
  access : Meets query.access port.access
  characteristic : Meets query.characteristic port.characteristic

/-- The port meets every constraint that is set. -/
structure Satisfies (query : PortQuery K) (port : InstrumentPort K) : Prop
    extends MeetsEarlier query port where
  connection : ∀ c, query.connection = some c →
    ∃ value, port.pseudo_name = some value ∧ (value == c) = true
  unit : Meets query.unit port.units

/-- The constraint on the connection is compared, and there is no connection. -/
structure Dangling (query : PortQuery K) (port : InstrumentPort K) : Prop where
  earlier : MeetsEarlier query port
  constrained : query.connection ≠ none
  absent : port.pseudo_name = none

theorem differs_eq_false_iff {α : Type} [BEq α] {constraint : Option α} {value : α} :
    differs constraint value = false ↔ Meets constraint value := by
  cases constraint <;> simp [differs, Meets, bne]

theorem differs_of_not_meets {α : Type} [BEq α] {constraint : Option α} {value : α}
    (h : ¬ Meets constraint value) : differs constraint value = true := by
  rw [← Bool.not_eq_false, differs_eq_false_iff]
  exact h

/-- The connections are equal, they are not, or there is none to compare. -/
theorem connectionDiffers_cases {α : Type} [BEq α] (constraint pseudo_name : Option α) :
    (∀ c, constraint = some c → ∃ value, pseudo_name = some value ∧ (value == c) = true) ∧
        connectionDiffers constraint pseudo_name = .ok false ∨
      (∃ c value, constraint = some c ∧ pseudo_name = some value ∧ ¬ (value == c) = true) ∧
        connectionDiffers constraint pseudo_name = .ok true ∨
      (constraint ≠ none ∧ pseudo_name = none) ∧
        connectionDiffers constraint pseudo_name = .error .undefined := by
  match constraint, pseudo_name with
  | none, _ => simp [connectionDiffers]
  | some c, none => simp [connectionDiffers]
  | some c, some value =>
    cases heq : value == c <;> simp [connectionDiffers, bne, heq]

/-- A constraint on the connection is met by a connection only. -/
theorem present_of_meets {α : Type} [BEq α] {constraint pseudo_name : Option α}
    (h : ∀ c, constraint = some c → ∃ value, pseudo_name = some value ∧ (value == c) = true)
    (hconstrained : constraint ≠ none) : pseudo_name ≠ none := by
  obtain ⟨c, hc⟩ := Option.ne_none_iff_exists'.mp hconstrained
  obtain ⟨value, hvalue, -⟩ := h c hc
  rw [hvalue]
  exact Option.some_ne_none value

section Cases
variable {query : PortQuery K} {port : InstrumentPort K}

theorem matches_query_of_not_earlier (h : ¬ MeetsEarlier query port) :
    matches_query query port = .ok false := by
  simp only [matches_query, ite_eq_left_iff, Bool.not_eq_true, differs_eq_false_iff]
  intro hdefault hname hinstrument hscope haccess hcharacteristic
  exact absurd ⟨hdefault, hname, hinstrument, hscope, haccess, hcharacteristic⟩ h

theorem matches_query_of_earlier (h : MeetsEarlier query port) :
    matches_query query port = (do
      if ← connectionDiffers query.connection port.pseudo_name then .ok false
      else if differs query.unit port.units then .ok false
      else .ok true) := by
  simp only [matches_query, differs_eq_false_iff.mpr h.default_name,
    differs_eq_false_iff.mpr h.instrument_name, differs_eq_false_iff.mpr h.instrument,
    differs_eq_false_iff.mpr h.scope, differs_eq_false_iff.mpr h.access,
    differs_eq_false_iff.mpr h.characteristic, Bool.false_eq_true, if_false]

/-- A match, no match, and a connection that is not there. -/
theorem matches_query_cases (query : PortQuery K) (port : InstrumentPort K) :
    Satisfies query port ∧ matches_query query port = .ok true ∨
      (¬ Satisfies query port ∧ ¬ Dangling query port) ∧ matches_query query port = .ok false ∨
      Dangling query port ∧ matches_query query port = .error .undefined := by
  by_cases hearlier : MeetsEarlier query port
  · have heq := matches_query_of_earlier hearlier
    rcases connectionDiffers_cases query.connection port.pseudo_name with
      ⟨hmeets, hconn⟩ | ⟨⟨c, value, hc, hvalue, hne⟩, hconn⟩ | ⟨⟨hsome, hnone⟩, hconn⟩
    · have hpresent : ¬ Dangling query port :=
        fun h => present_of_meets hmeets h.constrained h.absent
      rw [hconn] at heq
      by_cases hunit : Meets query.unit port.units
      · refine .inl ⟨⟨hearlier, hmeets, hunit⟩, ?_⟩
        rw [heq, differs_eq_false_iff.mpr hunit]
        rfl
      · refine .inr (.inl ⟨⟨fun h => hunit h.unit, hpresent⟩, ?_⟩)
        rw [heq, differs_of_not_meets hunit]
        rfl
    · have hno : ¬ Satisfies query port := by
        intro h
        obtain ⟨value', hvalue', heq'⟩ := h.connection c hc
        rw [hvalue] at hvalue'
        cases hvalue'
        exact hne heq'
      refine .inr (.inl ⟨⟨hno, fun h => ?_⟩, ?_⟩)
      · simp [h.absent] at hvalue
      · rw [heq, hconn]
        rfl
    · refine .inr (.inr ⟨⟨hearlier, hsome, hnone⟩, ?_⟩)
      rw [heq, hconn]
      rfl
  · refine .inr (.inl ⟨⟨fun h => hearlier h.toMeetsEarlier, fun h => hearlier h.earlier⟩, ?_⟩)
    exact matches_query_of_not_earlier hearlier

/-- What has no connection does not meet a constraint on it. -/
theorem Dangling.not_satisfies (h : Dangling query port) : ¬ Satisfies query port :=
  fun hsat => present_of_meets hsat.connection h.constrained h.absent

theorem matches_query_true_iff : matches_query query port = .ok true ↔ Satisfies query port := by
  rcases matches_query_cases query port with ⟨hsat, heq⟩ | ⟨⟨hno, -⟩, heq⟩ | ⟨hdangling, heq⟩
  · simp [heq, hsat]
  · simp [heq, hno]
  · simp [heq, hdangling.not_satisfies]

theorem matches_query_false_iff :
    matches_query query port = .ok false ↔ ¬ Satisfies query port ∧ ¬ Dangling query port := by
  rcases matches_query_cases query port with ⟨hsat, heq⟩ | ⟨hno, heq⟩ | ⟨hdangling, heq⟩
  · simp [heq, hsat]
  · simp [heq, hno]
  · simp [heq, hdangling]

theorem matches_query_error_iff {failure : NativeFault} :
    matches_query query port = .error failure ↔ Dangling query port ∧ failure = .undefined := by
  rcases matches_query_cases query port with ⟨hsat, heq⟩ | ⟨hno, heq⟩ | ⟨hdangling, heq⟩
  · have hno : ¬ Dangling query port := fun h => h.not_satisfies hsat
    simp [heq, hno]
  · simp [heq, hno.2]
  · simp [heq, hdangling, eq_comm]

end Cases

/-! ### Setters -/

/-- The fields of a query. -/
inductive Field where
  | defaultName
  | connection
  | unit
  | instrumentName
  | access
  | scope
  | instrument
  | characteristic
  deriving DecidableEq

def Setter.field : Setter K → Field
  | .setDefaultName _ => .defaultName
  | .setConnection _ => .connection
  | .setUnit _ => .unit
  | .setInstrumentName _ => .instrumentName
  | .setAccess _ => .access
  | .setScope _ => .scope
  | .setInstrument _ => .instrument
  | .setCharacteristic _ => .characteristic

/-- What a setter asks of a port: the part that it names equals its argument. -/
def Setter.Met : Setter K → InstrumentPort K → Prop
  | .setDefaultName defaultName, port => (port.default_name == defaultName) = true
  | .setConnection conn, port =>
    ∃ value, port.pseudo_name = some value ∧ (value == conn) = true
  | .setUnit unit, port => (port.units == unit) = true
  | .setInstrumentName instrumentName, port => (port.instrument_name == instrumentName) = true
  | .setAccess access, port => (port.access == access) = true
  | .setScope scope, port => (port.scope == scope) = true
  | .setInstrument inst, port => (port.instrument_type == inst) = true
  | .setCharacteristic characteristic, port => (port.characteristic == characteristic) = true

/-- The setter is the last one of its field. -/
def Effective (setters : List (Setter K)) (setter : Setter K) : Prop :=
  ∃ before after, setters = before ++ setter :: after ∧ ∀ other ∈ after, other.field ≠ setter.field

/-- The port meets what the setters ask for, field by field. -/
def Wanted (setters : List (Setter K)) (port : InstrumentPort K) : Prop :=
  ∀ setter, Effective setters setter → setter.Met port

/-- The constraint of the query is the setter's. -/
def Sets (query : PortQuery K) : Setter K → Prop
  | .setDefaultName defaultName => query.default_name = some defaultName
  | .setConnection conn => query.connection = some conn
  | .setUnit unit => query.unit = some unit
  | .setInstrumentName instrumentName => query.instrument_name = some instrumentName
  | .setAccess access => query.access = some access
  | .setScope scope => query.scope = some scope
  | .setInstrument inst => query.instrument = some inst
  | .setCharacteristic characteristic => query.characteristic = some characteristic

/-- **A setter sets its field to its argument, and no other.** -/
theorem sets_set_iff (query : PortQuery K) (setter other : Setter K) :
    (query.set setter).Sets other ↔
      setter = other ∨ setter.field ≠ other.field ∧ query.Sets other := by
  cases setter <;> cases other <;> simp [set, Sets, Setter.field]

theorem not_effective_nil (setter : Setter K) : ¬ Effective [] setter := by
  simp [Effective]

theorem effective_concat_iff (past : List (Setter K)) (setter other : Setter K) :
    Effective (past ++ [setter]) other ↔
      setter = other ∨ setter.field ≠ other.field ∧ Effective past other := by
  constructor
  · intro h
    obtain ⟨before, after, hsplit, hafter⟩ := h
    rcases List.eq_nil_or_concat' after with rfl | ⟨after, last, rfl⟩
    · have hlast := (List.append_inj' hsplit rfl).2
      exact .inl (List.singleton_inj.mp hlast)
    · rw [← List.cons_append, ← List.append_assoc] at hsplit
      obtain ⟨hpast, hlast⟩ := List.append_inj' hsplit rfl
      obtain rfl := List.singleton_inj.mp hlast
      refine .inr ⟨hafter setter (by simp), before, after, hpast, fun t ht => ?_⟩
      exact hafter t (List.mem_append_left _ ht)
  · intro h
    rcases h with rfl | ⟨hfield, before, after, rfl, hafter⟩
    · exact ⟨past, [], rfl, fun t ht => nomatch ht⟩
    · refine ⟨before, after ++ [setter], by simp, fun t ht => ?_⟩
      rcases List.mem_append.mp ht with ht | ht
      · exact hafter t ht
      · rwa [List.mem_singleton.mp ht]

/-- The constraints of a query are those of the setters that built it. -/
theorem sets_built_iff (setters : List (Setter K)) (setter : Setter K) :
    (built setters).Sets setter ↔ Effective setters setter := by
  induction setters using List.reverseRecOn with
  | nil =>
    cases setter <;> simp [built, new, Sets, not_effective_nil]
  | append_singleton past last ih =>
    rw [effective_concat_iff, ← ih, ← sets_set_iff, built, List.foldl_append]
    rfl

theorem satisfies_iff (query : PortQuery K) (port : InstrumentPort K) :
    Satisfies query port ↔ ∀ setter, query.Sets setter → setter.Met port := by
  constructor
  · intro h setter hsets
    cases setter with
    | setDefaultName defaultName => exact h.default_name _ hsets
    | setConnection conn => exact h.connection _ hsets
    | setUnit unit => exact h.unit _ hsets
    | setInstrumentName instrumentName => exact h.instrument_name _ hsets
    | setAccess access => exact h.access _ hsets
    | setScope scope => exact h.scope _ hsets
    | setInstrument inst => exact h.instrument _ hsets
    | setCharacteristic characteristic => exact h.characteristic _ hsets
  · intro h
    refine ⟨⟨fun c hc => ?_, fun c hc => ?_, fun c hc => ?_, fun c hc => ?_, fun c hc => ?_,
      fun c hc => ?_⟩, fun c hc => ?_, fun c hc => ?_⟩
    · exact h (.setDefaultName c) hc
    · exact h (.setInstrumentName c) hc
    · exact h (.setInstrument c) hc
    · exact h (.setScope c) hc
    · exact h (.setAccess c) hc
    · exact h (.setCharacteristic c) hc
    · exact h (.setConnection c) hc
    · exact h (.setUnit c) hc

theorem satisfies_built_iff (setters : List (Setter K)) (port : InstrumentPort K) :
    Satisfies (built setters) port ↔ Wanted setters port := by
  rw [satisfies_iff]
  exact forall_congr' fun setter => by rw [sets_built_iff]

/-- A setter of a further field can only exclude. -/
theorem wanted_of_concat {setters : List (Setter K)} {setter : Setter K}
    {port : InstrumentPort K} (hfresh : ∀ other ∈ setters, other.field ≠ setter.field)
    (h : Wanted (setters ++ [setter]) port) : Wanted setters port := by
  intro other hother
  refine h other ((effective_concat_iff setters setter other).mpr (.inr ⟨?_, hother⟩))
  obtain ⟨before, after, rfl, _⟩ := hother
  exact (hfresh other (by simp)).symm

end PortQuery

/-! ### Searches -/

namespace Ports
open PortQuery
variable {query : PortQuery K} {ports : List (InstrumentPort K)}

theorem found_eq (query : PortQuery K) (ports : List (InstrumentPort K)) :
    found query ports = (search (matches_query query) ports).map Option.isSome := by
  induction ports with
  | nil => rfl
  | cons port rest ih =>
    rw [found, search, ih]
    cases matches_query query port with
    | error failure => rfl
    | ok b => cases b <;> rfl

/-- Both routines do one search, and report it in their own way. -/
theorem findQueryMatch_eq (query : PortQuery K) (ports : List (InstrumentPort K)) :
    findQueryMatch query ports =
      match search (matches_query query) ports with
      | .ok (some port) => .ok port
      | .ok none => .error (.raised "No InstrumentPort matched PortQuery")
      | .error failure => .error failure := by
  induction ports with
  | nil => rfl
  | cons port rest ih =>
    rw [findQueryMatch, search, ih]
    cases matches_query query port with
    | error failure => rfl
    | ok b => cases b <;> rfl

theorem isQueryMatch_eq (query : PortQuery K) (ports : List (InstrumentPort K)) :
    isQueryMatch ports query =
      match search (matches_query query) ports with
      | .ok (some _) => .ok none
      | .ok none => .ok (some ⟨"No InstrumentPort matches query", false⟩)
      | .error (.raised what) => .ok (some ⟨what, false⟩)
      | .error .undefined => .error .undefined := by
  rw [isQueryMatch, found_eq]
  cases search (matches_query query) ports with
  | ok result => cases result <;> rfl
  | error failure => cases failure <;> rfl

theorem findQueryMatch_eq_ok_iff {port : InstrumentPort K} :
    findQueryMatch query ports = .ok port ↔
      search (matches_query query) ports = .ok (some port) := by
  rw [findQueryMatch_eq]
  split <;> simp_all

theorem findQueryMatch_undefined_iff :
    findQueryMatch query ports = .error .undefined ↔
      search (matches_query query) ports = .error .undefined := by
  rw [findQueryMatch_eq]
  split <;> simp_all

theorem isQueryMatch_undefined_iff :
    isQueryMatch ports query = .error .undefined ↔
      search (matches_query query) ports = .error .undefined := by
  rw [isQueryMatch_eq]
  split <;> simp_all

/-- A search fails in one way only. -/
theorem search_error {failure : NativeFault}
    (h : search (matches_query query) ports = .error failure) : failure = .undefined := by
  obtain ⟨port, -, hport⟩ := search_eq_error_iff.mp h
  exact (matches_query_error_iff.mp hport).2

theorem isQueryMatch_eq_none_iff :
    isQueryMatch ports query = .ok none ↔
      ∃ port, search (matches_query query) ports = .ok (some port) := by
  rw [isQueryMatch_eq]
  split <;> simp_all

/-! ### Ports with a connection -/

/-- Every port has a connection to compare. -/
def Connected (ports : List (InstrumentPort K)) : Prop := ∀ port ∈ ports, port.pseudo_name ≠ none

theorem not_dangling (hports : Connected ports) {port : InstrumentPort K} (hport : port ∈ ports) :
    ¬ Dangling query port :=
  fun h => hports port hport h.absent

theorem findQueryMatch_eq_ok_iff_earliest (hports : Connected ports) {port : InstrumentPort K} :
    findQueryMatch query ports = .ok port ↔ Earliest (Satisfies query) ports port := by
  rw [findQueryMatch_eq_ok_iff]
  refine search_eq_some_iff_earliest (fun _ _ => matches_query_true_iff) ?_
  intro other hother
  rw [matches_query_false_iff]
  exact and_iff_left (not_dangling hports hother)

/-- **The searches agree, on the first port that meets what the setters ask for.** A query
without setters finds the first port, and one more setter, of a field that was not set,
never turns a port that did not match into one that does. -/
theorem queries_agree (setters : List (PortQuery.Setter K)) (ports : List (InstrumentPort K))
    (hports : Connected ports) :
    ((∃ port, findQueryMatch (built setters) ports = .ok port) ↔
        isQueryMatch ports (built setters) = .ok none) ∧
      (∀ port, findQueryMatch (built setters) ports = .ok port ↔
        Earliest (Wanted setters) ports port) ∧
      (setters = [] → ∀ first rest, ports = first :: rest →
        findQueryMatch (built setters) ports = .ok first) ∧
      ∀ setter, (∀ other ∈ setters, other.field ≠ setter.field) → ∀ port ∈ ports,
        matches_query (built setters) port = .ok false →
          matches_query (built (setters ++ [setter])) port = .ok false := by
  have hearliest : ∀ port, findQueryMatch (built setters) ports = .ok port ↔
      Earliest (Wanted setters) ports port := by
    intro port
    have hwanted : Wanted setters = Satisfies (built setters) :=
      funext fun port => propext (satisfies_built_iff setters port).symm
    rw [hwanted]
    exact findQueryMatch_eq_ok_iff_earliest hports
  refine ⟨?_, hearliest, ?_, ?_⟩
  · rw [isQueryMatch_eq_none_iff]
    exact exists_congr fun port => findQueryMatch_eq_ok_iff
  · intro hnone first rest hsplit
    rw [hearliest, hsplit]
    refine ⟨[], rest, rfl, ?_, fun port hport => nomatch hport⟩
    rw [← satisfies_built_iff, hnone, satisfies_iff]
    intro setter hsets
    cases setter <;> cases hsets
  · intro setter hfresh port hport hno
    have hfails := mt (satisfies_built_iff setters port).mpr (matches_query_false_iff.mp hno).1
    refine matches_query_false_iff.mpr ⟨fun h => hfails ?_, not_dangling hports hport⟩
    exact wanted_of_concat hfresh ((satisfies_built_iff _ port).mp h)

/-- Parts that are numbers. -/
def numbers : Core where
  Connection := Nat
  SymbolUnit := Nat
  Instrument := Nat
  Scope := Nat
  Access := Nat
  Characteristic := Nat
  connectionEq := inferInstance
  symbolUnitEq := inferInstance
  instrumentEq := inferInstance
  scopeEq := inferInstance
  accessEq := inferInstance
  characteristicEq := inferInstance

def sample (pseudo_name : Option Nat) : InstrumentPort numbers :=
  ⟨"P1", "qdac", (0 : Nat), (0 : Nat), (0 : Nat), (0 : Nat), pseudo_name, (0 : Nat)⟩

def connected (conn : Nat) : List (PortQuery.Setter numbers) := [.setConnection conn]

/-- Of two connections asked for, the later one is looked for. -/
theorem queries_agree_sample :
    findQueryMatch (built (connected 1 ++ connected 2)) [sample (some 1), sample (some 2)] =
        .ok (sample (some 2)) ∧
      isQueryMatch [sample (some 1), sample (some 2)] (built (connected 1 ++ connected 2)) =
        .ok none := by
  have hports : Connected [sample (some 1), sample (some 2)] := by
    intro port hport
    rcases List.mem_cons.mp hport with rfl | hport
    · exact Option.some_ne_none _
    · cases List.mem_singleton.mp hport
      exact Option.some_ne_none _
  obtain ⟨hsame, hearliest, _⟩ := queries_agree (connected 1 ++ connected 2) _ hports
  have hfound := (hearliest (sample (some 2))).mpr ⟨[sample (some 1)], [], rfl, ?_, ?_⟩
  · exact ⟨hfound, hsame.mp ⟨_, hfound⟩⟩
  · intro setter hsetter
    rcases (effective_concat_iff (connected 1) _ setter).mp hsetter with rfl | ⟨hfield, hsetter⟩
    · exact ⟨(2 : Nat), rfl, rfl⟩
    · rcases (effective_concat_iff [] _ setter).mp hsetter with rfl | ⟨_, hsetter⟩
      · exact absurd rfl hfield
      · exact absurd hsetter (not_effective_nil setter)
  · intro port hport hwanted
    obtain rfl := List.mem_singleton.mp hport
    obtain ⟨value, hvalue, heq⟩ := hwanted (.setConnection (2 : Nat))
      ((effective_concat_iff (connected 1) _ _).mpr (.inl rfl))
    cases hvalue
    exact Bool.false_ne_true heq

/-! ### Ports without one -/

/-- No port without a connection is compared up to its connection, unless a port before
it has ended the search. -/
def Guarded (query : PortQuery K) (ports : List (InstrumentPort K)) : Prop :=
  query.connection = none ∨
    ∀ before port after, ports = before ++ port :: after →
      (∀ other ∈ before, ¬ Satisfies query other) → port.pseudo_name = none →
        ¬ MeetsEarlier query port

theorem search_undefined_iff :
    search (matches_query query) ports = .error .undefined ↔ ¬ Guarded query ports := by
  constructor
  · intro h hguard
    obtain ⟨port, ⟨before, after, hsplit, hbefore⟩, hport⟩ := search_eq_error_iff.mp h
    have hdangling := (matches_query_error_iff.mp hport).1
    rcases hguard with hfree | hguard
    · exact hdangling.constrained hfree
    · refine hguard before port after hsplit ?_ hdangling.absent hdangling.earlier
      exact fun other hother => (matches_query_false_iff.mp (hbefore other hother)).1
  · intro h
    simp only [Guarded, not_or, not_forall, not_not] at h
    obtain ⟨hconstrained, before, port, after, rfl, hbefore, habsent, hearlier⟩ := h
    have hport : matches_query query port = .error .undefined :=
      matches_query_error_iff.mpr ⟨⟨hearlier, hconstrained, habsent⟩, rfl⟩
    have hno : ∀ other ∈ before, matches_query query other ≠ .ok true :=
      fun other hother heq => hbefore other hother (matches_query_true_iff.mp heq)
    obtain ⟨failure, hfails⟩ := search_fails hno hport after
    rw [hfails, search_error hfails]

/-- **The searches dereference a connection that is not there exactly when the query
constrains it and a port without one, which meets the six constraints compared before,
comes before any match**; such a port is never a match itself. -/
theorem searches_safe_iff (setters : List (PortQuery.Setter K))
    (ports : List (InstrumentPort K)) :
    (isQueryMatch ports (built setters) ≠ .error .undefined ∧
        findQueryMatch (built setters) ports ≠ .error .undefined ∧
        ∀ port ∈ ports, (built setters).connection ≠ none → port.pseudo_name = none →
          matches_query (built setters) port ≠ .ok true) ↔
      Guarded (built setters) ports := by
  have hsearch : search (matches_query (built setters)) ports = .error .undefined ↔
      ¬ Guarded (built setters) ports := search_undefined_iff
  rw [Ne, Ne, isQueryMatch_undefined_iff, findQueryMatch_undefined_iff, hsearch, not_not]
  constructor
  · intro h
    exact h.1
  · intro h
    refine ⟨h, h, ?_⟩
    intro port _ hconstrained habsent hmatch
    have hsat := matches_query_true_iff.mp hmatch
    exact present_of_meets hsat.connection hconstrained habsent

/-- A query with a connection, and a port without one. -/
theorem isQueryMatch_absent :
    ¬ (isQueryMatch [sample none] (built (connected 1)) ≠ .error .undefined ∧
      findQueryMatch (built (connected 1)) [sample none] ≠ .error .undefined ∧
      ∀ port ∈ [sample none], (built (connected 1)).connection ≠ none →
        port.pseudo_name = none → matches_query (built (connected 1)) port ≠ .ok true) := by
  intro h
  exact h.1 rfl

end Ports

end FalconStd.FalconCore
