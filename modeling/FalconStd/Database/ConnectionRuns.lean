import FalconStd.Database.Connection

/-! How the calls of a run end, whatever the environment is at each of them.

The first call that needs a connection decides it for good, also that there is none.
A snapshot manager is tried again until one is made, and it is always a manager of that
connection. -/
namespace FalconStd.Database
open Foundation

variable {C : Core} {events : List (Event C)} {e : Event C} {s : State C}

/-! ### What the history grows by -/

theorem find?_concat (p : Event C → Bool) (events : List (Event C)) (e : Event C) :
    (events ++ [e]).find? p = (events.find? p).or (if p e then some e else none) := by
  rw [List.find?_append, List.find?_singleton]

theorem connection_concat (h : usesDatabase e = true) : connection (events ++ [e]) =
    (((events.find? usesDatabase).map initialize_database).getD (initialize_database e)) := by
  rw [connection, find?_concat, if_pos h]
  cases events.find? usesDatabase <;> rfl

theorem connection_concat_hub (h : usesDatabase e = false) :
    connection (events ++ [e]) = connection events := by
  rw [connection, find?_concat, if_neg (by rw [h]; exact Bool.false_ne_true), Option.or_none,
    connection]

/-- Once a call has needed it, the connection stays. -/
theorem connection_append (h : events.find? usesDatabase ≠ none) (more : List (Event C)) :
    connection (events ++ more) = connection events := by
  obtain ⟨first, hfirst⟩ := Option.ne_none_iff_exists'.mp h
  rw [connection, List.find?_append, hfirst, connection, hfirst]
  rfl

theorem manager_concat (db : C.AdminDatabaseConnection) (h : isSnapshot e = true) :
    manager db (events ++ [e]) = (manager db events).or (e.snapshotManager db).toOption := by
  have hfilter : (events ++ [e]).filter isSnapshot = events.filter isSnapshot ++ [e] := by
    rw [List.filter_append, List.filter_cons_of_pos h, List.filter_nil]
  rw [manager, hfilter, manager]
  cases hfirst : firstOk (fun e => e.snapshotManager db) (events.filter isSnapshot) with
  | some first => rw [firstOk_concat_some hfirst]; rfl
  | none =>
    rw [firstOk_concat_none hfirst]
    cases e.snapshotManager db <;> rfl

theorem manager_concat_other (db : C.AdminDatabaseConnection) (h : isSnapshot e = false) :
    manager db (events ++ [e]) = manager db events := by
  have hfilter : (events ++ [e]).filter isSnapshot = events.filter isSnapshot := by
    rw [List.filter_append, List.filter_cons_of_neg (by simp [h]), List.filter_nil,
      List.append_nil]
  rw [manager, hfilter, manager]

theorem usesDatabase_of_snapshot (h : isSnapshot e = true) : usesDatabase e = true := by
  unfold isSnapshot at h
  unfold usesDatabase
  cases hcall : e.call with
  | hasDatabaseConnection => rw [hcall] at h; cases h
  | _ => rfl

/-- No call has needed a connection, so none was a snapshot either. -/
theorem manager_of_unused (db : C.AdminDatabaseConnection)
    (h : events.find? usesDatabase = none) : manager db events = none := by
  have hempty : events.filter isSnapshot = [] := by
    refine List.filter_eq_nil_iff.mpr fun e he hsnap => ?_
    refine List.find?_eq_none.mp h e he ?_
    exact usesDatabase_of_snapshot hsnap
  rw [manager, hempty]
  rfl

/-! ### What the state is -/

structure Account (events : List (Event C)) (s : State C) : Prop where
  conn : s.g_db_conn = (events.find? usesDatabase).map initialize_database
  mgr : s.g_snapshot_mgr = (connection events).bind fun db => manager db events

theorem Account.connection_concat (h : Account events s) (he : usesDatabase e = true) :
    connection (events ++ [e]) = s.g_db_conn.getD (initialize_database e) := by
  rw [Database.connection_concat he, h.conn]

/-- The state once the connection has been asked for. -/
def touched (e : Event C) (s : State C) : State C :=
  { s with g_db_conn := some (s.g_db_conn.getD (initialize_database e)) }

@[simp] theorem touched_mgr (e : Event C) (s : State C) :
    (touched e s).g_snapshot_mgr = s.g_snapshot_mgr := rfl

theorem get_global_database_eq (e : Event C) (s : State C) :
    get_global_database e s = (s.g_db_conn.getD (initialize_database e), touched e s) := by
  unfold get_global_database touched
  cases s.g_db_conn <;> rfl

/-- The connection after a call that needs it. -/
theorem Account.conn_concat (h : Account events s) (he : usesDatabase e = true) :
    some (s.g_db_conn.getD (initialize_database e)) =
      ((events ++ [e]).find? usesDatabase).map initialize_database := by
  rw [find?_concat, if_pos he, h.conn]
  cases events.find? usesDatabase <;> rfl

/-- The manager is one of the connection that all calls find. -/
theorem Account.mgr_eq (h : Account events s) {db : C.AdminDatabaseConnection}
    (hdb : connection (events ++ [e]) = some db) :
    s.g_snapshot_mgr = manager db events := by
  rw [h.mgr]
  cases hfind : events.find? usesDatabase with
  | none => rw [manager_of_unused db hfind, Database.connection, hfind]; rfl
  | some first =>
    have hused : events.find? usesDatabase ≠ none := by
      rw [hfind]
      exact Option.some_ne_none first
    have hsame := connection_append hused [e]
    rw [← hsame, hdb]
    rfl

theorem Account.mgr_eq_none (h : Account events s)
    (hnone : connection (events ++ [e]) = none) : s.g_snapshot_mgr = none := by
  rw [h.mgr]
  cases hfind : events.find? usesDatabase with
  | none => rw [Database.connection, hfind]; rfl
  | some first =>
    have hused : events.find? usesDatabase ≠ none := by
      rw [hfind]
      exact Option.some_ne_none first
    have hsame := connection_append hused [e]
    rw [← hsame, hnone]
    rfl

/-! ### One call -/

theorem require_database_eq (e : Event C) (s : State C) :
    require_database e s = match s.g_db_conn.getD (initialize_database e) with
      | some db => (.ok db, touched e s)
      | none => (.error noConnection, touched e s) := by
  rw [require_database, get_global_database_eq]
  cases s.g_db_conn.getD (initialize_database e) <;> rfl

/-- Without a manager one is tried, of the connection if there is one. -/
theorem get_global_snapshot_manager_eq (hmgr : s.g_snapshot_mgr = none) :
    get_global_snapshot_manager e s = match s.g_db_conn.getD (initialize_database e) with
      | some db => (e.snapshotManager db,
          { touched e s with g_snapshot_mgr := (e.snapshotManager db).toOption })
      | none => (.error noConnection, touched e s) := by
  rw [get_global_snapshot_manager, hmgr, require_database_eq]
  cases s.g_db_conn.getD (initialize_database e) with
  | none =>
    show (_, ({ touched e s with g_snapshot_mgr := _ } : State C)) = _
    rw [touched_mgr, hmgr]
    show _ = (_, touched e s)
    rw [← hmgr, touched]
    simp [Once.get, Except.bind, hmgr, Except.toOption]
  | some db =>
    show (_, ({ touched e s with g_snapshot_mgr := _ } : State C)) = _
    rw [touched_mgr, hmgr]
    rfl

theorem Account.touch (h : Account events s) (he : usesDatabase e = true)
    (hmgr : ∀ db, manager db (events ++ [e]) = manager db events) :
    Account (events ++ [e]) (touched e s) := by
  refine ⟨h.conn_concat he, ?_⟩
  show s.g_snapshot_mgr = _
  cases hconn : connection (events ++ [e]) with
  | none => exact h.mgr_eq_none hconn
  | some db =>
    rw [h.mgr_eq hconn]
    exact (hmgr db).symm

/-- What one call answers and leaves. -/
def Performs (events : List (Event C)) (s : State C) (e : Event C) : Prop :=
  (perform s e).1 = expected events e ∧ Account (events ++ [e]) (perform s e).2

theorem performs_request (h : Account events s) {r : Request C} (hcall : e.call = .request r) :
    Performs events s e := by
  have he : usesDatabase e = true := by simp [usesDatabase, hcall]
  have hsnap : isSnapshot e = false := by simp [isSnapshot, hcall]
  have htouch := h.touch he fun db => manager_concat_other db hsnap
  have hconn := h.connection_concat he
  unfold Performs perform expected
  simp only [hcall, require_database_eq]
  rw [hconn]
  cases s.g_db_conn.getD (initialize_database e) with
  | none => exact ⟨rfl, htouch⟩
  | some db => exact ⟨rfl, htouch⟩

theorem performs_isConnected (h : Account events s) (hcall : e.call = .isConnected) :
    Performs events s e := by
  have he : usesDatabase e = true := by simp [usesDatabase, hcall]
  have hsnap : isSnapshot e = false := by simp [isSnapshot, hcall]
  have htouch := h.touch he fun db => manager_concat_other db hsnap
  have hconn := h.connection_concat he
  unfold Performs perform expected isConnected
  simp only [hcall, get_global_database_eq]
  rw [hconn]
  cases s.g_db_conn.getD (initialize_database e) with
  | none => exact ⟨rfl, htouch⟩
  | some db => exact ⟨rfl, htouch⟩

theorem performs_hub (h : Account events s) (hcall : e.call = .hasDatabaseConnection) :
    Performs events s e := by
  have he : usesDatabase e = false := by simp [usesDatabase, hcall]
  have hsnap : isSnapshot e = false := by simp [isSnapshot, hcall]
  have hfind : (events ++ [e]).find? usesDatabase = events.find? usesDatabase := by
    rw [find?_concat, if_neg (by rw [he]; exact Bool.false_ne_true), Option.or_none]
  have hstate : (perform s e).2 = s := by simp only [perform, hcall]
  refine ⟨by simp only [perform, expected, hcall, hasDatabaseConnection], ?_⟩
  rw [hstate]
  refine ⟨by rw [hfind]; exact h.conn, ?_⟩
  rw [connection_concat_hub he, h.mgr]
  congr 1
  funext db
  exact (manager_concat_other db hsnap).symm

theorem performs_snapshot (h : Account events s) {r : SnapshotRequest}
    (hcall : e.call = .snapshot r) : Performs events s e := by
  have he : usesDatabase e = true := by simp [usesDatabase, hcall]
  have hsnap : isSnapshot e = true := by simp [isSnapshot, hcall]
  have hconn := h.connection_concat he
  have hfind := h.conn_concat he
  unfold Performs perform expected
  simp only [hcall]
  cases hdb : connection (events ++ [e]) with
  | none =>
    have hmgr := h.mgr_eq_none hdb
    rw [hdb] at hconn
    rw [get_global_snapshot_manager_eq hmgr, ← hconn]
    refine ⟨rfl, hfind, ?_⟩
    rw [hdb]
    exact hmgr
  | some db =>
    have hmgr := h.mgr_eq hdb
    rw [hdb] at hconn
    cases hold : manager db events with
    | some mgr =>
      -- the manager is there, and with it the connection
      rw [hold] at hmgr
      simp only [get_global_snapshot_manager, hmgr, hold]
      have hused : events.find? usesDatabase ≠ none := by
        intro hnone
        rw [manager_of_unused db hnone] at hold
        cases hold
      refine ⟨trivial, ?_, ?_⟩
      · obtain ⟨first, hfirst⟩ := Option.ne_none_iff_exists'.mp hused
        rw [find?_concat, hfirst, Option.some_or, ← hfirst]
        exact h.conn
      · rw [hdb, Option.bind_some, manager_concat db hsnap, hold]
        exact hmgr
    | none =>
      rw [hold] at hmgr
      rw [get_global_snapshot_manager_eq hmgr, ← hconn]
      cases hmake : e.snapshotManager db with
      | ok mgr =>
        simp only [hold, hmake]
        refine ⟨trivial, hfind, ?_⟩
        rw [hdb, Option.bind_some, manager_concat db hsnap, hold, hmake]
        rfl
      | error message =>
        simp only [hold, hmake]
        refine ⟨trivial, hfind, ?_⟩
        rw [hdb, Option.bind_some, manager_concat db hsnap, hold, hmake]
        rfl

theorem performs (h : Account events s) (e : Event C) : Performs events s e := by
  cases hcall : e.call with
  | request r => exact performs_request h hcall
  | snapshot r => exact performs_snapshot h hcall
  | isConnected => exact performs_isConnected h hcall
  | hasDatabaseConnection => exact performs_hub h hcall

/-! ### Runs -/

theorem account (events : List (Event C)) : Account events (after events) := by
  induction events using List.reverseRecOn with
  | nil => exact ⟨rfl, rfl⟩
  | append_singleton past e ih =>
    rw [after, run_concat]
    exact (performs ih e).2

/-- The whole of a run, and of the call after it. -/
structure Lifecycle (events : List (Event C)) (e : Event C) : Prop where
  outcome : (perform (after events) e).1 = expected events e
  /-- No later environment makes, changes or breaks the connection. -/
  settled : ∀ more, usesDatabase e = true →
    connection (events ++ e :: more) = connection (events ++ [e])
  /-- The hub and the database agree as long as nothing has changed since the first call. -/
  agrees : ∀ first r, events.find? usesDatabase = some first → url e = url first →
    (∀ env_url, ∃ db, first.adminDatabaseConnection env_url = .ok db) →
    ((perform (after events) { e with call := .hasDatabaseConnection }).1 = .answered true ↔
      ∃ db, (perform (after events) { e with call := .request r }).1 = .requested db r)

/-- **Every call of a run ends as its history says.** The first call that needs the
database decides the connection, from the environment of that moment; all requests reach
that one connection or all fail, snapshots go to the first manager that could be made of
it, and what the hub answers is about the environment of its own call. -/
theorem connection_lifecycle (events : List (Event C)) (e : Event C) : Lifecycle events e := by
  have haccount := account events
  refine ⟨(performs haccount e).1, fun more he => ?_, fun first r hfirst hurl hopens => ?_⟩
  · have hused : (events ++ [e]).find? usesDatabase ≠ none := by
      rw [find?_concat, if_pos he]
      cases events.find? usesDatabase <;> exact Option.some_ne_none _
    rw [← connection_append hused more, List.append_assoc, List.singleton_append]
  · rw [(performs haccount _).1, (performs haccount _).1]
    have hconn : connection (events ++ [{ e with call := .request r }]) =
        initialize_database first := by
      rw [connection_append (by rw [hfirst]; exact Option.some_ne_none _), connection, hfirst]
      rfl
    have hopen : (initialize_database first).isSome = (url e).isSome := by
      rw [hurl, initialize_database]
      cases hset : url first with
      | none => rfl
      | some env_url =>
        obtain ⟨db, hdb⟩ := hopens env_url
        rw [Option.bind_some, hdb]
        rfl
    show Outcome.answered (url e).isSome = .answered true ↔ _
    unfold expected
    dsimp only
    rw [hconn, ← hopen]
    cases initialize_database first with
    | none => simp
    | some db => simp

end FalconStd.Database
