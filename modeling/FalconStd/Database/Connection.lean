import FalconStd.Foundation.Once

/-! The connection of the database routines (`database/database-wrapper.cpp`), and what the
hub says of it (`hub/hub-wrapper.cpp`).

A connection and a snapshot manager are made when they are first needed and kept. The
classes of falcon-database are parameters: what their constructors return or throw is
part of an event, and a request that reaches one of them is recorded with the object it
reached. -/
namespace FalconStd.Database
open Foundation

/-- The types of falcon-database. -/
structure Core where
  AdminDatabaseConnection : Type
  SnapshotManager : Type
  DeviceCharacteristic : Type
  DeviceCharacteristicQuery : Type

/-- What is asked of the connection. -/
inductive Request (C : Core) where
  | get_by_name (name : String)
  | get_all
  | get_by_hash_range (hash_start hash_end : String)
  | get_by_query (query : C.DeviceCharacteristicQuery)
  | count
  | insert (dchar : C.DeviceCharacteristic)
  | delete_by_name (name : String)
  | delete_by_hash (hash : String)
  | initialize_schema
  | clear_all

/-- What is asked of the manager. -/
inductive SnapshotRequest where
  | export_to_json (filename : String)
  | import_from_json (filename : String) (clear_existing : Bool)

inductive Call (C : Core) where
  | request (r : Request C)
  | snapshot (r : SnapshotRequest)
  | isConnected
  | hasDatabaseConnection

/-- A call, and what it finds: the environment, and how the constructors and
`is_connected` end. -/
structure Event (C : Core) where
  call : Call C
  getenv : String → Option String
  adminDatabaseConnection : String → Except String C.AdminDatabaseConnection
  snapshotManager : C.AdminDatabaseConnection → Except String C.SnapshotManager
  is_connected : C.AdminDatabaseConnection → Except String Bool

/-- The request and the object it was passed on to, an answer, or an error. -/
inductive Outcome (C : Core) where
  | requested (db : C.AdminDatabaseConnection) (r : Request C)
  | snapshot (manager : C.SnapshotManager) (r : SnapshotRequest)
  | answered (b : Bool)
  | raised (message : String)

/-- A connection pointer may be null, also once it is set. -/
structure State (C : Core) where
  g_db_conn : Once (Option C.AdminDatabaseConnection)
  g_snapshot_mgr : Once C.SnapshotManager

variable {C : Core}

def start : State C := ⟨none, none⟩

/-- A variable that is set, and to some text. -/
def url (e : Event C) : Option String :=
  (e.getenv "FALCON_DATABASE_URL").filter (· ≠ "")

/-- Whatever is thrown, the pointer is null. -/
def initialize_database (e : Event C) : Option C.AdminDatabaseConnection :=
  (url e).bind fun env_url => (e.adminDatabaseConnection env_url).toOption

def get_global_database (e : Event C) (s : State C) :
    Option C.AdminDatabaseConnection × State C :=
  let made := Once.get (E := String) (.ok (initialize_database e)) s.g_db_conn
  (made.1.toOption.join, { s with g_db_conn := made.2 })

def noConnection : String :=
  "No database connection string provided. Either pass a connection string explicitly or set " ++
    "FALCON_DATABASE_URL environment variable."

def require_database (e : Event C) (s : State C) :
    Except String C.AdminDatabaseConnection × State C :=
  match get_global_database e s with
  | (some db, s) => (.ok db, s)
  | (none, s) => (.error noConnection, s)

/-- A manager that is there is returned without a look at the connection. -/
def get_global_snapshot_manager (e : Event C) (s : State C) :
    Except String C.SnapshotManager × State C :=
  match s.g_snapshot_mgr with
  | some manager => (.ok manager, s)
  | none =>
    let (db, s) := require_database e s
    let made := s.g_snapshot_mgr.get (db.bind e.snapshotManager)
    (made.1, { s with g_snapshot_mgr := made.2 })

def isConnected (e : Event C) (s : State C) : Bool × State C :=
  match get_global_database e s with
  | (some db, s) => ((e.is_connected db).toOption.getD false, s)
  | (none, s) => (false, s)

/-- The hub's own look at the environment. -/
def hasDatabaseConnection (e : Event C) : Bool := (url e).isSome

def perform (s : State C) (e : Event C) : Outcome C × State C :=
  match e.call with
  | .request r =>
    match require_database e s with
    | (.ok db, s) => (.requested db r, s)
    | (.error message, s) => (.raised message, s)
  | .snapshot r =>
    match get_global_snapshot_manager e s with
    | (.ok manager, s) => (.snapshot manager r, s)
    | (.error message, s) => (.raised message, s)
  | .isConnected => let (b, s) := isConnected e s; (.answered b, s)
  | .hasDatabaseConnection => (.answered (hasDatabaseConnection e), s)

def after (events : List (Event C)) : State C := run (next perform) start events

/-! ### What a history decides -/

/-- Every call but the hub's. -/
def usesDatabase (e : Event C) : Bool :=
  match e.call with
  | .hasDatabaseConnection => false
  | _ => true

def isSnapshot (e : Event C) : Bool :=
  match e.call with
  | .snapshot _ => true
  | _ => false

/-- The connection is decided by the first call that needs one. -/
def connection (events : List (Event C)) : Option C.AdminDatabaseConnection :=
  (events.find? usesDatabase).bind initialize_database

/-- The manager of the connection: the first that could be made. -/
def manager (db : C.AdminDatabaseConnection) (events : List (Event C)) : Option C.SnapshotManager :=
  (firstOk (fun e => e.snapshotManager db) (events.filter isSnapshot)).map Prod.fst

/-- How the call after a history ends. -/
def expected (events : List (Event C)) (e : Event C) : Outcome C :=
  match e.call, connection (events ++ [e]) with
  | .hasDatabaseConnection, _ => .answered (url e).isSome
  | .isConnected, none => .answered false
  | .isConnected, some db => .answered ((e.is_connected db).toOption.getD false)
  | .request _, none => .raised noConnection
  | .request r, some db => .requested db r
  | .snapshot _, none => .raised noConnection
  | .snapshot r, some db =>
    match manager db events, e.snapshotManager db with
    | some manager, _ => .snapshot manager r
    | none, .ok manager => .snapshot manager r
    | none, .error message => .raised message

end FalconStd.Database
