import OpenstackBlueprint.Emitter.Health
import OpenstackBlueprint.Kit.TSys

/-!
# The health table (`contract-emitter.py`, `ch_query` to `main`)

A run with `MODE=health` authenticates, creates the database and the table of the
health rows when it is told to, collects, and inserts. Every request but one is
pinned to a database.

The ClickHouse server is not part of the repository, so it is a parameter: which
requests it takes in which state, what it does by itself, and what can be seen of
its state. `ClickHouse.Documented` names what is documented of it. CronJobs, their
retries and other releases run at once: one step is one request, or some work of
the server's own.
-/

namespace OpenstackBlueprint.Emitter

open Kit

/-! ## Environment -/

/-- `usage_database()`. -/
def usageDatabase (environ : Environ) : String := (environ "CH_DATABASE").getD "showback"

/-- `health_database()`. -/
def healthDatabase (environ : Environ) : String :=
  match environ "CH_HEALTH_DATABASE" with
  | none => usageDatabase environ
  | some db => if db = "" then usageDatabase environ else db

/-- `CH_HEALTH_TABLE`. -/
def healthTable (environ : Environ) : String := (environ "CH_HEALTH_TABLE").getD "health_records"

/-- `CH_BOOTSTRAP_HEALTH_TABLE`. -/
def bootstraps (environ : Environ) : Bool :=
  ((environ "CH_BOOTSTRAP_HEALTH_TABLE").getD "true").toList.map Char.toLower == "true".toList

/-! ## Requests -/

/-- The statements the emitter sends for its health rows. -/
inductive Sql
  /-- `CREATE DATABASE IF NOT EXISTS` -/
  | createDatabase (db : String)
  /-- `CREATE TABLE IF NOT EXISTS`, with the columns of `HealthRow` and the engine
  `ReplacingMergeTree(checked_at)` -/
  | createTable (db table : String)
  | insert (db table : String) (rows : List HealthRow)

/-- A request, and the database it is pinned to. -/
structure Query where
  sql : Sql
  database : Option String

/-- `ch_query(sql, database=database)`; without `CH_URL` it raises. -/
def chQuery (environ : Environ) (sql : Sql) (database : Option String) : Option Query := do
  let _ ← environ "CH_URL"
  let db := database.getD (usageDatabase environ)
  return { sql, database := if db = "" then none else some db }

/-- `ch_insert(table, rows, database)`, of rows there are. -/
def chInsert (environ : Environ) (table : String) (rows : List HealthRow)
    (database : Option String) : Option Query :=
  let db := database.getD (usageDatabase environ)
  chQuery environ (.insert db table rows) (some db)

/-- The first query of `ch_bootstrap_health_table()`. -/
def createHealthDatabase (environ : Environ) : Option Query :=
  chQuery environ (.createDatabase (healthDatabase environ)) (some "")

/-- The second one, to which no database is passed. -/
def createHealthTable (environ : Environ) : Option Query :=
  chQuery environ (.createTable (healthDatabase environ) (healthTable environ)) none

/-- The insert of `main()`. -/
def insertHealthRows (environ : Environ) (rows : List HealthRow) : Option Query :=
  chInsert environ (healthTable environ) rows (some (healthDatabase environ))

/-! ## A run -/

/-- Where a run with `MODE=health` stands. -/
inductive Phase
  /-- before `keystone_auth()` -/
  | start
  | creatingDatabase
  | creatingTable
  /-- before `collect_health` -/
  | collecting
  | inserting (rows : List HealthRow)
  | done
  /-- an exception -/
  | failed

/-- After `keystone_auth()`. -/
def afterAuth (environ : Environ) : Phase :=
  if bootstraps environ then .creatingDatabase else .collecting

/-- After `collect_health`; without rows there is nothing to insert. -/
def afterCollect (rows : List HealthRow) : Phase := if rows = [] then .done else .inserting rows

/-- The request a run is about to send, and where it stands once that is answered. -/
def awaits (environ : Environ) : Phase → Option (Query × Phase)
  | .creatingDatabase => (createHealthDatabase environ).map (·, .creatingTable)
  | .creatingTable => (createHealthTable environ).map (·, .collecting)
  | .inserting rows => (insertHealthRows environ rows).map (·, .done)
  | .start | .collecting | .done | .failed => none

/-! ## The server -/

/-- A table, by its database and its name. -/
abbrev TableName := String × String

/-- A ClickHouse server with states `σ`. -/
structure ClickHouse (σ : Type) where
  /-- the server takes a request, and is in the second state then -/
  takes : σ → Query → σ → Prop
  /-- its work in the background -/
  works : σ → σ → Prop
  databases : σ → Set String
  rows : σ → TableName → Option (List HealthRow)
  /-- a name it takes without quotes -/
  plain : String → Prop

variable {σ : Type}

/-- The table has no rows, or is not there. -/
def ClickHouse.NoRows (server : ClickHouse σ) (s : σ) (name : TableName) : Prop :=
  ∀ rows, server.rows s name = some rows → rows = []

/-- What is documented of a server, as far as health rows depend on it. -/
structure ClickHouse.Documented (server : ClickHouse σ) : Prop where
  /-- no name is empty -/
  named : ∀ name, server.plain name → name ≠ ""
  /-- a request is refused when it is pinned to a database that does not exist -/
  pinned : ∀ s query s' db, server.takes s query s' → query.database = some db →
    db ∈ server.databases s
  /-- `CREATE DATABASE IF NOT EXISTS` -/
  createDatabase : ∀ s db, server.plain db → ∃ s', server.takes s ⟨.createDatabase db, none⟩ s'
  /-- and what it changes -/
  createdDatabase : ∀ s db pin s', server.takes s ⟨.createDatabase db, pin⟩ s' →
    server.databases s' = insert db (server.databases s) ∧ server.rows s' = server.rows s
  /-- `CREATE TABLE IF NOT EXISTS` in a database that exists -/
  createTable : ∀ s db table pin, server.plain db → server.plain table →
    db ∈ server.databases s → (∀ other, pin = some other → other ∈ server.databases s) →
    ∃ s', server.takes s ⟨.createTable db table, pin⟩ s'
  /-- and what there is afterwards -/
  createdTable : ∀ s db table pin s', server.takes s ⟨.createTable db table, pin⟩ s' →
    server.databases s' = server.databases s ∧ (server.rows s' (db, table)).isSome
  /-- an insert into a table that exists -/
  insert : ∀ s db table rows, db ∈ server.databases s → (server.rows s (db, table)).isSome →
    ∃ s', server.takes s ⟨.insert db table rows, some db⟩ s'
  /-- and what there is afterwards -/
  inserted : ∀ s db table rows pin s', server.takes s ⟨.insert db table rows, pin⟩ s' →
    rows ≠ [] → ¬ server.NoRows s' (db, table)
  /-- the server makes no databases and no rows by itself -/
  background : ∀ s s', server.works s s' → server.databases s' = server.databases s ∧
    ∀ name, server.NoRows s name → server.NoRows s' name

/-! ## The system -/

/-- The server, the runs, and for each run the requests the server took from it, in order. -/
structure HealthWorld (σ ι : Type) where
  server : σ
  runs : ι → Phase
  taken : ι → List Query

namespace HealthWorld

variable {ι : Type} [DecidableEq ι]

/-- Run `i` moves on. -/
def move (w : HealthWorld σ ι) (i : ι) (phase : Phase) : HealthWorld σ ι :=
  { w with runs := Function.update w.runs i phase }

@[simp] theorem server_move (w : HealthWorld σ ι) (i : ι) (phase : Phase) :
    (w.move i phase).server = w.server := rfl

@[simp] theorem taken_move (w : HealthWorld σ ι) (i : ι) (phase : Phase) :
    (w.move i phase).taken = w.taken := rfl

@[simp] theorem runs_move_self (w : HealthWorld σ ι) (i : ι) (phase : Phase) :
    (w.move i phase).runs i = phase := by
  simp [move]

/-- The server took a request of run `i`. -/
def took (w : HealthWorld σ ι) (i : ι) (query : Query) (server : σ) : HealthWorld σ ι :=
  { w with server, taken := Function.update w.taken i (w.taken i ++ [query]) }

@[simp] theorem server_took (w : HealthWorld σ ι) (i : ι) (query : Query) (server : σ) :
    (w.took i query server).server = server := rfl

@[simp] theorem runs_took (w : HealthWorld σ ι) (i : ι) (query : Query) (server : σ) :
    (w.took i query server).runs = w.runs := rfl

/-- Run `i` starts over. -/
def restart (w : HealthWorld σ ι) (i : ι) : HealthWorld σ ι :=
  { w with runs := Function.update w.runs i .start, taken := Function.update w.taken i [] }

end HealthWorld

section System

variable {ι : Type} [DecidableEq ι]
  -- the server, and the environment of each run
  (server : ClickHouse σ) (sha256 : List UInt8 → String) (environ : ι → Environ)

/-- One step. A request can fail, and its answer can be lost after it took effect. -/
inductive HealthStep : HealthWorld σ ι → HealthWorld σ ι → Prop
  | authenticated (w : HealthWorld σ ι) (i : ι) :
      w.runs i = .start → HealthStep w (w.move i (afterAuth (environ i)))
  | answered (w : HealthWorld σ ι) (i : ι) (query : Query) (next : Phase) (s : σ) (ok : Bool) :
      awaits (environ i) (w.runs i) = some (query, next) → server.takes w.server query s →
      HealthStep w ((w.took i query s).move i (if ok then next else .failed))
  | collected (w : HealthWorld σ ι) (i : ι) (run : HealthRun) (rows : List HealthRow) :
      w.runs i = .collecting → run.environ = environ i → run.collectHealth sha256 = some rows →
      HealthStep w (w.move i (afterCollect rows))
  | failed (w : HealthWorld σ ι) (i : ι) :
      w.runs i ≠ .done → HealthStep w (w.move i .failed)
  /-- the next run of the CronJob, or a retry -/
  | started (w : HealthWorld σ ι) (i : ι) : HealthStep w (w.restart i)
  | worked (w : HealthWorld σ ι) (s : σ) :
      server.works w.server s → HealthStep w { w with server := s }

/-- The runs on one server, from a given state on. -/
def healthSystem (w : HealthWorld σ ι) : TSys (HealthWorld σ ι) :=
  ⟨(· = w), HealthStep server sha256 environ⟩

end System

end OpenstackBlueprint.Emitter
