import OpenstackBlueprint.Kit.Comm
import OpenstackBlueprint.Kit.Text
import OpenstackBlueprint.Kit.TSys

/-!
# Applying the PowerDNS schema

`db-sync.sh` of the powerdns chart. The schema file comes out of the server's
image; its statements are bare, so a table that exists fails the client, and the
script compares the tables of the database with those the file declares before it
applies anything.

The Job runs on every release and its pods are retried. A pod may stop anywhere,
also between two statements, and two pods may run at once: one step of the system
is one query or one statement of one pod. Nobody else changes the database.
-/

namespace OpenstackBlueprint.Powerdns

open OpenstackBlueprint.Kit

/-! ## Text -/

/-- `[a-z_]`. -/
def isTableChar (c : Char) : Bool := ('a' ≤ c && c ≤ 'z') || c == '_'

/-- `s/^CREATE TABLE ([a-z_]+).*/\1/p` on one line. -/
def createdBy (line : String) : Option String :=
  if "CREATE TABLE ".toList.isPrefixOf line.toList then
    match (line.toList.drop 13).takeWhile isTableChar with
    | [] => none
    | name => some (String.ofList name)
  else none

/-- `$(...)`, in lines: newlines at the end are dropped. -/
def captured (lines : List String) : List String := lines.rdropWhile (· == "")

/-- `echo "${TEXT}"`, in lines. -/
def echo (text : List String) : List String := if text = [] then [""] else text

/-! ## The schema -/

/-- A statement of the schema, as far as tables go. -/
inductive Statement
  | createTable (name : String)
  | other
deriving DecidableEq, Repr

/-- The table a statement creates. -/
def Statement.creates : Statement → Option String
  | createTable name => some name
  | other => none

/-- `schema.mysql.sql`: its lines, and the statements the client makes of them. -/
structure Schema where
  lines : List String
  statements : List Statement

namespace Schema

/-- The tables the file declares, as `sed` reads them. -/
def declares (schema : Schema) : List String := schema.lines.filterMap createdBy

/-- `EXPECTED`. -/
def expected (schema : Schema) : List String := captured (sortAlpha schema.declares)

/-- What the script relies on: every table is created once, by a bare statement at the start of
a line, and the first statement of the file creates one. -/
structure Bare (schema : Schema) : Prop where
  declares : schema.declares = schema.statements.filterMap Statement.creates
  nodup : schema.declares.Nodup
  first : ∃ name rest, schema.statements = .createTable name :: rest

end Schema

/-! ## One run -/

/-- `comm` of two variables. -/
def compare (expected existing : List String) : Columns String :=
  comm (echo expected) (echo existing)

/-- How a run ends. -/
inductive Exit
  /-- the schema file is missing or empty -/
  | noSchema
  /-- the file declares no table `sed` can read -/
  | noTables
  | alreadyPresent
  | interrupted (missing : List String)
  | applied
  | notApplied (missing : List String)
  /-- a command failed under `set -e`, or the pod was stopped -/
  | aborted
deriving DecidableEq, Repr

/-- The exit code is 0. -/
def Exit.ok : Exit → Bool
  | alreadyPresent | applied => true
  | noSchema | noTables | interrupted _ | notApplied _ | aborted => false

/-- Where a run stands between two queries. -/
inductive Stage
  | start
  /-- the client has these statements to execute yet -/
  | applying (rest : List Statement)
  /-- before the last `SHOW TABLES` -/
  | asserting
  | exited (exit : Exit)
deriving DecidableEq, Repr

/-- From `start` past the first `SHOW TABLES`. -/
def afterShow (schema : Schema) (tables : List String) : Stage :=
  if schema.lines = [] then .exited .noSchema
  else if schema.expected = [] then .exited .noTables
  else
    let columns := compare schema.expected (captured (sortAlpha tables))
    if captured columns.left = [] then .exited .alreadyPresent
    else if captured columns.both ≠ [] then .exited (.interrupted (captured columns.left))
    else .applying schema.statements

/-- Past the last `SHOW TABLES`, which goes to `comm` as it is. -/
def afterAssert (schema : Schema) (tables : List String) : Stage :=
  let missing := captured (comm (echo schema.expected) (sortAlpha tables)).left
  .exited (if missing = [] then .applied else .notApplied missing)

/-! ## The system -/

/-- The tables of the database in the order they were created, and the pods of the Job. -/
structure Database (ι : Type) where
  tables : List String
  jobs : ι → Stage

namespace Database

variable {ι : Type} [DecidableEq ι]

/-- Pod `i` moves on. -/
def move (d : Database ι) (i : ι) (stage : Stage) : Database ι :=
  { d with jobs := Function.update d.jobs i stage }

/-- A table is created. -/
def create (d : Database ι) (name : String) : Database ι := { d with tables := d.tables ++ [name] }

end Database

/-- One step. A pod can be stopped at any point; a statement takes effect or it does not. -/
inductive DbStep {ι : Type} [DecidableEq ι] (schema : Schema) : Database ι → Database ι → Prop
  | shown (d : Database ι) (i : ι) :
      d.jobs i = .start → DbStep schema d (d.move i (afterShow schema d.tables))
  | createTable (d : Database ι) (i : ι) (name : String) (rest : List Statement) :
      d.jobs i = .applying (.createTable name :: rest) → name ∉ d.tables →
      DbStep schema d ((d.create name).move i (.applying rest))
  /-- the table is created, but the client does not live to see it -/
  | createTableLast (d : Database ι) (i : ι) (name : String) (rest : List Statement) :
      d.jobs i = .applying (.createTable name :: rest) → name ∉ d.tables →
      DbStep schema d ((d.create name).move i (.exited .aborted))
  | other (d : Database ι) (i : ι) (rest : List Statement) :
      d.jobs i = .applying (.other :: rest) → DbStep schema d (d.move i (.applying rest))
  | applied (d : Database ι) (i : ι) :
      d.jobs i = .applying [] → DbStep schema d (d.move i .asserting)
  | asserted (d : Database ι) (i : ι) :
      d.jobs i = .asserting → DbStep schema d (d.move i (afterAssert schema d.tables))
  /-- the last `SHOW TABLES` failed inside the process substitution: nothing is listed -/
  | assertedBlind (d : Database ι) (i : ι) :
      d.jobs i = .asserting → DbStep schema d (d.move i (afterAssert schema []))
  | aborted (d : Database ι) (i : ι) :
      (∀ exit, d.jobs i ≠ .exited exit) → DbStep schema d (d.move i (.exited .aborted))
  /-- a retried pod, or the Job of the next release -/
  | restart (d : Database ι) (i : ι) : DbStep schema d (d.move i .start)

/-- The pods of the Job on one database, from a given state on. -/
def dbSystem {ι : Type} [DecidableEq ι] (schema : Schema) (d : Database ι) : TSys (Database ι) :=
  ⟨(· = d), DbStep schema⟩

end OpenstackBlueprint.Powerdns
