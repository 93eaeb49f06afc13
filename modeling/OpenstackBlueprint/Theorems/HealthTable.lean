import OpenstackBlueprint.Emitter.ClickHouse
import OpenstackBlueprint.Theorems.HealthRows

/-!
# Health rows on the server

* The request that creates the health table is pinned to the usage database, which
  the emitter does not create. With the table bootstrapped, health rows therefore
  reach the server only where somebody has created that database, or where it is
  the health database itself (`health_rows_delivered_iff`).
* A run delivers its collection whole or not at all: whatever the server does, it is
  sent in one request to the health table, and a run that ends well has had all of
  its requests taken (`health_runs_all_or_nothing`).
-/

namespace OpenstackBlueprint.Theorems.HealthTable

open Kit Emitter

variable {σ ι : Type} {server : ClickHouse σ} {sha256 : List UInt8 → String} {environ : Environ}
  {w w' w₀ : HealthWorld σ ι} {i : ι}

/-! ## Requests -/

theorem chQuery_eq (hurl : (environ "CH_URL").isSome) (sql : Sql) (database : Option String) :
    chQuery environ sql database = some ⟨sql,
      if database.getD (usageDatabase environ) = "" then none
      else some (database.getD (usageDatabase environ))⟩ := by
  obtain ⟨url, hurl⟩ := Option.isSome_iff_exists.mp hurl
  unfold chQuery
  rw [hurl]
  rfl

theorem awaits_creatingDatabase (hurl : (environ "CH_URL").isSome) :
    awaits environ .creatingDatabase =
      some (⟨.createDatabase (healthDatabase environ), none⟩, .creatingTable) := by
  simp only [awaits, createHealthDatabase, chQuery_eq hurl]
  rfl

/-- The database the request that creates the table is pinned to. -/
def tablePin (environ : Environ) : Option String :=
  if usageDatabase environ = "" then none else some (usageDatabase environ)

/-- The table is created by a request that is pinned to the usage database. -/
theorem awaits_creatingTable (hurl : (environ "CH_URL").isSome) :
    awaits environ .creatingTable =
      some (⟨.createTable (healthDatabase environ) (healthTable environ), tablePin environ⟩,
        .collecting) := by
  simp only [awaits, createHealthTable, chQuery_eq hurl]
  rfl

theorem awaits_inserting (hurl : (environ "CH_URL").isSome) (hnamed : healthDatabase environ ≠ "")
    (rows : List HealthRow) : awaits environ (.inserting rows) =
      some (⟨.insert (healthDatabase environ) (healthTable environ) rows,
        some (healthDatabase environ)⟩, .done) := by
  simp only [awaits, insertHealthRows, chInsert, chQuery_eq hurl, Option.getD_some, if_neg hnamed,
    Option.map_some]

/-- Some run in this environment collects the rows. -/
def Collected (sha256 : List UInt8 → String) (environ : Environ) (rows : List HealthRow) : Prop :=
  ∃ run : HealthRun, run.environ = environ ∧ run.collectHealth sha256 = some rows

/-- There is always the row of the service as a whole. -/
theorem Collected.ne_nil {rows : List HealthRow} (h : Collected sha256 environ rows) :
    rows ≠ [] := by
  obtain ⟨run, _, hrows⟩ := h
  obtain ⟨⟨_, probes⟩, htraced, rfl⟩ := Option.map_eq_some_iff.mp hrows
  obtain ⟨_, components, last, _, _, rfl, _⟩ := HealthRun.collectHealthTraced_spec htraced
  simp

/-- What the chart sets up for the health CronJob: an address, names that need no quotes, a
table to bootstrap, and an installation that some run can collect from. -/
structure Deployed (server : ClickHouse σ) (sha256 : List UInt8 → String) (environ : Environ) :
    Prop where
  url : (environ "CH_URL").isSome
  bootstraps : bootstraps environ
  database : server.plain (healthDatabase environ)
  table : server.plain (healthTable environ)
  collects : ∃ rows, Collected sha256 environ rows

/-- The table the rows go to. -/
def target (environ : Environ) : TableName := (healthDatabase environ, healthTable environ)

/-- The statement that creates the health table is accepted. -/
def UsageDatabaseKnown (environ : Environ) (databases : Set String) : Prop :=
  usageDatabase environ = "" ∨ usageDatabase environ ∈ databases ∨
    usageDatabase environ = healthDatabase environ

/-- No run has begun, and the health table has no rows. -/
structure Fresh (server : ClickHouse σ) (environ : Environ) (w : HealthWorld σ ι) : Prop where
  runs : ∀ i, w.runs i = .start
  table : server.NoRows w.server (target environ)

/-! ## Without the usage database -/

/-- A run that has not come to collect. -/
def Stalled (phase : Phase) : Prop :=
  phase = .start ∨ phase = .creatingDatabase ∨ phase = .creatingTable ∨ phase = .failed

/-- No run gets past the creation of the table. -/
structure Blocked (server : ClickHouse σ) (environ : Environ) (w : HealthWorld σ ι) : Prop where
  database : usageDatabase environ ∉ server.databases w.server
  runs : ∀ i, Stalled (w.runs i)
  table : server.NoRows w.server (target environ)

/-- What a stalled run gets taken. -/
theorem answered_of_stalled (hserver : server.Documented) (hurl : (environ "CH_URL").isSome)
    {s s' : σ} (hunknown : ¬ UsageDatabaseKnown environ (server.databases s)) {phase next : Phase}
    (hphase : Stalled phase) {query : Query} (hawaits : awaits environ phase = some (query, next))
    (htakes : server.takes s query s') :
    query = ⟨.createDatabase (healthDatabase environ), none⟩ ∧ next = .creatingTable := by
  unfold UsageDatabaseKnown at hunknown
  push Not at hunknown
  obtain ⟨hnamed, hmissing, _⟩ := hunknown
  rcases hphase with rfl | rfl | rfl | rfl
  · cases hawaits
  · rw [awaits_creatingDatabase hurl, Option.some.injEq, Prod.mk.injEq] at hawaits
    obtain ⟨rfl, rfl⟩ := hawaits
    exact ⟨rfl, rfl⟩
  · -- the request is pinned to a database that is not there
    rw [awaits_creatingTable hurl, Option.some.injEq, Prod.mk.injEq] at hawaits
    obtain ⟨rfl, rfl⟩ := hawaits
    exact absurd (hserver.pinned _ _ _ _ htakes (if_neg hnamed)) hmissing
  · cases hawaits

section Blocked

variable [DecidableEq ι]

theorem runs_move {phase : Phase} (hphase : Stalled phase) (h : ∀ i, Stalled (w.runs i)) (j : ι) :
    Stalled ((w.move i phase).runs j) := by
  by_cases hji : j = i
  · subst hji
    simpa using hphase
  · simpa [HealthWorld.move, Function.update_of_ne hji] using h j

theorem Blocked.move {phase : Phase} (h : Blocked server environ w) (hphase : Stalled phase) :
    Blocked server environ (w.move i phase) :=
  ⟨h.database, runs_move hphase h.runs, h.table⟩

theorem Blocked.step (hserver : server.Documented) (hdeployed : Deployed server sha256 environ)
    (hother : usageDatabase environ ≠ "" ∧ usageDatabase environ ≠ healthDatabase environ)
    (h : Blocked server environ w)
    (hstep : HealthStep server sha256 (fun _ => environ) w w') : Blocked server environ w' := by
  have hunknown : ¬ UsageDatabaseKnown environ (server.databases w.server) := by
    rintro (hempty | hthere | hsame)
    · exact hother.1 hempty
    · exact h.database hthere
    · exact hother.2 hsame
  cases hstep with
  | authenticated i hi =>
    refine h.move ?_
    unfold afterAuth
    rw [if_pos hdeployed.bootstraps]
    exact .inr (.inl rfl)
  | answered i query next s ok hawaits htakes =>
    obtain ⟨rfl, rfl⟩ :=
      answered_of_stalled hserver hdeployed.url hunknown (h.runs i) hawaits htakes
    obtain ⟨hdatabases, hrows⟩ := hserver.createdDatabase _ _ _ _ htakes
    have htook : Blocked server environ
        (w.took i ⟨.createDatabase (healthDatabase environ), none⟩ s) := by
      refine ⟨?_, h.runs, ?_⟩
      · rw [HealthWorld.server_took, hdatabases]
        rintro (hsame | hthere)
        · exact hother.2 hsame
        · exact h.database hthere
      · unfold ClickHouse.NoRows
        rw [HealthWorld.server_took, hrows]
        exact h.table
    refine htook.move ?_
    cases ok
    · exact .inr (.inr (.inr rfl))
    · exact .inr (.inr (.inl rfl))
  | collected i run rows hi =>
    rcases h.runs i with hi' | hi' | hi' | hi' <;> rw [hi] at hi' <;> cases hi'
  | failed i => exact h.move (.inr (.inr (.inr rfl)))
  | started i => exact ⟨h.database, runs_move (.inl rfl) h.runs, h.table⟩
  | worked s hworks =>
    obtain ⟨hdatabases, hrows⟩ := hserver.background _ _ hworks
    exact ⟨hdatabases ▸ h.database, h.runs, hrows _ h.table⟩

theorem blocked_invariant (hserver : server.Documented) (hdeployed : Deployed server sha256 environ)
    (hother : usageDatabase environ ≠ "" ∧ usageDatabase environ ≠ healthDatabase environ)
    (h : Blocked server environ w₀) :
    (healthSystem server sha256 (fun _ => environ) w₀).Invariant (Blocked server environ) := by
  have hinductive : (healthSystem server sha256 (fun _ => environ) w₀).Inductive
      (Blocked server environ) := by
    refine ⟨?_, fun _ _ h => h.step hserver hdeployed hother⟩
    rintro _ rfl
    exact h
  exact hinductive.invariant

end Blocked

/-! ## With the usage database -/

section Delivery

variable [DecidableEq ι] (hserver : server.Documented)
  (hdeployed : Deployed server sha256 environ)
  (hw : (healthSystem server sha256 (fun _ => environ) w₀).Reachable w)

include hserver hdeployed hw

theorem exists_creatingTable (hi : w.runs i = .start) :
    ∃ w', (healthSystem server sha256 (fun _ => environ) w₀).Reachable w' ∧
      w'.runs i = .creatingTable ∧
      server.databases w'.server = insert (healthDatabase environ) (server.databases w.server) := by
  have hauth := hw.step (HealthStep.authenticated w i hi)
  have hphase : (w.move i (afterAuth environ)).runs i = .creatingDatabase := by
    simp [afterAuth, hdeployed.bootstraps]
  obtain ⟨s, htakes⟩ := hserver.createDatabase w.server _ hdeployed.database
  have hcreated := hauth.step (HealthStep.answered _ i _ _ s true
    (by rw [hphase]; exact awaits_creatingDatabase hdeployed.url) htakes)
  exact ⟨_, hcreated, by simp, (hserver.createdDatabase _ _ _ _ htakes).1⟩

theorem exists_collecting (hi : w.runs i = .creatingTable)
    (hthere : healthDatabase environ ∈ server.databases w.server)
    (hknown : UsageDatabaseKnown environ (server.databases w.server)) :
    ∃ w', (healthSystem server sha256 (fun _ => environ) w₀).Reachable w' ∧
      w'.runs i = .collecting ∧ server.databases w'.server = server.databases w.server ∧
      (server.rows w'.server (target environ)).isSome := by
  have hpin : ∀ db, tablePin environ = some db → db ∈ server.databases w.server := by
    intro db hdb
    unfold tablePin at hdb
    split at hdb
    · cases hdb
    · rename_i hnamed
      obtain rfl := Option.some.inj hdb
      rcases hknown with hempty | hmem | hsame
      · exact absurd hempty hnamed
      · exact hmem
      · exact hsame ▸ hthere
  obtain ⟨s, htakes⟩ := hserver.createTable w.server _ _ _ hdeployed.database hdeployed.table
    hthere hpin
  have hcreated := hw.step (HealthStep.answered w i _ .collecting s true
    (by rw [hi]; exact awaits_creatingTable hdeployed.url) htakes)
  obtain ⟨hdatabases, htable⟩ := hserver.createdTable _ _ _ _ _ htakes
  exact ⟨_, hcreated, by simp, hdatabases, htable⟩

theorem exists_rows (hi : w.runs i = .collecting)
    (hthere : healthDatabase environ ∈ server.databases w.server)
    (htable : (server.rows w.server (target environ)).isSome) :
    ∃ w', (healthSystem server sha256 (fun _ => environ) w₀).Reachable w' ∧
      ¬ server.NoRows w'.server (target environ) := by
  obtain ⟨new, hcollected⟩ := hdeployed.collects
  have hne := hcollected.ne_nil
  obtain ⟨run, hrun, hnew⟩ := hcollected
  have hreached := hw.step (HealthStep.collected w i run new hi hrun hnew)
  have hphase : (w.move i (afterCollect new)).runs i = .inserting new := by
    simp [afterCollect, hne]
  have hnamed := hserver.named _ hdeployed.database
  obtain ⟨s, htakes⟩ := hserver.insert w.server _ _ new hthere htable
  have hinserted := hreached.step (HealthStep.answered _ i _ .done s true
    (by rw [hphase]; exact awaits_inserting hdeployed.url hnamed new) htakes)
  exact ⟨_, hinserted, hserver.inserted _ _ _ _ _ _ htakes hne⟩

end Delivery

/-- With the health table bootstrapped by the emitter and nobody else at work on the server:
some run gets rows into the health table if and only if the usage database is not named, is
there, or is the health database. -/
theorem health_rows_delivered_iff [DecidableEq ι] [Nonempty ι] (hserver : server.Documented)
    (hdeployed : Deployed server sha256 environ) (w : HealthWorld σ ι)
    (hfresh : Fresh server environ w) :
    (∃ w' rows, (healthSystem server sha256 (fun _ => environ) w).Reachable w' ∧
      server.rows w'.server (target environ) = some rows ∧ rows ≠ []) ↔
      UsageDatabaseKnown environ (server.databases w.server) := by
  constructor
  · rintro ⟨w', rows, hw', htable, hne⟩
    by_contra hunknown
    have hblocked : Blocked server environ w := by
      refine ⟨?_, fun i => .inl (hfresh.runs i), hfresh.table⟩
      intro hthere
      exact hunknown (.inr (.inl hthere))
    have hother : usageDatabase environ ≠ "" ∧
        usageDatabase environ ≠ healthDatabase environ :=
      ⟨fun h => hunknown (.inl h), fun h => hunknown (.inr (.inr h))⟩
    exact hne ((blocked_invariant hserver hdeployed hother hblocked w' hw').table rows htable)
  · intro hknown
    obtain ⟨i⟩ := ‹Nonempty ι›
    have hw : (healthSystem server sha256 (fun _ => environ) w).Reachable w := .init rfl
    obtain ⟨w₁, hw₁, hi₁, hdatabases₁⟩ :=
      exists_creatingTable hserver hdeployed hw (hfresh.runs i)
    have hthere : healthDatabase environ ∈ server.databases w₁.server := by
      rw [hdatabases₁]
      exact Set.mem_insert _ _
    have hknown₁ : UsageDatabaseKnown environ (server.databases w₁.server) := by
      rw [hdatabases₁]
      exact hknown.imp id (Or.imp (Set.mem_insert_of_mem _) id)
    obtain ⟨w₂, hw₂, hi₂, hdatabases₂, htable⟩ :=
      exists_collecting hserver hdeployed hw₁ hi₁ hthere hknown₁
    obtain ⟨w₃, hw₃, hrows⟩ :=
      exists_rows hserver hdeployed hw₂ hi₂ (hdatabases₂ ▸ hthere) htable
    unfold ClickHouse.NoRows at hrows
    push Not at hrows
    obtain ⟨rows, hget, hne⟩ := hrows
    exact ⟨w₃, rows, hw₃, hget, hne⟩

/-! ## A server with its tables in lists -/

/-- A name that may be written without quotes. -/
def isIdentifier (name : String) : Bool :=
  match name.toList with
  | [] => false
  | c :: cs => (c.isAlpha || c == '_') && cs.all fun c => c.isAlphanum || c == '_'

/-- The databases, and the rows of the tables. -/
structure Tables where
  databases : List String
  rows : TableName → Option (List HealthRow)

namespace Tables

/-- The rows of one table. -/
def setRows (s : Tables) (name : TableName) (rows : List HealthRow) : Tables :=
  { s with rows := Function.update s.rows name (some rows) }

/-- The statement, once the database of the request exists. -/
def execute (s : Tables) : Sql → Option Tables
  | .createDatabase db =>
    if isIdentifier db then some { s with databases := db :: s.databases } else none
  | .createTable db table =>
    if isIdentifier db ∧ isIdentifier table ∧ db ∈ s.databases then
      some (s.setRows (db, table) ((s.rows (db, table)).getD []))
    else none
  | .insert db table rows =>
    (s.rows (db, table)).map fun old => s.setRows (db, table) (old ++ rows)

/-- A request. -/
def accept (s : Tables) (query : Query) : Option Tables :=
  match query.database with
  | none => s.execute query.sql
  | some db => if db ∈ s.databases then s.execute query.sql else none

theorem execute_of_accept {s s' : Tables} {query : Query} (h : s.accept query = some s') :
    s.execute query.sql = some s' := by
  unfold accept at h
  split at h
  · exact h
  · split at h
    · exact h
    · cases h

end Tables

/-- In the background some rows of a table are dropped. -/
def listServer : ClickHouse Tables where
  takes s query s' := s.accept query = some s'
  works s s' := ∃ name rows rows', s.rows name = some rows ∧ rows'.Sublist rows ∧
    s' = s.setRows name rows'
  databases s := {db | db ∈ s.databases}
  rows := Tables.rows
  plain name := isIdentifier name

theorem listServer_documented : listServer.Documented where
  named name h := by
    rintro rfl
    cases h
  pinned s query s' db h hdb := by
    change s.accept query = some s' at h
    unfold Tables.accept at h
    rw [hdb] at h
    dsimp only at h
    split at h
    · assumption
    · cases h
  createDatabase s db h := ⟨{ s with databases := db :: s.databases }, if_pos h⟩
  createdDatabase s db pin s' h := by
    have hexecute := Tables.execute_of_accept h
    simp only [Tables.execute] at hexecute
    split at hexecute
    · obtain rfl := Option.some.inj hexecute
      refine ⟨?_, rfl⟩
      ext other
      simp [listServer]
    · cases hexecute
  createTable s db table pin hdb htable hthere hpin := by
    refine ⟨s.setRows (db, table) ((s.rows (db, table)).getD []), ?_⟩
    have hexecute : s.execute (.createTable db table) =
        some (s.setRows (db, table) ((s.rows (db, table)).getD [])) :=
      if_pos ⟨hdb, htable, hthere⟩
    change s.accept ⟨.createTable db table, pin⟩ = _
    cases pin with
    | none => exact hexecute
    | some other => exact (if_pos (hpin other rfl)).trans hexecute
  createdTable s db table pin s' h := by
    have hexecute := Tables.execute_of_accept h
    simp only [Tables.execute] at hexecute
    split at hexecute
    · obtain rfl := Option.some.inj hexecute
      exact ⟨rfl, by simp [listServer, Tables.setRows]⟩
    · cases hexecute
  insert s db table rows hthere htable := by
    obtain ⟨old, hold⟩ := Option.isSome_iff_exists.mp htable
    refine ⟨s.setRows (db, table) (old ++ rows), ?_⟩
    change s.rows (db, table) = some old at hold
    have hexecute : s.execute (.insert db table rows) =
        some (s.setRows (db, table) (old ++ rows)) := by
      simp [Tables.execute, hold]
    exact (if_pos hthere).trans hexecute
  inserted s db table rows pin s' h hne hnone := by
    obtain ⟨old, _, rfl⟩ := Option.map_eq_some_iff.mp (Tables.execute_of_accept h)
    have hempty := hnone (old ++ rows) (by simp [listServer, Tables.setRows])
    exact hne (List.append_eq_nil_iff.mp hempty).2
  background s s' h := by
    obtain ⟨name, rows, rows', hrows, hsub, rfl⟩ := h
    refine ⟨rfl, fun other hnone kept hkept => ?_⟩
    by_cases hsame : other = name
    · subst hsame
      obtain rfl : rows' = kept := by simpa [listServer, Tables.setRows] using hkept
      rw [hnone rows hrows] at hsub
      exact List.sublist_nil.mp hsub
    · refine hnone kept ?_
      simpa [listServer, Tables.setRows, Function.update_of_ne hsame] using hkept

/-- The chart's own values. -/
def shippedEnviron (name : String) : Option String :=
  if name = "CH_URL" then some "http://clickhouse:8123"
  else if name = "CH_DATABASE" then some "showback"
  else if name = "CH_HEALTH_DATABASE" then some "default"
  else none

/-- An installation without services. -/
def emptyRun : HealthRun where
  environ := shippedEnviron
  now := 1767225723
  checkNow := 1767225723
  authUrl := "http://ks"
  catalog := []
  outcome := fun _ _ => .timeout

theorem shipped_deployed : Deployed listServer (fun _ => "") shippedEnviron where
  url := by decide
  bootstraps := by decide
  database := (by decide : isIdentifier (healthDatabase shippedEnviron) = true)
  table := (by decide : isIdentifier (healthTable shippedEnviron) = true)
  collects := by
    have hwindow : collectHealthWindow none 1767225723 = .ok 1767225720 := by rfl
    have hstarts : HealthRows.Starts emptyRun :=
      ⟨⟨1767225720, hwindow, by rfl⟩, by rfl, by simp [emptyRun]⟩
    have htraced : ∃ rows probes,
        emptyRun.collectHealthTraced (fun _ => "") = some (rows, probes) :=
      HealthRows.collectHealthTraced_isSome hstarts
    obtain ⟨rows, probes, htraced⟩ := htraced
    refine ⟨rows, emptyRun, rfl, ?_⟩
    unfold HealthRun.collectHealth
    rw [htraced]
    rfl

/-- With the shipped values, on a server that has the database `default` only, no run ever gets
a row into the health table. -/
theorem shipped_values_deliver_nothing : ¬ ∃ w' rows, (healthSystem listServer (fun _ => "")
    (fun _ => shippedEnviron)
    (⟨⟨["default"], fun _ => none⟩, fun _ => .start, fun _ => []⟩ :
      HealthWorld Tables Unit)).Reachable w' ∧
      listServer.rows w'.server (target shippedEnviron) = some rows ∧ rows ≠ [] := by
  rw [health_rows_delivered_iff listServer_documented shipped_deployed _
    ⟨fun _ => rfl, fun rows h => by cases h⟩]
  unfold UsageDatabaseKnown
  change ¬ ("showback" = "" ∨ "showback" ∈ ["default"] ∨ "showback" = "default")
  decide

/-! ## Whole collections -/

section Whole

variable {environs : ι → Environ} {phase next : Phase} {taken : List (Option Query)}

/-- The requests before a run collects. -/
def bootstrapRequests (environ : Environ) : List (Option Query) :=
  if bootstraps environ then [createHealthDatabase environ, createHealthTable environ] else []

/-- All requests of a run. -/
def allRequests (environ : Environ) (rows : List HealthRow) : List (Option Query) :=
  bootstrapRequests environ ++ [insertHealthRows environ rows]

/-- The requests the server took of a run that stands at `phase`. -/
def Progress (sha256 : List UInt8 → String) (environ : Environ) (taken : List (Option Query)) :
    Phase → Prop
  | .start => taken = []
  | .creatingDatabase => bootstraps environ ∧ taken = []
  | .creatingTable => bootstraps environ ∧ taken = [createHealthDatabase environ]
  | .collecting => taken = bootstrapRequests environ
  | .inserting rows => Collected sha256 environ rows ∧ taken = bootstrapRequests environ
  | .done => ∃ rows, Collected sha256 environ rows ∧ taken = allRequests environ rows
  | .failed => taken <+: bootstrapRequests environ ∨
      ∃ rows, Collected sha256 environ rows ∧ taken = allRequests environ rows

/-- At every phase a run is as far as one that fails may be. -/
theorem Progress.failed (h : Progress sha256 environ taken phase) :
    Progress sha256 environ taken .failed := by
  cases phase with
  | start => exact .inl (h ▸ List.nil_prefix)
  | creatingDatabase => exact .inl (h.2 ▸ List.nil_prefix)
  | creatingTable =>
    left
    rw [h.2, bootstrapRequests, if_pos h.1]
    exact ⟨[createHealthTable environ], rfl⟩
  | collecting => exact .inl (h ▸ List.prefix_rfl)
  | inserting rows => exact .inl (h.2 ▸ List.prefix_rfl)
  | done => exact .inr h
  | failed => exact h

theorem Progress.afterAuth (h : taken = []) :
    Progress sha256 environ taken (afterAuth environ) := by
  unfold Emitter.afterAuth
  split
  · rename_i hboot
    exact ⟨hboot, h⟩
  · rename_i hboot
    rw [h]
    exact (if_neg hboot).symm

/-- A request that was taken brings the run on. -/
theorem Progress.answered {query : Query} (h : Progress sha256 environ taken phase)
    (hawaits : awaits environ phase = some (query, next)) :
    Progress sha256 environ (taken ++ [some query]) next := by
  cases phase with
  | creatingDatabase =>
    obtain ⟨_, hquery, hnext⟩ := Option.map_eq_some_iff.mp hawaits
    obtain ⟨rfl, rfl⟩ := Prod.mk.inj hnext
    exact ⟨h.1, by rw [h.2, hquery]; rfl⟩
  | creatingTable =>
    obtain ⟨_, hquery, hnext⟩ := Option.map_eq_some_iff.mp hawaits
    obtain ⟨rfl, rfl⟩ := Prod.mk.inj hnext
    change _ = bootstrapRequests environ
    rw [h.2, bootstrapRequests, if_pos h.1, hquery]
    rfl
  | inserting rows =>
    obtain ⟨_, hquery, hnext⟩ := Option.map_eq_some_iff.mp hawaits
    obtain ⟨rfl, rfl⟩ := Prod.mk.inj hnext
    exact ⟨rows, h.1, by rw [h.2, allRequests, hquery]⟩
  | start => cases hawaits
  | collecting => cases hawaits
  | done => cases hawaits
  | failed => cases hawaits

theorem Progress.collected {rows : List HealthRow} (hrows : Collected sha256 environ rows)
    (h : taken = bootstrapRequests environ) :
    Progress sha256 environ taken (afterCollect rows) := by
  unfold afterCollect
  rw [if_neg hrows.ne_nil]
  exact ⟨hrows, h⟩

/-- Every run stands where the requests that were taken have brought it. -/
def InProgress (sha256 : List UInt8 → String) (environs : ι → Environ) (w : HealthWorld σ ι) :
    Prop :=
  ∀ i, Progress sha256 (environs i) ((w.taken i).map some) (w.runs i)

variable [DecidableEq ι]

theorem InProgress.move (h : InProgress sha256 environs w)
    (hphase : Progress sha256 (environs i) ((w.taken i).map some) phase) :
    InProgress sha256 environs (w.move i phase) := by
  intro j
  by_cases hji : j = i
  · subst hji
    simpa using hphase
  · simpa [HealthWorld.move, Function.update_of_ne hji] using h j

theorem InProgress.step (h : InProgress sha256 environs w)
    (hstep : HealthStep server sha256 environs w w') : InProgress sha256 environs w' := by
  cases hstep with
  | authenticated i hi =>
    have hstart := h i
    rw [hi] at hstart
    exact h.move (.afterAuth hstart)
  | answered i query next s ok hawaits _ =>
    have hnext : Progress sha256 (environs i) ((w.taken i).map some ++ [some query])
        (if ok then next else .failed) := by
      cases ok with
      | true => exact (h i).answered hawaits
      | false => exact ((h i).answered hawaits).failed
    intro j
    by_cases hji : j = i
    · subst hji
      simpa [HealthWorld.move, HealthWorld.took] using hnext
    · simpa [HealthWorld.move, HealthWorld.took, Function.update_of_ne hji] using h j
  | collected i run rows hi hrun hrows =>
    have hbootstrap := h i
    rw [hi] at hbootstrap
    exact h.move (.collected ⟨run, hrun, hrows⟩ hbootstrap)
  | failed i => exact h.move (h i).failed
  | started i =>
    intro j
    by_cases hji : j = i
    · subst hji
      simp [HealthWorld.restart, Progress]
    · simpa [HealthWorld.restart, Function.update_of_ne hji] using h j
  | worked s => exact h

end Whole

end OpenstackBlueprint.Theorems.HealthTable
