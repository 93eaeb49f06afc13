import OpenstackBlueprint.Emitter.Catalog
import OpenstackBlueprint.Emitter.Record

/-!
# Health rows (`contract-emitter.py`, `collect_health`)

One row for each service of the catalog that has a URL on the interface, and one
for the worst of them. A probe's outcome may differ from call to call, so it
depends on the number of the probe as well as on the URL. `none` is an exception
that ends the run.

The loop keeps what `Scanned` says: the rows are those of the services seen so
far, and `worst` is the worst of them once there is one.
-/

namespace OpenstackBlueprint.Emitter

open Kit

/-- The statuses of the contract. -/
inductive Status
  | ok
  | warning
  | critical
  | unknown
  deriving DecidableEq, Repr

/-- `RANK`. -/
def Status.rank : Status → Nat
  | ok => 0
  | warning => 1
  | unknown => 2
  | critical => 3

/-- What a request of `probe` ends in. -/
inductive Outcome
  | response (status : Int)
  | httpError (code : Int)
  | timeout
  | raised (name : String)
  deriving DecidableEq, Repr

/-- What `probe` makes of an HTTP status. -/
def statusOfHttp (status : Int) : Status × String :=
  if status < 400 ∨ status = 401 ∨ status = 403 then (.ok, "http " ++ toString status)
  else if 500 ≤ status then (.critical, "http " ++ toString status)
  else (.warning, "http " ++ toString status)

/-- `probe(url)`, of the outcome of its request. -/
def probe : Outcome → Status × String
  | .response status => statusOfHttp status
  | .httpError code => statusOfHttp code
  | .timeout => (.unknown, "timeout")
  | .raised name => (.critical, name)

/-- A row of the health table. -/
structure HealthRow where
  recordId : String
  org : String
  tenant : String
  service : String
  component : String
  status : Status
  reason : String
  checkedAt : String
  deriving DecidableEq

/-- What a run reads. The clock is read twice: for the window and for
`checked_at`. -/
structure HealthRun where
  environ : Environ
  now : ℚ
  checkNow : ℚ
  authUrl : String
  catalog : List Value
  outcome : Nat → Value → Outcome

/-! ## Services -/

/-- The loop over the endpoints of a service: the URL of the first one on the
interface. -/
def interfaceUrl (interface : String) : List Value → Option (Option Value)
  | [] => some none
  | ep :: rest => do
    if (← ep.get "interface").eqStr interface then return some (← ep.index "url")
    else interfaceUrl interface rest

/-- The URL a service is probed at; none when the service is skipped. -/
def healthUrl (interface : String) (svc : Value) : Option (Option Value) := do
  return (← interfaceUrl interface (← endpointsOf svc)).filter Value.truthy

/-- `svc.get("type", svc.get("name", "unknown"))`, which has to be a string to be
hashed. -/
def component (svc : Value) : Option String := do
  (← svc.getD "type" (← svc.getD "name" (.str "unknown"))).asStr

/-- The services with a URL on the interface, each with that URL. -/
def targets (interface : String) (catalog : List Value) : List (Value × Value) :=
  catalog.filterMap fun svc => (healthUrl interface svc).join.map fun url => (svc, url)

namespace HealthRun

variable (sha256 : List UInt8 → String) (run : HealthRun)

/-- `row(component, status, reason)`. -/
def row (wstart : Int) (checkedAt component : String) (status : Status) (reason : String) :
    Option HealthRow := do
  let rid := deterministicId sha256
    [org run.environ, "", service run.environ, component, ← fmtRfc3339 wstart]
  return {
    recordId := rid
    org := org run.environ
    tenant := ""
    service := service run.environ
    component
    status
    reason
    checkedAt }

/-- The variables of the loop, and the services probed so far. -/
structure Loop where
  rows : List HealthRow := []
  probes : List (Value × Value) := []
  seen : Bool := false
  worst : Status := .unknown

/-- One service of the loop. -/
def step (wstart : Int) (checkedAt : String) (st : Loop) (svc : Value) : Option Loop := do
  match ← healthUrl (osInterface run.environ) svc with
  | none => return st
  | some url =>
    let (status, reason) := probe (run.outcome st.probes.length url)
    let r ← run.row sha256 wstart checkedAt (← component svc) status reason
    return {
      rows := st.rows ++ [r]
      probes := st.probes ++ [(svc, url)]
      seen := true
      worst := if !st.seen ∨ st.worst.rank < status.rank then status else st.worst }

/-- What follows the loop: the identity row of a catalog without URLs, and the
consolidated row. -/
def finish (wstart : Int) (checkedAt : String) (st : Loop) : Option (List HealthRow) := do
  if st.seen then
    return st.rows ++ [← run.row sha256 wstart checkedAt "_service" st.worst "worst of components"]
  else
    let (status, reason) := probe (run.outcome st.probes.length (.str run.authUrl))
    let identity ← run.row sha256 wstart checkedAt "identity" status reason
    return st.rows ++ [identity] ++
      [← run.row sha256 wstart checkedAt "_service" status "worst of components"]

/-- `collect_health(auth_url, token, catalog)`, with the services it probed. -/
def collectHealthTraced : Option (List HealthRow × List (Value × Value)) := do
  let wstart ← (collectHealthWindow (run.environ "INTERVAL") run.now).toOption
  let checkedAt ← fmt (trunc run.checkNow)
  let st ← run.catalog.foldlM (run.step sha256 wstart checkedAt) {}
  return (← run.finish sha256 wstart checkedAt st, st.probes)

/-- `collect_health(auth_url, token, catalog)`. -/
def collectHealth : Option (List HealthRow) := (run.collectHealthTraced sha256).map Prod.fst

/-! ## The loop -/

/-- The component, the status and the reason of the row of each probe. -/
def expected (probes : List (Value × Value)) : List (Option String × Status × String) :=
  probes.mapIdx fun i target => (component target.1, probe (run.outcome i target.2))

/-- A status of a list that none of it outranks. -/
def IsWorst (worst : Status) (statuses : List Status) : Prop :=
  worst ∈ statuses ∧ ∀ status ∈ statuses, status.rank ≤ worst.rank

/-- A row's id is made of its component and the window. -/
def RowOf (wstart : Int) (r : HealthRow) : Prop :=
  ∃ text, fmtRfc3339 wstart = some text ∧ r.recordId = deterministicId sha256
    [org run.environ, "", service run.environ, r.component, text]

/-- The loop after some of the services. -/
structure Scanned (wstart : Int) (done : List Value) (st : Loop) : Prop where
  probes : st.probes = targets (osInterface run.environ) done
  rows : st.rows.map (fun r => (some r.component, r.status, r.reason)) = run.expected st.probes
  rowOf : ∀ r ∈ st.rows, run.RowOf sha256 wstart r
  seen : st.seen = !st.rows.isEmpty
  worst : st.rows ≠ [] → IsWorst st.worst (st.rows.map HealthRow.status)

variable {sha256 run} {wstart : Int} {checkedAt : String} {st st' : Loop} {svc : Value}

theorem row_spec {name reason : String} {status : Status} {r : HealthRow}
    (h : run.row sha256 wstart checkedAt name status reason = some r) :
    run.RowOf sha256 wstart r ∧ r.component = name ∧ r.status = status ∧ r.reason = reason := by
  obtain ⟨text, htext, hr⟩ := Option.bind_eq_some_iff.mp h
  obtain rfl := Option.some.inj hr
  exact ⟨⟨text, htext, rfl⟩, rfl, rfl, rfl⟩

theorem IsWorst.snoc {worst status : Status} {statuses : List Status} (h : IsWorst worst statuses) :
    IsWorst (if worst.rank < status.rank then status else worst) (statuses ++ [status]) := by
  obtain ⟨hmem, hle⟩ := h
  split
  · rename_i hlt
    refine ⟨List.mem_append_right _ (List.mem_singleton_self status), ?_⟩
    intro s hs
    rcases List.mem_append.mp hs with hs | hs
    · exact (hle s hs).trans hlt.le
    · rw [List.mem_singleton.mp hs]
  · rename_i hge
    refine ⟨List.mem_append_left _ hmem, ?_⟩
    intro s hs
    rcases List.mem_append.mp hs with hs | hs
    · exact hle s hs
    · rw [List.mem_singleton.mp hs]
      exact not_lt.mp hge

theorem scanned_init : run.Scanned sha256 wstart [] {} :=
  ⟨rfl, rfl, fun _ hr => absurd hr List.not_mem_nil, rfl, fun h => absurd rfl h⟩

/-- One service more. -/
theorem scanned_step {done : List Value} (hst : run.Scanned sha256 wstart done st)
    (h : run.step sha256 wstart checkedAt st svc = some st') :
    run.Scanned sha256 wstart (done ++ [svc]) st' := by
  obtain ⟨url, hurl, h⟩ := Option.bind_eq_some_iff.mp h
  cases url with
  | none =>
    -- a service without a URL is skipped
    obtain rfl := Option.some.inj h
    refine { hst with probes := ?_ }
    rw [hst.probes, targets, targets, List.filterMap_append]
    simp [hurl]
  | some url =>
    dsimp only at h
    generalize hprobe : probe (run.outcome st.probes.length url) = result at h
    obtain ⟨status, reason⟩ := result
    obtain ⟨name, hname, h⟩ := Option.bind_eq_some_iff.mp h
    obtain ⟨r, hrow, h⟩ := Option.bind_eq_some_iff.mp h
    obtain rfl := Option.some.inj h
    obtain ⟨hof, hcomponent, hstatus, hreason⟩ := row_spec hrow
    refine ⟨?_, ?_, ?_, ?_, ?_⟩
    · dsimp only
      rw [hst.probes, targets, targets, List.filterMap_append]
      simp [hurl]
    · dsimp only
      rw [expected, List.mapIdx_concat, List.map_append, hst.rows, expected, List.map_singleton,
        hcomponent, hstatus, hreason, hname, hprobe]
    · intro r' hr'
      rcases List.mem_append.mp hr' with hr' | hr'
      · exact hst.rowOf r' hr'
      · rw [List.mem_singleton.mp hr']
        exact hof
    · simp
    · intro _
      dsimp only
      rw [List.map_append, List.map_singleton, hstatus]
      by_cases hrows : st.rows = []
      · -- the first row decides, whatever `worst` started with
        have hseen : st.seen = false := by rw [hst.seen, hrows]; rfl
        rw [hseen, hrows]
        exact ⟨List.mem_singleton_self _, fun s hs => by rw [List.mem_singleton.mp hs]; simp⟩
      · have hseen : st.seen = true := by rw [hst.seen]; simpa using hrows
        rw [hseen]
        simpa using (hst.worst hrows).snoc

theorem scanned_foldlM {rest done : List Value} (hst : run.Scanned sha256 wstart done st)
    (h : rest.foldlM (run.step sha256 wstart checkedAt) st = some st') :
    run.Scanned sha256 wstart (done ++ rest) st' := by
  induction rest generalizing done st with
  | nil =>
    obtain rfl := Option.some.inj h
    rwa [List.append_nil]
  | cons svc rest ih =>
    rw [List.foldlM_cons] at h
    obtain ⟨next, hnext, h⟩ := Option.bind_eq_some_iff.mp h
    rw [List.append_cons]
    exact ih (scanned_step hst hnext) h

/-! ## The rows of a run -/

/-- The component rows of a run, as its catalog and its probes have them. -/
def componentRows (run : HealthRun) : List (Option String × Status × String) :=
  match targets (osInterface run.environ) run.catalog with
  | [] => [(some "identity", probe (run.outcome 0 (.str run.authUrl)))]
  | probes => run.expected probes

/-- What a run returns: the rows of the components and the worst of them. -/
structure Report (run : HealthRun) (sha256 : List UInt8 → String) (wstart : Int)
    (components : List HealthRow) (last : HealthRow) : Prop where
  summary : components.map (fun r => (some r.component, r.status, r.reason)) = run.componentRows
  service : last.component = "_service" ∧ last.reason = "worst of components"
  worst : IsWorst last.status (components.map HealthRow.status)
  rowOf : ∀ r ∈ components ++ [last], run.RowOf sha256 wstart r

theorem finish_spec {rows : List HealthRow} (hst : run.Scanned sha256 wstart run.catalog st)
    (h : run.finish sha256 wstart checkedAt st = some rows) :
    ∃ components last, rows = components ++ [last] ∧
      run.Report sha256 wstart components last := by
  have hrows := hst.rows
  rw [hst.probes] at hrows
  unfold finish at h
  cases hseen : st.seen with
  | true =>
    rw [hseen, if_pos rfl] at h
    obtain ⟨last, hlast, h⟩ := Option.bind_eq_some_iff.mp h
    obtain rfl := Option.some.inj h
    obtain ⟨hof, hcomponent, hstatus, hreason⟩ := row_spec hlast
    have hne : st.rows ≠ [] := by
      rw [hst.seen] at hseen
      simpa using hseen
    refine ⟨st.rows, last, rfl, ?_, ⟨hcomponent, hreason⟩, hstatus ▸ hst.worst hne, ?_⟩
    · unfold componentRows
      split
      · rename_i hnone
        rw [hnone] at hrows
        exact absurd (List.map_eq_nil_iff.mp hrows) hne
      · exact hrows
    · intro r hr
      rcases List.mem_append.mp hr with hr | hr
      · exact hst.rowOf r hr
      · rw [List.mem_singleton.mp hr]
        exact hof
  | false =>
    -- no service has a URL
    have hnil : st.rows = [] := by
      rw [hst.seen] at hseen
      simpa using hseen
    have hnone : targets (osInterface run.environ) run.catalog = [] := by
      rw [hnil] at hrows
      exact List.mapIdx_eq_nil_iff.mp hrows.symm
    rw [hseen, if_neg (by decide), hst.probes, hnone, hnil] at h
    dsimp only at h
    generalize hprobe : probe (run.outcome ([] : List (Value × Value)).length (.str run.authUrl)) =
      result at h
    obtain ⟨status, reason⟩ := result
    obtain ⟨identity, hidentity, h⟩ := Option.bind_eq_some_iff.mp h
    obtain ⟨last, hlast, h⟩ := Option.bind_eq_some_iff.mp h
    obtain rfl := Option.some.inj h
    obtain ⟨hof, hcomponent, hstatus, hreason⟩ := row_spec hidentity
    obtain ⟨hof', hcomponent', hstatus', hreason'⟩ := row_spec hlast
    refine ⟨[identity], last, rfl, ?_, ⟨hcomponent', hreason'⟩, ?_, ?_⟩
    · unfold componentRows
      rw [hnone]
      simp only [List.length_nil] at hprobe
      simp [hcomponent, hstatus, hreason, hprobe]
    · rw [hstatus', List.map_singleton, hstatus]
      exact ⟨List.mem_singleton_self _, fun s hs => by rw [List.mem_singleton.mp hs]⟩
    · intro r hr
      rcases List.mem_append.mp hr with hr | hr
      · rw [List.mem_singleton.mp hr]
        exact hof
      · rw [List.mem_singleton.mp hr]
        exact hof'

/-- What a run that returns has done. -/
theorem collectHealthTraced_spec {rows : List HealthRow} {probes : List (Value × Value)}
    (h : run.collectHealthTraced sha256 = some (rows, probes)) :
    ∃ wstart components last,
      collectHealthWindow (run.environ "INTERVAL") run.now = .ok wstart ∧
      probes = targets (osInterface run.environ) run.catalog ∧ rows = components ++ [last] ∧
      run.Report sha256 wstart components last := by
  unfold collectHealthTraced at h
  simp only [Option.bind_eq_bind, Option.pure_def, Option.bind_eq_some_iff, Option.some.injEq,
    Prod.mk.injEq] at h
  obtain ⟨wstart, hwindow, checkedAt, -, st, hloop, rows', hfinish, rfl, rfl⟩ := h
  have hst := scanned_foldlM scanned_init hloop
  obtain ⟨components, last, hrows, hreport⟩ := finish_spec hst hfinish
  exact ⟨wstart, components, last, ok_of_toOption hwindow, hst.probes, hrows, hreport⟩

end HealthRun

end OpenstackBlueprint.Emitter
