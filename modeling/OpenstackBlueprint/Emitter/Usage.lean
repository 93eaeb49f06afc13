import OpenstackBlueprint.Emitter.Catalog
import OpenstackBlueprint.Emitter.Record

/-!
# Usage rows (`contract-emitter.py`, `collect_usage`)

One row for each project and metric, and the capacity of the whole installation
under an empty tenant. Every collector but the floating IP row of a project runs
in a `try`: an exception in it leaves the rows it had appended before. `none` is
an exception that ends the run.

A project is read as an id, a name and tags; one whose id or name is no string
ends the run here, which it need not do in the source.
-/

namespace OpenstackBlueprint.Emitter

open Kit

/-- A row of the `usage_records` table. -/
structure UsageRow where
  recordId : String
  org : String
  tenant : String
  service : String
  resourceId : String
  metric : String
  quantity : ℚ
  unit : String
  windowStart : String
  windowEnd : String
  tags : Dict String String
  source : String

/-- A project of the Keystone listing. -/
structure Project where
  id : String
  name : String
  tags : Dict String String

/-- What a run reads: its environment, the clock, what `keystone_auth` answered
and what each later request answers. -/
structure UsageRun where
  environ : Environ
  now : ℚ
  authUrl : String
  catalog : List Value
  getJson : String → Option Value

/-- `split_tags(raw)`. -/
def splitTags (raw : List String) : Dict String String :=
  Dict.ofList (raw.map (Kit.partition ':'))

/-- One project of the listing. -/
def readProject (p : Value) : Option Project := do
  let raw ← (← p.getD "tags" (.arr [])).elems
  return {
    id := ← (← p.index "id").asStr
    name := ← (← p.index "name").asStr
    tags := splitTags (← raw.mapM Value.asStr) }

/-- A URL that counts as true. -/
def answered (url : Option String) : Option String := url.filter (· != "")

/-- What a `try` leaves of a sequence of appends: those before the first that
raises. -/
def untilRaise {α : Type} : List (Option α) → List α
  | some a :: rest => a :: untilRaise rest
  | none :: _ => []
  | [] => []

/-! ## Floating IPs -/

/-- `fip.get("project_id") or fip.get("tenant_id") or ""`, as the key it is. -/
def fipOwner (fip : Value) : Option Value.Key := do
  ((← fip.get "project_id").orElse ((← fip.get "tenant_id").orElse (.str ""))).asKey

/-- The loop that counts floating IPs by owner. An exception in it keeps the
counts so far. -/
def countFips (fips : Dict Value.Key Nat) : List Value → Dict Value.Key Nat
  | [] => fips
  | fip :: rest =>
    match fipOwner fip with
    | none => fips
    | some pid => countFips (fips.set pid ((fips.get? pid).getD 0 + 1)) rest

namespace UsageRun

variable (sha256 : List UInt8 → String) (floatStr : String → Option ℚ) (run : UsageRun)

/-! ## Requests -/

/-- `endpoint_url(catalog, svc_type)` in the environment of a run. -/
def endpointUrl (svcType : String) : Option (Option String) :=
  Emitter.endpointUrl (osInterface run.environ) (osRegionName run.environ) svcType run.catalog

/-- `ks`. -/
def keystone : Option String := do
  return (answered (← run.endpointUrl "identity")).getD run.authUrl

/-- `nova`, when it counts as true. -/
def nova : Option (Option String) := do
  return answered (← run.endpointUrl "compute")

/-- `cinder`, when it counts as true. -/
def cinder : Option (Option String) := do
  match answered (← run.endpointUrl "volumev3") with
  | some url => return some url
  | none => return answered (← run.endpointUrl "block-storage")

/-- `neutron`, when it counts as true. -/
def neutron : Option (Option String) := do
  return answered (← run.endpointUrl "network")

/-- `projects`. -/
def projects : Option (List Project) := do
  let listing ← run.getJson ((← run.keystone) ++ "/projects")
  (← (← listing.getD "projects" (.arr [])).elems).mapM readProject

/-- The listing of floating IPs, when it is asked for and answered. -/
def floatingIps : Option (List Value) := do
  let url ← (← run.neutron)
  (← (← run.getJson (url ++ "/v2.0/floatingips")).getD "floatingips" (.arr [])).elems

/-- `fips`. -/
def fips : Dict Value.Key Nat := countFips Dict.empty (run.floatingIps.getD [])

/-! ## Rows -/

/-- `row(metric, qty, unit, resource_id, tenant, tags)`. -/
def row (window : Int × Int) (metric : String) (qty : Value) (unit resourceId tenant : String)
    (tags : Dict String String) : Option UsageRow := do
  let rid := deterministicId sha256 [org run.environ, tenant, service run.environ, resourceId,
    metric, ← fmtRfc3339 window.1]
  return {
    recordId := rid
    org := org run.environ
    tenant
    service := service run.environ
    resourceId
    metric
    quantity := ← qty.float floatStr
    unit
    windowStart := ← fmt window.1
    windowEnd := ← fmt window.2
    tags
    source := source run.environ }

/-- The row of a metric, its quantity and its unit; reading the quantity may raise. -/
def quantityRow (window : Int × Int) (resourceId tenant : String) (tags : Dict String String)
    (q : String × Option Value × String) : Option UsageRow := do
  run.row sha256 floatStr window q.1 (← q.2.1) q.2.2 resourceId tenant tags

/-- The rows a collector appends for a resource. -/
def collected (window : Int × Int) (resourceId tenant : String) (tags : Dict String String)
    (quantities : List (String × Option Value × String)) : List UsageRow :=
  untilRaise (quantities.map (run.quantityRow sha256 floatStr window resourceId tenant tags))

/-- The absolute limits of a project. -/
def limits (nova : String) (p : Project) : Option Value := do
  (← (← run.getJson (nova ++ "/limits?tenant_id=" ++ p.id)).index "limits").index "absolute"

/-- The Nova rows of a project. -/
def novaRows (window : Int × Int) (nova : String) (p : Project) : List UsageRow :=
  match run.limits nova p with
  | none => []
  | some ab =>
    run.collected sha256 floatStr window p.id p.name p.tags
      [("instances.count", ab.getD "totalInstancesUsed" (.num 0), "count"),
        ("vcpu.used", ab.getD "totalCoresUsed" (.num 0), "cores"),
        ("ram.used", ab.getD "totalRAMUsed" (.num 0), "MiB")]

/-- The gigabytes of the quota of a project. -/
def quotaGigabytes (cinder : String) (p : Project) : Option Value := do
  let answer ← run.getJson (cinder ++ "/os-quota-sets/" ++ p.id ++ "?usage=True")
  (← answer.index "quota_set").get "gigabytes"

/-- The Cinder rows of a project. -/
def cinderRows (window : Int × Int) (cinder : String) (p : Project) : List UsageRow :=
  match run.quotaGigabytes cinder p with
  | none => []
  | some gb =>
    if gb.isDict then
      run.collected sha256 floatStr window p.id p.name p.tags
        [("storage.used", gb.getD "in_use" (.num 0), "GiB")]
    else []

/-- The floating IP row of a project, outside any `try`. -/
def fipRows (window : Int × Int) (p : Project) : Option (List UsageRow) :=
  match run.fips.get? (.str p.id) with
  | none => some []
  | some count => do
    return [← run.row sha256 floatStr window "floating_ips.count" (.num count) "count" p.id p.name
      p.tags]

/-- The rows of a project. -/
def projectRows (window : Int × Int) (nova cinder : Option String) (p : Project) :
    Option (List UsageRow) := do
  return nova.elim [] (run.novaRows sha256 floatStr window · p) ++
    cinder.elim [] (run.cinderRows sha256 floatStr window · p) ++
    (← run.fipRows sha256 floatStr window p)

/-- The loop over the projects. -/
def projectLoop (window : Int × Int) (nova cinder : Option String) :
    List Project → Option (List UsageRow)
  | [] => some []
  | p :: rest => do
    return (← run.projectRows sha256 floatStr window nova cinder p) ++
      (← projectLoop window nova cinder rest)

/-- The statistics of the hypervisors. -/
def hypervisorStatistics (nova : String) : Option Value := do
  (← run.getJson (nova ++ "/os-hypervisors/statistics")).index "hypervisor_statistics"

/-- The rows of the hypervisors. -/
def hypervisorRows (window : Int × Int) (nova : String) : List UsageRow :=
  match run.hypervisorStatistics nova with
  | none => []
  | some st =>
    run.collected sha256 floatStr window "hypervisors" "" Dict.empty
      [("vcpu.capacity", st.getD "vcpus" (.num 0), "cores"),
        ("ram.capacity", st.getD "memory_mb" (.num 0), "MiB")]

/-- `float(p.get("capabilities", {}).get("total_capacity_gb") or 0)`. -/
def poolCapacity (pool : Value) : Option ℚ := do
  ((← (← pool.getD "capabilities" (.obj [])).get "total_capacity_gb").orElse (.num 0)).float floatStr

/-- The scheduler pools of Cinder and their capacity. -/
def schedulerPools (cinder : String) : Option (Value × ℚ) := do
  let answer ← run.getJson (cinder ++ "/scheduler-stats/get_pools?detail=True")
  let pools ← answer.getD "pools" (.arr [])
  return (pools, (← (← pools.elems).mapM (poolCapacity floatStr)).sum)

/-- The row of the pools. -/
def poolRows (window : Int × Int) (cinder : String) : List UsageRow :=
  match run.schedulerPools floatStr cinder with
  | none => []
  | some (pools, cap) =>
    if pools.truthy then
      run.collected sha256 floatStr window "cinder-pools" "" Dict.empty
        [("storage.capacity", some (.num cap), "GiB")]
    else []

/-- `collect_usage(auth_url, token, catalog)`. -/
def collectUsage : Option (List UsageRow) := do
  let window ← (collectUsageWindow (run.environ "INTERVAL") run.now).toOption
  let nova ← run.nova
  let cinder ← run.cinder
  -- the listing of floating IPs is asked for in `fips`, which needs the URL resolved
  let _ ← run.neutron
  let perProject ← run.projectLoop sha256 floatStr window nova cinder (← run.projects)
  return perProject ++ nova.elim [] (run.hypervisorRows sha256 floatStr window) ++
    cinder.elim [] (run.poolRows sha256 floatStr window)

/-! ## What a row says -/

/-- A row of a run in a window: its id is made of what it says, and its window is
the run's. -/
structure RowOf (window : Int × Int) (r : UsageRow) : Prop where
  recordId : ∃ text, fmtRfc3339 window.1 = some text ∧
    r.recordId = deterministicId sha256
      [org run.environ, r.tenant, service run.environ, r.resourceId, r.metric, text]
  windowStart : fmt window.1 = some r.windowStart

variable {sha256 floatStr run} {window : Int × Int} {resourceId tenant : String}
  {tags : Dict String String}

theorem row_spec {metric unit : String} {qty : Value} {r : UsageRow}
    (h : run.row sha256 floatStr window metric qty unit resourceId tenant tags = some r) :
    run.RowOf sha256 window r ∧ r.resourceId = resourceId ∧ r.tenant = tenant ∧
      r.metric = metric ∧ qty.float floatStr = some r.quantity := by
  unfold row at h
  simp only [Option.bind_eq_bind, Option.pure_def, Option.bind_eq_some_iff,
    Option.some.injEq] at h
  obtain ⟨text, htext, quantity, hquantity, start, hstart, stop, hstop, rfl⟩ := h
  exact ⟨⟨⟨text, htext, rfl⟩, hstart⟩, rfl, rfl, rfl, hquantity⟩

/-- A row is written when its quantity is a number and both ends of the window
can be formatted. -/
theorem row_isSome {metric unit : String} {qty : Value} (hqty : (qty.float floatStr).isSome)
    (hstart : (gmtime window.1).isSome) (hstop : (gmtime window.2).isSome) :
    (run.row sha256 floatStr window metric qty unit resourceId tenant tags).isSome := by
  obtain ⟨quantity, hquantity⟩ := Option.isSome_iff_exists.mp hqty
  obtain ⟨start, hstart⟩ := Option.isSome_iff_exists.mp hstart
  obtain ⟨stop, hstop⟩ := Option.isSome_iff_exists.mp hstop
  unfold row fmtRfc3339 fmt
  rw [hstart, hstop, hquantity]
  rfl

/-- Rows about one resource, with some of the given metrics in their order. -/
structure About (run : UsageRun) (sha256 : List UInt8 → String) (window : Int × Int)
    (resourceId tenant : String) (metrics : List String) (rows : List UsageRow) : Prop where
  rowOf : ∀ r ∈ rows, run.RowOf sha256 window r ∧ r.resourceId = resourceId ∧ r.tenant = tenant
  metric : (rows.map UsageRow.metric).Sublist metrics

theorem About.nil (metrics : List String) : run.About sha256 window resourceId tenant metrics [] :=
  ⟨fun _ hr => absurd hr List.not_mem_nil, List.nil_sublist metrics⟩

theorem About.append {metrics metrics' : List String} {rows rows' : List UsageRow}
    (h : run.About sha256 window resourceId tenant metrics rows)
    (h' : run.About sha256 window resourceId tenant metrics' rows') :
    run.About sha256 window resourceId tenant (metrics ++ metrics') (rows ++ rows') := by
  refine ⟨?_, ?_⟩
  · intro r hr
    rcases List.mem_append.mp hr with hr | hr
    · exact h.rowOf r hr
    · exact h'.rowOf r hr
  · rw [List.map_append]
    exact h.metric.append h'.metric

theorem About.mem_metrics {metrics : List String} {rows : List UsageRow}
    (h : run.About sha256 window resourceId tenant metrics rows) {r : UsageRow} (hr : r ∈ rows) :
    r.metric ∈ metrics :=
  h.metric.subset (List.mem_map_of_mem hr)

/-- An exception leaves a collector's rows up to it. -/
theorem about_collected {quantities : List (String × Option Value × String)}
    {metrics : List String} (hmetrics : quantities.map Prod.fst = metrics) :
    run.About sha256 window resourceId tenant metrics
      (run.collected sha256 floatStr window resourceId tenant tags quantities) := by
  subst hmetrics
  unfold collected
  induction quantities with
  | nil => exact About.nil []
  | cons q rest ih =>
    rw [List.map_cons, List.map_cons]
    cases hrow : run.quantityRow sha256 floatStr window resourceId tenant tags q with
    | none => exact About.nil _
    | some r =>
      obtain ⟨qty, -, hrow⟩ := Option.bind_eq_some_iff.mp hrow
      obtain ⟨hof, hresource, htenant, hmetric, -⟩ := row_spec hrow
      unfold untilRaise
      refine ⟨?_, ?_⟩
      · intro r' hr'
        rcases List.mem_cons.mp hr' with rfl | hr'
        · exact ⟨hof, hresource, htenant⟩
        · exact ih.rowOf r' hr'
      · rw [List.map_cons, hmetric]
        exact ih.metric.cons_cons q.1

/-! ## The collectors -/

/-- The metrics of a project. -/
def novaMetrics : List String := ["instances.count", "vcpu.used", "ram.used"]

def cinderMetrics : List String := ["storage.used"]

def fipMetrics : List String := ["floating_ips.count"]

/-- The metrics of the installation. -/
def hypervisorMetrics : List String := ["vcpu.capacity", "ram.capacity"]

def poolMetrics : List String := ["storage.capacity"]

variable {nova cinder : Option String} {p : Project}

theorem about_novaRows (url : String) :
    run.About sha256 window p.id p.name novaMetrics (run.novaRows sha256 floatStr window url p) := by
  unfold novaRows
  split
  · exact About.nil _
  · exact about_collected rfl

theorem about_cinderRows (url : String) :
    run.About sha256 window p.id p.name cinderMetrics
      (run.cinderRows sha256 floatStr window url p) := by
  unfold cinderRows
  split
  · exact About.nil _
  · split
    · exact about_collected rfl
    · exact About.nil _

theorem about_fipRows {rows : List UsageRow}
    (h : run.fipRows sha256 floatStr window p = some rows) :
    run.About sha256 window p.id p.name fipMetrics rows := by
  unfold fipRows at h
  split at h
  · obtain rfl := Option.some.inj h
    exact About.nil _
  · obtain ⟨r, hrow, hrows⟩ := Option.bind_eq_some_iff.mp h
    obtain rfl := Option.some.inj hrows
    obtain ⟨hof, hresource, htenant, hmetric, -⟩ := row_spec hrow
    refine ⟨?_, ?_⟩
    · intro r' hr'
      rw [List.mem_singleton.mp hr']
      exact ⟨hof, hresource, htenant⟩
    · rw [List.map_singleton, hmetric]
      exact List.Sublist.refl _

theorem about_hypervisorRows (url : String) :
    run.About sha256 window "hypervisors" "" hypervisorMetrics
      (run.hypervisorRows sha256 floatStr window url) := by
  unfold hypervisorRows
  split
  · exact About.nil _
  · exact about_collected rfl

theorem about_poolRows (url : String) :
    run.About sha256 window "cinder-pools" "" poolMetrics
      (run.poolRows sha256 floatStr window url) := by
  unfold poolRows
  split
  · exact About.nil _
  · split
    · exact about_collected rfl
    · exact About.nil _

/-- A collector that runs only when its service has a URL. -/
theorem About.elim {metrics : List String} {rows : String → List UsageRow} (url : Option String)
    (h : ∀ url, run.About sha256 window resourceId tenant metrics (rows url)) :
    run.About sha256 window resourceId tenant metrics (url.elim [] rows) := by
  cases url with
  | none => exact About.nil _
  | some url => exact h url

/-- The rows of a project, collector by collector. -/
theorem projectRows_eq {rows : List UsageRow}
    (h : run.projectRows sha256 floatStr window nova cinder p = some rows) :
    ∃ novaRows cinderRows fipRows, rows = novaRows ++ cinderRows ++ fipRows ∧
      run.About sha256 window p.id p.name novaMetrics novaRows ∧
      run.About sha256 window p.id p.name cinderMetrics cinderRows ∧
      run.fipRows sha256 floatStr window p = some fipRows := by
  obtain ⟨fipRows, hfip, hrows⟩ := Option.bind_eq_some_iff.mp h
  obtain rfl := Option.some.inj hrows
  exact ⟨_, _, fipRows, rfl, About.elim nova about_novaRows, About.elim cinder about_cinderRows,
    hfip⟩

/-- The metrics of a project, each once. -/
def projectMetrics : List String := novaMetrics ++ cinderMetrics ++ fipMetrics

theorem about_projectRows {rows : List UsageRow}
    (h : run.projectRows sha256 floatStr window nova cinder p = some rows) :
    run.About sha256 window p.id p.name projectMetrics rows := by
  obtain ⟨_, _, _, rfl, hnova, hcinder, hfip⟩ := projectRows_eq h
  exact (hnova.append hcinder).append (about_fipRows hfip)

/-- The rows of a run: the projects', the hypervisors' and the pools'. -/
theorem collectUsage_eq {rows : List UsageRow} (h : run.collectUsage sha256 floatStr = some rows) :
    ∃ window nova cinder projects perProject hypervisorRows poolRows,
      collectUsageWindow (run.environ "INTERVAL") run.now = .ok window ∧
      run.projects = some projects ∧
      run.projectLoop sha256 floatStr window nova cinder projects = some perProject ∧
      rows = perProject ++ hypervisorRows ++ poolRows ∧
      run.About sha256 window "hypervisors" "" hypervisorMetrics hypervisorRows ∧
      run.About sha256 window "cinder-pools" "" poolMetrics poolRows := by
  unfold collectUsage at h
  simp only [Option.bind_eq_bind, Option.pure_def, Option.bind_eq_some_iff,
    Option.some.injEq] at h
  obtain ⟨window, hwindow, nova, -, cinder, -, _, -, projects, hprojects, perProject, hloop, rfl⟩ := h
  exact ⟨window, nova, cinder, projects, perProject, _, _, ok_of_toOption hwindow, hprojects,
    hloop, rfl, About.elim nova about_hypervisorRows, About.elim cinder about_poolRows⟩

end UsageRun

end OpenstackBlueprint.Emitter
