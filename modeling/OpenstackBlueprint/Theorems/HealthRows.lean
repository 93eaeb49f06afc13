import OpenstackBlueprint.Emitter.Health

/-!
# Health rows and the worst of them

The rows of a run are those of the services that have a URL on the interface, in
the order of the catalog, and the last row carries the status of a row of the
highest rank (`consolidated_row_is_worst`).

A row's id depends on its component only. Two services of one type, or a service
of the type `_service`, therefore share an id, and the table keeps one of the two
rows (`health_ids_distinct_iff`).
-/

namespace OpenstackBlueprint.Theorems.HealthRows

open Kit Emitter HealthRun

variable {sha256 : List UInt8 → String} {run : HealthRun} {interface : String} {svc : Value}

/-! ## Services -/

/-- The endpoints of a service, none when they cannot be read. -/
def endpoints (svc : Value) : List Value := (endpointsOf svc).getD []

/-- The endpoint is on the interface. -/
def onInterface (interface : String) (ep : Value) : Bool :=
  ((ep.get "interface").map fun v => v.eqStr interface).getD false

/-- The URL an endpoint carries. -/
def urlOf (ep : Value) : String := ((ep.index "url").bind Value.asStr).getD ""

/-- The URL of the first endpoint on the interface, when it is not empty. -/
def firstUrl (interface : String) (svc : Value) : Option String :=
  (((endpoints svc).find? (onInterface interface)).map urlOf).filter (· != "")

/-- An endpoint that carries a URL. -/
def Carries (ep : Value) : Prop :=
  (∃ fields, ep = .obj fields) ∧ ∃ url, ep.index "url" = some (.str url)

/-- A service whose endpoints carry a URL and that has a name for its row. -/
structure Readable (svc : Value) : Prop where
  endpoints : ∃ eps, endpointsOf svc = some eps ∧ ∀ ep ∈ eps, Carries ep
  component : (component svc).isSome

theorem interfaceUrl_eq {eps : List Value} (h : ∀ ep ∈ eps, Carries ep) :
    interfaceUrl interface eps =
      some ((eps.find? (onInterface interface)).map fun ep => .str (urlOf ep)) := by
  induction eps with
  | nil => rfl
  | cons ep rest ih =>
    obtain ⟨⟨⟨fields, rfl⟩, url, hurl⟩, hrest⟩ := List.forall_mem_cons.mp h
    unfold interfaceUrl
    have hget : Value.get (.obj fields) "interface" =
        some ((fields.lookup "interface").getD .null) := rfl
    rw [hget]
    simp only [Option.bind_eq_bind, Option.bind_some, List.find?_cons, onInterface, hget,
      Option.map_some, Option.getD_some]
    split
    · rename_i heq
      rw [heq, hurl]
      simp [urlOf, hurl, Value.asStr]
    · rename_i hne
      rw [Bool.not_eq_true] at hne
      rw [hne, ih hrest]

/-- A service is probed at the URL of its first endpoint on the interface. -/
theorem healthUrl_eq (h : Readable svc) :
    healthUrl interface svc = some ((firstUrl interface svc).map .str) := by
  obtain ⟨eps, heps, hcarries⟩ := h.endpoints
  unfold healthUrl firstUrl endpoints
  rw [heps]
  simp only [Option.bind_eq_bind, Option.bind_some, interfaceUrl_eq hcarries, Option.pure_def,
    Option.getD_some]
  cases eps.find? (onInterface interface) with
  | none => rfl
  | some ep =>
    simp only [Option.map_some, Option.filter_some]
    by_cases hurl : (urlOf ep != "") = true
    · have htruthy : (Value.str (urlOf ep)).truthy = true := hurl
      rw [if_pos htruthy, if_pos hurl]
      rfl
    · have htruthy : ¬(Value.str (urlOf ep)).truthy = true := hurl
      rw [if_neg htruthy, if_neg hurl]
      rfl

theorem targets_eq {catalog : List Value} (h : ∀ svc ∈ catalog, Readable svc) :
    targets interface catalog =
      catalog.filterMap fun svc => (firstUrl interface svc).map fun url => (svc, .str url) := by
  refine List.filterMap_congr fun svc hsvc => ?_
  rw [healthUrl_eq (h svc hsvc)]
  cases firstUrl interface svc with
  | none => rfl
  | some url => rfl

/-! ## A run returns -/

/-- What a run needs: an interval and clocks that can be formatted, and services
that can be read. Nothing is asked of the probes. -/
structure Starts (run : HealthRun) : Prop where
  window : ∃ wstart, collectHealthWindow (run.environ "INTERVAL") run.now = .ok wstart ∧
    (gmtime wstart).isSome
  checkedAt : (gmtime (trunc run.checkNow)).isSome
  catalog : ∀ svc ∈ run.catalog, Readable svc

section Returns

variable {wstart : Int} {checkedAt : String}

theorem row_isSome (hstart : (gmtime wstart).isSome) (name : String) (status : Status)
    (reason : String) : ∃ r, run.row sha256 wstart checkedAt name status reason = some r := by
  obtain ⟨tm, htm⟩ := Option.isSome_iff_exists.mp hstart
  unfold row fmtRfc3339
  rw [htm]
  exact ⟨_, rfl⟩

theorem step_isSome (hstart : (gmtime wstart).isSome) (h : Readable svc) (st : Loop) :
    ∃ st', run.step sha256 wstart checkedAt st svc = some st' := by
  unfold step
  rw [healthUrl_eq h]
  cases firstUrl (osInterface run.environ) svc with
  | none => exact ⟨st, rfl⟩
  | some url =>
    obtain ⟨name, hname⟩ := Option.isSome_iff_exists.mp h.component
    rw [hname]
    simp only [Option.map_some, Option.bind_eq_bind, Option.bind_some]
    obtain ⟨r, hr⟩ := row_isSome hstart name (probe (run.outcome st.probes.length (.str url))).1
      (probe (run.outcome st.probes.length (.str url))).2
    rw [hr]
    exact ⟨_, rfl⟩

theorem foldlM_isSome (hstart : (gmtime wstart).isSome) {catalog : List Value}
    (h : ∀ svc ∈ catalog, Readable svc) (st : Loop) :
    ∃ st', catalog.foldlM (run.step sha256 wstart checkedAt) st = some st' := by
  induction catalog generalizing st with
  | nil => exact ⟨st, rfl⟩
  | cons svc rest ih =>
    obtain ⟨hsvc, hrest⟩ := List.forall_mem_cons.mp h
    obtain ⟨next, hnext⟩ := step_isSome hstart hsvc st
    rw [List.foldlM_cons, hnext]
    exact ih hrest next

theorem finish_isSome (hstart : (gmtime wstart).isSome) (st : Loop) :
    ∃ rows, run.finish sha256 wstart checkedAt st = some rows := by
  have hrow : ∀ name status reason, ∃ r,
      run.row sha256 wstart checkedAt name status reason = some r := row_isSome hstart
  unfold finish
  split
  · obtain ⟨last, hlast⟩ := hrow "_service" st.worst "worst of components"
    rw [hlast]
    exact ⟨_, rfl⟩
  · generalize probe (run.outcome st.probes.length (.str run.authUrl)) = result
    obtain ⟨status, reason⟩ := result
    obtain ⟨identity, hidentity⟩ := hrow "identity" status reason
    obtain ⟨last, hlast⟩ := hrow "_service" status "worst of components"
    dsimp only
    rw [hidentity, hlast]
    exact ⟨_, rfl⟩

end Returns

theorem collectHealthTraced_isSome (h : Starts run) :
    ∃ rows probes, run.collectHealthTraced sha256 = some (rows, probes) := by
  obtain ⟨wstart, hwindow, hstart⟩ := h.window
  obtain ⟨tm, htm⟩ := Option.isSome_iff_exists.mp h.checkedAt
  have hchecked : fmt (trunc run.checkNow) = some (Tm.dateTime [' '] [] tm) := by
    unfold fmt
    rw [htm]
    rfl
  obtain ⟨st, hst⟩ := foldlM_isSome hstart h.catalog {}
  obtain ⟨rows, hrows⟩ := finish_isSome hstart st
  unfold collectHealthTraced
  rw [hwindow, hchecked]
  simp only [Except.toOption, Option.bind_eq_bind, Option.bind_some]
  rw [hst, Option.bind_some, hrows]
  exact ⟨rows, st.probes, rfl⟩

/-! ## The worst component -/

/-- A probe that ends no better makes its row no better. -/
theorem componentRows_mono {outcome' : Nat → Value → Outcome}
    (hrank : ∀ i url, (probe (run.outcome i url)).1.rank ≤ (probe (outcome' i url)).1.rank)
    {status : Status} (h : status ∈ run.componentRows.map fun row => row.2.1) :
    ∃ status' ∈ ({ run with outcome := outcome' } : HealthRun).componentRows.map
      (fun row => row.2.1), status.rank ≤ status'.rank := by
  obtain ⟨row, hrow, rfl⟩ := List.mem_map.mp h
  unfold componentRows at hrow ⊢
  dsimp only
  split at hrow
  · rw [List.mem_singleton.mp hrow]
    exact ⟨_, List.mem_singleton_self _, hrank 0 _⟩
  · obtain ⟨i, hi, rfl⟩ := List.mem_mapIdx.mp hrow
    refine ⟨(probe (outcome' i ((targets (osInterface run.environ) run.catalog)[i]).2)).1, ?_,
      hrank i _⟩
    exact List.mem_map.mpr ⟨_, List.mem_mapIdx.mpr ⟨i, hi, rfl⟩, rfl⟩

theorem statuses_of_report {wstart : Int} {components : List HealthRow} {last : HealthRow}
    (h : run.Report sha256 wstart components last) :
    components.map HealthRow.status = run.componentRows.map fun row => row.2.1 := by
  rw [← h.summary, List.map_map]
  rfl

/-- A run over a catalog whose endpoints carry a URL returns one row for each
service whose first endpoint on the interface has one, in the order of the
catalog and with the status of its probe, and last the row of the worst of them.
Worse outcomes never make that row better. -/
theorem consolidated_row_is_worst (sha256 : List UInt8 → String) (run : HealthRun)
    (hstarts : Starts run) :
    ∃ components last, run.collectHealth sha256 = some (components ++ [last]) ∧
      components.map (fun r => (some r.component, r.status, r.reason)) = run.componentRows ∧
      targets (osInterface run.environ) run.catalog = (run.catalog.filterMap fun svc =>
        (firstUrl (osInterface run.environ) svc).map fun url => (svc, .str url)) ∧
      last.component = "_service" ∧ IsWorst last.status (components.map HealthRow.status) ∧
      ∀ outcome' : Nat → Value → Outcome,
        (∀ i url, (probe (run.outcome i url)).1.rank ≤ (probe (outcome' i url)).1.rank) →
        ∃ components' last', ({ run with outcome := outcome' } : HealthRun).collectHealth sha256 =
          some (components' ++ [last']) ∧ last'.component = "_service" ∧
          last.status.rank ≤ last'.status.rank := by
  have hrows : ∀ run : HealthRun, Starts run → ∃ wstart components last,
      run.collectHealth sha256 = some (components ++ [last]) ∧
      run.Report sha256 wstart components last := by
    intro run hstarts
    obtain ⟨rows, probes, hrun⟩ := collectHealthTraced_isSome hstarts
    obtain ⟨wstart, components, last, -, -, rfl, hreport⟩ := collectHealthTraced_spec hrun
    refine ⟨wstart, components, last, ?_, hreport⟩
    unfold collectHealth
    rw [hrun]
    rfl
  obtain ⟨wstart, components, last, hrun, hreport⟩ := hrows run hstarts
  refine ⟨components, last, hrun, hreport.summary, targets_eq hstarts.catalog, hreport.service.1,
    hreport.worst, ?_⟩
  intro outcome' hrank
  have hstarts' : Starts { run with outcome := outcome' } :=
    ⟨hstarts.window, hstarts.checkedAt, hstarts.catalog⟩
  obtain ⟨wstart', components', last', hrun', hreport'⟩ := hrows _ hstarts'
  refine ⟨components', last', hrun', hreport'.service.1, ?_⟩
  -- the worst row before is no worse than its own row after
  have hworst := hreport.worst.1
  rw [statuses_of_report hreport] at hworst
  obtain ⟨status', hstatus', hle⟩ := componentRows_mono hrank hworst
  rw [← statuses_of_report hreport'] at hstatus'
  exact hle.trans (hreport'.worst.2 status' hstatus')

/-- A catalog of one service per URL, all of the type `compute`. -/
def computeRun (urls : List String) : HealthRun where
  environ := fun _ => none
  now := 1767225723
  checkNow := 1767225723
  authUrl := "http://ks"
  catalog := urls.map fun url => .obj [("type", .str "compute"), ("name", .str url),
    ("endpoints", .arr [.obj [("interface", .str "internal"), ("url", .str url)]])]
  outcome := fun i _ => if i = 0 then .response 404 else .timeout

theorem computeRun_starts (urls : List String) : Starts (computeRun urls) := by
  have hwindow : collectHealthWindow none 1767225723 = .ok 1767225720 := by rfl
  refine ⟨⟨1767225720, hwindow, by rfl⟩, by rfl, ?_⟩
  intro svc hsvc
  obtain ⟨url, -, rfl⟩ := List.mem_map.mp hsvc
  refine ⟨⟨_, rfl, ?_⟩, rfl⟩
  intro ep hep
  rw [List.mem_singleton.mp hep]
  exact ⟨⟨_, rfl⟩, url, rfl⟩

/-- A service that answers 404 and one that does not answer: the second is worse. -/
theorem two_services_worst :
    ∃ components last, (computeRun ["http://a", "http://b"]).collectHealth (fun _ => "") =
      some (components ++ [last]) ∧ last.component = "_service" ∧
      components.map HealthRow.status = [.warning, .unknown] ∧ last.status = .unknown := by
  obtain ⟨components, last, hrun, hrows, -, hlast, ⟨hmem, hle⟩, -⟩ :=
    consolidated_row_is_worst (fun _ => "") (computeRun ["http://a", "http://b"])
      (computeRun_starts _)
  have hstatus := congrArg (List.map fun row => row.2.1) hrows
  rw [List.map_map] at hstatus
  replace hstatus : components.map HealthRow.status = [.warning, .unknown] := hstatus
  refine ⟨components, last, hrun, hlast, hstatus, ?_⟩
  rw [hstatus] at hmem hle
  have hrank := hle .unknown (by decide)
  rcases List.mem_cons.mp hmem with heq | hmem
  · rw [heq] at hrank
    exact absurd hrank (by decide)
  · exact List.mem_singleton.mp hmem

/-! ## Ids -/

/-- The parts the ids of the rows of a run are made of. -/
def usedParts (run : HealthRun) (rows : List HealthRow) : Set (List String) :=
  {parts | ∃ wstart text, collectHealthWindow (run.environ "INTERVAL") run.now = .ok wstart ∧
    fmtRfc3339 wstart = some text ∧ ∃ r ∈ rows, parts =
      [org run.environ, "", service run.environ, r.component, text]}

/-- The parts that come from outside hold no NUL. -/
structure NulFreeParts (run : HealthRun) (rows : List HealthRow) : Prop where
  org : NulFree (org run.environ)
  service : NulFree (service run.environ)
  row : ∀ r ∈ rows, NulFree r.component

/-- No two services with a URL have the same name for their row, and none has the
name of the consolidated row. -/
structure DistinctComponents (interface : String) (catalog : List Value) : Prop where
  nodup : ((targets interface catalog).map fun target => component target.1).Nodup
  service : some "_service" ∉ (targets interface catalog).map fun target => component target.1

/-- Ids without collisions are as different as the components. -/
theorem nodup_recordIds_iff {rows : List HealthRow} {wstart : Int}
    (hwindow : collectHealthWindow (run.environ "INTERVAL") run.now = .ok wstart)
    (hof : ∀ r ∈ rows, run.RowOf sha256 wstart r) (hnul : NulFreeParts run rows)
    (hinj : NoCollision sha256 (usedParts run rows)) :
    (rows.map HealthRow.recordId).Nodup ↔ (rows.map HealthRow.component).Nodup := by
  unfold List.Nodup
  rw [List.pairwise_map, List.pairwise_map]
  refine List.Pairwise.iff_of_mem ?_
  intro r r' hr hr'
  obtain ⟨text, htext, hid⟩ := hof r hr
  obtain ⟨text', htext', hid'⟩ := hof r' hr'
  obtain rfl := Option.some.inj (htext.symm.trans htext')
  have hfree : ∀ r ∈ rows, ∀ p ∈ [org run.environ, "", service run.environ, r.component, text],
      NulFree p := by
    intro r hr p hp
    simp only [List.mem_cons, List.not_mem_nil, or_false] at hp
    rcases hp with rfl | rfl | rfl | rfl | rfl
    · exact hnul.org
    · decide
    · exact hnul.service
    · exact hnul.row r hr
    · exact nul_not_mem_fmtRfc3339 htext
  refine not_congr ?_
  rw [hid, hid', deterministicId_inj hinj ⟨wstart, text, hwindow, htext, r, hr, rfl⟩
    ⟨wstart, text, hwindow, htext, r', hr', rfl⟩ (hfree r hr) (hfree r' hr')]
  simp only [List.cons.injEq, true_and, and_true]

theorem nodup_components_iff {wstart : Int} {components : List HealthRow} {last : HealthRow}
    (h : run.Report sha256 wstart components last) :
    ((components ++ [last]).map HealthRow.component).Nodup ↔
      DistinctComponents (osInterface run.environ) run.catalog := by
  have hnames : (components ++ [last]).map (fun r => some r.component) =
      run.componentRows.map Prod.fst ++ [some "_service"] := by
    rw [List.map_append, List.map_singleton, h.service.1, ← h.summary, List.map_map]
    rfl
  have hsome : (components ++ [last]).map (fun r => some r.component) =
      ((components ++ [last]).map HealthRow.component).map some := by
    rw [List.map_map]
    rfl
  rw [← List.nodup_map_iff (Option.some_injective _), ← hsome, hnames]
  unfold componentRows
  split
  · rename_i hnone
    refine ⟨fun _ => ⟨?_, ?_⟩, fun _ => by simp⟩
    · rw [hnone]
      exact List.nodup_nil
    · rw [hnone]
      exact List.not_mem_nil
  · have hexpected : (run.expected (targets (osInterface run.environ) run.catalog)).map Prod.fst =
        (targets (osInterface run.environ) run.catalog).map fun target => component target.1 := by
      unfold expected
      refine List.ext_getElem (by simp) ?_
      intro i _ _
      simp
    rw [hexpected, ← List.concat_eq_append, List.nodup_concat]
    exact ⟨fun h => ⟨h.2, h.1⟩, fun h => ⟨h.service, h.nodup⟩⟩

/-- The ids of a run are different exactly when the services with a URL have
different names for their rows, none of them `_service`. -/
theorem health_ids_distinct_iff (sha256 : List UInt8 → String) (run : HealthRun)
    (rows : List HealthRow) (hrun : run.collectHealth sha256 = some rows)
    (hnul : NulFreeParts run rows) (hinj : NoCollision sha256 (usedParts run rows)) :
    (rows.map HealthRow.recordId).Nodup ↔
      DistinctComponents (osInterface run.environ) run.catalog := by
  obtain ⟨⟨rows', probes⟩, htraced, rfl⟩ := Option.map_eq_some_iff.mp hrun
  obtain ⟨wstart, components, last, hwindow, -, rfl, hreport⟩ := collectHealthTraced_spec htraced
  rw [nodup_recordIds_iff hwindow hreport.rowOf hnul hinj, nodup_components_iff hreport]

/-- The digests of the ids of `computeRun`. -/
def computeDigest (bytes : List UInt8) : String :=
  if bytes = preimage ["default", "", "openstack", "compute", "2026-01-01T00:02:00Z"] then
    "8104d266bcc7ef09dac99ee4951eaf2f6e54a07d75fe0b1a2553633f2d800a0d"
  else "55866a821bce809a65e5a2df454860e690a9fe14d12d7eb6bf814d4b7c712fde"

/-- The parts of the ids of `computeRun`. -/
def computeParts : List (List String) :=
  ["compute", "_service"].map fun name => ["default", "", "openstack", name, "2026-01-01T00:02:00Z"]

theorem computeDigest_injective : ∀ parts ∈ computeParts, ∀ parts' ∈ computeParts,
    deterministicId computeDigest parts = deterministicId computeDigest parts' →
      preimage parts = preimage parts' := by
  decide

/-- Rows of `computeRun` meet what is assumed of ids. -/
theorem computeRun_assumptions {urls : List String} {rows : List HealthRow}
    (hnames : ∀ r ∈ rows, r.component ∈ ["compute", "_service"]) :
    NulFreeParts (computeRun urls) rows ∧
      NoCollision computeDigest (usedParts (computeRun urls) rows) := by
  have horg : org (computeRun urls).environ = "default" := rfl
  have hservice : service (computeRun urls).environ = "openstack" := rfl
  have hfree : ∀ name ∈ ["compute", "_service"], NulFree name := by decide
  refine ⟨⟨by rw [horg]; decide, by rw [hservice]; decide, fun r hr => hfree _ (hnames r hr)⟩, ?_⟩
  have hused : ∀ parts ∈ usedParts (computeRun urls) rows, parts ∈ computeParts := by
    rintro parts ⟨wstart, text, hok, htext, r, hr, rfl⟩
    have hwindow : collectHealthWindow none 1767225723 = .ok 1767225720 := by rfl
    obtain rfl := Except.ok.inj (hwindow.symm.trans hok)
    obtain rfl : "2026-01-01T00:02:00Z" = text := Option.some.inj htext
    exact List.mem_map.mpr ⟨_, hnames r hr, rfl⟩
  rintro _ ⟨parts, hparts, rfl⟩ _ ⟨parts', hparts', rfl⟩ heq
  exact computeDigest_injective parts (hused parts hparts) parts' (hused parts' hparts') heq

/-- One service and the consolidated row have different ids. -/
theorem one_service_distinct :
    ∃ rows, (computeRun ["http://a"]).collectHealth computeDigest = some rows ∧ rows.length = 2 ∧
      (rows.map HealthRow.recordId).Nodup := by
  have hnames : ((computeRun ["http://a"]).collectHealth computeDigest).map
      (List.map HealthRow.component) = some ["compute", "_service"] := by rfl
  obtain ⟨rows, hrun, hrows⟩ := Option.map_eq_some_iff.mp hnames
  have hmem : ∀ r ∈ rows, r.component ∈ ["compute", "_service"] := by
    intro r hr
    rw [← hrows]
    exact List.mem_map_of_mem hr
  obtain ⟨hnul, hinj⟩ := computeRun_assumptions hmem
  have hlength := congrArg List.length hrows
  rw [List.length_map] at hlength
  refine ⟨rows, hrun, hlength, ?_⟩
  exact (health_ids_distinct_iff computeDigest _ rows hrun hnul hinj).mpr ⟨by decide, by decide⟩

/-- Two services of one type share an id, and the table keeps one of their rows. -/
theorem same_type_same_id :
    ∃ rows, (computeRun ["http://a", "http://b"]).collectHealth computeDigest = some rows ∧
      NulFreeParts (computeRun ["http://a", "http://b"]) rows ∧
      NoCollision computeDigest (usedParts (computeRun ["http://a", "http://b"]) rows) ∧
      rows.map HealthRow.component = ["compute", "compute", "_service"] ∧
      ¬ (rows.map HealthRow.recordId).Nodup := by
  have hnames : ((computeRun ["http://a", "http://b"]).collectHealth computeDigest).map
      (List.map fun r => (r.component, r.recordId)) =
      some (["compute", "compute", "_service"].map fun name => (name, deterministicId computeDigest
        ["default", "", "openstack", name, "2026-01-01T00:02:00Z"])) := by rfl
  obtain ⟨rows, hrun, hrows⟩ := Option.map_eq_some_iff.mp hnames
  have hcomponents : rows.map HealthRow.component = ["compute", "compute", "_service"] := by
    have := congrArg (List.map Prod.fst) hrows
    rwa [List.map_map] at this
  have hids : rows.map HealthRow.recordId = ["compute", "compute", "_service"].map fun name =>
      deterministicId computeDigest
        ["default", "", "openstack", name, "2026-01-01T00:02:00Z"] := by
    have := congrArg (List.map Prod.snd) hrows
    rwa [List.map_map] at this
  have hmem : ∀ r ∈ rows, r.component ∈ ["compute", "_service"] := by
    intro r hr
    have : r.component ∈ rows.map HealthRow.component := List.mem_map_of_mem hr
    rw [hcomponents] at this
    simpa using this
  obtain ⟨hnul, hinj⟩ := computeRun_assumptions hmem
  refine ⟨rows, hrun, hnul, hinj, hcomponents, ?_⟩
  rw [hids]
  simp

end OpenstackBlueprint.Theorems.HealthRows
